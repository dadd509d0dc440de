import GoMqtt.Protocol.Topic

/-! # The filter grammar and the matching relation

MQTT states its rules for filters by the place of a character and its matching
rules by recursion over levels. Both are written down here as the
specification has them, and the checks and loops of `Topic` are compared with
them. -/
namespace GoMqtt.Protocol

/-- `'$'`. -/
def dollar : UInt8 := 0x24

theorem containsWildcard_iff {s : Bytes} : containsWildcard s = true ↔ plus ∈ s ∨ hash ∈ s := by
  simp [containsWildcard, List.any_eq_true, and_or_left, exists_or]

/-! ## Levels -/

/-- `ls` are the pieces of `s` between its slashes. -/
structure IsLevels (s : Bytes) (ls : List Bytes) : Prop where
  ne_nil : ls ≠ []
  no_slash : ∀ l ∈ ls, slash ∉ l
  joined : s = [slash].intercalate ls

theorem splitLevels_ne_nil (s : Bytes) : splitLevels s ≠ [] := by
  cases s with
  | nil => simp [splitLevels]
  | cons b s =>
    rw [splitLevels]
    split
    · simp
    · split <;> simp

theorem splitLevels_eq_splitOn (s : Bytes) : splitLevels s = s.splitOn slash := by
  induction s with
  | nil => rfl
  | cons b s ih =>
    have hne := splitLevels_ne_nil s
    rw [List.splitOn, List.splitOnP_cons_eq_if_modifyHead, ← List.splitOn, ← ih, splitLevels]
    split
    · rfl
    · cases h : splitLevels s with
      | nil => exact absurd h hne
      | cons level levels => rfl

theorem slash_notMem_splitLevels (s : Bytes) : ∀ l ∈ splitLevels s, slash ∉ l := by
  induction s with
  | nil => simp [splitLevels]
  | cons b s ih =>
    rw [splitLevels]
    split
    · simpa using ih
    · rename_i hb
      have hb : ¬ slash = b := fun h => hb (by simp [h])
      split
      · rename_i level levels h
        rw [h] at ih
        intro l hl
        rcases List.mem_cons.mp hl with rfl | hl
        · simpa [hb] using ih level List.mem_cons_self
        · exact ih l (List.mem_cons_of_mem _ hl)
      · simpa using hb

/-- `splitLevels` computes the levels, and no other list is the levels of `s`. -/
theorem isLevels_iff {s : Bytes} {ls : List Bytes} : IsLevels s ls ↔ ls = splitLevels s := by
  constructor
  · intro h
    rw [splitLevels_eq_splitOn, h.joined, List.splitOn_intercalate slash h.no_slash h.ne_nil]
  · rintro rfl
    refine ⟨splitLevels_ne_nil s, slash_notMem_splitLevels s, ?_⟩
    rw [splitLevels_eq_splitOn, List.intercalate_splitOn]

/-! ## Where a wildcard may stand -/

/-- What stands before a character that starts a level. -/
def OpensLevel (before : Bytes) : Prop := before = [] ∨ before.getLast? = some slash

/-- What stands after a character that ends a level. -/
def ClosesLevel (after : Bytes) : Prop := after = [] ∨ after.head? = some slash

/-- The placement rule: every `'#'` is the last character and starts a level,
every `'+'` starts a level and ends it. -/
structure WellPlaced (e : Bytes) : Prop where
  hash_last : ∀ before after, e = before ++ hash :: after → after = [] ∧ OpensLevel before
  plus_alone : ∀ before after, e = before ++ plus :: after → OpensLevel before ∧ ClosesLevel after

/-- Inside a level, only the empty beginning starts it. -/
theorem opensLevel_of_notMem {before : Bytes} (h : slash ∉ before) :
    OpensLevel before ↔ before = [] := by
  constructor
  · rintro (h' | h')
    · exact h'
    · exact absurd (List.mem_of_getLast? h') h
  · exact .inl

theorem closesLevel_of_notMem {after : Bytes} (h : slash ∉ after) :
    ClosesLevel after ↔ after = [] := by
  constructor
  · rintro (h' | h')
    · exact h'
    · exact absurd (List.mem_of_mem_head? h') h
  · exact .inl

/-- A level followed by another one ends where its bytes end. -/
theorem closesLevel_append {after rest : Bytes} (h : slash ∉ after) :
    ClosesLevel (after ++ slash :: rest) ↔ after = [] := by
  cases after with
  | nil => simp [ClosesLevel]
  | cons b after =>
    have hb : ¬ b = slash := fun hb => h (by simp [hb])
    simp [ClosesLevel, hb]

/-- What starts a level behind a slash does so in the whole filter. -/
theorem opensLevel_append {level before : Bytes} :
    OpensLevel (level ++ slash :: before) ↔ OpensLevel before := by
  cases before with
  | nil => simp [OpensLevel]
  | cons b before => simp [OpensLevel, List.getLast?_append, List.getLast?_cons_cons]

/-- A character other than the slash stands in the first level or behind it. -/
theorem append_slash_eq_iff {level rest before after : Bytes} {c : UInt8} (hc : c ≠ slash) :
    level ++ slash :: rest = before ++ c :: after ↔
      (∃ m, level = before ++ c :: m ∧ after = m ++ slash :: rest) ∨
      (∃ m, before = level ++ slash :: m ∧ rest = m ++ c :: after) := by
  rw [List.append_eq_append_iff]
  constructor
  · rintro (⟨m, rfl, h⟩ | ⟨m, rfl, h⟩)
    · cases m with
      | nil => exact absurd (List.cons.inj h).1.symm hc
      | cons b m =>
        obtain ⟨rfl, rfl⟩ := List.cons.inj h
        exact .inr ⟨m, rfl, rfl⟩
    · cases m with
      | nil => exact absurd (List.cons.inj h).1 hc
      | cons b m =>
        obtain ⟨rfl, rfl⟩ := List.cons.inj h
        exact .inl ⟨m, rfl, rfl⟩
  · rintro (⟨m, rfl, rfl⟩ | ⟨m, rfl, rfl⟩)
    · exact .inr ⟨c :: m, rfl, rfl⟩
    · exact .inl ⟨slash :: m, rfl, rfl⟩

/-- A wildcard of a level stands alone in it. -/
def Alone (c : UInt8) (level : Bytes) : Prop := c ∈ level → level = [c]

theorem alone_iff {c : UInt8} {level : Bytes} :
    Alone c level ↔ ∀ before after, level = before ++ c :: after → before = [] ∧ after = [] := by
  constructor
  · intro h before after hl
    have hone := h (by rw [hl]; simp)
    rw [hl] at hone
    have hlen := congrArg List.length hone
    simp only [List.length_append, List.length_cons, List.length_nil] at hlen
    exact ⟨List.eq_nil_of_length_eq_zero (by omega), List.eq_nil_of_length_eq_zero (by omega)⟩
  · intro h hmem
    obtain ⟨before, after, hl⟩ := List.append_of_mem hmem
    obtain ⟨rfl, rfl⟩ := h before after hl
    exact hl

/-- The placement rule in a filter of one level. -/
theorem wellPlaced_single {level : Bytes} (h : slash ∉ level) :
    WellPlaced level ↔ Alone hash level ∧ Alone plus level := by
  have hopen : ∀ {c before after}, level = before ++ c :: after →
      (OpensLevel before ↔ before = []) ∧ (ClosesLevel after ↔ after = []) := by
    intro c before after hl
    subst hl
    simp only [List.mem_append, List.mem_cons, not_or] at h
    exact ⟨opensLevel_of_notMem h.1, closesLevel_of_notMem h.2.2⟩
  rw [alone_iff, alone_iff]
  constructor
  · intro hw
    refine ⟨fun before after hl => ?_, fun before after hl => ?_⟩
    · obtain ⟨hlast, ho⟩ := hw.hash_last before after hl
      exact ⟨(hopen hl).1.mp ho, hlast⟩
    · obtain ⟨ho, hc⟩ := hw.plus_alone before after hl
      exact ⟨(hopen hl).1.mp ho, (hopen hl).2.mp hc⟩
  · intro ⟨hh, hp⟩
    refine ⟨fun before after hl => ?_, fun before after hl => ?_⟩
    · obtain ⟨hb, ha⟩ := hh before after hl
      exact ⟨ha, .inl hb⟩
    · obtain ⟨hb, ha⟩ := hp before after hl
      exact ⟨.inl hb, .inl ha⟩

/-- The placement rule in a filter of several levels, read off the first. -/
theorem wellPlaced_cons {level rest : Bytes} (h : slash ∉ level) :
    WellPlaced (level ++ slash :: rest) ↔
      hash ∉ level ∧ Alone plus level ∧ WellPlaced rest := by
  have hhash : hash ≠ slash := by decide
  have hplus : plus ≠ slash := by decide
  have hparts : ∀ {c before m}, level = before ++ c :: m → slash ∉ before ∧ slash ∉ m := by
    intro c before m hl
    subst hl
    simp only [List.mem_append, List.mem_cons, not_or] at h
    exact ⟨h.1, h.2.2⟩
  constructor
  · intro hw
    refine ⟨fun hmem => ?_, alone_iff.mpr fun before m hl => ?_, ⟨?_, ?_⟩⟩
    · obtain ⟨before, m, hl⟩ := List.append_of_mem hmem
      have hlast := (hw.hash_last before (m ++ slash :: rest)
        ((append_slash_eq_iff hhash).mpr (.inl ⟨m, hl, rfl⟩))).1
      simp at hlast
    · obtain ⟨ho, hc⟩ := hw.plus_alone before (m ++ slash :: rest)
        ((append_slash_eq_iff hplus).mpr (.inl ⟨m, hl, rfl⟩))
      exact ⟨(opensLevel_of_notMem (hparts hl).1).mp ho, (closesLevel_append (hparts hl).2).mp hc⟩
    · intro before after hr
      obtain ⟨hlast, ho⟩ := hw.hash_last (level ++ slash :: before) after
        ((append_slash_eq_iff hhash).mpr (.inr ⟨before, rfl, hr⟩))
      exact ⟨hlast, opensLevel_append.mp ho⟩
    · intro before after hr
      obtain ⟨ho, hc⟩ := hw.plus_alone (level ++ slash :: before) after
        ((append_slash_eq_iff hplus).mpr (.inr ⟨before, rfl, hr⟩))
      exact ⟨opensLevel_append.mp ho, hc⟩
  · intro ⟨hno, halone, hrest⟩
    refine ⟨fun before after he => ?_, fun before after he => ?_⟩
    · rcases (append_slash_eq_iff hhash).mp he with ⟨m, hl, -⟩ | ⟨m, rfl, hr⟩
      · exact absurd (by rw [hl]; simp) hno
      · obtain ⟨hlast, ho⟩ := hrest.hash_last m after hr
        exact ⟨hlast, opensLevel_append.mpr ho⟩
    · rcases (append_slash_eq_iff hplus).mp he with ⟨m, hl, rfl⟩ | ⟨m, rfl, hr⟩
      · obtain ⟨rfl, rfl⟩ := alone_iff.mp halone before m hl
        exact ⟨.inl rfl, .inr rfl⟩
      · obtain ⟨ho, hc⟩ := hrest.plus_alone m after hr
        exact ⟨opensLevel_append.mpr ho, hc⟩

/-- What the loop of `validateFilterLevels` asks of one level. -/
theorem validateLevels_cons {level : Bytes} {rest : List Bytes} :
    validateLevels (level :: rest) = .ok () ↔
      (hash ∈ level → level = [hash] ∧ rest = []) ∧ Alone plus level ∧
      validateLevels rest = .ok () := by
  rw [validateLevels, guard_eq_ok, guard_eq_ok, Alone]
  simp only [Bool.and_eq_true, List.contains_iff_mem, Bool.or_eq_true, bne_iff_ne, ne_eq,
    Bool.not_eq_true', List.isEmpty_eq_false_iff, not_and, not_or, not_not]

/-- The loop over the levels enforces the placement rule. -/
theorem validateLevels_ok {s : Bytes} {ls : List Bytes} (h : IsLevels s ls) :
    validateLevels ls = .ok () ↔ WellPlaced s := by
  induction ls generalizing s with
  | nil => exact absurd rfl h.ne_nil
  | cons level rest ih =>
    have hlevel := h.no_slash level List.mem_cons_self
    rw [validateLevels_cons]
    cases rest with
    | nil =>
      have hs : s = level := by simpa using h.joined
      rw [hs, wellPlaced_single hlevel]
      simp [validateLevels, Alone]
    | cons next rest =>
      have hrest : IsLevels ([slash].intercalate (next :: rest)) (next :: rest) :=
        ⟨List.cons_ne_nil _ _, fun l hl => h.no_slash l (List.mem_cons_of_mem _ hl), rfl⟩
      have hs : s = level ++ slash :: [slash].intercalate (next :: rest) := by
        rw [h.joined, List.intercalate_cons_cons, List.append_assoc]
        rfl
      rw [hs, wellPlaced_cons hlevel, ih hrest]
      simp

theorem validateFilterLevels_ok {s : Bytes} : validateFilterLevels s = .ok () ↔ WellPlaced s :=
  validateLevels_ok (isLevels_iff.mpr rfl)

/-! ## The shared form -/

theorem cutPrefix_eq_some {s p rest : Bytes} : cutPrefix s p = some rest ↔ s = p ++ rest := by
  induction p generalizing s with
  | nil => simp [cutPrefix]
  | cons c p ih =>
    cases s with
    | nil => simp [cutPrefix]
    | cons b s =>
      by_cases h : b = c
      · simp [cutPrefix, h, ih]
      · simp [cutPrefix, h]

theorem cutPrefix_eq_none {s p : Bytes} : cutPrefix s p = none ↔ ¬ p <+: s := by
  rw [Option.eq_none_iff_forall_ne_some]
  constructor
  · intro h ⟨rest, hs⟩
    exact h rest (cutPrefix_eq_some.mpr hs.symm)
  · intro h rest hs
    exact h ⟨rest, (cutPrefix_eq_some.mp hs).symm⟩

theorem cutSlash_eq_some {s before after : Bytes} :
    cutSlash s = some (before, after) ↔ s = before ++ slash :: after ∧ slash ∉ before := by
  induction s generalizing before with
  | nil => simp [cutSlash]
  | cons b s ih =>
    rw [cutSlash]
    by_cases hb : b = slash
    · cases before with
      | nil => simp [hb]
      | cons c before =>
        simp only [hb, beq_self_eq_true, if_true, List.cons_append, List.cons.injEq]
        constructor
        · intro h
          cases h
        · intro ⟨⟨hc, _⟩, hno⟩
          exact absurd (hc ▸ List.mem_cons_self) hno
    · rw [if_neg (by simpa using hb), Option.map_eq_some_iff]
      cases before with
      | nil => simp [hb]
      | cons c before =>
        constructor
        · rintro ⟨⟨before', after'⟩, hcut, heq⟩
          cases heq
          obtain ⟨hs, hno⟩ := ih.mp hcut
          exact ⟨by rw [hs]; rfl, by simp [Ne.symm hb, hno]⟩
        · rintro ⟨hs, hno⟩
          obtain ⟨rfl, rfl⟩ := List.cons.inj hs
          exact ⟨(before, after), ih.mpr ⟨rfl, fun h => hno (List.mem_cons_of_mem _ h)⟩, rfl⟩

/-- `s` is `$share/{name}/{wrapped}`. -/
structure IsShared (s name wrapped : Bytes) : Prop where
  eq : s = sharedPrefix ++ name ++ slash :: wrapped
  name_ne : name ≠ []
  no_slash : slash ∉ name
  no_plus : plus ∉ name
  no_hash : hash ∉ name
  wrapped_ne : wrapped ≠ []

/-- What `strings.Cut` finds behind the prefix. -/
theorem cutSlash_cutPrefix {s name wrapped : Bytes} :
    (∃ rest, cutPrefix s sharedPrefix = some rest ∧ cutSlash rest = some (name, wrapped)) ↔
      s = sharedPrefix ++ name ++ slash :: wrapped ∧ slash ∉ name := by
  constructor
  · rintro ⟨rest, hp, hc⟩
    obtain ⟨rfl, hno⟩ := cutSlash_eq_some.mp hc
    exact ⟨by rw [cutPrefix_eq_some.mp hp, List.append_assoc], hno⟩
  · intro ⟨hs, hno⟩
    refine ⟨name ++ slash :: wrapped, ?_, cutSlash_eq_some.mpr ⟨rfl, hno⟩⟩
    rw [cutPrefix_eq_some, hs, List.append_assoc]

theorem splitShared_eq_some {s name wrapped : Bytes} :
    splitShared s = some (name, wrapped) ↔ IsShared s name wrapped := by
  have hcut := @cutSlash_cutPrefix s name wrapped
  constructor
  · intro h
    unfold splitShared at h
    split at h
    · cases h
    rename_i rest hp
    split at h
    · cases h
    rename_i name' wrapped' hc
    split at h
    · cases h
    rename_i hgood
    cases h
    simp only [Bool.or_eq_true, List.isEmpty_iff, containsWildcard_iff, not_or] at hgood
    obtain ⟨⟨hname, hwrapped⟩, hplus, hhash⟩ := hgood
    obtain ⟨hs, hno⟩ := hcut.mp ⟨rest, hp, hc⟩
    exact ⟨hs, hname, hno, hplus, hhash, hwrapped⟩
  · intro h
    obtain ⟨rest, hp, hc⟩ := hcut.mpr ⟨h.eq, h.no_slash⟩
    have hgood : (name.isEmpty || wrapped.isEmpty || containsWildcard name) = false := by
      rw [← Bool.not_eq_true]
      simp [containsWildcard_iff, h.name_ne, h.wrapped_ne, h.no_plus, h.no_hash]
    unfold splitShared
    rw [hp]
    dsimp only
    rw [hc]
    dsimp only
    rw [hgood]
    rfl

/-! ## What `validateTopicFilter` accepts -/

/-- The filter grammar: a shared subscription wraps a well-placed filter, any
other filter is one. -/
def FilterForm (s : Bytes) : Prop :=
  if sharedPrefix <+: s then ∃ name wrapped, IsShared s name wrapped ∧ WellPlaced wrapped
  else WellPlaced s

/-- Behind the prefix, what `validateTopicFilter` accepts is a shared form. -/
theorem wrapped_ok {s rest : Bytes} (hp : cutPrefix s sharedPrefix = some rest) :
    (∃ name wrapped, cutSlash rest = some (name, wrapped) ∧ name ≠ [] ∧
      ¬ containsWildcard name = true ∧ wrapped ≠ [] ∧ validateFilterLevels wrapped = .ok ()) ↔
    ∃ name wrapped, IsShared s name wrapped ∧ WellPlaced wrapped := by
  refine exists_congr fun name => exists_congr fun wrapped => ?_
  have hcut : cutSlash rest = some (name, wrapped) ↔
      s = sharedPrefix ++ name ++ slash :: wrapped ∧ slash ∉ name := by
    rw [← cutSlash_cutPrefix]
    simp [hp]
  rw [hcut, containsWildcard_iff, not_or, validateFilterLevels_ok]
  constructor
  · intro ⟨⟨hs, hno⟩, hname, ⟨hplus, hhash⟩, hwrapped, hwell⟩
    exact ⟨⟨hs, hname, hno, hplus, hhash, hwrapped⟩, hwell⟩
  · intro ⟨h, hwell⟩
    exact ⟨⟨h.eq, h.no_slash⟩, h.name_ne, ⟨h.no_plus, h.no_hash⟩, h.wrapped_ne, hwell⟩

theorem validateTopicFilter_ok {s : Bytes} : validateTopicFilter s = .ok () ↔
    s ≠ [] ∧ s.length ≤ maxTopicLen ∧ utf8ValidString s = true ∧ 0 ∉ s ∧ FilterForm s := by
  unfold validateTopicFilter FilterForm
  simp only [guard_eq_ok, List.isEmpty_iff, Nat.not_lt, gt_iff_lt, Bool.not_eq_true',
    Bool.not_eq_false, List.contains_iff_mem]
  refine and_congr_right fun _ => and_congr_right fun _ => and_congr_right fun _ =>
    and_congr_right fun _ => ?_
  cases hp : cutPrefix s sharedPrefix with
  | none =>
    rw [if_neg (cutPrefix_eq_none.mp hp)]
    exact validateFilterLevels_ok
  | some rest =>
    rw [if_pos ⟨rest, (cutPrefix_eq_some.mp hp).symm⟩, ← wrapped_ok hp]
    dsimp only
    cases hc : cutSlash rest with
    | none => simp
    | some parts =>
      obtain ⟨name, wrapped⟩ := parts
      simp [guard_eq_ok]

/-- `validateTopicFilter` accepts the filter grammar and nothing else, and
`splitShared` finds in an accepted filter the share name and the filter the
grammar finds there. -/
theorem validateTopicFilter_iff (s : Bytes) :
    (validateTopicFilter s = .ok () ↔
      1 ≤ s.length ∧ s.length ≤ 65535 ∧ utf8ValidString s = true ∧ 0 ∉ s ∧
      if sharedPrefix <+: s then
        ∃ name wrapped, IsShared s name wrapped ∧ WellPlaced wrapped
      else WellPlaced s) ∧
    (validateTopicFilter s = .ok () →
      if sharedPrefix <+: s then
        ∃ name wrapped, splitShared s = some (name, wrapped) ∧ WellPlaced wrapped ∧
          ∀ name' wrapped', IsShared s name' wrapped' ↔ name' = name ∧ wrapped' = wrapped
      else splitShared s = none) := by
  refine ⟨?_, fun h => ?_⟩
  · rw [validateTopicFilter_ok, ← List.length_pos_iff]
    rfl
  · obtain ⟨-, -, -, -, hform⟩ := validateTopicFilter_ok.mp h
    unfold FilterForm at hform
    split
    · rename_i hp
      rw [if_pos hp] at hform
      obtain ⟨name, wrapped, hshared, hwell⟩ := hform
      have hsplit := splitShared_eq_some.mpr hshared
      refine ⟨name, wrapped, hsplit, hwell, fun name' wrapped' => ?_⟩
      rw [← splitShared_eq_some, hsplit]
      simp [eq_comm]
    · rename_i hp
      rw [splitShared, cutPrefix_eq_none.mpr hp]

/-- `"$share/g/+"`. -/
theorem validateTopicFilter_iff_shared :
    ∃ name wrapped, splitShared (sharedPrefix ++ [0x67, slash, plus]) = some (name, wrapped) ∧
      WellPlaced wrapped ∧ ∀ name' wrapped',
        IsShared (sharedPrefix ++ [0x67, slash, plus]) name' wrapped' ↔
          name' = name ∧ wrapped' = wrapped := by
  have h := (validateTopicFilter_iff (sharedPrefix ++ [0x67, slash, plus])).2 (by decide)
  rwa [if_pos (List.prefix_append _ _)] at h

/-! ## Matching -/

/-- A filter level without a wildcard character. -/
def Literal (level : Bytes) : Prop := plus ∉ level ∧ hash ∉ level

/-- The levels of a filter match those of a topic. -/
inductive LevelsMatch : List Bytes → List Bytes → Prop
  | nil : LevelsMatch [] []
  | literal {level : Bytes} {filter topic : List Bytes} : Literal level →
      LevelsMatch filter topic → LevelsMatch (level :: filter) (level :: topic)
  | plus {level : Bytes} {filter topic : List Bytes} :
      LevelsMatch filter topic → LevelsMatch ([plus] :: filter) (level :: topic)
  | hash {topic : List Bytes} : LevelsMatch [[hash]] topic

/-- The loop of `matchLevels` as the source has it, by index into the topic. -/
def matchLoop (filterLevels topicLevels : List Bytes) : List Bytes → Nat → Bool
  | [], _ => filterLevels.length == topicLevels.length
  | fl :: rest, i =>
    if fl == [hash] then true
    else if i ≥ topicLevels.length then false
    else if fl == [plus] then matchLoop filterLevels topicLevels rest (i + 1)
    else if some fl != topicLevels[i]? then false
    else matchLoop filterLevels topicLevels rest (i + 1)

/-- The loop at index `i` compares what is left of both lists. -/
theorem matchLoop_eq {filterLevels topicLevels rest : List Bytes} {i : Nat}
    (hi : i + rest.length = filterLevels.length) (hle : i ≤ topicLevels.length) :
    matchLoop filterLevels topicLevels rest i = matchLevels rest (topicLevels.drop i) := by
  induction rest generalizing i with
  | nil =>
    rw [matchLoop, matchLevels, Bool.eq_iff_iff]
    simp only [List.length_nil, Nat.add_zero] at hi
    simp only [beq_iff_eq, List.isEmpty_iff, List.drop_eq_nil_iff]
    omega
  | cons fl rest ih =>
    rw [matchLoop, matchLevels.eq_def]
    dsimp only
    split
    · rfl
    split
    · rename_i hge
      rw [List.drop_eq_nil_of_le hge]
    · rename_i hlt
      have hlt : i < topicLevels.length := Nat.lt_of_not_le hlt
      have hnext := ih (i := i + 1) (by simp only [List.length_cons] at hi; omega) hlt
      rw [List.drop_eq_getElem_cons hlt, List.getElem?_eq_getElem hlt, hnext]
      dsimp only
      split
      · rename_i hplus
        simp [hplus]
      · rename_i hplus
        simp [hplus, Bool.beq_eq_decide_eq]

theorem matchLevels_eq_matchLoop (filterLevels topicLevels : List Bytes) :
    matchLevels filterLevels topicLevels = matchLoop filterLevels topicLevels filterLevels 0 := by
  rw [matchLoop_eq (Nat.zero_add _) (Nat.zero_le _), List.drop_zero]

/-- The filter a topic is compared with: the wrapped one of a shared subscription. -/
def Effective (filter e : Bytes) : Prop :=
  (∃ name, IsShared filter name e) ∨ (∀ name wrapped, ¬ IsShared filter name wrapped) ∧ e = filter

/-- The loop decides the relation on levels that passed the placement check. -/
theorem matchLevels_iff {filter topic : List Bytes} (h : validateLevels filter = .ok ()) :
    matchLevels filter topic = true ↔ LevelsMatch filter topic := by
  induction filter generalizing topic with
  | nil =>
    rw [matchLevels, List.isEmpty_iff]
    constructor
    · rintro rfl
      exact .nil
    · intro hm
      cases hm
      rfl
  | cons level filter ih =>
    obtain ⟨hhash, hplus, hrest⟩ := validateLevels_cons.mp h
    rw [matchLevels.eq_def]
    dsimp only
    by_cases hl : level = [hash]
    · obtain ⟨-, rfl⟩ := hhash (by simp [hl])
      simp [hl, LevelsMatch.hash]
    rw [if_neg (by simpa using hl)]
    have hnohash : hash ∉ level := fun hmem => hl (hhash hmem).1
    cases topic with
    | nil =>
      simp only [Bool.false_eq_true, false_iff]
      intro hm
      cases hm
      exact hl rfl
    | cons tl topic =>
      simp only [Bool.and_eq_true, Bool.or_eq_true, beq_iff_eq, ih hrest]
      constructor
      · rintro ⟨rfl | rfl, hm⟩
        · exact .plus hm
        · by_cases hp : level = [plus]
          · subst hp
            exact .plus hm
          · exact .literal ⟨fun hmem => hp (hplus hmem), hnohash⟩ hm
      · intro hm
        cases hm with
        | literal _ hm => exact ⟨.inr rfl, hm⟩
        | plus hm => exact ⟨.inl rfl, hm⟩
        | hash => exact absurd rfl hl

/-- The filter `matchTopic` works with is the effective one. -/
theorem effective_iff {filter e : Bytes} :
    Effective filter e ↔ e = ((splitShared filter).map Prod.snd).getD filter := by
  unfold Effective
  simp only [← splitShared_eq_some]
  cases h : splitShared filter with
  | none => simp
  | some parts =>
    obtain ⟨name, wrapped⟩ := parts
    simp [eq_comm]

theorem matchTopic_eq {filter topic e : Bytes} (he : Effective filter e) :
    matchTopic filter topic =
      (!(topic.head? == some dollar && (e.head? == some hash || e.head? == some plus)) &&
        matchLevels (splitLevels e) (splitLevels topic)) := by
  have heff := effective_iff.mp he
  unfold matchTopic
  cases hs : splitShared filter with
  | none =>
    rw [hs, Option.map_none, Option.getD_none] at heff
    rw [heff, Bool.if_false_left, Bool.decide_eq_true]
    rfl
  | some parts =>
    rw [hs, Option.map_some, Option.getD_some] at heff
    rw [heff, Bool.if_false_left, Bool.decide_eq_true]
    rfl

/-- An accepted filter's effective part keeps the placement rule. -/
theorem wellPlaced_of_effective {filter e : Bytes} (h : validateTopicFilter filter = .ok ())
    (he : Effective filter e) : WellPlaced e := by
  obtain ⟨-, -, -, -, hform⟩ := validateTopicFilter_ok.mp h
  unfold FilterForm at hform
  split at hform
  · obtain ⟨name, wrapped, hshared, hwell⟩ := hform
    rw [effective_iff, splitShared_eq_some.mpr hshared] at he
    rw [he]
    exact hwell
  · rename_i hp
    rw [effective_iff, splitShared, cutPrefix_eq_none.mpr hp] at he
    rw [he]
    exact hform

/-- The guard of `matchTopic` looks at one byte; in a well-placed filter that
byte is a wildcard exactly if the first level is. -/
theorem head_eq_iff {e : Bytes} {levels : List Bytes} {c : UInt8} (hl : IsLevels e levels)
    (hc : c ≠ slash) (halone : ∀ l ∈ levels, Alone c l) :
    e.head? = some c ↔ levels.head? = some [c] := by
  cases levels with
  | nil => exact absurd rfl hl.ne_nil
  | cons level rest =>
    have hfirst := halone level List.mem_cons_self
    have he : ∃ tail, e = level ++ tail ∧ (tail = [] ∨ tail.head? = some slash) := by
      cases rest with
      | nil => exact ⟨[], by simpa using hl.joined, .inl rfl⟩
      | cons next rest =>
        refine ⟨slash :: [slash].intercalate (next :: rest), ?_, .inr rfl⟩
        rw [hl.joined, List.intercalate_cons_cons, List.append_assoc]
        rfl
    obtain ⟨tail, rfl, ht⟩ := he
    cases level with
    | nil =>
      rcases ht with rfl | ht
      · simp
      · simp [ht, Ne.symm hc]
    | cons b level =>
      simp only [List.cons_append, List.head?_cons, Option.some.injEq]
      constructor
      · rintro rfl
        exact hfirst List.mem_cons_self
      · intro h
        exact (List.cons.inj h).1

theorem alone_of_validateLevels {levels : List Bytes} (h : validateLevels levels = .ok ()) :
    ∀ l ∈ levels, Alone hash l ∧ Alone plus l := by
  induction levels with
  | nil => simp
  | cons level rest ih =>
    obtain ⟨hhash, hplus, hrest⟩ := validateLevels_cons.mp h
    intro l hl
    rcases List.mem_cons.mp hl with rfl | hl
    · exact ⟨fun hmem => (hhash hmem).1, hplus⟩
    · exact ih hrest l hl

/-- `matchTopic` is the matching rule of the specification. -/
theorem matchTopic_iff {filter topic e : Bytes} {levels topicLevels : List Bytes}
    (hfilter : validateTopicFilter filter = .ok ()) (he : Effective filter e)
    (hl : IsLevels e levels) (ht : IsLevels topic topicLevels) :
    matchTopic filter topic = true ↔
      ¬ (topic.head? = some dollar ∧
        (levels.head? = some [plus] ∨ levels.head? = some [hash])) ∧
      LevelsMatch levels topicLevels := by
  have hvalid := (validateLevels_ok hl).mpr (wellPlaced_of_effective hfilter he)
  have halone := alone_of_validateLevels hvalid
  have hhash := head_eq_iff hl (by decide) fun l hmem => (halone l hmem).1
  have hplus := head_eq_iff hl (by decide) fun l hmem => (halone l hmem).2
  rw [matchTopic_eq he, ← isLevels_iff.mp hl, ← isLevels_iff.mp ht, Bool.and_eq_true,
    matchLevels_iff hvalid, ← hhash, ← hplus, Bool.not_eq_true', ← Bool.not_eq_true]
  simp only [Bool.and_eq_true, Bool.or_eq_true, beq_iff_eq, or_comm]

/-- `"$share/g/+/#"` and `"a/b"`. -/
theorem matchTopic_iff_shared :
    (matchTopic (sharedPrefix ++ [0x67, slash, plus, slash, hash]) [0x61, slash, 0x62] = true ↔
      ¬ (([0x61, slash, 0x62] : Bytes).head? = some dollar ∧
        ([[plus], [hash]].head? = some [plus] ∨ [[plus], [hash]].head? = some [hash])) ∧
      LevelsMatch [[plus], [hash]] [[0x61], [0x62]]) ∧
    LevelsMatch [[plus], [hash]] [[0x61], [0x62]] :=
  ⟨matchTopic_iff (e := [plus, slash, hash]) (by decide) (effective_iff.mpr (by decide)) (isLevels_iff.mpr (by decide))
    (isLevels_iff.mpr (by decide)), .plus .hash⟩

end GoMqtt.Protocol
