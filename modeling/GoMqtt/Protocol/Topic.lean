import GoMqtt.Protocol.Wire

/-! # Topic names and topic filters

The checks a topic must pass before a PUBLISH or a SUBSCRIBE is built, and the
matching of a topic against a filter. -/
namespace GoMqtt.Protocol

def maxTopicLen : Nat := 0xFFFF

/-- `'/'`, `'+'` and `'#'`. -/
def slash : UInt8 := 0x2F
def plus : UInt8 := 0x2B
def hash : UInt8 := 0x23

/-- `strings.ContainsAny(s, "+#")`. -/
def containsWildcard (s : Bytes) : Bool := s.any fun b => b == plus || b == hash

/-- `"$share/"`. -/
def sharedPrefix : Bytes := [0x24, 0x73, 0x68, 0x61, 0x72, 0x65, 0x2F]

/-- `strings.CutPrefix`. -/
def cutPrefix : Bytes → Bytes → Option Bytes
  | s, [] => some s
  | [], _ :: _ => none
  | b :: s, c :: cs => if b == c then cutPrefix s cs else none

/-- `strings.Cut(s, "/")`: what stands before and after the first slash. -/
def cutSlash : Bytes → Option (Bytes × Bytes)
  | [] => none
  | b :: s =>
    if b == slash then some ([], s)
    else (cutSlash s).map fun (before, after) => (b :: before, after)

/-- `strings.Split(s, "/")`: the levels, empty ones included. -/
def splitLevels : Bytes → List Bytes
  | [] => [[]]
  | b :: s =>
    if b == slash then [] :: splitLevels s
    else match splitLevels s with
      | level :: levels => (b :: level) :: levels
      | [] => [[b]]

def validateTopicName (s : Bytes) : Except WireError Unit :=
  if s.isEmpty then .error (.protocolViolation "empty topic name")
  else if s.length > maxTopicLen then
    .error (.protocolViolation s!"topic name {s.length} bytes exceeds {maxTopicLen}")
  else if !utf8ValidString s then .error (.protocolViolation "topic name is not valid UTF-8")
  else if s.contains 0 then .error (.protocolViolation "topic name contains U+0000")
  else if containsWildcard s then
    .error (.protocolViolation "topic name contains a wildcard character")
  else .ok ()

/-- The loop of `validateFilterLevels`: `'#'` alone in the last level, `'+'`
alone in its level. -/
def validateLevels : List Bytes → Except WireError Unit
  | [] => .ok ()
  | level :: rest =>
    if level.contains hash && (level != [hash] || !rest.isEmpty) then
      .error (.protocolViolation "'#' must occupy a whole level and be the last level")
    else if level.contains plus && level != [plus] then
      .error (.protocolViolation "'+' must occupy a whole level")
    else validateLevels rest

def validateFilterLevels (s : Bytes) : Except WireError Unit := validateLevels (splitLevels s)

def validateTopicFilter (s : Bytes) : Except WireError Unit :=
  if s.isEmpty then .error (.protocolViolation "empty topic filter")
  else if s.length > maxTopicLen then
    .error (.protocolViolation s!"topic filter {s.length} bytes exceeds {maxTopicLen}")
  else if !utf8ValidString s then .error (.protocolViolation "topic filter is not valid UTF-8")
  else if s.contains 0 then .error (.protocolViolation "topic filter contains U+0000")
  else match cutPrefix s sharedPrefix with
    | none => validateFilterLevels s
    | some rest =>
      match cutSlash rest with
      | none => .error (.protocolViolation
          "shared subscription filter must be $share/\x7bShareName\x7d/\x7bfilter\x7d")
      | some (shareName, wrapped) =>
        if shareName.isEmpty then .error (.protocolViolation
          "shared subscription ShareName must be at least one character")
        else if containsWildcard shareName then .error (.protocolViolation
          "shared subscription ShareName must not contain '+' or '#'")
        else if wrapped.isEmpty then .error (.protocolViolation
          "shared subscription carries an empty topic filter")
        else validateFilterLevels wrapped

/-- The wrapped filter of a well-formed shared subscription. -/
def splitShared (s : Bytes) : Option (Bytes × Bytes) :=
  match cutPrefix s sharedPrefix with
  | none => none
  | some rest =>
    match cutSlash rest with
    | none => none
    | some (shareName, filter) =>
      if shareName.isEmpty || filter.isEmpty || containsWildcard shareName then none
      else some (shareName, filter)

/-- The loop of `matchLevels`, run over both lists at once. -/
def matchLevels : List Bytes → List Bytes → Bool
  | [], topic => topic.isEmpty
  | fl :: filter, topic =>
    if fl == [hash] then true
    else match topic with
      | [] => false
      | tl :: topic => (fl == [plus] || fl == tl) && matchLevels filter topic

def matchTopic (filter topic : Bytes) : Bool :=
  let filter := match splitShared filter with
    | some (_, wrapped) => wrapped
    | none => filter
  if topic.head? == some 0x24 && (filter.head? == some hash || filter.head? == some plus) then false
  else matchLevels (splitLevels filter) (splitLevels topic)

end GoMqtt.Protocol
