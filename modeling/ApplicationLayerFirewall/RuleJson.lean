import ApplicationLayerFirewall.InetAddress
import ApplicationLayerFirewall.PicoJson
import ApplicationLayerFirewall.RuleVerdict
import Mathlib.Data.List.TakeWhile

/-!
# Rules read from JSON and written back

The parser of one rule falls back silently: a field of another kind takes its
default, a number is truncated to the width of its field, and an unknown name
is zero, which every comparison treats as any value. Its result is stated field
by field in `ruleOf`; the reused local rule of the loop leaves no trace in it.
-/

namespace RuleJson

open ByteOrder InetAddress PacketReading PicoJson RuleMatching RuleVerdict

/-- What the language leaves open: conversions out of range, and the contents
of a `Rule` before anything is assigned to it. -/
structure Undefined where
  conversions : Conversions
  rule : Rule

/-! ### Field getters -/

def getInteger (undef : Undefined) (v : Value) (key : String) (default : UInt64) :
    Except Exception UInt64 := do
  if ← v.contains key then
    if (← v.get key).isNumber then
      return toUInt64 undef.conversions (← (← v.get key).getNumber)
  return default

def getInteger32 (undef : Undefined) (v : Value) (key : String) (default : Int32) :
    Except Exception Int32 := do
  if ← v.contains key then
    if (← v.get key).isNumber then
      return toInt32 undef.conversions (← (← v.get key).getNumber)
  return default

def getString (v : Value) (key : String) (default : String) : Except Exception String := do
  if ← v.contains key then
    if (← v.get key).isString then
      return (← (← v.get key).getString)
  return default

/-- The number an object holds under a key, or the default for anything else. -/
def integerField (undef : Undefined) (o : Fields) (key : String) (default : UInt64) : UInt64 :=
  match o.lookup key with
  | some (.number d) => toUInt64 undef.conversions d
  | _ => default

def stringField (o : Fields) (key : String) (default : String) : String :=
  match o.lookup key with
  | some (.string s) => s
  | _ => default

theorem getInteger_object (undef : Undefined) (o : Fields) (key : String) (default : UInt64) :
    getInteger undef (.object o) key default = .ok (integerField undef o key default) := by
  cases h : o.lookup key with
  | none => simp [getInteger, integerField, Value.contains, h, bind, Except.bind, pure, Except.pure]
  | some w =>
    cases w <;>
      simp [getInteger, integerField, Value.contains, Value.get, Value.isNumber,
        Value.getNumber, h, bind, Except.bind, pure, Except.pure]

theorem getString_object (o : Fields) (key default : String) :
    getString (.object o) key default = .ok (stringField o key default) := by
  cases h : o.lookup key with
  | none => simp [getString, stringField, Value.contains, h, bind, Except.bind, pure, Except.pure]
  | some w =>
    cases w <;>
      simp [getString, stringField, Value.contains, Value.get, Value.isString,
        Value.getString, h, bind, Except.bind, pure, Except.pure]

/-! ### Names of protocols and ICMP types -/

/-- The part of a string that C functions see. -/
def cString (s : List Char) : List Char := s.takeWhile (fun c => c ≠ '\x00')

theorem cString_eq_self {s : List Char} (h : '\x00' ∉ s) : cString s = s := by
  refine List.takeWhile_eq_self_iff.mpr fun c hc => decide_eq_true ?_
  rintro rfl
  exact h hc

theorem ofList_cString {s : String} (h : '\x00' ∉ s.toList) :
    String.ofList (cString s.toList) = s := by
  rw [cString_eq_self h, String.ofList_toList]

/-- `strcmp` finds the two strings equal. -/
def strcmpEq (p : List Char) (name : String) : Bool := decide (cString p = name.toList)

/-- The names and values of both ICMP tables, in their order. -/
def icmpTable : List (String × UInt8) :=
  [("ICMP_ECHOREPLY", 0), ("ICMP_DEST_UNREACH", 3), ("ICMP_SOURCE_QUENCH", 4),
    ("ICMP_REDIRECT", 5), ("ICMP_TIME_EXCEEDED", 11), ("ICMP_PARAMETERPROB", 12),
    ("ICMP_TIMESTAMP", 13), ("ICMP_TIMESTAMPREPLY", 14), ("ICMP_INFO_REQUEST", 15),
    ("ICMP_INFO_REPLY", 16), ("ICMP_ADDRESS", 17), ("ICMP_ADDRESSREPLY", 18)]

def getIcmpString (type : UInt8) : String :=
  match icmpTable.find? (fun entry => entry.2 = type) with
  | some entry => entry.1
  | none => ""

def getIcmpSubType (p : List Char) : UInt8 :=
  match icmpTable.find? (fun entry => strcmpEq p entry.1) with
  | some entry => entry.2
  | none => 0

def getProtocolString (type : UInt8) : String :=
  if type = ipprotoIcmp then "icmp"
  else if type = ipprotoUdp then "udp"
  else if type = ipprotoTcp then "tcp"
  else "unknown"

def getProtocolType (p : List Char) : UInt8 :=
  if strcmpEq p "tcp" then ipprotoTcp
  else if strcmpEq p "udp" then ipprotoUdp
  else if strcmpEq p "icmp" then ipprotoIcmp
  else 0

/-! ### Rule::ParseFromJson -/

/-- The scan stops at the first dot behind the first character, or at a NUL. -/
def scanStops (c : Char) : Bool := c = '\x00' || c = '.'

/-- Protocol and sub-protocol of a protocol string, starting from `this`. -/
def assignProtocol (this : Rule) (protocol : List Char) : Rule :=
  match protocol with
  | [] => this
  | first :: rest =>
    let name := first :: rest.takeWhile (fun c => !scanStops c)
    let this := match rest.dropWhile (fun c => !scanStops c) with
      | '.' :: suffix => { this with subProtocol := getIcmpSubType suffix }
      | _ => this
    { this with protocol := getProtocolType name }

def zeroRule : Rule := ⟨0, 0, 0, 0, 0, 0, 0, 0⟩

/-- Everything that the language leaves open is zero. -/
def zeros : Undefined := ⟨⟨fun _ => 0, fun _ => 0⟩, zeroRule⟩

namespace Rule

/-- The return code is always 0, so a malformed field is never reported. -/
def parseFromJson (undef : Undefined) (_this : Rule) (v : Value) :
    Except Exception (Int × Rule) := do
  let this := zeroRule
  let this := { this with srcIp := inetAddr (← getString v "src_ip" "0.0.0.0").toList }
  let this := { this with srcPort := ntohs (← getInteger undef v "src_port" 0).toUInt16 }
  let this := { this with destIp := inetAddr (← getString v "target_ip" "0.0.0.0").toList }
  let this := { this with destPort := ntohs (← getInteger undef v "target_port" 0).toUInt16 }
  let this := { this with type := (← getInteger undef v "type" 0).toUInt8 }
  let protocol ← getString v "protocol" ""
  let this := assignProtocol this protocol.toList
  let this := { this with
    timePass := (← getInteger undef v "time_pass" 0xffffffff).toUInt32 }
  return (0, this)

/-- The keys stand in the order of the map, and one of them is not the parser's. -/
def toJson (r : Rule) : Value :=
  let protocol := getProtocolString r.protocol
  let protocol := if r.subProtocol = ipprotoIcmp
    then protocol ++ ("." ++ getIcmpString r.subProtocol) else protocol
  .object
    [("protocol", .string protocol),
      ("src_ip", .string (String.ofList (inetNtoa r.srcIp))),
      ("src_port", .number ((ntohs r.srcPort).toNat : ℚ)),
      ("target_ip", .string (String.ofList (inetNtoa r.destIp))),
      ("target_port", .number ((ntohs r.destPort).toNat : ℚ)),
      ("timepass", .number (r.timePass.toNat : ℚ)),
      ("type", .number (r.type.toNat : ℚ))]

end Rule

/-- The rule that an object describes. -/
def ruleOf (undef : Undefined) (o : Fields) : Rule :=
  assignProtocol
    { srcIp := inetAddr (stringField o "src_ip" "0.0.0.0").toList
      srcPort := ntohs (integerField undef o "src_port" 0).toUInt16
      destIp := inetAddr (stringField o "target_ip" "0.0.0.0").toList
      destPort := ntohs (integerField undef o "target_port" 0).toUInt16
      type := (integerField undef o "type" 0).toUInt8
      timePass := (integerField undef o "time_pass" 0xffffffff).toUInt32
      protocol := 0
      subProtocol := 0 }
    (stringField o "protocol" "").toList

/-- Only the two protocol fields are touched. -/
theorem assignProtocol_frame (this : Rule) (protocol : List Char) :
    assignProtocol this protocol =
      { this with
        protocol := (assignProtocol this protocol).protocol
        subProtocol := (assignProtocol this protocol).subProtocol } := by
  cases protocol with
  | nil => rfl
  | cons first rest =>
    simp only [assignProtocol]
    split <;> rfl

/-- The time mask is assigned last, but could as well be there from the start. -/
theorem assignProtocol_timePass (this : Rule) (protocol : List Char) (mask : UInt32) :
    { assignProtocol this protocol with timePass := mask } =
      assignProtocol { this with timePass := mask } protocol := by
  cases protocol with
  | nil => rfl
  | cons first rest =>
    simp only [assignProtocol]
    split <;> rfl

theorem parseFromJson_object (undef : Undefined) (this : Rule) (o : Fields) :
    Rule.parseFromJson undef this (.object o) = .ok (0, ruleOf undef o) := by
  simp only [Rule.parseFromJson, getString_object, getInteger_object]
  simp only [bind, Except.bind, pure, Except.pure, assignProtocol_timePass]
  rfl

/-- Anything but an object throws at the first access. -/
theorem parseFromJson_throws (undef : Undefined) (this : Rule) {v : Value}
    (h : v.isObject = false) :
    Rule.parseFromJson undef this v = .error .runtimeError := by
  cases v <;> first | rfl | cases h

/-! ### Rule collections -/

namespace RuleCollection

/-- One local rule serves all elements of the array. -/
def parseLoop (undef : Undefined) :
    List Value → Rule → RuleCollection → Except Exception RuleCollection
  | [], _, rules => .ok rules
  | v :: rest, rule, rules => do
    let (_, rule) ← Rule.parseFromJson undef rule v
    parseLoop undef rest rule (rules ++ [rule])

def parseFromJson (undef : Undefined) (this : RuleCollection) (v : Value) :
    Except Exception (Int × RuleCollection) := do
  let arr ← v.getArray
  let rules ← parseLoop undef arr undef.rule this
  return (0, rules)

/-- The overload for text clears the collection first. -/
def parseFromText (text : Text) (undef : Undefined) (_this : RuleCollection) (s : String) :
    Except Exception (Int × RuleCollection) :=
  match text.parse s with
  | .thrown e => .error e
  | .syntaxError _ => .ok (-1, [])
  | .value v => parseFromJson undef [] v

def toJson (rules : RuleCollection) : Value := .array (rules.map Rule.toJson)

def toJsonText (text : Text) (rules : RuleCollection) : String :=
  text.serialize (toJson rules)

end RuleCollection

/-- The rules of a list of elements, when all of them are objects. -/
def rulesOf (undef : Undefined) : List Value → Option RuleCollection
  | [] => some []
  | .object o :: rest => (rulesOf undef rest).map (ruleOf undef o :: ·)
  | _ :: _ => none

theorem parseLoop_eq (undef : Undefined) (arr : List Value) (rule : Rule)
    (rules : RuleCollection) :
    RuleCollection.parseLoop undef arr rule rules =
      match rulesOf undef arr with
      | some parsed => .ok (rules ++ parsed)
      | none => .error .runtimeError := by
  induction arr generalizing rule rules with
  | nil => simp [RuleCollection.parseLoop, rulesOf]
  | cons v rest ih =>
    cases v with
    | object o =>
      rw [RuleCollection.parseLoop, parseFromJson_object]
      simp only [bind, Except.bind, ih, rulesOf]
      cases rulesOf undef rest <;> simp
    | _ => rfl

/-- Loading an array appends the rules of its elements or throws at the first
element that is no object. -/
theorem parseFromJson_array (undef : Undefined) (this : RuleCollection) (arr : List Value) :
    RuleCollection.parseFromJson undef this (.array arr) =
      match rulesOf undef arr with
      | some parsed => .ok (0, this ++ parsed)
      | none => .error .runtimeError := by
  simp only [RuleCollection.parseFromJson, Value.getArray, bind, Except.bind, parseLoop_eq]
  cases rulesOf undef arr <;> rfl

theorem parseFromJson_not_array (undef : Undefined) (this : RuleCollection) {v : Value}
    (h : v.isArray = false) :
    RuleCollection.parseFromJson undef this v = .error .runtimeError := by
  cases v <;> first | rfl | cases h

theorem rulesOf_eq_none_iff (undef : Undefined) (arr : List Value) :
    rulesOf undef arr = none ↔ ∃ v ∈ arr, v.isObject = false := by
  induction arr with
  | nil => simp [rulesOf]
  | cons v rest ih =>
    cases v <;> simp [rulesOf, ih, Value.isObject]

theorem rulesOf_map_object (undef : Undefined) (objects : List Fields) :
    rulesOf undef (objects.map Value.object) = some (objects.map (ruleOf undef)) := by
  induction objects with
  | nil => rfl
  | cons o rest ih =>
    rw [List.map_cons, rulesOf, ih]
    rfl

/-- Every rule that was loaded is the rule of some object. -/
theorem mem_rulesOf {undef : Undefined} {arr : List Value} {rules : RuleCollection}
    (h : rulesOf undef arr = some rules) {r : Rule} (hr : r ∈ rules) :
    ∃ o, r = ruleOf undef o := by
  induction arr generalizing rules with
  | nil =>
    cases h
    cases hr
  | cons v rest ih =>
    cases v with
    | object o =>
      simp only [rulesOf, Option.map_eq_some_iff] at h
      obtain ⟨parsed, hparsed, rfl⟩ := h
      rcases List.mem_cons.mp hr with rfl | hr
      · exact ⟨o, rfl⟩
      · exact ih hparsed hr
    | _ => cases h

/-! ### RuleManager -/

/-- The manager after `init`, when a rule set is always installed. -/
structure RuleManager where
  rules : RuleCollection
  enabled : Bool
  deriving DecidableEq

namespace RuleManager

def setEnabled (m : RuleManager) (enabled : Bool) : RuleManager := { m with enabled := enabled }

def isEnabled (m : RuleManager) : Bool := m.enabled

def getRules (m : RuleManager) : RuleCollection := m.rules

/-- The new collection is installed only after it was built without an exception. -/
def loadConfigFromJson (undef : Undefined) (m : RuleManager) (v : Value) :
    Except Exception (Int × RuleManager) := do
  let (ret, rules) ← RuleCollection.parseFromJson undef [] v
  if ret < 0 then return (-1, m)
  return (0, { m with rules := rules })

def loadConfigFromBuffer (text : Text) (undef : Undefined) (m : RuleManager) (s : String) :
    Except Exception (Int × RuleManager) := do
  let (ret, rules) ← RuleCollection.parseFromText text undef [] s
  if ret < 0 then return (-1, m)
  return (0, { m with rules := rules })

theorem loadConfigFromJson_array (undef : Undefined) (m : RuleManager) (arr : List Value) :
    m.loadConfigFromJson undef (.array arr) =
      match rulesOf undef arr with
      | some rules => .ok (0, { m with rules := rules })
      | none => .error .runtimeError := by
  simp only [loadConfigFromJson, parseFromJson_array]
  cases rulesOf undef arr <;> rfl

end RuleManager

end RuleJson
