import ApplicationLayerFirewall.ReadingInstants
import ApplicationLayerFirewall.RuleLoading

/-!
# What a malformed rule does

The loader has an error path, but no field can reach it: each bad value has its
own silent fallback. So a malformed object becomes an ordinary rule, and it is
harmless only by accident: when its type happens to be neither list, when its
time mask never passes, or when another element of the array throws. Even then
a bad value may have become the wildcard of its field or the number of a list.
-/

namespace MalformedRules

open ByteOrder InetAddress PacketReading PicoJson RuleMatching RuleVerdict RuleJson RuleLoading
open AccessPolicy

/-! ### Malformed objects -/

def BadAddress (v : Value) : Prop := ∃ s, v = .string s ∧ inetAton s.toList = none

def IsPort (v : Value) : Prop := ∃ n : Nat, n < 65536 ∧ v = .number n

def IsListType (v : Value) : Prop := ∃ n : Nat, n < 3 ∧ v = .number n

def protocolNames : List String :=
  ["tcp", "udp", "icmp"] ++ icmpTable.map (fun entry => "icmp." ++ entry.1)

def BadProtocol (v : Value) : Prop := ∃ s, v = .string s ∧ s ≠ "" ∧ s ∉ protocolNames

/-- Some field that the object supplies cannot be read as what it should be. -/
inductive Malformed (o : Fields) : Prop where
  | srcIp (v : Value) (supplied : o.lookup "src_ip" = some v) (bad : BadAddress v)
  | destIp (v : Value) (supplied : o.lookup "target_ip" = some v) (bad : BadAddress v)
  | srcPort (v : Value) (supplied : o.lookup "src_port" = some v) (bad : ¬ IsPort v)
  | destPort (v : Value) (supplied : o.lookup "target_port" = some v) (bad : ¬ IsPort v)
  | protocol (v : Value) (supplied : o.lookup "protocol" = some v) (bad : BadProtocol v)
  | type (v : Value) (supplied : o.lookup "type" = some v) (bad : ¬ IsListType v)

/-! ### What should become of them -/

/-- The load returns a negative result, and the installed rules stay. -/
def Refused (undef : Undefined) (m : RuleManager) (arr : List Value) : Prop :=
  ∃ ret, (loadConfigFromJson undef m (.array arr)).1 = .ok ret ∧ ret < 0 ∧
    (loadConfigFromJson undef m (.array arr)).2.manager = m

/-- The load does not return, and the installed rules stay. -/
def Throws (undef : Undefined) (m : RuleManager) (arr : List Value) : Prop :=
  (loadConfigFromJson undef m (.array arr)).1 = .error .runtimeError ∧
    (loadConfigFromJson undef m (.array arr)).2.manager = m

def MatchesNoPacket (r : Rule) : Prop :=
  ∀ (clock : Clock) (pe : PacketExtractor) (n : Nat), (r.check clock pe n).1 = false

/-- Wherever the rule stands, leaving it out changes no verdict. -/
def NoEffect (r : Rule) : Prop :=
  ∀ (before after : RuleCollection) (localtime : TimeT → Tm) (now : TimeT)
    (pe : PacketExtractor),
    (check (Clock.fixed localtime now) (before ++ r :: after) pe 0).1 =
      (check (Clock.fixed localtime now) (before ++ after) pe 0).1

/-- The part of a protocol string in front of the first dot or NUL behind its first
character, and what stands behind that dot. -/
def nameOf : List Char → List Char
  | [] => []
  | first :: rest => first :: rest.takeWhile (fun c => !scanStops c)

def suffixOf : List Char → Option (List Char)
  | [] => none
  | _ :: rest =>
    match rest.dropWhile (fun c => !scanStops c) with
    | '.' :: suffix => some suffix
    | _ => none

/-- The string asks for an ICMP type. -/
def AsksType (protocol : List Char) : Prop :=
  cString (nameOf protocol) = "icmp".toList ∧ suffixOf protocol ≠ none

/-- A bad value has become the wildcard of its field, or the number of a list. -/
inductive Widened (o : Fields) (r : Rule) : Prop where
  | srcIp (v : Value) (supplied : o.lookup "src_ip" = some v) (bad : BadAddress v)
      (wildcard : r.srcIp = 0)
  | destIp (v : Value) (supplied : o.lookup "target_ip" = some v) (bad : BadAddress v)
      (wildcard : r.destIp = 0)
  | srcPort (v : Value) (supplied : o.lookup "src_port" = some v) (bad : ¬ IsPort v)
      (wildcard : r.srcPort = 0)
  | destPort (v : Value) (supplied : o.lookup "target_port" = some v) (bad : ¬ IsPort v)
      (wildcard : r.destPort = 0)
  | protocol (s : String) (supplied : o.lookup "protocol" = some (.string s))
      (bad : BadProtocol (.string s)) (wildcard : r.protocol = 0)
  | icmpType (s : String) (supplied : o.lookup "protocol" = some (.string s))
      (bad : BadProtocol (.string s)) (asked : AsksType s.toList) (wildcard : r.subProtocol = 0)
  | type (v : Value) (supplied : o.lookup "type" = some v) (bad : ¬ IsListType v)
      (list : r.type < 3)

/-- What should become of an object of the array: the load fails, or the rule built from
the object is harmless and none of its bad values is a wildcard or a list. An exception
counts as a failure, since it leaves the installed rules as well. -/
inductive NotWidened (undef : Undefined) (m : RuleManager) (arr : List Value) (o : Fields) :
    Prop where
  | refused (h : Refused undef m arr)
  | thrown (h : Throws undef m arr)
  | harmless (h : ∀ this ret r, Rule.parseFromJson undef this (.object o) = .ok (ret, r) →
      (MatchesNoPacket r ∨ NoEffect r) ∧ ¬ Widened o r)

/-! ### Rules that match no packet -/

/-- A rule matches no packet exactly when its time mask passes at no time. -/
theorem matchesNoPacket_iff (r : Rule) :
    MatchesNoPacket r ↔ ∀ now packet, ¬ r.Matches now packet := by
  constructor
  · intro hnone now packet hmatch
    have hcheck := (Rule.check_fst (Clock.fixed (fun _ => now) 0) r ⟨packet⟩ 0).mpr hmatch
    rw [hnone] at hcheck
    cases hcheck
  · intro hnone clock pe n
    rw [Bool.eq_false_iff, ne_eq, Rule.check_fst]
    exact hnone _ _

theorem matches_exists_iff (r : Rule) :
    (∃ now packet, r.Matches now packet) ↔ r.timePass &&& 0x7fffffff ≠ 0 := by
  rw [← timePasses_exists_iff]
  constructor
  · rintro ⟨now, packet, hmatch⟩
    exact ⟨now, hmatch.time⟩
  · rintro ⟨now, hnow⟩
    exact ⟨now, Memory.ofBytes r.packetFor, r.packetFor_header, hnow, r.packetFor_transport⟩

/-! ### Rules without effect -/

/-- Refuses every packet at any time. -/
def refuseAll : Rule := { zeroRule with timePass := 0xffffffff }

theorem refuseAll_matches (now : Tm) (packet : Memory) : refuseAll.Matches now packet where
  header := ⟨Or.inl rfl, Or.inl rfl, Or.inl rfl⟩
  time := timePasses_all now
  transport := ⟨fun _ => Or.inl rfl, fun _ => Or.inl rfl, fun _ => Or.inl rfl⟩

theorem noEffect_iff_inert (r : Rule) :
    NoEffect r ↔ ∀ now : Tm, Inert effect (fun s packet => s.Matches now packet) r := by
  constructor
  · intro hnone now before after
    ext packet
    have hverdict := hnone before after (fun _ => now) 0 ⟨packet⟩
    rw [Bool.eq_iff_iff, check_iff_policyAt, check_iff_policyAt] at hverdict
    exact hverdict
  · intro hinert before after localtime now pe
    rw [Bool.eq_iff_iff, check_iff_policyAt, check_iff_policyAt, policyAt, policyAt,
      hinert (localtime now) before after]

theorem noEffect_iff (r : Rule) :
    NoEffect r ↔ effect r = .none ∨ ∀ now packet, ¬ r.Matches now packet := by
  have hblack : effect refuseAll = .black := rfl
  have hinert : ∀ now : Tm, Inert effect (fun s packet => s.Matches now packet) r ↔
      effect r = .none ∨ ∀ packet, ¬ r.Matches now packet :=
    fun now => inert_iff hblack (refuseAll_matches now) r
  rw [noEffect_iff_inert]
  simp only [hinert]
  exact forall_or_left

/-- Harmless means one of two accidents: no list, or no time. -/
theorem harmless_iff (r : Rule) :
    MatchesNoPacket r ∨ NoEffect r ↔
      (r.type ≠ typeBlackList ∧ r.type ≠ typeWhiteList) ∨ r.timePass &&& 0x7fffffff = 0 := by
  have hmatch : (∀ now packet, ¬ r.Matches now packet) ↔ r.timePass &&& 0x7fffffff = 0 := by
    have h := not_congr (matches_exists_iff r)
    simpa only [not_exists, not_not] using h
  have heffect : effect r = .none ↔ r.type ≠ typeBlackList ∧ r.type ≠ typeWhiteList := by
    rw [ne_eq, ne_eq, ← effect_eq_black_iff, ← effect_eq_white_iff]
    cases effect r <;> simp
  rw [matchesNoPacket_iff, noEffect_iff, hmatch, heffect]
  tauto

/-! ### When the loader keeps malformed rules harmless -/

/-- The type is a number that is truncated to neither the black nor the white list. -/
def NeitherList (undef : Undefined) (o : Fields) : Prop :=
  ∃ d, o.lookup "type" = some (.number d) ∧
    (toUInt64 undef.conversions d).toUInt8 ≠ typeBlackList ∧
    (toUInt64 undef.conversions d).toUInt8 ≠ typeWhiteList

/-- The mask is a number none of whose bits is that of an hour or a weekday. -/
def NeverInTime (undef : Undefined) (o : Fields) : Prop :=
  ∃ d, o.lookup "time_pass" = some (.number d) ∧
    (toUInt64 undef.conversions d).toUInt32 &&& 0x7fffffff = 0

/-- The string starts with a known name, and if it asks for an ICMP type then for one that
is known and not zero. -/
structure Recognised (protocol : List Char) : Prop where
  name : cString (nameOf protocol) ∈ ["tcp".toList, "udp".toList, "icmp".toList]
  icmpType : cString (nameOf protocol) = "icmp".toList → ∀ suffix ∈ suffixOf protocol,
    ∃ entry ∈ icmpTable, entry.2 ≠ 0 ∧ cString suffix = entry.1.toList

/-- Every bad value is a number that is not truncated to zero or to a list, or a protocol
string that is recognised for all that. Of bad addresses nothing is asked. -/
structure Kept (undef : Undefined) (o : Fields) : Prop where
  srcPort : ∀ v, o.lookup "src_port" = some v → ¬ IsPort v →
    ∃ d, v = .number d ∧ (toUInt64 undef.conversions d).toUInt16 ≠ 0
  destPort : ∀ v, o.lookup "target_port" = some v → ¬ IsPort v →
    ∃ d, v = .number d ∧ (toUInt64 undef.conversions d).toUInt16 ≠ 0
  protocol : ∀ s, o.lookup "protocol" = some (.string s) → BadProtocol (.string s) →
    Recognised s.toList
  type : ∀ v, o.lookup "type" = some v → ¬ IsListType v →
    ∃ d, v = .number d ∧ 3 ≤ (toUInt64 undef.conversions d).toUInt8

theorem ruleOf_type (undef : Undefined) (o : Fields) :
    (ruleOf undef o).type = (integerField undef o "type" 0).toUInt8 :=
  congrArg Rule.type (assignProtocol_frame _ _)

theorem ruleOf_timePass (undef : Undefined) (o : Fields) :
    (ruleOf undef o).timePass = (integerField undef o "time_pass" 0xffffffff).toUInt32 :=
  congrArg Rule.timePass (assignProtocol_frame _ _)

theorem neitherList_iff (undef : Undefined) (o : Fields) :
    NeitherList undef o ↔ (ruleOf undef o).type ≠ typeBlackList ∧
      (ruleOf undef o).type ≠ typeWhiteList := by
  rw [ruleOf_type, integerField, NeitherList]
  cases h : o.lookup "type" with
  | none => simp [typeBlackList]
  | some v => cases v <;> simp [typeBlackList]

theorem neverInTime_iff (undef : Undefined) (o : Fields) :
    NeverInTime undef o ↔ (ruleOf undef o).timePass &&& 0x7fffffff = 0 := by
  have hall : (0xffffffff : UInt64).toUInt32 &&& 0x7fffffff ≠ 0 := by decide
  rw [ruleOf_timePass, integerField, NeverInTime]
  cases h : o.lookup "time_pass" with
  | none => simpa using hall
  | some v =>
    cases v with
    | number d => simp
    | _ => simpa using hall

theorem BadProtocol.ne_empty {s : String} (bad : BadProtocol (.string s)) : s ≠ "" := by
  obtain ⟨t, ht, hne, -⟩ := bad
  cases ht
  exact hne

/-- A bad address is stored as the broadcast address, not as the wildcard. -/
theorem bad_address_ne_zero {o : Fields} {key : String} {v : Value}
    (supplied : o.lookup key = some v) (bad : BadAddress v) :
    inetAddr (stringField o key "0.0.0.0").toList ≠ 0 := by
  obtain ⟨s, rfl, hs⟩ := bad
  have hfield : stringField o key "0.0.0.0" = s := by rw [stringField, supplied]
  rw [hfield, inetAddr, hs]
  decide

theorem port_eq_zero_iff (undef : Undefined) {o : Fields} {key : String} {v : Value}
    (supplied : o.lookup key = some v) :
    ntohs (integerField undef o key 0).toUInt16 = 0 ↔
      ¬ ∃ d, v = .number d ∧ (toUInt64 undef.conversions d).toUInt16 ≠ 0 := by
  rw [ntohs_eq_zero_iff, integerField, supplied]
  cases v <;> simp

theorem type_lt_iff (undef : Undefined) {o : Fields} {v : Value}
    (supplied : o.lookup "type" = some v) :
    (ruleOf undef o).type < 3 ↔
      ¬ ∃ d, v = .number d ∧ 3 ≤ (toUInt64 undef.conversions d).toUInt8 := by
  rw [ruleOf_type, integerField, supplied]
  cases v <;> simp

theorem getProtocolType_ne_zero_iff (p : List Char) :
    getProtocolType p ≠ 0 ↔ cString p ∈ ["tcp".toList, "udp".toList, "icmp".toList] := by
  simp only [getProtocolType, strcmpEq, decide_eq_true_eq, List.mem_cons, List.not_mem_nil,
    or_false]
  split_ifs with htcp hudp hicmp <;> simp_all <;> decide

theorem getIcmpSubType_ne_zero_iff (p : List Char) :
    getIcmpSubType p ≠ 0 ↔ ∃ entry ∈ icmpTable, entry.2 ≠ 0 ∧ cString p = entry.1.toList := by
  have names : ∀ e ∈ icmpTable, ∀ f ∈ icmpTable, e.1.toList = f.1.toList → e = f := by decide
  rw [getIcmpSubType]
  cases hfind : icmpTable.find? (fun entry => strcmpEq p entry.1) with
  | none =>
    refine iff_of_false (fun h => h rfl) ?_
    rintro ⟨entry, hentry, -, hname⟩
    have hno := List.find?_eq_none.mp hfind entry hentry
    exact hno (decide_eq_true hname)
  | some found =>
    have hsame := List.find?_some hfind
    have hfound : cString p = found.1.toList := of_decide_eq_true hsame
    have hmem := List.mem_of_find?_eq_some hfind
    constructor
    · exact fun hne => ⟨found, hmem, hne, hfound⟩
    · rintro ⟨entry, hentry, hne, hname⟩
      rw [names found hmem entry hentry (hfound.symm.trans hname)]
      exact hne

/-- The parser reads the two parts of the string. -/
theorem assignProtocol_parts {p : List Char} (h : p ≠ []) (this : Rule) :
    assignProtocol this p = { this with
      protocol := getProtocolType (nameOf p)
      subProtocol := ((suffixOf p).map getIcmpSubType).getD this.subProtocol } := by
  cases p with
  | nil => exact absurd rfl h
  | cons first rest =>
    simp only [assignProtocol, nameOf, suffixOf]
    split <;> simp_all

theorem recognised_iff (undef : Undefined) {o : Fields} {s : String}
    (supplied : o.lookup "protocol" = some (.string s)) (hne : s ≠ "") :
    Recognised s.toList ↔ (ruleOf undef o).protocol ≠ 0 ∧
      (AsksType s.toList → (ruleOf undef o).subProtocol ≠ 0) := by
  have hfield : stringField o "protocol" "" = s := by rw [stringField, supplied]
  have hlist : s.toList ≠ [] := fun h => hne (String.toList_injective h)
  rw [ruleOf, hfield, assignProtocol_parts hlist, getProtocolType_ne_zero_iff]
  constructor
  · intro h
    refine ⟨h.name, fun hasks => ?_⟩
    obtain ⟨suffix, hsuffix⟩ := Option.ne_none_iff_exists'.mp hasks.2
    simp only [hsuffix, Option.map_some, Option.getD_some]
    exact (getIcmpSubType_ne_zero_iff suffix).mpr (h.icmpType hasks.1 suffix hsuffix)
  · rintro ⟨hname, htype⟩
    refine ⟨hname, fun hicmp suffix hsuffix => ?_⟩
    have hasked := htype ⟨hicmp, Option.ne_none_iff_exists'.mpr ⟨suffix, hsuffix⟩⟩
    have hsome : suffixOf s.toList = some suffix := hsuffix
    simp only [hsome, Option.map_some, Option.getD_some] at hasked
    exact (getIcmpSubType_ne_zero_iff suffix).mp hasked

theorem kept_iff (undef : Undefined) (o : Fields) :
    Kept undef o ↔ ¬ Widened o (ruleOf undef o) := by
  have hsrcIp : (ruleOf undef o).srcIp = inetAddr (stringField o "src_ip" "0.0.0.0").toList :=
    congrArg Rule.srcIp (assignProtocol_frame _ _)
  have hdestIp : (ruleOf undef o).destIp = inetAddr (stringField o "target_ip" "0.0.0.0").toList :=
    congrArg Rule.destIp (assignProtocol_frame _ _)
  have hsrcPort : (ruleOf undef o).srcPort = ntohs (integerField undef o "src_port" 0).toUInt16 :=
    congrArg Rule.srcPort (assignProtocol_frame _ _)
  have hdestPort : (ruleOf undef o).destPort =
      ntohs (integerField undef o "target_port" 0).toUInt16 :=
    congrArg Rule.destPort (assignProtocol_frame _ _)
  constructor
  · intro kept hwidened
    cases hwidened with
    | srcIp v supplied bad wildcard => exact bad_address_ne_zero supplied bad (hsrcIp ▸ wildcard)
    | destIp v supplied bad wildcard => exact bad_address_ne_zero supplied bad (hdestIp ▸ wildcard)
    | srcPort v supplied bad wildcard =>
      exact (port_eq_zero_iff undef supplied).mp (hsrcPort ▸ wildcard) (kept.srcPort v supplied bad)
    | destPort v supplied bad wildcard =>
      exact (port_eq_zero_iff undef supplied).mp (hdestPort ▸ wildcard)
        (kept.destPort v supplied bad)
    | protocol s supplied bad wildcard =>
      have hread := (recognised_iff undef supplied bad.ne_empty).mp (kept.protocol s supplied bad)
      exact hread.1 wildcard
    | icmpType s supplied bad asked wildcard =>
      have hread := (recognised_iff undef supplied bad.ne_empty).mp (kept.protocol s supplied bad)
      exact hread.2 asked wildcard
    | type v supplied bad list =>
      exact (type_lt_iff undef supplied).mp list (kept.type v supplied bad)
  · intro hnot
    refine ⟨fun v supplied bad => ?_, fun v supplied bad => ?_, fun s supplied bad => ?_,
      fun v supplied bad => ?_⟩
    · by_contra hlost
      have hzero := (port_eq_zero_iff undef supplied).mpr hlost
      exact hnot (.srcPort v supplied bad (hsrcPort.trans hzero))
    · by_contra hlost
      have hzero := (port_eq_zero_iff undef supplied).mpr hlost
      exact hnot (.destPort v supplied bad (hdestPort.trans hzero))
    · refine (recognised_iff undef supplied bad.ne_empty).mpr
        ⟨fun hzero => ?_, fun asked hzero => ?_⟩
      · exact hnot (.protocol s supplied bad hzero)
      · exact hnot (.icmpType s supplied bad asked hzero)
    · by_contra hlost
      exact hnot (.type v supplied bad ((type_lt_iff undef supplied).mpr hlost))

/-! ### What a load makes of malformed objects -/

theorem not_refused (undef : Undefined) (m : RuleManager) (arr : List Value) :
    ¬ Refused undef m arr := by
  rintro ⟨ret, hret, hnegative, -⟩
  rcases loadConfigFromJson_cases undef arr m with ⟨rules, rule, -, hload⟩ | ⟨-, later, hload, -⟩
  · rw [hload] at hret
    cases hret
    exact absurd hnegative (by decide)
  · rw [hload] at hret
    cases hret

theorem throws_iff (undef : Undefined) (m : RuleManager) (arr : List Value) :
    Throws undef m arr ↔ ∃ v ∈ arr, v.isObject = false := by
  rw [← rulesOf_eq_none_iff undef, Throws]
  rcases loadConfigFromJson_cases undef arr m with
    ⟨rules, rule, hrules, hload⟩ | ⟨hnone, later, hload, hmanager⟩
  · simp [hload, hrules]
  · simp [hload, hnone, hmanager]

theorem notWidened_iff (undef : Undefined) (m : RuleManager) (arr : List Value) (o : Fields) :
    NotWidened undef m arr o ↔ (∃ v ∈ arr, v.isObject = false) ∨
      (NeitherList undef o ∨ NeverInTime undef o) ∧ Kept undef o := by
  rw [neitherList_iff, neverInTime_iff, ← harmless_iff, kept_iff, ← throws_iff undef m]
  constructor
  · intro h
    cases h with
    | refused h => exact absurd h (not_refused undef m arr)
    | thrown h => exact Or.inl h
    | harmless h => exact Or.inr (h zeroRule 0 _ (parseFromJson_object undef zeroRule o))
  · rintro (h | h)
    · exact .thrown h
    · refine .harmless fun this ret r hparsed => ?_
      rw [parseFromJson_object] at hparsed
      cases hparsed
      exact h

/-- No load of an array has a negative result, and it throws over an element that is no
object. Otherwise malformed objects are kept from doing harm only by accident. -/
theorem malformed_harmless_iff (undef : Undefined) (m : RuleManager) (arr : List Value) :
    ¬ Refused undef m arr ∧ (Throws undef m arr ↔ ∃ v ∈ arr, v.isObject = false) ∧
    ((∀ o, .object o ∈ arr → Malformed o → NotWidened undef m arr o) ↔
      (∃ v ∈ arr, v.isObject = false) ∨
      ∀ o, .object o ∈ arr → Malformed o →
        (NeitherList undef o ∨ NeverInTime undef o) ∧ Kept undef o) := by
  refine ⟨not_refused undef m arr, throws_iff undef m arr, ?_⟩
  simp only [notWidened_iff]
  by_cases hthrows : ∃ v ∈ arr, v.isObject = false
  · exact ⟨fun _ => Or.inl hthrows, fun _ _ _ _ => Or.inl hthrows⟩
  · constructor
    · intro h
      exact Or.inr (fun o ho malformed => (h o ho malformed).resolve_left hthrows)
    · intro h o ho malformed
      exact Or.inr (h.resolve_left hthrows o ho malformed)

def unknownProtocol : Fields := [("protocol", .string "tpc")]

/-- A type that is truncated to that of the monitor list. -/
def distantType : Fields := [("type", .number 258)]

/-- A misspelt protocol name is loaded as the rule that refuses everything, and a type out of
range as a list that the object does not name. -/
theorem unknownProtocol_widened :
    Malformed unknownProtocol ∧
    RuleManager.loadConfigFromJson zeros ⟨[], true⟩ (.array [.object unknownProtocol]) =
      .ok (0, ⟨[refuseAll], true⟩) ∧
    (judge (Clock.fixed ReadingInstants.utc 0) true [refuseAll]
      ⟨Memory.ofBytes ReadingInstants.dnsPacket⟩ 0).1 = false ∧
    ¬ NotWidened zeros ⟨[], true⟩ [.object unknownProtocol] unknownProtocol ∧
    Malformed distantType ∧ (ruleOf zeros distantType).type = typeMonitorList ∧
    ¬ NotWidened zeros ⟨[], true⟩ [.object distantType] distantType := by
  have hname : "tpc" ∉ protocolNames := by decide
  have hrules : rulesOf zeros [.object unknownProtocol] = some [refuseAll] := by decide +kernel
  have hnumber : ¬ IsListType (.number 258) := by
    rintro ⟨n, hn, heq⟩
    have hcast : (258 : ℚ) = n := Value.number.inj heq
    have hsame : (258 : ℕ) = n := by exact_mod_cast hcast
    omega
  have hmonitor : (ruleOf zeros distantType).type = typeMonitorList := by decide +kernel
  have hobjects : ∀ o : Fields, ¬ ∃ v ∈ [Value.object o], v.isObject = false := by
    simp [Value.isObject]
  refine ⟨.protocol _ rfl ⟨"tpc", rfl, by decide, hname⟩, ?_, by decide, ?_,
    .type _ rfl hnumber, hmonitor, ?_⟩
  · rw [RuleManager.loadConfigFromJson_array, hrules]
  · rw [notWidened_iff]
    rintro (hthrows | ⟨⟨d, hlookup, _⟩ | ⟨d, hlookup, _⟩, -⟩)
    · exact hobjects _ hthrows
    · cases hlookup
    · cases hlookup
  · rw [notWidened_iff, kept_iff]
    rintro (hthrows | ⟨-, hkept⟩)
    · exact hobjects _ hthrows
    · exact hkept (.type _ rfl hnumber (hmonitor ▸ by decide))

end MalformedRules
