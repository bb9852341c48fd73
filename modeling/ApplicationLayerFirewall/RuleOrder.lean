import ApplicationLayerFirewall.ReadingInstants

/-!
# Rules and rule lists by generality

A rule is at least as general as another if it leaves each field open or shares
it, and passes at every time at which the other does. Generality is compared
field by field, so it holds across protocols as well: a rule without protocol
consults more fields on a given packet, but none that the narrower rule has left
open on it.
-/

namespace RuleOrder

open ByteOrder PacketReading RuleMatching RuleVerdict AccessPolicy

/-- `a` is at least as general as `b`. -/
structure General (a b : Rule) : Prop where
  protocol : a.protocol = 0 ∨ a.protocol = b.protocol
  srcIp : a.srcIp = 0 ∨ a.srcIp = b.srcIp
  destIp : a.destIp = 0 ∨ a.destIp = b.destIp
  srcPort : a.srcPort = 0 ∨ a.srcPort = b.srcPort
  destPort : a.destPort = 0 ∨ a.destPort = b.destPort
  subProtocol : a.subProtocol = 0 ∨ a.subProtocol = b.subProtocol
  timePass : a.timePass &&& b.timePass = b.timePass

instance (a b : Rule) : Decidable (General a b) :=
  decidable_of_iff
    ((a.protocol = 0 ∨ a.protocol = b.protocol) ∧ (a.srcIp = 0 ∨ a.srcIp = b.srcIp) ∧
      (a.destIp = 0 ∨ a.destIp = b.destIp) ∧ (a.srcPort = 0 ∨ a.srcPort = b.srcPort) ∧
      (a.destPort = 0 ∨ a.destPort = b.destPort) ∧
      (a.subProtocol = 0 ∨ a.subProtocol = b.subProtocol) ∧
      a.timePass &&& b.timePass = b.timePass)
    ⟨fun ⟨protocol, srcIp, destIp, srcPort, destPort, subProtocol, timePass⟩ =>
        ⟨protocol, srcIp, destIp, srcPort, destPort, subProtocol, timePass⟩,
      fun h => ⟨h.protocol, h.srcIp, h.destIp, h.srcPort, h.destPort, h.subProtocol, h.timePass⟩⟩

theorem General.refl (r : Rule) : General r r where
  protocol := Or.inr rfl
  srcIp := Or.inr rfl
  destIp := Or.inr rfl
  srcPort := Or.inr rfl
  destPort := Or.inr rfl
  subProtocol := Or.inr rfl
  timePass := UInt32.and_self

/-- A field that is open or shared is met wherever the other rule's field is met. -/
theorem field_met {α β : Type} [OfNat α 0] {a b : α} {w : β} (number : α → β)
    (general : a = 0 ∨ a = b) (met : b = 0 ∨ w = number b) : a = 0 ∨ w = number a := by
  rcases general with hopen | rfl
  · exact Or.inl hopen
  · exact met

/-- A mask passes whenever one of its submasks does. -/
theorem timePasses_of_submask {a b : UInt32} (sub : a &&& b = b) {now : Tm}
    (h : TimePasses b now) : TimePasses a now := by
  intro hzero
  apply h
  calc b &&& (getTimePass now).data
      = b &&& a &&& (getTimePass now).data := by rw [UInt32.and_comm b a, sub]
    _ = b &&& (a &&& (getTimePass now).data) := UInt32.and_assoc b a _
    _ = 0 := by rw [hzero, UInt32.and_zero]

/-- What a rule matches, a more general one matches. -/
theorem General.matches {a b : Rule} (general : General a b) {now : Tm} {packet : Memory}
    (h : b.Matches now packet) : a.Matches now packet where
  header :=
    { protocol := field_met id general.protocol h.header.protocol
      srcIp := field_met ntohl general.srcIp h.header.srcIp
      destIp := field_met ntohl general.destIp h.header.destIp }
  time := timePasses_of_submask general.timePass h.time
  transport :=
    { srcPort := fun hports => field_met ntohs general.srcPort (h.transport.srcPort hports)
      destPort := fun hports => field_met ntohs general.destPort (h.transport.destPort hports)
      subProtocol := fun hicmp =>
        field_met id general.subProtocol (h.transport.subProtocol hicmp) }

/-! ### Rule lists -/

/-- Every white rule is covered by one of `others`, and every black rule of `others`
by one of `rules`. -/
structure Stricter (rules others : RuleCollection) : Prop where
  white : ∀ r ∈ rules, r.type = typeWhiteList →
    ∃ s ∈ others, s.type = typeWhiteList ∧ General s r
  black : ∀ s ∈ others, s.type = typeBlackList →
    ∃ r ∈ rules, r.type = typeBlackList ∧ General r s

/-- The two lists have the same white and the same black rules. -/
structure SameRules (rules others : RuleCollection) : Prop where
  white : ∀ r : Rule, r.type = typeWhiteList → (r ∈ rules ↔ r ∈ others)
  black : ∀ r : Rule, r.type = typeBlackList → (r ∈ rules ↔ r ∈ others)

theorem SameRules.symm {rules others : RuleCollection} (same : SameRules rules others) :
    SameRules others rules where
  white := fun r htype => (same.white r htype).symm
  black := fun r htype => (same.black r htype).symm

/-- Keeping the white rules and adding no black one. -/
theorem stricter_of_mem {rules others : RuleCollection}
    (white : ∀ r ∈ rules, r.type = typeWhiteList → r ∈ others)
    (black : ∀ r ∈ others, r.type = typeBlackList → r ∈ rules) : Stricter rules others where
  white := fun r hr htype => ⟨r, white r hr htype, htype, General.refl r⟩
  black := fun r hr htype => ⟨r, black r hr htype, htype, General.refl r⟩

theorem SameRules.stricter {rules others : RuleCollection} (same : SameRules rules others) :
    Stricter rules others :=
  stricter_of_mem (fun r hr htype => (same.white r htype).mp hr)
    (fun r hr htype => (same.black r htype).mpr hr)

theorem mem_around {s r : Rule} {before after : RuleCollection} :
    s ∈ before ++ r :: after ↔ s = r ∨ s ∈ before ++ after := by
  rw [List.mem_append, List.mem_cons, List.mem_append, or_left_comm]

/-- Putting in a rule that is not black. -/
theorem stricter_insert {r : Rule} (htype : r.type ≠ typeBlackList)
    (before after : RuleCollection) :
    Stricter (before ++ after) (before ++ r :: after) := by
  apply stricter_of_mem
  · intro s hs _
    exact mem_around.mpr (Or.inr hs)
  · intro s hs hblack
    rcases mem_around.mp hs with rfl | hs
    · exact absurd hblack htype
    · exact hs

/-- Leaving out a rule that is not white. -/
theorem stricter_remove {r : Rule} (htype : r.type ≠ typeWhiteList)
    (before after : RuleCollection) :
    Stricter (before ++ r :: after) (before ++ after) := by
  apply stricter_of_mem
  · intro s hs hwhite
    rcases mem_around.mp hs with rfl | hs
    · exact absurd hwhite htype
    · exact hs
  · intro s hs _
    exact mem_around.mpr (Or.inr hs)

/-- Replacing a black rule by a broader one. -/
theorem stricter_broaden {wide narrow : Rule} (htype : wide.type = typeBlackList)
    (general : General wide narrow) (before after : RuleCollection) :
    Stricter (before ++ wide :: after) (before ++ narrow :: after) where
  white := by
    intro r hr hwhite
    rcases mem_around.mp hr with rfl | hr
    · rw [htype] at hwhite
      cases hwhite
    · exact ⟨r, mem_around.mpr (Or.inr hr), hwhite, General.refl r⟩
  black := by
    intro s hs hblack
    rcases mem_around.mp hs with rfl | hs
    · exact ⟨wide, mem_around.mpr (Or.inl rfl), htype, general⟩
    · exact ⟨s, mem_around.mpr (Or.inr hs), hblack, General.refl s⟩

/-! ### Verdicts -/

/-- Whether a list accepts a packet at an instant. -/
def Accepts (localtime : TimeT → Tm) (now : TimeT) (rules : RuleCollection)
    (pe : PacketExtractor) : Prop :=
  (check (Clock.fixed localtime now) rules pe 0).1 = true

theorem accepts_of_stricter {rules others : RuleCollection} (h : Stricter rules others)
    (localtime : TimeT → Tm) (now : TimeT) (pe : PacketExtractor)
    (haccepts : Accepts localtime now rules pe) : Accepts localtime now others pe := by
  rw [Accepts, check_iff_policyAt] at haccepts ⊢
  refine ofRules_permitted_mono ?_ ?_ haccepts
  · intro r hr heffect
    obtain ⟨s, hs, htype, general⟩ := h.white r hr ((effect_eq_white_iff r).mp heffect)
    exact ⟨s, hs, (effect_eq_white_iff s).mpr htype, fun _ hmatch => general.matches hmatch⟩
  · intro s hs heffect
    obtain ⟨r, hr, htype, general⟩ := h.black s hs ((effect_eq_black_iff s).mp heffect)
    exact ⟨r, hr, (effect_eq_black_iff r).mpr htype, fun _ hmatch => general.matches hmatch⟩

/-- Verdicts follow the order of the rule lists. So they depend on the sets of white
and black rules alone, a white rule more or a black rule less never blocks more, and
a broader black rule never lets more through. -/
theorem accepts_ordered (localtime : TimeT → Tm) (now : TimeT) (pe : PacketExtractor) :
    (∀ rules others, Stricter rules others →
      Accepts localtime now rules pe → Accepts localtime now others pe) ∧
    (∀ rules others, SameRules rules others →
      (Accepts localtime now rules pe ↔ Accepts localtime now others pe)) ∧
    (∀ (r : Rule) (before after : RuleCollection), r.type ≠ typeBlackList →
      Accepts localtime now (before ++ after) pe →
        Accepts localtime now (before ++ r :: after) pe) ∧
    (∀ (r : Rule) (before after : RuleCollection), r.type ≠ typeWhiteList →
      Accepts localtime now (before ++ r :: after) pe →
        Accepts localtime now (before ++ after) pe) ∧
    (∀ (wide narrow : Rule) (before after : RuleCollection), wide.type = typeBlackList →
      General wide narrow →
      Accepts localtime now (before ++ wide :: after) pe →
        Accepts localtime now (before ++ narrow :: after) pe) := by
  refine ⟨fun rules others h => accepts_of_stricter h localtime now pe, ?_, ?_, ?_, ?_⟩
  · intro rules others same
    exact ⟨accepts_of_stricter same.stricter localtime now pe,
      accepts_of_stricter same.symm.stricter localtime now pe⟩
  · intro r before after htype
    exact accepts_of_stricter (stricter_insert htype before after) localtime now pe
  · intro r before after htype
    exact accepts_of_stricter (stricter_remove htype before after) localtime now pe
  · intro wide narrow before after hwide general
    exact accepts_of_stricter (stricter_broaden hwide general before after) localtime now pe

def blockAll : Rule := ⟨0, 0, 0, 0, 0xffffffff, 0, 0, 0⟩

/-- Port 53 at any address and time, and at one address at one o'clock. -/
def allowPort53 : Rule := ⟨0x3500, 0, 0, 0, 0xffffffff, 1, 17, 0⟩

def allowPort53Narrow : Rule := ⟨0x3500, 0, 0x0100000a, 0, 2, 1, 17, 0⟩

theorem port53_ordered :
    Accepts ReadingInstants.utc 3600 [allowPort53Narrow, blockAll]
        ⟨Memory.ofBytes ReadingInstants.dnsPacket⟩ →
      Accepts ReadingInstants.utc 3600 [blockAll, allowPort53]
        ⟨Memory.ofBytes ReadingInstants.dnsPacket⟩ :=
  (accepts_ordered ReadingInstants.utc 3600 ⟨Memory.ofBytes ReadingInstants.dnsPacket⟩).1 _ _
    ⟨by decide, by decide⟩

end RuleOrder
