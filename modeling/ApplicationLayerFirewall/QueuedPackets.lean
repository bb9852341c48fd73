import ApplicationLayerFirewall.Netlink

/-!
# The datagrams of queued packets

What the kernel sends for one queued packet: a message of attributes in any
order, one of them with the packet id and at most one with the payload. Every
attribute is padded, but a payload at the end may stand without its padding.
Handling such a datagram whole is one call of `onPacket` on the payload.
-/

namespace QueuedPackets

open ByteOrder PacketReading Netlink

/-! ### Attributes -/

structure Attribute where
  type : UInt16
  data : List UInt8
  pad : List UInt8
  small : data.length + 4 < 65536

namespace Attribute

def flavor (a : Attribute) : Nat := a.type.toNat % 32768

def bytes (a : Attribute) : List UInt8 :=
  bytes16 (UInt16.ofNat (a.data.length + 4)) ++ (bytes16 a.type ++ (a.data ++ a.pad))

def Padded (a : Attribute) : Prop := (a.data.length + a.pad.length) % 4 = 0 ∧ a.pad.length < 4

theorem bytes_length (a : Attribute) : a.bytes.length = a.data.length + 4 + a.pad.length := by
  simp [bytes, bytes16]
  omega

theorem nfaAlign_of_padded {a : Attribute} (h : a.Padded) :
    nfaAlign (a.data.length + 4) = a.bytes.length := by
  obtain ⟨hmod, hpad⟩ := h
  rw [bytes_length, nfaAlign]
  omega

/-- What the attribute macros read from an encoded attribute. -/
theorem read {a : Attribute} {m : Memory} {off : Nat} (h : m.Holds off a.bytes) :
    nfaLen m off = a.data.length + 4 ∧ nfaType m off = a.flavor ∧ m.Holds (off + 4) a.data := by
  have hsmall := a.small
  have htype := h.append_right.append_left
  have hdata := h.append_right.append_right.append_left
  refine ⟨?_, ?_, hdata⟩
  · rw [nfaLen, load16_of_holds h.append_left, UInt16.toNat_ofNat']
    omega
  · have hload : load16 m (off + 2) = a.type := load16_of_holds htype
    rw [nfaType, hload, flavor]

end Attribute

def encode (attrs : List Attribute) : List UInt8 := attrs.flatMap Attribute.bytes

def WellPadded : List Attribute → Prop
  | [] => True
  | [a] => a.Padded ∨ (a.flavor = nfqaPayload ∧ a.pad = [])
  | a :: b :: rest => a.Padded ∧ WellPadded (b :: rest)

/-- Only a payload may lack its padding. -/
theorem padded_of_mem {attrs : List Attribute} (padded : WellPadded attrs) {a : Attribute}
    (ha : a ∈ attrs) (hflavor : a.flavor ≠ nfqaPayload) : a.Padded := by
  induction attrs with
  | nil => cases ha
  | cons b rest ih =>
    cases rest with
    | nil =>
      rw [List.mem_singleton.mp ha] at hflavor ⊢
      exact padded.resolve_right (fun h => hflavor h.1)
    | cons c rest =>
      obtain ⟨hpadded, hlater⟩ := padded
      rcases List.mem_cons.mp ha with rfl | hmem
      · exact hpadded
      · exact ih hlater hmem

theorem encode_cons_length (a : Attribute) (rest : List Attribute) :
    (encode (a :: rest)).length = a.bytes.length + (encode rest).length := by
  simp [encode]

theorem length_le_encode {attrs : List Attribute} {a : Attribute} (ha : a ∈ attrs) :
    a.bytes.length ≤ (encode attrs).length := by
  induction attrs with
  | nil => cases ha
  | cons b rest ih =>
    rw [encode_cons_length]
    rcases List.mem_cons.mp ha with rfl | hmem
    · exact Nat.le_add_right _ _
    · have hrest := ih hmem
      omega

/-- Two attributes of different flavors stand apart. -/
theorem length_add_le_encode {attrs : List Attribute} {a b : Attribute} (ha : a ∈ attrs)
    (hb : b ∈ attrs) (hflavor : a.flavor ≠ b.flavor) :
    a.bytes.length + b.bytes.length ≤ (encode attrs).length := by
  induction attrs with
  | nil => cases ha
  | cons c rest ih =>
    rw [encode_cons_length]
    rcases List.mem_cons.mp ha with rfl | harest
    · rcases List.mem_cons.mp hb with rfl | hbrest
      · exact False.elim (hflavor rfl)
      · have hrest := length_le_encode hbrest
        omega
    · rcases List.mem_cons.mp hb with rfl | hbrest
      · have hrest := length_le_encode harest
        omega
      · have hrest := ih harest hbrest
        omega

/-- Where the last attribute of a flavor starts. -/
def locate (flavor : Nat) : Nat → List Attribute → Option Nat
  | _, [] => none
  | off, a :: rest =>
    (locate flavor (off + a.bytes.length) rest).or (if a.flavor = flavor then some off else none)

theorem locate_eq_none_iff (flavor off : Nat) (attrs : List Attribute) :
    locate flavor off attrs = none ↔ ∀ a ∈ attrs, a.flavor ≠ flavor := by
  induction attrs generalizing off with
  | nil => simp [locate]
  | cons a rest ih =>
    rw [locate, Option.or_eq_none_iff, ih]
    simp [and_comm]

/-- The attribute that was located, with its place inside the message. -/
theorem locate_spec {flavor off p : Nat} {attrs : List Attribute} {m : Memory}
    (hloc : locate flavor off attrs = some p) (h : m.Holds off (encode attrs)) :
    ∃ a ∈ attrs, a.flavor = flavor ∧ m.Holds p a.bytes ∧ off ≤ p ∧
      p + a.bytes.length ≤ off + (encode attrs).length := by
  induction attrs generalizing off with
  | nil => cases hloc
  | cons a rest ih =>
    have hlen := encode_cons_length a rest
    have hfirst : m.Holds off a.bytes := h.append_left
    have hrest : m.Holds (off + a.bytes.length) (encode rest) := h.append_right
    rw [locate] at hloc
    cases hlater : locate flavor (off + a.bytes.length) rest with
    | some q =>
      rw [hlater, Option.some_or] at hloc
      cases hloc
      obtain ⟨b, hb, hflavor, hbytes, hlo, hhi⟩ := ih hlater hrest
      exact ⟨b, List.mem_cons_of_mem a hb, hflavor, hbytes, by omega, by omega⟩
    | none =>
      rw [hlater, Option.none_or] at hloc
      split_ifs at hloc with hflavor
      cases hloc
      exact ⟨a, List.mem_cons_self, hflavor, hfirst, Nat.le_refl _, by omega⟩

theorem checkAttributesLoop_done (m : Memory) (fuel off : Nat) {attrlen : Int} (nfa : Attrs)
    (h : attrlen ≤ 0) : checkAttributesLoop m fuel off attrlen nfa = nfa := by
  cases fuel with
  | zero => rfl
  | succ fuel =>
    rw [checkAttributesLoop, if_neg]
    rintro ⟨hpos, _⟩
    omega

/-- One round over an encoded attribute. -/
theorem checkAttributesLoop_step {m : Memory} {off : Nat} {a : Attribute} {attrlen : Int}
    (h : m.Holds off a.bytes) (hlen : (a.data.length + 4 : Nat) ≤ attrlen)
    (fuel : Nat) (nfa : Attrs) :
    checkAttributesLoop m (fuel + 1) off attrlen nfa =
      checkAttributesLoop m fuel (off + nfaAlign (a.data.length + 4))
        (attrlen - nfaAlign (a.data.length + 4))
        (if a.flavor = 0 ∨ nfqaMax < a.flavor then nfa
          else Function.update nfa a.flavor (some off)) := by
  obtain ⟨hlength, htype, _⟩ := Attribute.read h
  rw [checkAttributesLoop, hlength, htype, if_pos]
  exact ⟨by omega, by omega, hlen⟩

/-- The loop finds the last attribute of every flavor it knows. -/
theorem checkAttributesLoop_encode {m : Memory} {flavor : Nat} (hlo : 0 < flavor)
    (hhi : flavor ≤ nfqaMax) {attrs : List Attribute} (padded : WellPadded attrs) {off fuel : Nat}
    (h : m.Holds off (encode attrs)) (hfuel : (encode attrs).length ≤ fuel) (nfa : Attrs) :
    checkAttributesLoop m fuel off (encode attrs).length nfa flavor =
      (locate flavor off attrs).or (nfa flavor) := by
  induction attrs generalizing off fuel nfa with
  | nil =>
    have hdone := checkAttributesLoop_done m fuel off nfa (Int.le_refl 0)
    exact congrFun hdone flavor
  | cons a rest ih =>
    have hbytes := a.bytes_length
    have hlen := encode_cons_length a rest
    have hrest : m.Holds (off + a.bytes.length) (encode rest) := h.append_right
    obtain ⟨fuel, rfl⟩ : ∃ k, fuel = k + 1 := ⟨fuel - 1, by omega⟩
    have hone : (if a.flavor = 0 ∨ nfqaMax < a.flavor then nfa
        else Function.update nfa a.flavor (some off)) flavor =
          (if a.flavor = flavor then some off else none).or (nfa flavor) := by
      by_cases hsame : a.flavor = flavor
      · have hknown : ¬ (flavor = 0 ∨ nfqaMax < flavor) := by omega
        rw [hsame, if_neg hknown, Function.update_self, if_pos rfl, Option.some_or]
      · rw [if_neg hsame, Option.none_or]
        split_ifs
        · rfl
        · exact Function.update_of_ne (Ne.symm hsame) _ _
    rw [checkAttributesLoop_step h.append_left (by omega), locate, Option.or_assoc, ← hone]
    cases rest with
    | nil =>
      -- The alignment may lead past the end of an unpadded payload.
      have hend : ((encode [a]).length : Int) - nfaAlign (a.data.length + 4) ≤ 0 := by
        have hnil : (encode ([] : List Attribute)).length = 0 := rfl
        rcases padded with hpadded | ⟨_, hbare⟩
        · rw [Attribute.nfaAlign_of_padded hpadded]
          omega
        · rw [hbare, List.length_nil] at hbytes
          rw [nfaAlign]
          omega
      rw [checkAttributesLoop_done _ _ _ _ hend]
      rfl
    | cons b rest =>
      obtain ⟨hpadded, hlater⟩ := padded
      rw [Attribute.nfaAlign_of_padded hpadded]
      have hleft : ((encode (a :: b :: rest)).length : Int) - a.bytes.length =
          (encode (b :: rest)).length := by omega
      rw [hleft]
      exact ih hlater hrest (by omega) _

/-! ### Messages -/

/-- One queued packet as a message on queue 0. `header` is the attribute with the
packet id in network order, and `payload` the one with the packet, if present. -/
structure QueuedPacket where
  id : UInt32
  flags : UInt16
  seq : UInt32
  pid : UInt32
  family : UInt8
  version : UInt8
  attrs : List Attribute
  header : Attribute
  payload : Option Attribute
  padded : WellPadded attrs
  headers : attrs.filter (fun a => a.flavor = nfqaPacketHdr) = [header]
  headerSize : 7 ≤ header.data.length
  headerId : header.data.take 4 = bytes32 (ntohl id)
  payloads : attrs.filter (fun a => a.flavor = nfqaPayload) = payload.toList
  small : 20 + (encode attrs).length < 4294967296

namespace QueuedPacket

def size (q : QueuedPacket) : Nat := 20 + (encode q.attrs).length

def bytes (q : QueuedPacket) : List UInt8 :=
  bytes32 (UInt32.ofNat q.size) ++ (bytes16 0x300 ++ (bytes16 q.flags ++ (bytes32 q.seq ++
    (bytes32 q.pid ++ ([q.family, q.version] ++ (bytes16 0 ++ encode q.attrs))))))

theorem bytes_length (q : QueuedPacket) : q.bytes.length = q.size := by
  simp [bytes, bytes16, bytes32, size]
  omega

/-- Where the payload bytes start. -/
def payloadStart (q : QueuedPacket) : Option Nat :=
  (locate nfqaPayload 20 q.attrs).map (· + 4)

theorem fields {q : QueuedPacket} {m : Memory} (h : m.Holds 0 q.bytes) :
    nlmsgLen m = UInt32.ofNat q.size ∧ nlmsgType m = 0x300 ∧ resId m = 0 ∧
      m.Holds 20 (encode q.attrs) := by
  have htype := h.append_right
  have htail := htype.append_right.append_right.append_right.append_right.append_right
  exact ⟨load32_of_holds h.append_left, load16_of_holds htype.append_left,
    load16_of_holds htail.append_left, htail.append_right⟩

theorem mem_header {q : QueuedPacket} {a : Attribute} (ha : a ∈ q.attrs)
    (hflavor : a.flavor = nfqaPacketHdr) : a = q.header := by
  have hmem : a ∈ q.attrs.filter (fun a => a.flavor = nfqaPacketHdr) :=
    List.mem_filter.mpr ⟨ha, decide_eq_true hflavor⟩
  rw [q.headers] at hmem
  exact List.mem_singleton.mp hmem

theorem header_mem (q : QueuedPacket) :
    q.header ∈ q.attrs ∧ q.header.flavor = nfqaPacketHdr := by
  have hmem : q.header ∈ q.attrs.filter (fun a => a.flavor = nfqaPacketHdr) := by
    rw [q.headers]
    exact List.mem_singleton_self _
  obtain ⟨hattr, hflavor⟩ := List.mem_filter.mp hmem
  exact ⟨hattr, of_decide_eq_true hflavor⟩

theorem mem_payload_iff {q : QueuedPacket} {a : Attribute} :
    q.payload = some a ↔ a ∈ q.attrs ∧ a.flavor = nfqaPayload := by
  have hmem : a ∈ q.attrs.filter (fun a => a.flavor = nfqaPayload) ↔ q.payload = some a := by
    rw [q.payloads, Option.mem_toList]
  rw [← hmem, List.mem_filter, decide_eq_true_iff]

theorem payloadStart_eq_none_iff (q : QueuedPacket) : q.payloadStart = none ↔ q.payload = none := by
  rw [payloadStart, Option.map_eq_none_iff, locate_eq_none_iff]
  constructor
  · intro hnone
    cases hpayload : q.payload with
    | none => rfl
    | some a =>
      obtain ⟨ha, hflavor⟩ := mem_payload_iff.mp hpayload
      exact False.elim (hnone a ha hflavor)
  · intro hnone a ha hflavor
    rw [mem_payload_iff.mpr ⟨ha, hflavor⟩] at hnone
    cases hnone

/-- The payload bytes lie where `payloadStart` says, inside the message. -/
theorem payloadStart_spec {q : QueuedPacket} {m : Memory} (h : m.Holds 0 q.bytes) {start : Nat}
    (hstart : q.payloadStart = some start) :
    ∃ a, q.payload = some a ∧ m.Holds start a.data ∧ 24 ≤ start ∧
      start + a.data.length ≤ q.size := by
  obtain ⟨_, _, _, hattrs⟩ := fields h
  obtain ⟨p, hloc, rfl⟩ := Option.map_eq_some_iff.mp hstart
  obtain ⟨a, ha, hflavor, hbytes, hlo, hhi⟩ := locate_spec hloc hattrs
  have hlen := a.bytes_length
  refine ⟨a, mem_payload_iff.mpr ⟨ha, hflavor⟩, (Attribute.read hbytes).2.2, by omega, ?_⟩
  rw [size]
  omega

theorem header_length (q : QueuedPacket) : 12 ≤ q.header.bytes.length := by
  obtain ⟨hmem, hflavor⟩ := q.header_mem
  have hother : q.header.flavor ≠ nfqaPayload := by
    rw [hflavor]
    decide
  obtain ⟨hmod, hpad⟩ := padded_of_mem q.padded hmem hother
  have hdata := q.headerSize
  rw [Attribute.bytes_length]
  omega

/-- A message with a payload has room for both attribute headers and the id. -/
theorem size_of_payload {q : QueuedPacket} {a : Attribute} (h : q.payload = some a) :
    36 + a.data.length ≤ q.size := by
  obtain ⟨hmem, hflavor⟩ := q.header_mem
  obtain ⟨ha, hpayload⟩ := mem_payload_iff.mp h
  have hapart : q.header.flavor ≠ a.flavor := by
    rw [hflavor, hpayload]
    decide
  have htwo := length_add_le_encode hmem ha hapart
  have hheader := q.header_length
  have hdata := a.bytes_length
  rw [size]
  omega

theorem toInt_toInt32 {x : UInt32} (h : x.toNat < 2147483648) : x.toInt32.toInt = x.toNat := by
  rw [← Int32.toInt_toBitVec, UInt32.toBitVec_toInt32, BitVec.toInt_eq_toNat_of_lt]
  · rfl
  · change 2 * x.toNat < 2 ^ 32
    omega

/-- The attribute table of a whole message. -/
theorem nfnlCheckAttributes_eq {q : QueuedPacket} {m : Memory} (h : m.Holds 0 q.bytes)
    (hsize : q.size < 2147483648) {flavor : Nat} (hlo : 0 < flavor) (hhi : flavor ≤ nfqaMax) :
    nfnlCheckAttributes m flavor = locate flavor 20 q.attrs := by
  obtain ⟨hlen, _, _, hattrs⟩ := fields h
  have hheader := q.header_length
  have hroom := length_le_encode q.header_mem.1
  have htotal : q.size = 20 + (encode q.attrs).length := rfl
  have hnat : (UInt32.ofNat q.size).toNat = q.size := by
    rw [UInt32.toNat_ofNat']
    omega
  have htwenty : (20 : UInt32).toNat = 20 := rfl
  have hrest : (UInt32.ofNat q.size - 20).toNat = (encode q.attrs).length := by
    rw [UInt32.toNat_sub_of_le, hnat, htwenty]
    · omega
    · rw [UInt32.le_iff_toNat_le, hnat, htwenty]
      omega
  have hmore : 20 < nlmsgLen m := by
    rw [hlen, UInt32.lt_iff_toNat_lt, hnat, htwenty]
    omega
  have hattrlen : (nlmsgLen m - 20).toInt32.toInt = (encode q.attrs).length := by
    rw [hlen, toInt_toInt32 (by omega), hrest]
  rw [nfnlCheckAttributes, if_pos hmore]
  simp only [hattrlen, Int.toNat_natCast]
  rw [checkAttributesLoop_encode hlo hhi q.padded hattrs (Nat.le_refl _), Option.or_none]

/-- The id that `onPacket` reads is that of the packet. -/
theorem packetId {q : QueuedPacket} {m : Memory} (h : m.Holds 0 q.bytes) :
    ∃ ph, locate nfqaPacketHdr 20 q.attrs = some ph ∧ ntohl (load32 m (ph + 4)) = q.id := by
  obtain ⟨_, _, _, hattrs⟩ := fields h
  obtain ⟨hmem, hflavor⟩ := q.header_mem
  cases hloc : locate nfqaPacketHdr 20 q.attrs with
  | none => exact False.elim ((locate_eq_none_iff _ _ _).mp hloc _ hmem hflavor)
  | some ph =>
    obtain ⟨a, ha, haflavor, hbytes, _⟩ := locate_spec hloc hattrs
    rw [mem_header ha haflavor] at hbytes
    have hdata := (Attribute.read hbytes).2.2
    rw [← List.take_append_drop 4 q.header.data, q.headerId] at hdata
    refine ⟨ph, rfl, ?_⟩
    rw [load32_of_holds hdata.append_left, ntohl_ntohl]

/-- What handling the whole datagram of a packet sends. -/
def verdicts (judge : PacketExtractor → Bool) (m : Memory) (q : QueuedPacket) : List Verdict :=
  match q.payloadStart with
  | none => []
  | some start => [⟨q.id, judge ⟨m.advance start⟩⟩]

theorem handlePacket_eq {q : QueuedPacket} {m : Memory} (h : m.Holds 0 q.bytes)
    (hsize : q.size ≤ 1600) (judge : PacketExtractor → Bool) :
    nfqHandlePacket judge m (Int32.ofNat q.size) = (q.verdicts judge m, some 0) := by
  obtain ⟨hlen, htype, hqueue, _⟩ := fields h
  have hheader := q.header_length
  have hroom := length_le_encode q.header_mem.1
  have htotal : q.size = 20 + (encode q.attrs).length := rfl
  have hword : (Int32.ofNat q.size).toUInt32 = UInt32.ofNat q.size := Int32.toUInt32_ofNat'
  have hnat : (UInt32.ofNat q.size).toNat = q.size := by
    rw [UInt32.toNat_ofNat']
    omega
  have hmessage : PacketMessage m (Int32.ofNat q.size).toUInt32 := by
    rw [hword]
    exact ⟨hlen, by omega, by omega, htype, hqueue⟩
  obtain ⟨ph, hph, hid⟩ := packetId h
  have hhdr : nfnlCheckAttributes m nfqaPacketHdr = some ph := by
    rw [nfnlCheckAttributes_eq h (by omega) (by decide) (by decide), hph]
  have hpayload : nfnlCheckAttributes m nfqaPayload = locate nfqaPayload 20 q.attrs :=
    nfnlCheckAttributes_eq h (by omega) (by decide) (by decide)
  rw [handlePacket_of_packet hmessage, onPacket, hhdr, hpayload, verdicts, payloadStart]
  cases locate nfqaPayload 20 q.attrs with
  | none => rfl
  | some p => simp only [hid, Option.map_some]

end QueuedPacket

/-! ### The plainest datagram of a payload -/

/-- The id with the protocol number of IPv4 and the hook of local input. -/
def headerAttribute (id : UInt32) : Attribute where
  type := 1
  data := bytes32 (ntohl id) ++ [8, 0, 1]
  pad := [0]
  small := by simp [bytes32]

theorem headerAttribute_padded (id : UInt32) : (headerAttribute id).Padded := by
  simp [Attribute.Padded, headerAttribute, bytes32]

def payloadAttribute (payload : List UInt8) (small : payload.length + 4 < 65536) : Attribute where
  type := 10
  data := payload
  pad := []
  small := small

theorem plain_small (id : UInt32) (payload : List UInt8) (small : payload.length + 4 < 65536) :
    20 + (encode [headerAttribute id, payloadAttribute payload small]).length < 4294967296 := by
  simp [encode, Attribute.bytes, headerAttribute, payloadAttribute, bytes16, bytes32]
  omega

def packetOf (id : UInt32) (payload : List UInt8) (small : payload.length + 4 < 65536) :
    QueuedPacket where
  id := id
  flags := 0
  seq := 0
  pid := 0
  family := 2
  version := 0
  attrs := [headerAttribute id, payloadAttribute payload small]
  header := headerAttribute id
  payload := some (payloadAttribute payload small)
  padded := ⟨headerAttribute_padded id, Or.inr ⟨rfl, rfl⟩⟩
  headers := rfl
  headerSize := Nat.le_refl 7
  headerId := rfl
  payloads := rfl
  small := plain_small id payload small

theorem packetOf_size (id : UInt32) (payload : List UInt8) (small : payload.length + 4 < 65536) :
    (packetOf id payload small).size = 36 + payload.length := by
  simp [QueuedPacket.size, packetOf, encode, Attribute.bytes, headerAttribute, payloadAttribute,
    bytes16, bytes32]
  omega

theorem packetOf_holds {id : UInt32} {payload : List UInt8} {small : payload.length + 4 < 65536}
    {m : Memory} (h : m.Holds 0 (packetOf id payload small).bytes) : m.Holds 36 payload := by
  have hattrs : m.Holds 20 (encode [headerAttribute id, payloadAttribute payload small]) :=
    (QueuedPacket.fields h).2.2.2
  have hheader : (headerAttribute id).bytes.length = 12 := by
    simp [Attribute.bytes, headerAttribute, bytes16, bytes32]
  have hpayload := hattrs.append_right.append_left
  rw [hheader] at hpayload
  exact (Attribute.read hpayload).2.2

end QueuedPackets
