import ApplicationLayerFirewall.ReadingInstants
import ApplicationLayerFirewall.RuleJson

/-!
# What a well-formed rule object means

A well-formed object states constraints on the numeric fields of a packet. The
parser turns them into a rule in which zero stands for any value, so a stated
value keeps its meaning unless it is encoded as zero. Addresses and ports may be
zero on purpose; among the ICMP types the one of `ICMP_ECHOREPLY` is.
-/

namespace RuleMeaning

open ByteOrder InetAddress PacketReading PicoJson RuleMatching RuleJson

/-! ### Well-formed objects -/

structure Quad where
  a : UInt8
  b : UInt8
  c : UInt8
  d : UInt8

namespace Quad

def text (q : Quad) : List Char := dottedQuad q.a q.b q.c q.d

def number (q : Quad) : UInt32 := quadNumber q.a q.b q.c q.d

end Quad

/-- One of the names that the ICMP table knows, with its type. -/
abbrev IcmpName := { entry : String × UInt8 // entry ∈ icmpTable }

def echoReply : IcmpName := ⟨("ICMP_ECHOREPLY", 0), by decide⟩

inductive StatedProtocol where
  | tcp
  | udp
  | icmp
  | icmpNamed (name : IcmpName)

namespace StatedProtocol

def text : StatedProtocol → String
  | tcp => "tcp"
  | udp => "udp"
  | icmp => "icmp"
  | icmpNamed name => "icmp." ++ name.val.1

def number : StatedProtocol → UInt8
  | tcp => ipprotoTcp
  | udp => ipprotoUdp
  | icmp => ipprotoIcmp
  | icmpNamed _ => ipprotoIcmp

def icmpType : StatedProtocol → Option UInt8
  | icmpNamed name => some name.val.2
  | _ => none

end StatedProtocol

structure RuleSpec where
  srcIp : Option Quad
  destIp : Option Quad
  srcPort : Option UInt16
  destPort : Option UInt16
  type : Option (Fin 3)
  protocol : Option StatedProtocol

/-- The object is well formed and says just what the specification says. -/
structure States (o : Fields) (spec : RuleSpec) : Prop where
  srcIp : o.lookup "src_ip" = spec.srcIp.map (fun q => .string (String.ofList q.text))
  destIp : o.lookup "target_ip" = spec.destIp.map (fun q => .string (String.ofList q.text))
  srcPort : o.lookup "src_port" = spec.srcPort.map (fun n => .number n.toNat)
  destPort : o.lookup "target_port" = spec.destPort.map (fun n => .number n.toNat)
  type : o.lookup "type" = spec.type.map (fun t => .number t.val)
  protocol : o.lookup "protocol" = spec.protocol.map (fun p => .string p.text)
  timePass : o.lookup "time_pass" = none

/-- The stated addresses, of which 0.0.0.0 states nothing. -/
structure AddressConstraints (spec : RuleSpec) (packet : Memory) : Prop where
  srcIp : ∀ q ∈ spec.srcIp, q.number ≠ 0 → bigEndian32 packet 12 = q.number
  destIp : ∀ q ∈ spec.destIp, q.number ≠ 0 → bigEndian32 packet 16 = q.number

/-- The stated constraints other than that of an ICMP type. -/
structure FieldConstraints (spec : RuleSpec) (packet : Memory) : Prop where
  protocol : ∀ p ∈ spec.protocol, packet 9 = p.number
  addresses : AddressConstraints spec packet
  srcPort : packet 9 = ipprotoTcp ∨ packet 9 = ipprotoUdp →
    ∀ n ∈ spec.srcPort, n ≠ 0 → bigEndian16 packet (Rule.headerLength packet) = n
  destPort : packet 9 = ipprotoTcp ∨ packet 9 = ipprotoUdp →
    ∀ n ∈ spec.destPort, n ≠ 0 → bigEndian16 packet (Rule.headerLength packet + 2) = n

/-- Every stated constraint holds of the packet's numeric fields. -/
structure Constraints (spec : RuleSpec) (packet : Memory) : Prop where
  fields : FieldConstraints spec packet
  icmpType : ∀ p ∈ spec.protocol, ∀ t ∈ p.icmpType, packet (Rule.headerLength packet) = t

/-- What the parsed rule is able to check: not the ICMP type zero. -/
structure Enforced (spec : RuleSpec) (packet : Memory) : Prop where
  fields : FieldConstraints spec packet
  icmpType : ∀ p ∈ spec.protocol, ∀ t ∈ p.icmpType,
    t = 0 ∨ packet (Rule.headerLength packet) = t

/-! ### Fields of the parsed rule -/

/-- Comparing with a wildcard at zero is stating nothing at zero. -/
theorem wildcard_iff {α β : Type} [OfNat β 0] (number : α → β) (stated : α) (w : β) :
    (number stated = 0 ∨ w = number stated) ↔
      ∀ q ∈ some stated, number q ≠ 0 → w = number q := by
  constructor
  · rintro (hzero | hsame) q hq hne
    · cases hq
      exact absurd hzero hne
    · cases hq
      exact hsame
  · intro hall
    by_cases hzero : number stated = 0
    · exact Or.inl hzero
    · exact Or.inr (hall stated rfl hzero)

/-- A stored address compares as the stated one. -/
theorem address_iff {o : Fields} {key : String} {stated : Option Quad}
    (h : o.lookup key = stated.map (fun q => .string (String.ofList q.text))) (w : UInt32) :
    (inetAddr (stringField o key "0.0.0.0").toList = 0 ∨
        w = ntohl (inetAddr (stringField o key "0.0.0.0").toList)) ↔
      ∀ q ∈ stated, q.number ≠ 0 → w = q.number := by
  cases stated with
  | none =>
    have hzero : inetAddr "0.0.0.0".toList = 0 := by decide +kernel
    have hfield : stringField o key "0.0.0.0" = "0.0.0.0" := by
      rw [stringField, h]
      rfl
    rw [hfield, hzero]
    simp
  | some q =>
    have hfield : stringField o key "0.0.0.0" = String.ofList q.text := by
      rw [stringField, h]
      rfl
    have hstored : inetAddr (String.ofList q.text).toList = ntohl q.number := by
      rw [String.toList_ofList]
      exact inetAddr_dottedQuad q.a q.b q.c q.d
    rw [hfield, hstored, ntohl_ntohl, ntohl_eq_zero_iff]
    exact wildcard_iff Quad.number q w

/-- A stored port compares as the stated one. -/
theorem port_iff {undef : Undefined} {o : Fields} {key : String} {stated : Option UInt16}
    (h : o.lookup key = stated.map (fun n => .number n.toNat)) (w : UInt16) :
    (ntohs (integerField undef o key 0).toUInt16 = 0 ∨
        w = ntohs (ntohs (integerField undef o key 0).toUInt16)) ↔
      ∀ n ∈ stated, n ≠ 0 → w = n := by
  cases stated with
  | none =>
    have hfield : integerField undef o key 0 = 0 := by
      rw [integerField, h]
      rfl
    rw [hfield]
    simp [ntohs]
  | some n =>
    have hfield : (integerField undef o key 0).toUInt16 = n := by
      rw [integerField, h]
      exact toUInt16_natCast undef.conversions n
    rw [hfield, ntohs_ntohs, ntohs_eq_zero_iff]
    exact wildcard_iff (fun m => m) n w

theorem getIcmpSubType_name (name : IcmpName) :
    getIcmpSubType name.val.1.toList = name.val.2 := by
  have table : ∀ entry ∈ icmpTable, getIcmpSubType entry.1.toList = entry.2 := by decide
  exact table name.val name.property

/-- A known protocol string is split into the two numbers it names. -/
theorem assignProtocol_text (this : Rule) (p : StatedProtocol) :
    assignProtocol this p.text.toList =
      { this with protocol := p.number, subProtocol := p.icmpType.getD this.subProtocol } := by
  cases p with
  | tcp => rfl
  | udp => rfl
  | icmp => rfl
  | icmpNamed name =>
    have hsplit : (StatedProtocol.icmpNamed name).text.toList =
        'i' :: 'c' :: 'm' :: 'p' :: '.' :: name.val.1.toList := by
      rw [StatedProtocol.text, String.toList_append]
      rfl
    rw [hsplit, assignProtocol]
    simp only [StatedProtocol.icmpType, Option.getD_some, ← getIcmpSubType_name name]
    rfl

section Parsed

variable {undef : Undefined} {o : Fields} {spec : RuleSpec}

theorem ruleOf_protocol (states : States o spec) :
    (ruleOf undef o).protocol = (spec.protocol.map StatedProtocol.number).getD 0 ∧
      (ruleOf undef o).subProtocol = (spec.protocol.bind StatedProtocol.icmpType).getD 0 := by
  have hlookup := states.protocol
  cases hp : spec.protocol with
  | none =>
    have hfield : stringField o "protocol" "" = "" := by
      rw [stringField, hlookup, hp]
      rfl
    rw [ruleOf, hfield]
    exact ⟨rfl, rfl⟩
  | some p =>
    have hfield : stringField o "protocol" "" = p.text := by
      rw [stringField, hlookup, hp]
      rfl
    rw [ruleOf, hfield, assignProtocol_text]
    exact ⟨rfl, rfl⟩

theorem number_ne_zero (p : StatedProtocol) : p.number ≠ 0 := by
  cases p with
  | tcp => decide
  | udp => decide
  | icmp => decide
  | icmpNamed name =>
    change ipprotoIcmp ≠ 0
    decide

theorem protocol_iff (states : States o spec) (w : UInt8) :
    ((ruleOf undef o).protocol = 0 ∨ w = (ruleOf undef o).protocol) ↔
      ∀ p ∈ spec.protocol, w = p.number := by
  rw [(ruleOf_protocol states).1]
  cases spec.protocol with
  | none => simp
  | some p => simp [number_ne_zero]

/-- An ICMP type is stated together with the protocol, so it is always consulted. -/
theorem subProtocol_iff (states : States o spec) {packet : Memory}
    (hprotocol : ∀ p ∈ spec.protocol, packet 9 = p.number) (w : UInt8) :
    (packet 9 = ipprotoIcmp →
        (ruleOf undef o).subProtocol = 0 ∨ w = (ruleOf undef o).subProtocol) ↔
      ∀ p ∈ spec.protocol, ∀ t ∈ p.icmpType, t = 0 ∨ w = t := by
  rw [(ruleOf_protocol states).2]
  cases hp : spec.protocol with
  | none => simp
  | some p =>
    have hnine := hprotocol p hp
    cases p with
    | icmpNamed name =>
      have hicmp : packet 9 = ipprotoIcmp := hnine
      simp [StatedProtocol.icmpType, hicmp]
    | tcp => simp [StatedProtocol.icmpType]
    | udp => simp [StatedProtocol.icmpType]
    | icmp => simp [StatedProtocol.icmpType]

theorem addresses_iff (states : States o spec) (packet : Memory) :
    AddressConstraints spec packet ↔
      ((ruleOf undef o).srcIp = 0 ∨ bigEndian32 packet 12 = ntohl (ruleOf undef o).srcIp) ∧
      ((ruleOf undef o).destIp = 0 ∨ bigEndian32 packet 16 = ntohl (ruleOf undef o).destIp) := by
  have hsrc : (ruleOf undef o).srcIp = inetAddr (stringField o "src_ip" "0.0.0.0").toList :=
    congrArg Rule.srcIp (assignProtocol_frame _ _)
  have hdest : (ruleOf undef o).destIp =
      inetAddr (stringField o "target_ip" "0.0.0.0").toList :=
    congrArg Rule.destIp (assignProtocol_frame _ _)
  rw [hsrc, hdest, address_iff states.srcIp, address_iff states.destIp]
  exact ⟨fun h => ⟨h.srcIp, h.destIp⟩, fun h => ⟨h.1, h.2⟩⟩

/-- The parsed rule matches exactly where the enforced constraints hold. -/
theorem ruleOf_matches_iff (states : States o spec) (now : Tm) (packet : Memory) :
    (ruleOf undef o).Matches now packet ↔ Enforced spec packet := by
  have hsrcPort : (ruleOf undef o).srcPort =
      ntohs (integerField undef o "src_port" 0).toUInt16 :=
    congrArg Rule.srcPort (assignProtocol_frame _ _)
  have hdestPort : (ruleOf undef o).destPort =
      ntohs (integerField undef o "target_port" 0).toUInt16 :=
    congrArg Rule.destPort (assignProtocol_frame _ _)
  have hmask : (ruleOf undef o).timePass = 0xffffffff := by
    have h : (ruleOf undef o).timePass = (integerField undef o "time_pass" 0xffffffff).toUInt32 :=
      congrArg Rule.timePass (assignProtocol_frame _ _)
    rw [h, integerField, states.timePass]
    rfl
  have htime : TimePasses (ruleOf undef o).timePass now := by
    rw [hmask]
    exact timePasses_all now
  constructor
  · rintro ⟨header, _, transport⟩
    have hprotocol := (protocol_iff states _).mp header.protocol
    refine ⟨⟨hprotocol, (addresses_iff states packet).mpr ⟨header.srcIp, header.destIp⟩,
      ?_, ?_⟩, ?_⟩
    · intro hports
      exact (port_iff states.srcPort _).mp (hsrcPort ▸ transport.srcPort hports)
    · intro hports
      exact (port_iff states.destPort _).mp (hdestPort ▸ transport.destPort hports)
    · exact (subProtocol_iff states hprotocol _).mp transport.subProtocol
  · rintro ⟨⟨hprotocol, haddresses, hsrc, hdest⟩, htype⟩
    obtain ⟨hsrcIp, hdestIp⟩ := (addresses_iff states packet).mp haddresses
    refine ⟨⟨(protocol_iff states _).mpr hprotocol, hsrcIp, hdestIp⟩, htime, ?_, ?_, ?_⟩
    · intro hports
      rw [hsrcPort]
      exact (port_iff states.srcPort _).mpr (hsrc hports)
    · intro hports
      rw [hdestPort]
      exact (port_iff states.destPort _).mpr (hdest hports)
    · exact (subProtocol_iff states hprotocol _).mpr htype

end Parsed

/-! ### Where the meaning is lost -/

theorem icmpName_zero_iff (name : IcmpName) : name.val.2 = 0 ↔ name = echoReply := by
  have table : ∀ entry ∈ icmpTable, entry.2 = 0 → entry = ("ICMP_ECHOREPLY", 0) := by decide
  constructor
  · intro hzero
    exact Subtype.ext (table name.val name.property hzero)
  · rintro rfl
    rfl

/-- The object asks for echo replies, and the packet is another ICMP message
between the stated addresses. -/
structure LosesType (spec : RuleSpec) (packet : Memory) : Prop where
  stated : spec.protocol = some (.icmpNamed echoReply)
  icmp : packet 9 = ipprotoIcmp
  other : packet (Rule.headerLength packet) ≠ 0
  addresses : AddressConstraints spec packet

theorem enforced_iff_constraints_iff (spec : RuleSpec) (packet : Memory) :
    (Enforced spec packet ↔ Constraints spec packet) ↔ ¬ LosesType spec packet := by
  have hweaker : Constraints spec packet → Enforced spec packet := fun h =>
    ⟨h.fields, fun p hp t ht => Or.inr (h.icmpType p hp t ht)⟩
  constructor
  · rintro hsame ⟨hstated, hicmp, hother, haddresses⟩
    have hnoports : ¬ (packet 9 = ipprotoTcp ∨ packet 9 = ipprotoUdp) := by
      rw [hicmp]
      decide
    have henforced : Enforced spec packet := by
      refine ⟨⟨?_, haddresses, fun h => absurd h hnoports, fun h => absurd h hnoports⟩, ?_⟩
      · intro p hp
        rw [hstated] at hp
        cases hp
        exact hicmp
      · intro p hp t ht
        rw [hstated] at hp
        cases hp
        cases ht
        exact Or.inl rfl
    exact hother ((hsame.mp henforced).icmpType _ hstated 0 rfl)
  · intro hkept
    refine ⟨fun henforced => ⟨henforced.fields, ?_⟩, hweaker⟩
    intro p hp t ht
    by_contra hdiffers
    have hzero := (henforced.icmpType p hp t ht).resolve_right hdiffers
    cases p with
    | icmpNamed name =>
      cases ht
      have hname := (icmpName_zero_iff name).mp hzero
      subst hname
      exact hkept ⟨hp, henforced.fields.protocol _ hp, hdiffers, henforced.fields.addresses⟩
    | tcp => cases ht
    | udp => cases ht
    | icmp => cases ht

/-- The parsed rule means what its object says, except for echo replies. -/
theorem check_iff_constraints_iff {undef : Undefined} {o : Fields} {spec : RuleSpec}
    (states : States o spec) {packet : Memory} {payload : List UInt8}
    (hpayload : packet.Holds 0 payload)
    (complete : Rule.Complete (Memory.ofBytes payload) payload.length)
    {this r : Rule} {ret : Int} (parsed : Rule.parseFromJson undef this (.object o) = .ok (ret, r))
    (clock : Clock) (n : Nat) :
    ((r.check clock ⟨packet⟩ n).1 = true ↔ Constraints spec (Memory.ofBytes payload)) ↔
      ¬ LosesType spec (Memory.ofBytes payload) := by
  rw [parseFromJson_object] at parsed
  cases parsed
  have same := Rule.matches_congr complete (fun i hi => Memory.ofBytes_eq hpayload hi)
    (clock.getTime n) (ruleOf undef o)
  rw [Rule.check_fst, ← same, ruleOf_matches_iff states]
  exact enforced_iff_constraints_iff spec (Memory.ofBytes payload)

/-- An ICMP message of a type from 10.0.0.1 to 10.0.0.2. -/
def icmpPacket (type : UInt8) : List UInt8 :=
  [0x45, 0, 0, 28, 0, 0, 0, 0, 64, 1, 0, 0, 10, 0, 0, 1, 10, 0, 0, 2, type, 0, 0, 0, 0, 0, 0, 0]

theorem icmpPacket_complete (type : UInt8) :
    Rule.Complete (Memory.ofBytes (icmpPacket type)) (icmpPacket type).length := by
  have hproto : Memory.ofBytes (icmpPacket type) 9 = 1 := rfl
  have hfirst : Memory.ofBytes (icmpPacket type) 0 = 0x45 := rfl
  have hlen : Rule.headerLength (Memory.ofBytes (icmpPacket type)) = 20 := by
    rw [Rule.headerLength, hfirst]
    rfl
  have hbytes : (icmpPacket type).length = 28 := rfl
  refine ⟨by omega, fun h => ?_, fun _ => by omega⟩
  rw [hproto] at h
  exact absurd h (by decide)

def redirects : IcmpName := ⟨("ICMP_REDIRECT", 5), by decide⟩

def redirectObject : Fields :=
  [("protocol", .string "icmp.ICMP_REDIRECT"), ("src_ip", .string "10.0.0.1"),
    ("target_port", .number 53), ("type", .number 1)]

def redirectSpec : RuleSpec :=
  ⟨some ⟨10, 0, 0, 1⟩, none, none, some 53, some ⟨1, by decide⟩, some (.icmpNamed redirects)⟩

theorem redirect_states : States redirectObject redirectSpec where
  srcIp := by
    have htext : String.ofList (Quad.text ⟨10, 0, 0, 1⟩) = "10.0.0.1" := by decide +kernel
    change some (Value.string "10.0.0.1") = some (Value.string _)
    rw [htext]
  destIp := rfl
  srcPort := rfl
  destPort := rfl
  type := rfl
  protocol := rfl
  timePass := rfl

theorem redirect_constraints_iff :
    ((Rule.check (Clock.fixed ReadingInstants.utc 0) (ruleOf zeros redirectObject)
        ⟨Memory.ofBytes (icmpPacket 5)⟩ 0).1 = true ↔
      Constraints redirectSpec (Memory.ofBytes (icmpPacket 5))) ↔
      ¬ LosesType redirectSpec (Memory.ofBytes (icmpPacket 5)) :=
  check_iff_constraints_iff redirect_states (Memory.ofBytes_holds (icmpPacket 5))
    (icmpPacket_complete 5) (parseFromJson_object zeros zeroRule redirectObject)
    (Clock.fixed ReadingInstants.utc 0) 0

def echoReplyObject : Fields := [("protocol", .string "icmp.ICMP_ECHOREPLY")]

def echoReplySpec : RuleSpec := ⟨none, none, none, none, none, some (.icmpNamed echoReply)⟩

/-- A rule for echo replies matches an echo request. -/
theorem echoReply_matches_request :
    States echoReplyObject echoReplySpec ∧
    Rule.parseFromJson zeros zeroRule (.object echoReplyObject) =
      .ok (0, ruleOf zeros echoReplyObject) ∧
    (Rule.check (Clock.fixed ReadingInstants.utc 0) (ruleOf zeros echoReplyObject)
      ⟨Memory.ofBytes (icmpPacket 8)⟩ 0).1 = true ∧
    ¬ Constraints echoReplySpec (Memory.ofBytes (icmpPacket 8)) := by
  refine ⟨⟨rfl, rfl, rfl, rfl, rfl, rfl, rfl⟩, parseFromJson_object _ _ _, ?_, ?_⟩
  · decide +kernel
  · intro hall
    have htype := hall.icmpType (.icmpNamed echoReply) rfl 0 rfl
    exact absurd htype (by decide)

end RuleMeaning
