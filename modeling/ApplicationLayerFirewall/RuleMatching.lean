import ApplicationLayerFirewall.PacketReading

/-!
# Matching one rule against one packet

`leastCheck` and `check` follow the source's early returns and take the clock
reading at the point where the source calls `time(NULL)`: only after protocol
and both addresses have matched. The number of readings taken so far is passed
along. `Matches` is the declarative meaning at one instant; it speaks of the
numbers that the packet bytes spell in network order.
-/

namespace RuleMatching

open ByteOrder PacketReading

def typeBlackList : UInt8 := 0
def typeWhiteList : UInt8 := 1
def typeMonitorList : UInt8 := 2

/-- Addresses and ports are stored in network order, as the packet has them.
`timePass` is the member `data` of the union, the only one the rules use. -/
structure Rule where
  destPort : UInt16
  srcPort : UInt16
  srcIp : UInt32
  destIp : UInt32
  timePass : UInt32
  type : UInt8
  protocol : UInt8
  subProtocol : UInt8
  deriving DecidableEq

/-- The macro `valid_and_check_`: zero stands for any value. -/
def validAndCheck {α : Type} [DecidableEq α] [OfNat α 0] (stand value : α) : Bool :=
  decide (stand = 0) || decide (value = stand)

@[simp] theorem validAndCheck_iff {α : Type} [DecidableEq α] [OfNat α 0] (stand value : α) :
    validAndCheck stand value = true ↔ stand = 0 ∨ value = stand := by
  simp [validAndCheck]

namespace Rule

/-- The protocol-independent part. The second component counts clock readings. -/
def leastCheck (clock : Clock) (r : Rule) (pe : PacketExtractor) (n : Nat) : Bool × Nat :=
  if validAndCheck r.protocol pe.getProtocol = false then (false, n)
  else if validAndCheck r.srcIp pe.getSrcIp = false then (false, n)
  else if validAndCheck r.destIp pe.getDestIp = false then (false, n)
  else if r.timePass &&& (getTimePass (clock.getTime n)).data = 0 then (false, n + 1)
  else (true, n + 1)

def check (clock : Clock) (r : Rule) (pe : PacketExtractor) (n : Nat) : Bool × Nat :=
  match r.leastCheck clock pe n with
  | (false, n') => (false, n')
  | (true, n') =>
    if pe.getProtocol = ipprotoTcp ∨ pe.getProtocol = ipprotoUdp then
      if validAndCheck r.srcPort pe.getSrcPort = false then (false, n')
      else if validAndCheck r.destPort pe.getDestPort = false then (false, n')
      else (true, n')
    else if pe.getProtocol = ipprotoIcmp then
      if validAndCheck r.subProtocol pe.getICMPType = false then (false, n')
      else (true, n')
    else (true, n')

/-! ### What a match means -/

/-- Protocol and addresses, which are compared before the clock is read. -/
structure HeaderMatches (r : Rule) (packet : Memory) : Prop where
  protocol : r.protocol = 0 ∨ packet 9 = r.protocol
  srcIp : r.srcIp = 0 ∨ bigEndian32 packet 12 = ntohl r.srcIp
  destIp : r.destIp = 0 ∨ bigEndian32 packet 16 = ntohl r.destIp

/-- The length in bytes of an IPv4 header. -/
def headerLength (packet : Memory) : Nat := (packet 0).toNat % 16 * 4

/-- Ports are consulted for TCP and UDP, the sub-protocol for ICMP. -/
structure TransportMatches (r : Rule) (packet : Memory) : Prop where
  srcPort : packet 9 = ipprotoTcp ∨ packet 9 = ipprotoUdp →
    r.srcPort = 0 ∨ bigEndian16 packet (headerLength packet) = ntohs r.srcPort
  destPort : packet 9 = ipprotoTcp ∨ packet 9 = ipprotoUdp →
    r.destPort = 0 ∨ bigEndian16 packet (headerLength packet + 2) = ntohs r.destPort
  subProtocol : packet 9 = ipprotoIcmp →
    r.subProtocol = 0 ∨ packet (headerLength packet) = r.subProtocol

structure Matches (now : Tm) (r : Rule) (packet : Memory) : Prop where
  header : r.HeaderMatches packet
  time : TimePasses r.timePass now
  transport : r.TransportMatches packet

/-! ### Which bytes a match reads -/

/-- `length` bytes are enough for everything that a match reads of this packet. -/
structure Complete (packet : Memory) (length : Nat) : Prop where
  header : 20 ≤ length
  ports : packet 9 = ipprotoTcp ∨ packet 9 = ipprotoUdp → headerLength packet + 4 ≤ length
  icmpType : packet 9 = ipprotoIcmp → headerLength packet + 1 ≤ length

section Congruence

variable {p q : Memory} {length : Nat}

theorem HeaderMatches.congr (agree : ∀ i, i < 20 → p i = q i) {r : Rule}
    (h : r.HeaderMatches p) : r.HeaderMatches q where
  protocol := by
    rw [← agree 9 (by omega)]
    exact h.protocol
  srcIp := by
    rw [← bigEndian32_congr (agree 12 (by omega)) (agree 13 (by omega))
      (agree 14 (by omega)) (agree 15 (by omega))]
    exact h.srcIp
  destIp := by
    rw [← bigEndian32_congr (agree 16 (by omega)) (agree 17 (by omega))
      (agree 18 (by omega)) (agree 19 (by omega))]
    exact h.destIp

theorem TransportMatches.congr (complete : Complete p length)
    (agree : ∀ i, i < length → p i = q i) {r : Rule}
    (h : r.TransportMatches p) : r.TransportMatches q := by
  have header := complete.header
  have hproto : p 9 = q 9 := agree 9 (by omega)
  have hlen : headerLength p = headerLength q := by
    rw [headerLength, headerLength, agree 0 (by omega)]
  refine ⟨?_, ?_, ?_⟩
  · intro hports
    rw [← hproto] at hports
    have hend := complete.ports hports
    rw [← hlen, ← bigEndian16_congr (agree _ (by omega)) (agree _ (by omega))]
    exact h.srcPort hports
  · intro hports
    rw [← hproto] at hports
    have hend := complete.ports hports
    rw [← hlen, ← bigEndian16_congr (agree _ (by omega)) (agree _ (by omega))]
    exact h.destPort hports
  · intro hicmp
    rw [← hproto] at hicmp
    have hend := complete.icmpType hicmp
    rw [← hlen, ← agree _ (by omega)]
    exact h.subProtocol hicmp

theorem Complete.congr (complete : Complete p length)
    (agree : ∀ i, i < length → p i = q i) : Complete q length := by
  have header := complete.header
  have hproto : p 9 = q 9 := agree 9 (by omega)
  have hlen : headerLength p = headerLength q := by
    rw [headerLength, headerLength, agree 0 (by omega)]
  refine ⟨header, ?_, ?_⟩
  · rw [← hproto, ← hlen]
    exact complete.ports
  · rw [← hproto, ← hlen]
    exact complete.icmpType

/-- Bytes behind a complete packet play no part in the match. -/
theorem matches_congr (complete : Complete p length)
    (agree : ∀ i, i < length → p i = q i) (now : Tm) (r : Rule) :
    r.Matches now p ↔ r.Matches now q := by
  have header := complete.header
  constructor
  · intro h
    exact ⟨h.header.congr (fun i hi => agree i (by omega)), h.time,
      h.transport.congr complete agree⟩
  · intro h
    have back : ∀ i, i < length → q i = p i := fun i hi => (agree i hi).symm
    exact ⟨h.header.congr (fun i hi => back i (by omega)), h.time,
      h.transport.congr (complete.congr agree) back⟩

end Congruence

/-! ### The code computes it -/

theorem srcIp_iff (r : Rule) (pe : PacketExtractor) :
    validAndCheck r.srcIp pe.getSrcIp = true ↔
      r.srcIp = 0 ∨ bigEndian32 pe.mPData 12 = ntohl r.srcIp := by
  rw [validAndCheck_iff, PacketExtractor.getSrcIp, load32_eq_iff]

theorem destIp_iff (r : Rule) (pe : PacketExtractor) :
    validAndCheck r.destIp pe.getDestIp = true ↔
      r.destIp = 0 ∨ bigEndian32 pe.mPData 16 = ntohl r.destIp := by
  rw [validAndCheck_iff, PacketExtractor.getDestIp, load32_eq_iff]

theorem headerMatches_iff (r : Rule) (pe : PacketExtractor) :
    r.HeaderMatches pe.mPData ↔
      validAndCheck r.protocol pe.getProtocol = true ∧
      validAndCheck r.srcIp pe.getSrcIp = true ∧
      validAndCheck r.destIp pe.getDestIp = true := by
  rw [srcIp_iff, destIp_iff, validAndCheck_iff, PacketExtractor.getProtocol]
  exact ⟨fun h => ⟨h.protocol, h.srcIp, h.destIp⟩, fun h => ⟨h.1, h.2.1, h.2.2⟩⟩

instance (r : Rule) (packet : Memory) : Decidable (r.HeaderMatches packet) :=
  decidable_of_iff _ (headerMatches_iff r ⟨packet⟩).symm

/-- Two loads of the transport header are shared by TCP and UDP. -/
theorem getSrcPort_eq {pe : PacketExtractor}
    (h : pe.getProtocol = ipprotoTcp ∨ pe.getProtocol = ipprotoUdp) :
    pe.getSrcPort = load16 pe.mPData (headerLength pe.mPData) := by
  have hload : load16 pe.getData 0 = load16 pe.mPData (headerLength pe.mPData) := rfl
  rcases h with h | h
  · simp [PacketExtractor.getSrcPort, h, hload]
  · simp [PacketExtractor.getSrcPort, h, hload]

theorem getDestPort_eq {pe : PacketExtractor}
    (h : pe.getProtocol = ipprotoTcp ∨ pe.getProtocol = ipprotoUdp) :
    pe.getDestPort = load16 pe.mPData (headerLength pe.mPData + 2) := by
  have hload : load16 pe.getData 2 = load16 pe.mPData (headerLength pe.mPData + 2) := rfl
  rcases h with h | h
  · simp [PacketExtractor.getDestPort, h, hload]
  · simp [PacketExtractor.getDestPort, h, hload]

/-- For TCP and UDP the transport part is the comparison of the two ports. -/
theorem transportMatches_ports_iff (r : Rule) {pe : PacketExtractor}
    (hports : pe.getProtocol = ipprotoTcp ∨ pe.getProtocol = ipprotoUdp) :
    r.TransportMatches pe.mPData ↔
      validAndCheck r.srcPort pe.getSrcPort = true ∧
        validAndCheck r.destPort pe.getDestPort = true := by
  have hicmp : pe.mPData 9 ≠ ipprotoIcmp := by
    rcases hports with h | h <;> rw [PacketExtractor.getProtocol] at h <;> rw [h] <;> decide
  have hsrc : validAndCheck r.srcPort pe.getSrcPort = true ↔
      r.srcPort = 0 ∨ bigEndian16 pe.mPData (headerLength pe.mPData) = ntohs r.srcPort := by
    rw [validAndCheck_iff, getSrcPort_eq hports, load16_eq_iff]
  have hdest : validAndCheck r.destPort pe.getDestPort = true ↔
      r.destPort = 0 ∨
        bigEndian16 pe.mPData (headerLength pe.mPData + 2) = ntohs r.destPort := by
    rw [validAndCheck_iff, getDestPort_eq hports, load16_eq_iff]
  rw [hsrc, hdest]
  exact ⟨fun ht => ⟨ht.srcPort hports, ht.destPort hports⟩,
    fun hb => ⟨fun _ => hb.1, fun _ => hb.2, fun hi => False.elim (hicmp hi)⟩⟩

theorem leastCheck_snd (clock : Clock) (r : Rule) (pe : PacketExtractor) (n : Nat) :
    (r.leastCheck clock pe n).2 = if r.HeaderMatches pe.mPData then n + 1 else n := by
  simp only [headerMatches_iff, leastCheck]
  split_ifs <;> simp_all

theorem leastCheck_fst (clock : Clock) (r : Rule) (pe : PacketExtractor) (n : Nat) :
    (r.leastCheck clock pe n).1 = true ↔
      r.HeaderMatches pe.mPData ∧ TimePasses r.timePass (clock.getTime n) := by
  rw [TimePasses, headerMatches_iff, leastCheck]
  split_ifs <;> simp_all

theorem check_snd (clock : Clock) (r : Rule) (pe : PacketExtractor) (n : Nat) :
    (r.check clock pe n).2 = if r.HeaderMatches pe.mPData then n + 1 else n := by
  rw [← leastCheck_snd clock, check]
  split
  · rename_i h
    rw [h]
  · rename_i h
    rw [h]
    split_ifs <;> rfl

theorem check_fst (clock : Clock) (r : Rule) (pe : PacketExtractor) (n : Nat) :
    (r.check clock pe n).1 = true ↔ r.Matches (clock.getTime n) pe.mPData := by
  have least := leastCheck_fst clock r pe n
  rw [check]
  split
  · rename_i h
    rw [h] at least
    constructor
    · intro hfalse
      cases hfalse
    · intro hm
      exact least.mpr ⟨hm.header, hm.time⟩
  · rename_i h
    rw [h] at least
    obtain ⟨header, time⟩ := least.mp rfl
    have whole : r.Matches (clock.getTime n) pe.mPData ↔ r.TransportMatches pe.mPData :=
      ⟨fun hm => hm.transport, fun ht => ⟨header, time, ht⟩⟩
    rw [whole]
    by_cases hports : pe.getProtocol = ipprotoTcp ∨ pe.getProtocol = ipprotoUdp
    · have hboth := transportMatches_ports_iff r hports
      rw [hboth, if_pos hports]
      split_ifs <;> simp_all
    · rw [if_neg hports]
      by_cases hicmp : pe.getProtocol = ipprotoIcmp
      · have htype : pe.getICMPType = pe.mPData (headerLength pe.mPData) := by
          rw [PacketExtractor.getICMPType, if_pos hicmp]
          rfl
        have hone : r.TransportMatches pe.mPData ↔
            validAndCheck r.subProtocol pe.getICMPType = true := by
          rw [validAndCheck_iff, htype]
          exact ⟨fun ht => ht.subProtocol hicmp,
            fun hb => ⟨fun hp => False.elim (hports hp), fun hp => False.elim (hports hp),
              fun _ => hb⟩⟩
        rw [hone, if_pos hicmp]
        split_ifs <;> simp_all
      · have hall : r.TransportMatches pe.mPData :=
          ⟨fun hp => False.elim (hports hp), fun hp => False.elim (hports hp),
            fun hi => False.elim (hicmp hi)⟩
        rw [if_neg hicmp]
        exact ⟨fun _ => hall, fun _ => rfl⟩

/-! ### A packet for every rule -/

/-- The transport header that a rule asks for. -/
def transportBytes (r : Rule) : List UInt8 :=
  if r.protocol = ipprotoIcmp then [r.subProtocol, 0, 0, 0]
  else bytes16 r.srcPort ++ bytes16 r.destPort

/-- A packet without IP options whose fields are those of the rule. -/
def packetFor (r : Rule) : List UInt8 :=
  [0x45, 0, 0, 24, 0, 0, 0, 0, 64, r.protocol, 0, 0] ++
    (bytes32 r.srcIp ++ (bytes32 r.destIp ++ transportBytes r))

theorem packetFor_holds (r : Rule) :
    (Memory.ofBytes (packetFor r)).Holds 12 (bytes32 r.srcIp) ∧
    (Memory.ofBytes (packetFor r)).Holds 16 (bytes32 r.destIp) ∧
    (Memory.ofBytes (packetFor r)).Holds 20 (transportBytes r) := by
  have fields := (Memory.ofBytes_holds (packetFor r)).append_right
  have behind := fields.append_right
  exact ⟨fields.append_left, behind.append_left, behind.append_right⟩

theorem packetFor_header (r : Rule) : r.HeaderMatches (Memory.ofBytes (packetFor r)) := by
  obtain ⟨hsrc, hdest, _⟩ := packetFor_holds r
  exact ⟨Or.inr rfl, Or.inr ((load32_eq_iff _ _ _).mp (load32_of_holds hsrc)),
    Or.inr ((load32_eq_iff _ _ _).mp (load32_of_holds hdest))⟩

theorem packetFor_transport (r : Rule) : r.TransportMatches (Memory.ofBytes (packetFor r)) := by
  obtain ⟨_, _, htransport⟩ := packetFor_holds r
  have hproto : Memory.ofBytes (packetFor r) 9 = r.protocol := rfl
  have hfirst : Memory.ofBytes (packetFor r) 0 = 0x45 := rfl
  have hlen : headerLength (Memory.ofBytes (packetFor r)) = 20 := by
    rw [headerLength, hfirst]
    rfl
  by_cases hicmp : r.protocol = ipprotoIcmp
  · have hbyte : Memory.ofBytes (packetFor r) 20 = r.subProtocol := by
      have h := htransport 0 (by simp [transportBytes, hicmp])
      simpa [transportBytes, hicmp] using h
    have hnot : ¬ (Memory.ofBytes (packetFor r) 9 = ipprotoTcp ∨
        Memory.ofBytes (packetFor r) 9 = ipprotoUdp) := by
      rw [hproto, hicmp]
      decide
    exact ⟨fun h => absurd h hnot, fun h => absurd h hnot, fun _ => Or.inr (by rw [hlen, hbyte])⟩
  · rw [transportBytes, if_neg hicmp] at htransport
    have hsrc := (load16_eq_iff _ _ _).mp (load16_of_holds htransport.append_left)
    have hdest := (load16_eq_iff _ _ _).mp (load16_of_holds htransport.append_right)
    refine ⟨fun _ => Or.inr ?_, fun _ => Or.inr ?_, fun h => absurd (hproto ▸ h) hicmp⟩
    · rw [hlen]
      exact hsrc
    · rw [hlen]
      exact hdest

end Rule

end RuleMatching
