import ApplicationLayerFirewall.ReadingInstants

/-!
# What a match guarantees

A rule that matches has compared the fields that the packet's protocol gives it
to compare, and no others: ports are left alone on a ping and the ICMP type on a
query for a name, even if the rule leaves its protocol open. The time mask is
compared as one word, so an hour or a weekday alone is enough. What this means
for fields and time window of a single rule is stated here.
-/

namespace RuleConstraints

open ByteOrder PacketReading RuleMatching RuleMatching.Rule

/-! ### Fields -/

/-- The low thirteen bits of the word at offset 6. -/
def fragmentOffset (packet : Memory) : Nat := (bigEndian16 packet 6).toNat % 2 ^ 13

/-- `sizeof(tcphdr)` or `sizeof(udphdr)`. -/
def transportLength (packet : Memory) : Nat := if packet 9 = ipprotoTcp then 20 else 8

/-- A packet of this length has ports: it is the first or only fragment of a TCP or UDP
datagram, and its transport header lies inside. -/
structure HasPorts (packet : Memory) (length : Nat) : Prop where
  protocol : packet 9 = ipprotoTcp ∨ packet 9 = ipprotoUdp
  first : fragmentOffset packet = 0
  inside : headerLength packet + transportLength packet ≤ length

/-- The packet has each field that is set in the rule, with the rule's value. -/
structure Carries (r : Rule) (packet : Memory) (length : Nat) : Prop where
  protocol : r.protocol ≠ 0 → packet 9 = r.protocol
  srcIp : r.srcIp ≠ 0 → bigEndian32 packet 12 = ntohl r.srcIp
  destIp : r.destIp ≠ 0 → bigEndian32 packet 16 = ntohl r.destIp
  srcPort : r.srcPort ≠ 0 → HasPorts packet length ∧
    bigEndian16 packet (headerLength packet) = ntohs r.srcPort
  destPort : r.destPort ≠ 0 → HasPorts packet length ∧
    bigEndian16 packet (headerLength packet + 2) = ntohs r.destPort
  subProtocol : r.subProtocol ≠ 0 →
    packet 9 = ipprotoIcmp ∧ packet (headerLength packet) = r.subProtocol

/-- What is compared: the ports behind the header of a TCP or UDP packet, the type behind
that of an ICMP packet, the rest always. -/
structure Compared (r : Rule) (packet : Memory) : Prop where
  protocol : r.protocol ≠ 0 → packet 9 = r.protocol
  srcIp : r.srcIp ≠ 0 → bigEndian32 packet 12 = ntohl r.srcIp
  destIp : r.destIp ≠ 0 → bigEndian32 packet 16 = ntohl r.destIp
  srcPort : r.srcPort ≠ 0 → packet 9 = ipprotoTcp ∨ packet 9 = ipprotoUdp →
    bigEndian16 packet (headerLength packet) = ntohs r.srcPort
  destPort : r.destPort ≠ 0 → packet 9 = ipprotoTcp ∨ packet 9 = ipprotoUdp →
    bigEndian16 packet (headerLength packet + 2) = ntohs r.destPort
  subProtocol : r.subProtocol ≠ 0 → packet 9 = ipprotoIcmp →
    packet (headerLength packet) = r.subProtocol

/-- The packet is one that has the fields that the rule sets. -/
structure Pertains (r : Rule) (packet : Memory) (length : Nat) : Prop where
  ports : r.srcPort ≠ 0 ∨ r.destPort ≠ 0 → HasPorts packet length
  icmpType : r.subProtocol ≠ 0 → packet 9 = ipprotoIcmp

theorem compared_of_matches {now : Tm} {r : Rule} {packet : Memory} (h : r.Matches now packet) :
    Compared r packet where
  protocol := fun hset => h.header.protocol.resolve_left hset
  srcIp := fun hset => h.header.srcIp.resolve_left hset
  destIp := fun hset => h.header.destIp.resolve_left hset
  srcPort := fun hset hports => (h.transport.srcPort hports).resolve_left hset
  destPort := fun hset hports => (h.transport.destPort hports).resolve_left hset
  subProtocol := fun hset hicmp => (h.transport.subProtocol hicmp).resolve_left hset

/-- What is compared is carried by a packet that has it. -/
theorem Compared.carries_iff {r : Rule} {packet : Memory} (h : Compared r packet) (length : Nat) :
    Carries r packet length ↔ Pertains r packet length := by
  constructor
  · intro hall
    refine ⟨fun hset => ?_, fun hset => (hall.subProtocol hset).1⟩
    rcases hset with hsrc | hdest
    · exact (hall.srcPort hsrc).1
    · exact (hall.destPort hdest).1
  · intro hpertains
    refine ⟨h.protocol, h.srcIp, h.destIp, fun hset => ?_, fun hset => ?_, fun hset => ?_⟩
    · have hports := hpertains.ports (Or.inl hset)
      exact ⟨hports, h.srcPort hset hports.protocol⟩
    · have hports := hpertains.ports (Or.inr hset)
      exact ⟨hports, h.destPort hset hports.protocol⟩
    · have hicmp := hpertains.icmpType hset
      exact ⟨hicmp, h.subProtocol hset hicmp⟩

/-- Ports play no part on packets that are neither TCP nor UDP. -/
theorem matches_of_other_ports {now : Tm} {r : Rule} {packet : Memory} (h : r.Matches now packet)
    (hother : ¬ (packet 9 = ipprotoTcp ∨ packet 9 = ipprotoUdp)) (src dest : UInt16) :
    Matches now { r with srcPort := src, destPort := dest } packet where
  header := ⟨h.header.protocol, h.header.srcIp, h.header.destIp⟩
  time := h.time
  transport := ⟨fun hports => absurd hports hother, fun hports => absurd hports hother,
    h.transport.subProtocol⟩

/-- The ICMP type plays no part on packets that are not ICMP. -/
theorem matches_of_other_type {now : Tm} {r : Rule} {packet : Memory} (h : r.Matches now packet)
    (hother : packet 9 ≠ ipprotoIcmp) (type : UInt8) :
    Matches now { r with subProtocol := type } packet where
  header := ⟨h.header.protocol, h.header.srcIp, h.header.destIp⟩
  time := h.time
  transport := ⟨h.transport.srcPort, h.transport.destPort, fun hicmp => absurd hicmp hother⟩

/-- A match has compared what the protocol gives it and nothing else, and the packet carries
all that the rule sets exactly when it is one that has it. -/
theorem check_compares {clock : Clock} {r : Rule} {pe : PacketExtractor} {n : Nat}
    (h : (r.check clock pe n).1 = true) (length : Nat) :
    Compared r pe.mPData ∧ (Carries r pe.mPData length ↔ Pertains r pe.mPData length) ∧
    (¬ (pe.mPData 9 = ipprotoTcp ∨ pe.mPData 9 = ipprotoUdp) → ∀ src dest : UInt16,
      (check clock { r with srcPort := src, destPort := dest } pe n).1 = true) ∧
    (pe.mPData 9 ≠ ipprotoIcmp → ∀ type : UInt8,
      (check clock { r with subProtocol := type } pe n).1 = true) := by
  have hmatch : r.Matches (clock.getTime n) pe.mPData := (check_fst clock r pe n).mp h
  have hcompared := compared_of_matches hmatch
  refine ⟨hcompared, hcompared.carries_iff length, fun hother src dest => ?_,
    fun hother type => ?_⟩
  · exact (check_fst clock _ pe n).mpr (matches_of_other_ports hmatch hother src dest)
  · exact (check_fst clock _ pe n).mpr (matches_of_other_type hmatch hother type)

/-- Port 53 of any protocol. -/
def anyPort53 : Rule := ⟨0x3500, 0, 0, 0, 0xffffffff, 0, 0, 0⟩

theorem dns_compares :
    Compared anyPort53 (Memory.ofBytes ReadingInstants.dnsPacket) ∧
    (Carries anyPort53 (Memory.ofBytes ReadingInstants.dnsPacket) 28 ↔
      Pertains anyPort53 (Memory.ofBytes ReadingInstants.dnsPacket) 28) ∧
    (check (Clock.fixed ReadingInstants.utc 0) { anyPort53 with subProtocol := 8 }
      ⟨Memory.ofBytes ReadingInstants.dnsPacket⟩ 0).1 = true := by
  have hcheck : (anyPort53.check (Clock.fixed ReadingInstants.utc 0)
      ⟨Memory.ofBytes ReadingInstants.dnsPacket⟩ 0).1 = true := by decide +kernel
  have hcompares := check_compares hcheck 28
  exact ⟨hcompares.1, hcompares.2.1, hcompares.2.2.2 (by decide) 8⟩

/-- An echo request. -/
def ping : List UInt8 :=
  [0x45, 0, 0, 28, 0, 0, 0, 0, 64, 1, 0, 0, 10, 0, 0, 1, 10, 0, 0, 2, 8, 0, 0, 0, 0, 0, 0, 0]

/-- A later fragment of a UDP datagram, whose data begin with 0, 0, 0, 53. -/
def laterFragment : List UInt8 :=
  [0x45, 0, 0, 28, 0, 0, 0, 185, 64, 17, 0, 0, 10, 0, 0, 1, 10, 0, 0, 2, 0, 0, 0, 53, 0, 0, 0, 0]

/-- The rule for port 53 matches a ping, which has no ports, and data that are none. -/
theorem port53_matches_without_ports :
    (anyPort53.check (Clock.fixed ReadingInstants.utc 0) ⟨Memory.ofBytes ping⟩ 0).1 = true ∧
    ¬ Carries anyPort53 (Memory.ofBytes ping) ping.length ∧
    (anyPort53.check (Clock.fixed ReadingInstants.utc 0)
      ⟨Memory.ofBytes laterFragment⟩ 0).1 = true ∧
    ¬ Carries anyPort53 (Memory.ofBytes laterFragment) laterFragment.length := by
  refine ⟨by decide +kernel, fun hall => ?_, by decide +kernel, fun hall => ?_⟩
  · have hports := (hall.destPort (by decide)).1
    exact absurd hports.protocol (by decide)
  · have hports := (hall.destPort (by decide)).1
    exact absurd hports.first (by decide)

/-! ### Time window -/

/-- In the word of the union come the bits of the hours, then those of the weekdays. -/
theorem data_testBit (t : TimePassType) (k : Nat) : t.data.toNat.testBit k =
    if k < 8 then (t.hours 0).toNat.testBit k
    else if k < 16 then (t.hours 1).toNat.testBit (k - 8)
    else if k < 24 then (t.hours 2).toNat.testBit (k - 16)
    else t.wday.toNat.testBit (k - 24) := by
  have h0 := (t.hours 0).toNat_lt
  have h1 := (t.hours 1).toNat_lt
  have h2 := (t.hours 2).toNat_lt
  have h3 := t.wday.toNat_lt
  have hword : t.data.toNat = 2 ^ 8 * (2 ^ 8 * (2 ^ 8 * t.wday.toNat + (t.hours 2).toNat) +
      (t.hours 1).toNat) + (t.hours 0).toNat := by
    rw [TimePassType.data, UInt32.toNat_ofNat', Nat.mod_eq_of_lt (by omega)]
    omega
  rw [hword, Nat.testBit_two_pow_mul_add _ h0, Nat.testBit_two_pow_mul_add _ h1,
    Nat.testBit_two_pow_mul_add _ h2, Nat.sub_sub, Nat.sub_sub]
  split_ifs <;> first | rfl | omega

/-- The mask names the hour and the weekday. -/
structure InWindow (timePass : UInt32) (now : Tm) : Prop where
  hour : timePass.toNat.testBit now.tmHour.val = true
  wday : timePass.toNat.testBit (24 + now.tmWday.val) = true

/-- Everything but the time matches. -/
structure Applies (r : Rule) (packet : Memory) : Prop where
  header : r.HeaderMatches packet
  transport : r.TransportMatches packet

theorem matches_iff_applies (now : Tm) (r : Rule) (packet : Memory) :
    r.Matches now packet ↔ Applies r packet ∧ TimePasses r.timePass now :=
  ⟨fun h => ⟨⟨h.header, h.transport⟩, h.time⟩, fun h => ⟨h.1.header, h.2, h.1.transport⟩⟩

/-- A rule is confined to its window, and free inside it, exactly when the mask names both
the hour and the weekday or neither, unless something else keeps it from matching. -/
theorem check_window_iff (clock : Clock) (r : Rule) (pe : PacketExtractor) (n : Nat) :
    (((r.check clock pe n).1 = true → InWindow r.timePass (clock.getTime n)) ∧
      (InWindow r.timePass (clock.getTime n) →
        ((r.check clock pe n).1 = true ↔ Applies r pe.mPData))) ↔
    (Applies r pe.mPData →
      (r.timePass.toNat.testBit (clock.getTime n).tmHour.val = true ↔
        r.timePass.toNat.testBit (24 + (clock.getTime n).tmWday.val) = true)) := by
  have hcheck : (r.check clock pe n).1 = true ↔
      Applies r pe.mPData ∧ TimePasses r.timePass (clock.getTime n) := by
    rw [check_fst, matches_iff_applies]
  rw [hcheck, timePasses_iff]
  constructor
  · rintro ⟨hconfined, _⟩ happlies
    constructor
    · intro hhour
      exact (hconfined ⟨happlies, Or.inl hhour⟩).wday
    · intro hwday
      exact (hconfined ⟨happlies, Or.inr hwday⟩).hour
  · intro hsame
    refine ⟨?_, fun hwindow => and_iff_left (Or.inl hwindow.hour)⟩
    rintro ⟨happlies, hhour | hwday⟩
    · exact ⟨hhour, (hsame happlies).mp hhour⟩
    · exact ⟨(hsame happlies).mpr hwday, hwday⟩

/-- A mask for one o'clock on Mondays. -/
def mondayAtOne : Rule := ⟨0, 0, 0, 0, 0x02000002, 0, 0, 0⟩

/-- At one o'clock on a Thursday, and on a Monday at midnight, the rule applies. -/
theorem mondayAtOne_matches_outside :
    (mondayAtOne.check (Clock.fixed (fun _ => ⟨1, 4⟩) 0) ⟨Memory.ofBytes ping⟩ 0).1 = true ∧
    ¬ InWindow mondayAtOne.timePass ⟨1, 4⟩ ∧
    (mondayAtOne.check (Clock.fixed (fun _ => ⟨0, 1⟩) 0) ⟨Memory.ofBytes ping⟩ 0).1 = true ∧
    ¬ InWindow mondayAtOne.timePass ⟨0, 1⟩ := by
  refine ⟨by decide +kernel, fun hwindow => ?_, by decide +kernel, fun hwindow => ?_⟩
  · exact absurd hwindow.wday (by decide)
  · exact absurd hwindow.hour (by decide)

/-! ### Which masks are windows -/

/-- A mask that is not passed for one of its parts alone names every hour and weekday, or
nothing at all. -/
theorem window_or_never {timePass : UInt32}
    (h : ∀ now, TimePasses timePass now → InWindow timePass now) :
    (∀ now, InWindow timePass now) ∨ ∀ now, ¬ TimePasses timePass now := by
  by_cases hnever : ∀ now, ¬ TimePasses timePass now
  · exact Or.inr hnever
  · obtain ⟨now, hnow⟩ := not_forall_not.mp hnever
    have hwindow := h now hnow
    refine Or.inl fun other => ⟨?_, ?_⟩
    · -- the weekday of one time and the hour of the other
      exact (h ⟨other.tmHour, now.tmWday⟩
        ((timePasses_iff timePass _).mpr (Or.inr hwindow.wday))).hour
    · exact (h ⟨now.tmHour, other.tmWday⟩
        ((timePasses_iff timePass _).mpr (Or.inl hwindow.hour))).wday

/-- A rule keeps to its window at all times and for all packets only if it has no window:
it passes at every time or at none. -/
theorem window_kept_iff (r : Rule) :
    (∀ clock pe n, (r.check clock pe n).1 = true → InWindow r.timePass (clock.getTime n)) ↔
      (∀ now, InWindow r.timePass now) ∨ ∀ now, ¬ TimePasses r.timePass now := by
  constructor
  · intro hkept
    refine window_or_never fun now hpasses => ?_
    have hmatch : r.Matches now (Memory.ofBytes (packetFor r)) :=
      (matches_iff_applies now r _).mpr ⟨⟨packetFor_header r, packetFor_transport r⟩, hpasses⟩
    have hcheck := (check_fst (Clock.fixed (fun _ => now) 0) r
      ⟨Memory.ofBytes (packetFor r)⟩ 0).mpr hmatch
    exact hkept (Clock.fixed (fun _ => now) 0) ⟨Memory.ofBytes (packetFor r)⟩ 0 hcheck
  · rintro (hall | hnever) clock pe n hcheck
    · exact hall (clock.getTime n)
    · have hmatch := (check_fst clock r pe n).mp hcheck
      exact absurd hmatch.time (hnever (clock.getTime n))

end RuleConstraints
