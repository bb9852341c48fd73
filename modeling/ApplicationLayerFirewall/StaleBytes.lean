import ApplicationLayerFirewall.ReceiveLoop
import ApplicationLayerFirewall.RuleJson
import Mathlib.Data.Set.Image

/-!
# Bytes of earlier packets

The payload length is never consulted, so a match may read behind the datagram,
where the buffer keeps what earlier receives wrote. One full datagram can leave
anything there, also just what a black rule asks for. A verdict is thus independent
of the past exactly when the rules settle it by the fields that have arrived.
-/

namespace StaleBytes

open ByteOrder PacketReading RuleMatching RuleVerdict AccessPolicy
open Netlink QueuedPackets ReceiveLoop RuleJson

/-! ### Two histories -/

/-- The provider after some packets were received. -/
def received (s : Provider) (history : List QueuedPacket) : Provider :=
  history.foldl (fun s q => recv s (.datagram q)) s

/-- The judge with rules, flag and clock held fixed. -/
def fixedJudge (localtime : TimeT → Tm) (now : TimeT) (enabled : Bool) (rules : RuleCollection)
    (pe : PacketExtractor) : Bool :=
  (judge (Clock.fixed localtime now) enabled rules pe 0).1

/-- What is sent when `q` is received after a history. -/
def verdictAfter (judge : PacketExtractor → Bool) (s : Provider) (history : List QueuedPacket)
    (q : QueuedPacket) : List Verdict :=
  (turn (received s history) ⟨.datagram q, judge⟩).2.1

/-- The memory after `q` was received into a buffer with this content. -/
def filled (s : Provider) (q : QueuedPacket) (content : Memory) : Memory :=
  (recv { s with buf := content } (.datagram q)).memory

theorem received_beyond (s : Provider) (history : List QueuedPacket) :
    (received s history).beyond = s.beyond := by
  induction history generalizing s with
  | nil => rfl
  | cons q rest ih => exact ih (recv s (.datagram q))

/-- Only the content of the buffer is left of a history. -/
theorem recv_received (s : Provider) (history : List QueuedPacket) (q : QueuedPacket) :
    (recv (received s history) (.datagram q)).memory =
      filled s q (received s history).buf := by
  have hbeyond := received_beyond s history
  rw [filled, recv, recv, hbeyond]

theorem verdictAfter_eq {q : QueuedPacket} (h : q.size ≤ bufSize)
    (judge : PacketExtractor → Bool) (s : Provider) (history : List QueuedPacket) :
    verdictAfter judge s history q =
      q.verdicts judge (filled s q (received s history).buf) := by
  have hturn := turn_datagram (s := received s history) (t := ⟨.datagram q, judge⟩) rfl h
  rw [verdictAfter, hturn, recv_received]

/-! ### Every filling is left by some packet -/

/-- A datagram of 1600 bytes with the given bytes behind its headers. -/
def fullDatagram (content : Memory) : QueuedPacket :=
  packetOf 0 (List.ofFn (fun i : Fin 1564 => content (36 + i))) (by rw [List.length_ofFn]; omega)

theorem fullDatagram_size (content : Memory) : (fullDatagram content).size = bufSize := by
  rw [fullDatagram, packetOf_size, List.length_ofFn]
  rfl

theorem fullDatagram_byte (content : Memory) {i : Nat} (hlo : 36 ≤ i) (hhi : i < bufSize) :
    Memory.ofBytes (fullDatagram content).bytes i = content i := by
  have hbytes := packetOf_holds (Memory.ofBytes_holds (fullDatagram content).bytes)
  rw [bufSize] at hhi
  have hbyte := hbytes (i - 36) (by rw [List.length_ofFn]; omega)
  have hindex : 36 + (i - 36) = i := by omega
  rw [List.getElem_ofFn, hindex] at hbyte
  exact hbyte

theorem filled_fullDatagram (s : Provider) {q : QueuedPacket} (h : 36 ≤ q.size)
    (content : Memory) :
    filled s q (received s [fullDatagram content]).buf = filled s q content := by
  have hfull : min bufSize (fullDatagram content).size = bufSize := by
    rw [fullDatagram_size, Nat.min_self]
  funext i
  by_cases hbuf : i < bufSize
  · rw [filled, filled, Provider.memory, Provider.memory, if_pos hbuf, if_pos hbuf, recv, recv]
    by_cases hmin : i < min bufSize q.size
    · simp only [if_pos hmin]
    · have hlo : 36 ≤ i := by omega
      simp only [if_neg hmin, received, List.foldl_cons, List.foldl_nil, recv, hfull, if_pos hbuf]
      exact fullDatagram_byte content hlo hbuf
  · rw [filled, filled, Provider.memory, Provider.memory, if_neg hbuf, if_neg hbuf]
    rfl

/-- Quantifying over pairs of histories is quantifying over pairs of fillings. -/
theorem histories_iff_fillings {q : QueuedPacket} (hlo : 36 ≤ q.size) (hhi : q.size ≤ bufSize)
    (judge : PacketExtractor → Bool) (s : Provider) :
    (∀ first second, verdictAfter judge s first q = verdictAfter judge s second q) ↔
      ∀ p r : Memory, q.verdicts judge (filled s q p) = q.verdicts judge (filled s q r) := by
  constructor
  · intro hsame p r
    have h := hsame [fullDatagram p] [fullDatagram r]
    rw [verdictAfter_eq hhi, verdictAfter_eq hhi, filled_fullDatagram s hlo,
      filled_fullDatagram s hlo] at h
    exact h
  · intro hsame first second
    rw [verdictAfter_eq hhi, verdictAfter_eq hhi]
    exact hsame _ _

/-! ### When the past does not matter -/

/-- The packet as the judge sees it, for one filling of the buffer. -/
def view (s : Provider) (q : QueuedPacket) (start : Nat) (content : Memory) : Memory :=
  (filled s q content).advance start

def Blocked (now : Tm) (rules : RuleCollection) (packet : Memory) : Prop :=
  ∃ r ∈ rules, r.type = typeBlackList ∧ r.Matches now packet

def Exempt (now : Tm) (rules : RuleCollection) (packet : Memory) : Prop :=
  ∃ r ∈ rules, r.type = typeWhiteList ∧ r.Matches now packet

/-- On every filling that a black rule matches a white rule matches too, or every
filling is matched by a black rule and by no white one. -/
def RulesDecide (now : Tm) (rules : RuleCollection) (s : Provider) (q : QueuedPacket)
    (start : Nat) : Prop :=
  (∀ content, Blocked now rules (view s q start content) →
    Exempt now rules (view s q start content)) ∨
  (∀ content, Blocked now rules (view s q start content) ∧
    ¬ Exempt now rules (view s q start content))

theorem rulesDecide_iff (now : Tm) (rules : RuleCollection) (s : Provider) (q : QueuedPacket)
    (start : Nat) : RulesDecide now rules s q start ↔
      ∀ p r : Memory, view s q start p ∈ (policyAt now rules).permitted ↔
        view s q start r ∈ (policyAt now rules).permitted := by
  have hblack : ∀ packet, packet ∈ (policyAt now rules).black ↔ Blocked now rules packet :=
    mem_policyAt_black now rules
  have hwhite : ∀ packet, packet ∈ (policyAt now rules).white ↔ Exempt now rules packet :=
    mem_policyAt_white now rules
  have hconstant := Policy.constant_on_iff (policyAt now rules) (Set.range (view s q start))
  simp only [Set.forall_mem_range, hblack, hwhite] at hconstant
  exact hconstant.symm

/-- Rules decide alike on a packet whose headers are complete in its payload. -/
theorem rulesDecide_of_complete {s : Provider} {q : QueuedPacket} {start : Nat} {a : Attribute}
    (hsize : q.size ≤ bufSize) (hstart : q.payloadStart = some start)
    (hpayload : q.payload = some a)
    (complete : Rule.Complete (Memory.ofBytes a.data) a.data.length)
    (now : Tm) (rules : RuleCollection) : RulesDecide now rules s q start := by
  have hmatch : ∀ content (r : Rule), r.Matches now (view s q start content) ↔
      r.Matches now (Memory.ofBytes a.data) := by
    intro content r
    have hholds : (filled s q content).Holds 0 q.bytes :=
      recv_holds { s with buf := content } hsize
    obtain ⟨b, hb, hdata, _⟩ := QueuedPacket.payloadStart_spec hholds hstart
    rw [hpayload] at hb
    cases hb
    refine (Rule.matches_congr complete (fun i hi => ?_) now r).symm
    have hview : (view s q start content).Holds 0 a.data := by
      intro j hj
      rw [Nat.zero_add]
      exact hdata j hj
    exact Memory.ofBytes_eq hview hi
  rw [rulesDecide_iff]
  intro p r
  simp only [mem_policyAt_permitted, hmatch]

/-! ### Fields that have not arrived -/

section
variable {now : Tm} {s : Provider} {q : QueuedPacket} {start : Nat}

/-- The byte at an offset of the payload lies behind the datagram, where the buffer keeps what
earlier receives wrote. -/
def Stale (q : QueuedPacket) (start i : Nat) : Prop := q.size ≤ start + i ∧ start + i < bufSize

instance (i : Nat) : Decidable (Stale q start i) := inferInstanceAs (Decidable (_ ∧ _))

def HeaderArrived (q : QueuedPacket) (start : Nat) : Prop := ∀ i < 20, ¬ Stale q start i

instance : Decidable (HeaderArrived q start) := inferInstanceAs (Decidable (∀ i < 20, _))

/-- Neither byte of the port at this distance behind the IP header has arrived. -/
def PortMissing (q : QueuedPacket) (start : Nat) (packet : Memory) (k : Nat) : Prop :=
  HeaderArrived q start ∧ (packet 9 = ipprotoTcp ∨ packet 9 = ipprotoUdp) ∧
    Stale q start (Rule.headerLength packet + k) ∧ Stale q start (Rule.headerLength packet + k + 1)

instance (packet : Memory) (k : Nat) : Decidable (PortMissing q start packet k) :=
  inferInstanceAs (Decidable (_ ∧ _))

def TypeMissing (q : QueuedPacket) (start : Nat) (packet : Memory) : Prop :=
  HeaderArrived q start ∧ packet 9 = ipprotoIcmp ∧ Stale q start (Rule.headerLength packet)

instance (packet : Memory) : Decidable (TypeMissing q start packet) :=
  inferInstanceAs (Decidable (_ ∧ _))

/-- The rule meets all fields but the missing ones. -/
structure Suits (now : Tm) (q : QueuedPacket) (start : Nat) (packet : Memory) (r : Rule) :
    Prop where
  header : r.HeaderMatches packet
  time : TimePasses r.timePass now
  srcPort : packet 9 = ipprotoTcp ∨ packet 9 = ipprotoUdp → PortMissing q start packet 0 ∨
    r.srcPort = 0 ∨ bigEndian16 packet (Rule.headerLength packet) = ntohs r.srcPort
  destPort : packet 9 = ipprotoTcp ∨ packet 9 = ipprotoUdp → PortMissing q start packet 2 ∨
    r.destPort = 0 ∨ bigEndian16 packet (Rule.headerLength packet + 2) = ntohs r.destPort
  subProtocol : packet 9 = ipprotoIcmp → TypeMissing q start packet ∨
    r.subProtocol = 0 ∨ packet (Rule.headerLength packet) = r.subProtocol

/-- In the missing fields the rule sets nothing, or what another rule sets too. -/
structure Within (q : QueuedPacket) (start : Nat) (packet : Memory) (r other : Rule) : Prop where
  srcPort : PortMissing q start packet 0 → r.srcPort = 0 ∨ r.srcPort = other.srcPort
  destPort : PortMissing q start packet 2 → r.destPort = 0 ∨ r.destPort = other.destPort
  subProtocol : TypeMissing q start packet → r.subProtocol = 0 ∨ r.subProtocol = other.subProtocol

/-- Every black rule that suits the packet has a white one that suits it and sets no more in
the missing fields. -/
def Covered (now : Tm) (rules : RuleCollection) (q : QueuedPacket) (start : Nat)
    (packet : Memory) : Prop :=
  ∀ b ∈ rules, b.type = typeBlackList → Suits now q start packet b →
    ∃ w ∈ rules, w.type = typeWhiteList ∧ Suits now q start packet w ∧ Within q start packet w b

/-- No white rule suits the packet, and a black one does that sets nothing in the missing
fields. -/
def Refuses (now : Tm) (rules : RuleCollection) (q : QueuedPacket) (start : Nat)
    (packet : Memory) : Prop :=
  (∃ b ∈ rules, b.type = typeBlackList ∧ Suits now q start packet b ∧
      Within q start packet b zeroRule) ∧
    ∀ w ∈ rules, w.type = typeWhiteList → ¬ Suits now q start packet w

/-- No port is cut in two by the end of the datagram. -/
def PortsWhole (q : QueuedPacket) (start : Nat) (packet : Memory) : Prop :=
  packet 9 = ipprotoTcp ∨ packet 9 = ipprotoUdp → ∀ k, k = 0 ∨ k = 2 →
    (Stale q start (Rule.headerLength packet + k) ↔
      Stale q start (Rule.headerLength packet + k + 1))

/-- What has arrived of the packet, with zeros for what has not. -/
def arrived (s : Provider) (q : QueuedPacket) (start : Nat) : Memory := view s q start fun _ => 0

/-- The rules accept or refuse the packet by what has arrived of it. If that ends inside the
first 20 bytes or inside a port, they do so for all values of the missing bytes. -/
structure Settled (now : Tm) (rules : RuleCollection) (s : Provider) (q : QueuedPacket)
    (start : Nat) : Prop where
  whole : HeaderArrived q start → PortsWhole q start (arrived s q start) →
    Covered now rules q start (arrived s q start) ∨ Refuses now rules q start (arrived s q start)
  cut : ¬ (HeaderArrived q start ∧ PortsWhole q start (arrived s q start)) →
    (∀ rest, Covered now rules q start (view s q start rest)) ∨
      ∀ rest, Refuses now rules q start (view s q start rest)

theorem suits_of_matches {packet : Memory} {r : Rule} (h : r.Matches now packet) :
    Suits now q start packet r where
  header := h.header
  time := h.time
  srcPort := fun hports => Or.inr (h.transport.srcPort hports)
  destPort := fun hports => Or.inr (h.transport.destPort hports)
  subProtocol := fun hicmp => Or.inr (h.transport.subProtocol hicmp)

/-- A rule that sets no more than one that matches. -/
theorem Suits.matches {packet : Memory} {w b : Rule} (h : Suits now q start packet w)
    (within : Within q start packet w b) (hb : b.Matches now packet) : w.Matches now packet := by
  refine ⟨h.header, h.time, fun hports => ?_, fun hports => ?_, fun hicmp => ?_⟩
  · rcases h.srcPort hports with hmissing | hset
    · rcases within.srcPort hmissing with hzero | hsame
      · exact Or.inl hzero
      · rw [hsame]
        exact hb.transport.srcPort hports
    · exact hset
  · rcases h.destPort hports with hmissing | hset
    · rcases within.destPort hmissing with hzero | hsame
      · exact Or.inl hzero
      · rw [hsame]
        exact hb.transport.destPort hports
    · exact hset
  · rcases h.subProtocol hicmp with hmissing | hset
    · rcases within.subProtocol hmissing with hzero | hsame
      · exact Or.inl hzero
      · rw [hsame]
        exact hb.transport.subProtocol hicmp
    · exact hset

/-- A rule that sets nothing in the missing fields. -/
theorem Suits.of_within_zero {packet : Memory} {b : Rule} (h : Suits now q start packet b)
    (within : Within q start packet b zeroRule) : b.Matches now packet := by
  refine ⟨h.header, h.time, fun hports => ?_, fun hports => ?_, fun hicmp => ?_⟩
  · exact (h.srcPort hports).elim (fun hmissing => Or.inl ((within.srcPort hmissing).elim id id)) id
  · exact (h.destPort hports).elim
      (fun hmissing => Or.inl ((within.destPort hmissing).elim id id)) id
  · exact (h.subProtocol hicmp).elim
      (fun hmissing => Or.inl ((within.subProtocol hmissing).elim id id)) id

theorem view_stale {i : Nat} (h : Stale q start i) (content : Memory) :
    view s q start content i = content (start + i) := by
  have hmin : ¬ start + i < min bufSize q.size := by
    have hbehind := h.1
    omega
  simp only [view, advance_apply, filled, Provider.memory, if_pos h.2, recv, if_neg hmin]

theorem view_arrived (hsize : q.size ≤ bufSize) {i : Nat} (h : ¬ Stale q start i)
    (content other : Memory) : view s q start content i = view s q start other i := by
  by_cases hbuf : start + i < bufSize
  · have hmin : start + i < min bufSize q.size := by
      have hbehind : ¬ q.size ≤ start + i := fun hle => h ⟨hle, hbuf⟩
      omega
    simp only [view, advance_apply, filled, Provider.memory, if_pos hbuf, recv, if_pos hmin]
  · simp only [view, advance_apply, filled, Provider.memory, if_neg hbuf, recv]

section
variable (hsize : q.size ≤ bufSize) (harrived : HeaderArrived q start) {content : Memory}
  (other : Memory) {r : Rule}
include hsize harrived

theorem view_header {i : Nat} (hi : i < 20) :
    view s q start content i = view s q start other i :=
  view_arrived hsize (harrived i hi) content other

theorem view_headerLength : Rule.headerLength (view s q start content) =
    Rule.headerLength (view s q start other) := by
  rw [Rule.headerLength, Rule.headerLength, view_header hsize harrived other (by decide)]

theorem portMissing_congr {k : Nat} (h : PortMissing q start (view s q start content) k) :
    PortMissing q start (view s q start other) k := by
  rw [PortMissing, ← view_headerLength hsize harrived other,
    ← view_header hsize harrived other (by decide)]
  exact h

theorem typeMissing_congr (h : TypeMissing q start (view s q start content)) :
    TypeMissing q start (view s q start other) := by
  rw [TypeMissing, ← view_headerLength hsize harrived other,
    ← view_header hsize harrived other (by decide)]
  exact h

theorem portsWhole_congr (h : PortsWhole q start (view s q start content)) :
    PortsWhole q start (view s q start other) := by
  rw [PortsWhole, ← view_headerLength hsize harrived other,
    ← view_header hsize harrived other (by decide)]
  exact h

/-- A port that is not missing has arrived with both its bytes. -/
theorem port_congr (hwhole : PortsWhole q start (view s q start content)) {k : Nat}
    (hk : k = 0 ∨ k = 2)
    (hports : view s q start content 9 = ipprotoTcp ∨ view s q start content 9 = ipprotoUdp)
    (hthere : ¬ PortMissing q start (view s q start content) k) :
    bigEndian16 (view s q start other) (Rule.headerLength (view s q start other) + k) =
      bigEndian16 (view s q start content) (Rule.headerLength (view s q start content) + k) := by
  have hfirst : ¬ Stale q start (Rule.headerLength (view s q start content) + k) := fun hstale =>
    hthere ⟨harrived, hports, hstale, (hwhole hports k hk).mp hstale⟩
  have hsecond := mt (hwhole hports k hk).mpr hfirst
  rw [← view_headerLength hsize harrived other]
  exact bigEndian16_congr (view_arrived hsize hfirst _ _) (view_arrived hsize hsecond _ _)

/-- What suits a packet is decided by what has arrived of it. -/
theorem suits_congr (hwhole : PortsWhole q start (view s q start content))
    (h : Suits now q start (view s q start content) r) :
    Suits now q start (view s q start other) r := by
  have hproto : view s q start other 9 = view s q start content 9 :=
    (view_header hsize harrived other (by decide)).symm
  refine ⟨h.header.congr fun i hi => view_header hsize harrived other hi, h.time,
    fun hports => ?_, fun hports => ?_, fun hicmp => ?_⟩
  · rw [hproto] at hports
    by_cases hgone : PortMissing q start (view s q start content) 0
    · exact Or.inl (portMissing_congr hsize harrived other hgone)
    · have hsame := port_congr hsize harrived other hwhole (Or.inl rfl) hports hgone
      exact Or.inr (((h.srcPort hports).resolve_left hgone).imp_right fun heq => hsame.trans heq)
  · rw [hproto] at hports
    by_cases hgone : PortMissing q start (view s q start content) 2
    · exact Or.inl (portMissing_congr hsize harrived other hgone)
    · have hsame := port_congr hsize harrived other hwhole (Or.inr rfl) hports hgone
      exact Or.inr (((h.destPort hports).resolve_left hgone).imp_right fun heq => hsame.trans heq)
  · rw [hproto] at hicmp
    by_cases hgone : TypeMissing q start (view s q start content)
    · exact Or.inl (typeMissing_congr hsize harrived other hgone)
    · have hthere : ¬ Stale q start (Rule.headerLength (view s q start content)) := fun hstale =>
        hgone ⟨harrived, hicmp, hstale⟩
      rw [← view_headerLength hsize harrived other, view_arrived hsize hthere other content]
      exact Or.inr ((h.subProtocol hicmp).resolve_left hgone)

theorem within_congr {black : Rule} (h : Within q start (view s q start content) r black) :
    Within q start (view s q start other) r black where
  srcPort := fun hmissing => h.srcPort (portMissing_congr hsize harrived content hmissing)
  destPort := fun hmissing => h.destPort (portMissing_congr hsize harrived content hmissing)
  subProtocol := fun hmissing => h.subProtocol (typeMissing_congr hsize harrived content hmissing)

theorem covered_congr {rules : RuleCollection}
    (hwhole : PortsWhole q start (view s q start content))
    (h : Covered now rules q start (view s q start content)) :
    Covered now rules q start (view s q start other) := by
  intro b hb hblack hsuits
  have hwhole' := portsWhole_congr hsize harrived other hwhole
  obtain ⟨w, hw, hwhite, hsuits', hwithin⟩ :=
    h b hb hblack (suits_congr hsize harrived content hwhole' hsuits)
  exact ⟨w, hw, hwhite, suits_congr hsize harrived other hwhole hsuits',
    within_congr hsize harrived other hwithin⟩

theorem refuses_congr {rules : RuleCollection}
    (hwhole : PortsWhole q start (view s q start content))
    (h : Refuses now rules q start (view s q start content)) :
    Refuses now rules q start (view s q start other) := by
  obtain ⟨⟨b, hb, hblack, hsuits, hwithin⟩, hnone⟩ := h
  have hwhole' := portsWhole_congr hsize harrived other hwhole
  refine ⟨⟨b, hb, hblack, suits_congr hsize harrived other hwhole hsuits,
    within_congr hsize harrived other hwithin⟩, fun w hw hwhite hsuits' => ?_⟩
  exact hnone w hw hwhite (suits_congr hsize harrived content hwhole' hsuits')

end

/-- Where all that counts has arrived, what the buffer holds behind it does not matter. -/
theorem settled_iff (hsize : q.size ≤ bufSize) (rules : RuleCollection) :
    Settled now rules s q start ↔ (∀ rest, Covered now rules q start (view s q start rest)) ∨
      ∀ rest, Refuses now rules q start (view s q start rest) := by
  constructor
  · intro h
    by_cases hall : HeaderArrived q start ∧ PortsWhole q start (arrived s q start)
    · obtain ⟨harrived, hwhole⟩ := hall
      rcases h.whole harrived hwhole with hcovered | hrefused
      · exact Or.inl fun rest => covered_congr hsize harrived rest hwhole hcovered
      · exact Or.inr fun rest => refuses_congr hsize harrived rest hwhole hrefused
    · exact h.cut hall
  · intro h
    exact ⟨fun _ _ => h.imp (fun hcovered => hcovered _) fun hrefused => hrefused _, fun _ => h⟩

/-- The missing fields as a rule sets them, and the given bytes elsewhere. -/
def fill (q : QueuedPacket) (start : Nat) (packet rest : Memory) (b : Rule) : Memory := fun j =>
  let transport := start + Rule.headerLength packet
  if PortMissing q start packet 0 ∧ transport ≤ j ∧ j < transport + 2 then
    Memory.ofBytes (bytes16 b.srcPort) (j - transport)
  else if PortMissing q start packet 2 ∧ transport + 2 ≤ j ∧ j < transport + 4 then
    Memory.ofBytes (bytes16 b.destPort) (j - (transport + 2))
  else if TypeMissing q start packet ∧ j = transport then b.subProtocol
  else rest j

theorem not_ports_of_icmp {packet : Memory} (hicmp : packet 9 = ipprotoIcmp) :
    ¬ (packet 9 = ipprotoTcp ∨ packet 9 = ipprotoUdp) := by
  rw [hicmp]
  decide

/-- The packet with its missing fields filled in. -/
def completed (s : Provider) (q : QueuedPacket) (start : Nat) (rest : Memory) (b : Rule) : Memory :=
  view s q start (fill q start (view s q start rest) rest b)

variable {rest : Memory} {b r : Rule}

theorem completed_other (hsize : q.size ≤ bufSize) {i : Nat}
    (hsrc : PortMissing q start (view s q start rest) 0 →
      ¬ (Rule.headerLength (view s q start rest) ≤ i ∧
        i < Rule.headerLength (view s q start rest) + 2))
    (hdest : PortMissing q start (view s q start rest) 2 →
      ¬ (Rule.headerLength (view s q start rest) + 2 ≤ i ∧
        i < Rule.headerLength (view s q start rest) + 4))
    (htype : TypeMissing q start (view s q start rest) →
      i ≠ Rule.headerLength (view s q start rest)) :
    completed s q start rest b i = view s q start rest i := by
  by_cases hstale : Stale q start i
  · rw [completed, view_stale hstale, view_stale hstale, fill, if_neg, if_neg, if_neg]
    · rintro ⟨hmissing, heq⟩
      exact htype hmissing (by omega)
    · rintro ⟨hmissing, hlo, hhi⟩
      exact hdest hmissing ⟨by omega, by omega⟩
    · rintro ⟨hmissing, hlo, hhi⟩
      exact hsrc hmissing ⟨by omega, by omega⟩
  · exact view_arrived hsize hstale _ _

theorem completed_header (hsize : q.size ≤ bufSize) {i : Nat} (hi : i < 20) :
    completed s q start rest b i = view s q start rest i := by
  by_cases harrived : HeaderArrived q start
  · exact view_arrived hsize (harrived i hi) _ _
  · exact completed_other hsize (fun hmissing => absurd hmissing.1 harrived)
      (fun hmissing => absurd hmissing.1 harrived) (fun hmissing => absurd hmissing.1 harrived)

/-- A missing port reads as the one that was filled in. -/
theorem completed_port {k : Nat} {port : UInt16}
    (hmissing : PortMissing q start (view s q start rest) k)
    (hfill : ∀ i < 2, fill q start (view s q start rest) rest b
      (start + (Rule.headerLength (view s q start rest) + k + i)) =
        Memory.ofBytes (bytes16 port) i) :
    bigEndian16 (completed s q start rest b) (Rule.headerLength (view s q start rest) + k) =
      ntohs port := by
  have hholds : (completed s q start rest b).Holds
      (Rule.headerLength (view s q start rest) + k) (bytes16 port) := by
    intro i hi
    have htwo : i < 2 := hi
    have hstale : Stale q start (Rule.headerLength (view s q start rest) + k + i) := by
      have hlo := hmissing.2.2.1.1
      have hhi := hmissing.2.2.2.2
      exact ⟨by omega, by omega⟩
    have hbyte := Memory.ofBytes_holds (bytes16 port) i hi
    rw [Nat.zero_add] at hbyte
    rw [completed, view_stale hstale, hfill i htwo, hbyte]
  exact (load16_eq_iff _ _ _).mp (load16_of_holds hholds)

theorem completed_srcPort (hmissing : PortMissing q start (view s q start rest) 0) :
    bigEndian16 (completed s q start rest b) (Rule.headerLength (view s q start rest)) =
      ntohs b.srcPort := by
  have hfill : ∀ i < 2, fill q start (view s q start rest) rest b
      (start + (Rule.headerLength (view s q start rest) + 0 + i)) =
        Memory.ofBytes (bytes16 b.srcPort) i := by
    intro i hi
    have hindex : start + (Rule.headerLength (view s q start rest) + 0 + i) -
        (start + Rule.headerLength (view s q start rest)) = i := by omega
    rw [fill, if_pos ⟨hmissing, by omega, by omega⟩, hindex]
  have hread := completed_port hmissing hfill
  rwa [Nat.add_zero] at hread

theorem completed_destPort (hmissing : PortMissing q start (view s q start rest) 2) :
    bigEndian16 (completed s q start rest b) (Rule.headerLength (view s q start rest) + 2) =
      ntohs b.destPort := by
  have hfill : ∀ i < 2, fill q start (view s q start rest) rest b
      (start + (Rule.headerLength (view s q start rest) + 2 + i)) =
        Memory.ofBytes (bytes16 b.destPort) i := by
    intro i hi
    have hindex : start + (Rule.headerLength (view s q start rest) + 2 + i) -
        (start + Rule.headerLength (view s q start rest) + 2) = i := by omega
    rw [fill, if_neg (fun h => by omega), if_pos ⟨hmissing, by omega, by omega⟩, hindex]
  exact completed_port hmissing hfill

theorem completed_type (hmissing : TypeMissing q start (view s q start rest)) :
    completed s q start rest b (Rule.headerLength (view s q start rest)) = b.subProtocol := by
  have hnot : ∀ k, ¬ PortMissing q start (view s q start rest) k := fun k hports =>
    not_ports_of_icmp hmissing.2.1 hports.2.1
  rw [completed, view_stale hmissing.2.2, fill, if_neg (fun h => hnot 0 h.1),
    if_neg (fun h => hnot 2 h.1), if_pos ⟨hmissing, rfl⟩]

/-- Where a port is not missing, it reads as before. -/
theorem completed_arrived (hsize : q.size ≤ bufSize) {k : Nat} (hk : k = 0 ∨ k = 2)
    (hports : view s q start rest 9 = ipprotoTcp ∨ view s q start rest 9 = ipprotoUdp)
    (harrived : ¬ PortMissing q start (view s q start rest) k) :
    bigEndian16 (completed s q start rest b) (Rule.headerLength (view s q start rest) + k) =
      bigEndian16 (view s q start rest) (Rule.headerLength (view s q start rest) + k) := by
  have hnotype : ¬ TypeMissing q start (view s q start rest) := fun hmissing =>
    not_ports_of_icmp hmissing.2.1 hports
  have hbyte : ∀ i < 2, completed s q start rest b
      (Rule.headerLength (view s q start rest) + k + i) =
        view s q start rest (Rule.headerLength (view s q start rest) + k + i) := by
    intro i hi
    refine completed_other hsize (fun hmissing hrange => ?_) (fun hmissing hrange => ?_)
      (fun hmissing => absurd hmissing hnotype)
    · rcases hk with rfl | rfl
      · exact harrived hmissing
      · omega
    · rcases hk with rfl | rfl
      · omega
      · exact harrived hmissing
  exact bigEndian16_congr (hbyte 0 (by decide)) (hbyte 1 (by decide))

theorem completed_type_arrived (hsize : q.size ≤ bufSize)
    (hicmp : view s q start rest 9 = ipprotoIcmp)
    (harrived : ¬ TypeMissing q start (view s q start rest)) :
    completed s q start rest b (Rule.headerLength (view s q start rest)) =
      view s q start rest (Rule.headerLength (view s q start rest)) :=
  completed_other hsize (fun hmissing => absurd hmissing.2.1 (not_ports_of_icmp hicmp))
    (fun hmissing => absurd hmissing.2.1 (not_ports_of_icmp hicmp))
    (fun hmissing => absurd hmissing harrived)

/-- A port of the completed packet is the rule's when it was before, or, where it is missing,
when the rule's is the one that was filled in. -/
theorem completed_port_iff (hsize : q.size ≤ bufSize) {k : Nat} (hk : k = 0 ∨ k = 2)
    (hports : view s q start rest 9 = ipprotoTcp ∨ view s q start rest 9 = ipprotoUdp)
    {filledIn : UInt16} (hfilled : PortMissing q start (view s q start rest) k →
      bigEndian16 (completed s q start rest b) (Rule.headerLength (view s q start rest) + k) =
        ntohs filledIn) (port : UInt16) :
    (port = 0 ∨ bigEndian16 (completed s q start rest b)
        (Rule.headerLength (view s q start rest) + k) = ntohs port) ↔
      (PortMissing q start (view s q start rest) k ∨ port = 0 ∨
        bigEndian16 (view s q start rest) (Rule.headerLength (view s q start rest) + k) =
          ntohs port) ∧
      (PortMissing q start (view s q start rest) k → port = 0 ∨ port = filledIn) := by
  have hswap : ntohs filledIn = ntohs port ↔ port = filledIn := by
    constructor
    · intro h
      rw [← ntohs_ntohs port, ← h, ntohs_ntohs]
    · intro h
      rw [h]
  by_cases hmissing : PortMissing q start (view s q start rest) k
  · simp only [hfilled hmissing, hswap, hmissing, true_or, true_and, true_imp_iff]
  · simp only [completed_arrived hsize hk hports hmissing, hmissing, false_or, false_imp_iff,
      and_true]

theorem completed_type_iff (hsize : q.size ≤ bufSize) (hicmp : view s q start rest 9 = ipprotoIcmp)
    (type : UInt8) :
    (type = 0 ∨ completed s q start rest b (Rule.headerLength (view s q start rest)) = type) ↔
      (TypeMissing q start (view s q start rest) ∨ type = 0 ∨
        view s q start rest (Rule.headerLength (view s q start rest)) = type) ∧
      (TypeMissing q start (view s q start rest) → type = 0 ∨ type = b.subProtocol) := by
  by_cases hmissing : TypeMissing q start (view s q start rest)
  · simp only [completed_type hmissing, hmissing, true_or, true_and, true_imp_iff]
    exact or_congr_right eq_comm
  · simp only [completed_type_arrived hsize hicmp hmissing, hmissing, false_or, false_imp_iff,
      and_true]

/-- A rule matches the completed packet exactly when it suits the packet and sets nothing in
the missing fields but what was filled in. -/
theorem matches_completed_iff (hsize : q.size ≤ bufSize) :
    r.Matches now (completed s q start rest b) ↔
      Suits now q start (view s q start rest) r ∧ Within q start (view s q start rest) r b := by
  have hheader : ∀ i < 20, completed s q start rest b i = view s q start rest i :=
    fun i hi => completed_header hsize hi
  have hlength : Rule.headerLength (completed s q start rest b) =
      Rule.headerLength (view s q start rest) := by
    rw [Rule.headerLength, Rule.headerLength, hheader 0 (by decide)]
  have hproto := hheader 9 (by decide)
  have hsrc := fun hports : view s q start rest 9 = ipprotoTcp ∨
      view s q start rest 9 = ipprotoUdp =>
    completed_port_iff (b := b) hsize (Or.inl rfl) hports completed_srcPort r.srcPort
  have hdest := fun hports : view s q start rest 9 = ipprotoTcp ∨
      view s q start rest 9 = ipprotoUdp =>
    completed_port_iff (b := b) hsize (Or.inr rfl) hports completed_destPort r.destPort
  have htype := fun hicmp : view s q start rest 9 = ipprotoIcmp =>
    completed_type_iff (b := b) hsize hicmp r.subProtocol
  constructor
  · rintro ⟨header, time, ⟨srcPort, destPort, subProtocol⟩⟩
    rw [hproto, hlength] at srcPort destPort subProtocol
    refine ⟨⟨header.congr hheader, time, fun hports => ?_, fun hports => ?_, fun hicmp => ?_⟩,
      ⟨fun hmissing => ?_, fun hmissing => ?_, fun hmissing => ?_⟩⟩
    · exact ((hsrc hports).mp (srcPort hports)).1
    · exact ((hdest hports).mp (destPort hports)).1
    · exact ((htype hicmp).mp (subProtocol hicmp)).1
    · exact ((hsrc hmissing.2.1).mp (srcPort hmissing.2.1)).2 hmissing
    · exact ((hdest hmissing.2.1).mp (destPort hmissing.2.1)).2 hmissing
    · exact ((htype hmissing.2.1).mp (subProtocol hmissing.2.1)).2 hmissing
  · rintro ⟨suits, within⟩
    refine ⟨suits.header.congr fun i hi => (hheader i hi).symm, suits.time, ?_⟩
    refine ⟨fun hports => ?_, fun hports => ?_, fun hicmp => ?_⟩
    · rw [hproto] at hports
      rw [hlength]
      exact (hsrc hports).mpr ⟨suits.srcPort hports, within.srcPort⟩
    · rw [hproto] at hports
      rw [hlength]
      exact (hdest hports).mpr ⟨suits.destPort hports, within.destPort⟩
    · rw [hproto] at hicmp
      rw [hlength]
      exact (htype hicmp).mpr ⟨suits.subProtocol hicmp, within.subProtocol⟩

/-- The rules decide alike on every filling exactly when they are settled. -/
theorem rulesDecide_iff_settled (hsize : q.size ≤ bufSize) (rules : RuleCollection) :
    RulesDecide now rules s q start ↔ Settled now rules s q start := by
  rw [settled_iff hsize]
  constructor
  · rintro (hexempt | hrefused)
    · refine Or.inl fun rest b hb hblack hsuits => ?_
      -- the missing fields are filled in as the black rule sets them
      have hmatches : b.Matches now (completed s q start rest b) :=
        (matches_completed_iff hsize).mpr ⟨hsuits, fun _ => Or.inr rfl, fun _ => Or.inr rfl,
          fun _ => Or.inr rfl⟩
      obtain ⟨w, hw, hwhite, hmatch⟩ := hexempt _ ⟨b, hb, hblack, hmatches⟩
      exact ⟨w, hw, hwhite, (matches_completed_iff hsize).mp hmatch⟩
    · refine Or.inr fun rest => ⟨?_, fun w hw hwhite hsuits => ?_⟩
      · obtain ⟨b, hb, hblack, hmatches⟩ :=
          (hrefused (fill q start (view s q start rest) rest zeroRule)).1
        exact ⟨b, hb, hblack, (matches_completed_iff hsize).mp hmatches⟩
      · have hmatches : w.Matches now (completed s q start rest w) :=
          (matches_completed_iff hsize).mpr ⟨hsuits, fun _ => Or.inr rfl, fun _ => Or.inr rfl,
            fun _ => Or.inr rfl⟩
        exact (hrefused _).2 ⟨w, hw, hwhite, hmatches⟩
  · rintro (hcovered | hrefused)
    · refine Or.inl fun content => ?_
      rintro ⟨b, hb, hblack, hmatches⟩
      obtain ⟨w, hw, hwhite, hsuits, hwithin⟩ :=
        hcovered content b hb hblack (suits_of_matches hmatches)
      exact ⟨w, hw, hwhite, hsuits.matches hwithin hmatches⟩
    · refine Or.inr fun content => ?_
      obtain ⟨⟨b, hb, hblack, hsuits, hwithin⟩, hnone⟩ := hrefused content
      refine ⟨⟨b, hb, hblack, hsuits.of_within_zero hwithin⟩, ?_⟩
      rintro ⟨w, hw, hwhite, hmatches⟩
      exact hnone w hw hwhite (suits_of_matches hmatches)

/-- On a packet whose headers are complete in its payload all rules are settled. -/
theorem settled_of_complete {a : Attribute} (hsize : q.size ≤ bufSize)
    (hstart : q.payloadStart = some start) (hpayload : q.payload = some a)
    (complete : Rule.Complete (Memory.ofBytes a.data) a.data.length) (rules : RuleCollection) :
    Settled now rules s q start :=
  (rulesDecide_iff_settled hsize rules).mp
    (rulesDecide_of_complete hsize hstart hpayload complete now rules)

theorem fixedJudge_constant_iff (hsize : q.size ≤ bufSize) (localtime : TimeT → Tm) (now : TimeT)
    (rules : RuleCollection) :
    (∀ p r, fixedJudge localtime now true rules ⟨view s q start p⟩ =
        fixedJudge localtime now true rules ⟨view s q start r⟩) ↔
      Settled (localtime now) rules s q start := by
  have haccept : ∀ content, fixedJudge localtime now true rules ⟨view s q start content⟩ = true ↔
      view s q start content ∈ (policyAt (localtime now) rules).permitted :=
    fun content => check_iff_policyAt localtime now rules ⟨view s q start content⟩ 0
  rw [← rulesDecide_iff_settled hsize, rulesDecide_iff]
  refine forall_congr' fun p => forall_congr' fun r => ?_
  rw [Bool.eq_iff_iff, haccept, haccept]

theorem size_of_payloadStart (hstart : q.payloadStart = some start) : 36 ≤ q.size := by
  have hpayload : q.payload ≠ none := by
    intro hnone
    rw [q.payloadStart_eq_none_iff.mpr hnone] at hstart
    cases hstart
  obtain ⟨a, ha⟩ := Option.ne_none_iff_exists'.mp hpayload
  have hroom := QueuedPacket.size_of_payload ha
  omega

/-- The verdict on a packet with a payload is what the judge says of the view of it. -/
theorem verdictAfter_same_iff (hsize : q.size ≤ bufSize) (hstart : q.payloadStart = some start)
    (judge : PacketExtractor → Bool) :
    (∀ first second, verdictAfter judge s first q = verdictAfter judge s second q) ↔
      ∀ p r, judge ⟨view s q start p⟩ = judge ⟨view s q start r⟩ := by
  have hverdicts : ∀ content, q.verdicts judge (filled s q content) =
      [⟨q.id, judge ⟨view s q start content⟩⟩] := by
    intro content
    rw [QueuedPacket.verdicts, hstart]
    rfl
  rw [histories_iff_fillings (size_of_payloadStart hstart) hsize]
  simp only [hverdicts, List.cons.injEq, Verdict.mk.injEq, true_and, and_true]

end

/-- A packet's verdict is the same after all histories exactly when the filter is
off, the packet is never judged, or the rules are settled on what has arrived of it. -/
theorem same_verdict_iff (localtime : TimeT → Tm) (now : TimeT) (enabled : Bool)
    (rules : RuleCollection) (s : Provider) (q : QueuedPacket) :
    (∀ first second,
      verdictAfter (fixedJudge localtime now enabled rules) s first q =
        verdictAfter (fixedJudge localtime now enabled rules) s second q) ↔
      enabled = false ∨ bufSize < q.size ∨
        ∀ start, q.payloadStart = some start → Settled (localtime now) rules s q start := by
  by_cases hsize : q.size ≤ bufSize
  · cases hstart : q.payloadStart with
    | none =>
      have hsilent : ∀ history, verdictAfter (fixedJudge localtime now enabled rules) s history q =
          [] := by
        intro history
        rw [verdictAfter_eq hsize, QueuedPacket.verdicts, hstart]
      refine ⟨fun _ => Or.inr (Or.inr ?_), fun _ first second => ?_⟩
      · intro start h
        cases h
      · rw [hsilent, hsilent]
    | some start =>
      rw [verdictAfter_same_iff hsize hstart]
      cases enabled with
      | false => exact ⟨fun _ => Or.inl rfl, fun _ _ _ => rfl⟩
      | true =>
        rw [fixedJudge_constant_iff hsize]
        constructor
        · intro hsettled
          refine Or.inr (Or.inr ?_)
          intro other hother
          cases hother
          exact hsettled
        · rintro (hoff | hlarge | hsettled)
          · cases hoff
          · exact absurd hsize (Nat.not_le_of_lt hlarge)
          · exact hsettled start rfl
  · have hlarge : bufSize < q.size := Nat.lt_of_not_le hsize
    refine ⟨fun _ => Or.inr (Or.inl hlarge), fun _ first second => ?_⟩
    rw [verdictAfter, verdictAfter, turn_oversized rfl hlarge, turn_oversized rfl hlarge]

/-- The header of a TCP packet from 10.0.0.1 to 10.0.0.2, and nothing behind it. -/
def bareHeader : List UInt8 :=
  [0x45, 0, 0, 20, 0, 0, 0, 0, 64, 6, 0, 0, 10, 0, 0, 1, 10, 0, 0, 2]

def blockPort53 : RuleCollection := [⟨0x3500, 0, 0, 0, 0xffffffff, 0, 6, 0⟩]

def bareDatagram : QueuedPacket := packetOf 9 bareHeader (by decide)

/-- The packet without ports is refused for the port of the packet before it. -/
theorem bareHeader_inherits_port :
    verdictAfter (fixedJudge ReadingInstants.utc 0 true blockPort53) zeroProvider [] bareDatagram =
      [⟨9, true⟩] ∧
    verdictAfter (fixedJudge ReadingInstants.utc 0 true blockPort53) zeroProvider
      [dnsDatagram 8] bareDatagram = [⟨9, false⟩] ∧
    ¬ ∀ first second,
      verdictAfter (fixedJudge ReadingInstants.utc 0 true blockPort53) zeroProvider first
          bareDatagram =
        verdictAfter (fixedJudge ReadingInstants.utc 0 true blockPort53) zeroProvider second
          bareDatagram := by
  have hfresh : verdictAfter (fixedJudge ReadingInstants.utc 0 true blockPort53) zeroProvider []
      bareDatagram = [⟨9, true⟩] := by decide +kernel
  have hstale : verdictAfter (fixedJudge ReadingInstants.utc 0 true blockPort53) zeroProvider
      [dnsDatagram 8] bareDatagram = [⟨9, false⟩] := by decide +kernel
  refine ⟨hfresh, hstale, fun hsame => ?_⟩
  have h := hsame [] [dnsDatagram 8]
  rw [hfresh, hstale] at h
  exact absurd h (by decide)

end StaleBytes
