import ApplicationLayerFirewall.QueuedPackets
import ApplicationLayerFirewall.ReadingInstants

/-!
# The prototype and the filter server

The prototype blocks one kind of traffic, given by its command line. It writes
"zero means any" as a table over pairs of fields and dispatches on the protocol
before anything is compared. For TCP and UDP it is the filter server with a
single black rule. The message handling around the verdict is compared as well;
it differs only for a packet without payload while nothing is filtered.
-/

namespace PrototypeFilter

open ByteOrder PacketReading RuleMatching RuleVerdict Netlink

/-! ### queue_fw.c -/

/-- The variables that the command line sets, as they are stored. -/
structure Config where
  enableFlag : Int32
  controlledProtocol : UInt32
  controlledSrcport : UInt16
  controlledDstport : UInt16
  controlledSaddr : UInt32
  controlledDaddr : UInt32

/-- `MATCH` and `NMATCH`. -/
inductive Matching where
  | matched
  | nmatched
  deriving DecidableEq

def nfDrop : Bool := false
def nfAccept : Bool := true

/-- The table that `port_check` and `ipaddr_check` share. -/
def pairCheck {α : Type} [DecidableEq α] [OfNat α 0] (controlledSrc controlledDst src dst : α) :
    Matching :=
  if controlledSrc = 0 ∧ controlledDst = 0 then .matched
  else if controlledSrc ≠ 0 ∧ controlledDst = 0 then
    if controlledSrc = src then .matched else .nmatched
  else if controlledSrc = 0 ∧ controlledDst ≠ 0 then
    if controlledDst = dst then .matched else .nmatched
  else if controlledSrc ≠ 0 ∧ controlledDst ≠ 0 then
    if controlledSrc = src ∧ controlledDst = dst then .matched else .nmatched
  else .nmatched

def portCheck (c : Config) (srcport dstport : UInt16) : Matching :=
  pairCheck c.controlledSrcport c.controlledDstport srcport dstport

def ipaddrCheck (c : Config) (saddr daddr : UInt32) : Matching :=
  pairCheck c.controlledSaddr c.controlledDaddr saddr daddr

/-- Only echo requests and replies are controlled, a reply with its addresses exchanged. -/
def icmpCheck (c : Config) (piphdr : PacketExtractor) : Bool :=
  let type := piphdr.getData 0
  if type ≠ 0 ∧ type ≠ 8 then nfAccept
  else if type = 0 ∧ ipaddrCheck c piphdr.getDestIp piphdr.getSrcIp = .matched then nfDrop
  else if type = 8 ∧ ipaddrCheck c piphdr.getSrcIp piphdr.getDestIp = .matched then nfDrop
  else nfAccept

/-- `tcp_check` and `udp_check` read the same two fields. -/
def transportCheck (c : Config) (piphdr : PacketExtractor) : Bool :=
  if ipaddrCheck c piphdr.getSrcIp piphdr.getDestIp = .matched ∧
      portCheck c (load16 piphdr.getData 0) (load16 piphdr.getData 2) = .matched
    then nfDrop else nfAccept

def tcpCheck (c : Config) (piphdr : PacketExtractor) : Bool := transportCheck c piphdr

def udpCheck (c : Config) (piphdr : PacketExtractor) : Bool := transportCheck c piphdr

/-- The variable `dealmethod`. -/
def dealmethod (c : Config) (piphdr : PacketExtractor) : Bool :=
  if piphdr.getProtocol.toUInt32 = c.controlledProtocol then
    if piphdr.getProtocol = ipprotoIcmp then icmpCheck c piphdr
    else if piphdr.getProtocol = ipprotoTcp then tcpCheck c piphdr
    else if piphdr.getProtocol = ipprotoUdp then udpCheck c piphdr
    else nfAccept
  else nfAccept

/-- With the flag off, the payload is not looked for. -/
def callback (c : Config) (nlh : Memory) (nfa : Attrs) : Handled :=
  match nfa nfqaPacketHdr with
  | none => ([], 1)
  | some ph =>
    let id := ntohl (load32 nlh (ph + 4))
    if c.enableFlag = 0 then ([⟨id, nfAccept⟩], 0)
    else match nfa nfqaPayload with
      | none => ([], 1)
      | some pdata => ([⟨id, dealmethod c ⟨nlh.advance (pdata + 4)⟩⟩], 0)

/-! ### The rule of a configuration -/

/-- One black rule with the same protocol, addresses and ports, at any time. -/
def Config.rule (c : Config) : Rule where
  destPort := c.controlledDstport
  srcPort := c.controlledSrcport
  srcIp := c.controlledSaddr
  destIp := c.controlledDaddr
  timePass := 0xffffffff
  type := typeBlackList
  protocol := c.controlledProtocol.toUInt8
  subProtocol := 0

/-- The flag of the rule manager. -/
def Config.enabled (c : Config) : Bool := c.enableFlag ≠ 0

/-- The table says what two applications of the wildcard macro say. -/
theorem pairCheck_iff {α : Type} [DecidableEq α] [OfNat α 0]
    (controlledSrc controlledDst src dst : α) :
    pairCheck controlledSrc controlledDst src dst = .matched ↔
      validAndCheck controlledSrc src = true ∧ validAndCheck controlledDst dst = true := by
  rw [validAndCheck_iff, validAndCheck_iff, eq_comm (a := src), eq_comm (a := dst)]
  unfold pairCheck
  by_cases hsrc : controlledSrc = 0 <;> by_cases hdst : controlledDst = 0
  · simp [hsrc, hdst]
  · simp [hsrc, hdst]
  · simp [hsrc, hdst]
  · simp [hsrc, hdst]

theorem controlled_ports {c : Config}
    (hcontrolled : c.controlledProtocol = 6 ∨ c.controlledProtocol = 17) {pe : PacketExtractor}
    (h : pe.getProtocol.toUInt32 = c.controlledProtocol) :
    pe.getProtocol = ipprotoTcp ∨ pe.getProtocol = ipprotoUdp := by
  rcases hcontrolled with hc | hc
  · exact Or.inl (UInt8.toUInt32_inj.mp (h.trans hc))
  · exact Or.inr (UInt8.toUInt32_inj.mp (h.trans hc))

/-- A list of one black rule accepts what the rule does not match. -/
theorem check_black {r : Rule} (htype : r.type = typeBlackList) (clock : Clock)
    (pe : PacketExtractor) (n : Nat) :
    (RuleVerdict.check clock [r] pe n).1 = !(r.check clock pe n).1 := by
  simp [RuleVerdict.check, checkLoop, checkStep, noFlags, htype]

/-- The two drops of a transport check. -/
theorem transportCheck_iff (c : Config) (pe : PacketExtractor) :
    transportCheck c pe = nfDrop ↔
      (validAndCheck c.controlledSaddr pe.getSrcIp = true ∧
        validAndCheck c.controlledDaddr pe.getDestIp = true) ∧
      (validAndCheck c.controlledSrcport (load16 pe.getData 0) = true ∧
        validAndCheck c.controlledDstport (load16 pe.getData 2) = true) := by
  rw [← pairCheck_iff, ← pairCheck_iff, transportCheck, ipaddrCheck, portCheck]
  split_ifs with h
  · exact iff_of_true rfl h
  · exact iff_of_false (by decide) h

/-- What the black rule of a TCP or UDP configuration matches. -/
theorem rule_check_iff (c : Config)
    (hcontrolled : c.controlledProtocol = 6 ∨ c.controlledProtocol = 17) (clock : Clock)
    (pe : PacketExtractor) (n : Nat) :
    (c.rule.check clock pe n).1 = true ↔
      pe.getProtocol.toUInt32 = c.controlledProtocol ∧ transportCheck c pe = nfDrop := by
  have hprotocol : validAndCheck c.rule.protocol pe.getProtocol = true ↔
      pe.getProtocol.toUInt32 = c.controlledProtocol := by
    have hstored : c.rule.protocol.toUInt32 = c.controlledProtocol := by
      rcases hcontrolled with h | h <;> (simp only [Config.rule, h]; rfl)
    have hset : ¬ c.rule.protocol = 0 := by
      rcases hcontrolled with h | h <;> (simp only [Config.rule, h]; decide)
    rw [validAndCheck_iff, or_iff_right hset, ← hstored, UInt8.toUInt32_inj]
  have htime : TimePasses c.rule.timePass (clock.getTime n) := timePasses_all (clock.getTime n)
  rw [Rule.check_fst, ← hprotocol, transportCheck_iff]
  constructor
  · rintro ⟨header, _, transport⟩
    obtain ⟨hproto, hsrc, hdest⟩ := (Rule.headerMatches_iff c.rule pe).mp header
    have hports := controlled_ports hcontrolled (hprotocol.mp hproto)
    have hboth := (Rule.transportMatches_ports_iff c.rule hports).mp transport
    rw [Rule.getSrcPort_eq hports, Rule.getDestPort_eq hports] at hboth
    exact ⟨hproto, ⟨hsrc, hdest⟩, hboth⟩
  · rintro ⟨hproto, ⟨hsrc, hdest⟩, hboth⟩
    have hports := controlled_ports hcontrolled (hprotocol.mp hproto)
    refine ⟨(Rule.headerMatches_iff c.rule pe).mpr ⟨hproto, hsrc, hdest⟩, htime, ?_⟩
    rw [Rule.transportMatches_ports_iff c.rule hports, Rule.getSrcPort_eq hports,
      Rule.getDestPort_eq hports]
    exact hboth

/-- The prototype's decision is the verdict of the filter with the one rule. -/
theorem dealmethod_eq (c : Config)
    (hcontrolled : c.controlledProtocol = 6 ∨ c.controlledProtocol = 17) (clock : Clock)
    (pe : PacketExtractor) (n : Nat) :
    dealmethod c pe = (RuleVerdict.check clock [c.rule] pe n).1 := by
  have hrule := rule_check_iff c hcontrolled clock pe n
  rw [check_black rfl]
  by_cases hproto : pe.getProtocol.toUInt32 = c.controlledProtocol
  · have hdeal : dealmethod c pe = transportCheck c pe := by
      rw [dealmethod, if_pos hproto]
      rcases controlled_ports hcontrolled hproto with h | h
      · rw [h, if_neg (by decide), if_pos rfl, tcpCheck]
      · rw [h, if_neg (by decide), if_neg (by decide), if_pos rfl, udpCheck]
    rw [hdeal]
    cases hcheck : transportCheck c pe with
    | false =>
      rw [hrule.mpr ⟨hproto, hcheck⟩]
      rfl
    | true =>
      have hnot : (c.rule.check clock pe n).1 = false := by
        rw [Bool.eq_false_iff]
        intro hmatch
        have hdrop := (hrule.mp hmatch).2
        rw [hcheck] at hdrop
        cases hdrop
      rw [hnot]
      rfl
  · have hnot : (c.rule.check clock pe n).1 = false := by
      rw [Bool.eq_false_iff]
      exact fun hmatch => hproto (hrule.mp hmatch).1
    rw [dealmethod, if_neg hproto, hnot]
    rfl

/-- On every packet with a payload the callback answers as the filter server does. -/
theorem callback_eq_onPacket (c : Config)
    (hcontrolled : c.controlledProtocol = 6 ∨ c.controlledProtocol = 17) (clock : Clock) (n : Nat)
    (nlh : Memory) (nfa : Attrs) (hpayload : nfa nfqaPayload ≠ none) :
    callback c nlh nfa =
      onPacket (fun pe => (judge clock c.enabled [c.rule] pe n).1) nlh nfa := by
  rw [callback, onPacket]
  cases nfa nfqaPacketHdr with
  | none => rfl
  | some ph =>
    cases hpdata : nfa nfqaPayload with
    | none => exact absurd hpdata hpayload
    | some pdata =>
      by_cases hflag : c.enableFlag = 0
      · simp [hflag, judge, Config.enabled, nfAccept]
      · have hon : c.enabled = true := by simp [Config.enabled, hflag]
        simp only [if_neg hflag, hon, judge, dealmethod_eq c hcontrolled clock _ n]
        rfl

/-- `-p udp -n 53`, with the port in network order. -/
def blockDns : Config := ⟨1, 17, 0, 0x3500, 0, 0⟩

theorem dnsPacket_small : ReadingInstants.dnsPacket.length + 4 < 65536 := by decide

def dnsMessage : Memory :=
  Memory.ofBytes (QueuedPackets.packetOf 7 ReadingInstants.dnsPacket dnsPacket_small).bytes

theorem blockDns_eq_onPacket :
    callback blockDns dnsMessage (nfnlCheckAttributes dnsMessage) = ([⟨7, false⟩], 0) ∧
    callback blockDns dnsMessage (nfnlCheckAttributes dnsMessage) =
      onPacket (fun pe => (judge (Clock.fixed ReadingInstants.utc 0) blockDns.enabled
        [blockDns.rule] pe 0).1) dnsMessage (nfnlCheckAttributes dnsMessage) :=
  ⟨by decide +kernel, callback_eq_onPacket blockDns (Or.inr rfl) _ 0 dnsMessage _
    (by decide +kernel)⟩

end PrototypeFilter
