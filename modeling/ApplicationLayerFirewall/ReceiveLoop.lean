import ApplicationLayerFirewall.QueuedPackets
import ApplicationLayerFirewall.ReadingInstants
import Mathlib.Data.List.Forall2
import Mathlib.Data.List.Nodup

/-!
# The receive loop of the filter service

One buffer serves all receives, and the result of `recv` goes to the dispatcher
unchecked. So a failed receive hands over whatever message the buffer still
holds, a datagram that does not fit is dropped without a verdict, and so is a
packet without payload. A run that meets none of the three is answered once per
packet, in order.
-/

namespace ReceiveLoop

open ByteOrder PacketReading Netlink QueuedPackets

/-! ### The loop -/

def bufSize : Nat := 1600

/-- The members that the loop touches: the array `buf`, the int that follows it,
and whatever memory lies behind. -/
structure Provider where
  buf : Memory
  length : Int32
  beyond : Memory

/-- What a pointer to `buf` can read. -/
def Provider.memory (s : Provider) : Memory := fun i =>
  if i < bufSize then s.buf i
  else if i < bufSize + 4 then (bytes32 s.length.toUInt32).getD (i - bufSize) 0
  else s.beyond i

inductive Outcome where
  | datagram (q : QueuedPacket)
  | failed

/-- `recv` writes what fits of a datagram; a failure writes nothing but its -1. -/
def recv (s : Provider) : Outcome → Provider
  | .datagram q =>
    { s with
      buf := fun i => if i < min bufSize q.size then Memory.ofBytes q.bytes i else s.buf i
      length := Int32.ofNat (min bufSize q.size) }
  | .failed => { s with length := -1 }

/-- One iteration, with the judge as it is during it: rules and clock may change. -/
structure Turn where
  outcome : Outcome
  judge : PacketExtractor → Bool

/-- The body of the loop: the new state, and the verdicts with the return value. -/
def turn (s : Provider) (t : Turn) : Provider × (List Verdict × Option Int) :=
  let s := recv s t.outcome
  (s, nfqHandlePacket t.judge s.memory s.length)

/-- The verdicts of every iteration. A dispatcher that does not return ends the run. -/
def start (s : Provider) : List Turn → List (List Verdict)
  | [] => []
  | t :: rest =>
    let next := turn s t
    match next.2.2 with
    | some _ => next.2.1 :: start next.1 rest
    | none => [next.2.1]

/-! ### Exactly one verdict -/

/-- The ids of the packets that arrive. -/
def packetIds (turns : List Turn) : List UInt32 :=
  turns.filterMap (fun t => match t.outcome with
    | .datagram q => some q.id
    | .failed => none)

/-- Each packet has one verdict, and each verdict the id of the packet of its turn. -/
structure ExactlyOnce (turns : List Turn) (answers : List (List Verdict)) : Prop where
  once : ∀ id ∈ packetIds turns, (answers.flatten.map Verdict.id).count id = 1
  current : List.Forall₂ (fun t verdicts =>
    ∀ v ∈ verdicts, ∃ q, t.outcome = .datagram q ∧ v.id = q.id) turns answers

/-- A datagram fits the buffer and carries a payload; a receive fails only while
the buffer starts with no message that the dispatcher accepts. -/
def Meets (s : Provider) (t : Turn) : Prop :=
  match t.outcome with
  | .datagram q => q.size ≤ bufSize ∧ q.payload.isSome = true
  | .failed => Refused s.buf

def AllMeet : Provider → List Turn → Prop
  | _, [] => True
  | s, t :: rest => Meets s t ∧ AllMeet (recv s t.outcome) rest

/-- What a turn should send. -/
def Answers (t : Turn) (verdicts : List Verdict) : Prop :=
  match t.outcome with
  | .datagram q => ∃ accept, verdicts = [⟨q.id, accept⟩]
  | .failed => verdicts = []

theorem recv_holds (s : Provider) {q : QueuedPacket} (h : q.size ≤ bufSize) :
    (recv s (.datagram q)).memory.Holds 0 q.bytes := by
  intro i hi
  have hsize := q.bytes_length
  have hbuf : i < bufSize := by omega
  have hmin : i < min bufSize q.size := by omega
  have hbyte := Memory.ofBytes_holds q.bytes i hi
  rw [Nat.zero_add] at hbyte ⊢
  rw [Provider.memory, if_pos hbuf, recv]
  simp only [if_pos hmin, hbyte]

theorem recv_length (s : Provider) {q : QueuedPacket} (h : q.size ≤ bufSize) :
    (recv s (.datagram q)).length = Int32.ofNat q.size := by
  rw [recv, Nat.min_eq_right h]

/-- A datagram that fits is handled as its packet. -/
theorem turn_datagram {s : Provider} {t : Turn} {q : QueuedPacket}
    (hout : t.outcome = .datagram q) (h : q.size ≤ bufSize) :
    (turn s t).2 = (q.verdicts t.judge (recv s (.datagram q)).memory, some 0) := by
  rw [turn, hout, recv_length s h]
  exact QueuedPacket.handlePacket_eq (recv_holds s h) h t.judge

/-- A datagram that does not fit is cut off, and the dispatcher drops the rest. -/
theorem turn_oversized {s : Provider} {t : Turn} {q : QueuedPacket}
    (hout : t.outcome = .datagram q) (h : bufSize < q.size) : (turn s t).2.1 = [] := by
  have hsmall : q.size < 4294967296 := q.small
  have hcut : min bufSize q.size = bufSize := Nat.min_eq_left (Nat.le_of_lt h)
  have hheader : (recv s (.datagram q)).memory.Holds 0 (bytes32 (UInt32.ofNat q.size)) := by
    intro i hi
    have hfour : i < 4 := hi
    have hbuf : i < bufSize := Nat.lt_trans hfour (by decide)
    have hbyte := (Memory.ofBytes_holds q.bytes).append_left i hi
    rw [Nat.zero_add] at hbyte ⊢
    rw [Provider.memory, if_pos hbuf, recv]
    simp only [hcut, if_pos hbuf, hbyte]
  have hlen : nlmsgLen (recv s (.datagram q)).memory = UInt32.ofNat q.size :=
    load32_of_holds hheader
  rw [turn, hout]
  refine (handlePacket_of_truncated ?_ t.judge).1
  have hreceived : (recv s (.datagram q)).length.toUInt32 = UInt32.ofNat bufSize := by
    rw [recv, hcut]
    exact Int32.toUInt32_ofNat'
  rw [hreceived, hlen, UInt32.lt_iff_toNat_lt, UInt32.toNat_ofNat', UInt32.toNat_ofNat']
  rw [bufSize] at h ⊢
  omega

theorem verdicts_of_payload {q : QueuedPacket} (h : q.payload.isSome = true)
    (judge : PacketExtractor → Bool) (m : Memory) :
    ∃ accept, q.verdicts judge m = [⟨q.id, accept⟩] := by
  rw [QueuedPacket.verdicts]
  cases hstart : q.payloadStart with
  | none =>
    rw [q.payloadStart_eq_none_iff.mp hstart] at h
    cases h
  | some start => exact ⟨_, rfl⟩

theorem refused_congr {p q : Memory} (agree : ∀ i < 20, p i = q i) (h : Refused p) :
    Refused q := by
  have hlen : nlmsgLen p = nlmsgLen q := by
    rw [nlmsgLen, nlmsgLen, load32, load32, agree 0 (by omega), agree (0 + 1) (by omega),
      agree (0 + 2) (by omega), agree (0 + 3) (by omega)]
  have htype : nlmsgType p = nlmsgType q := by
    rw [nlmsgType, nlmsgType, load16, load16, agree 4 (by omega), agree (4 + 1) (by omega)]
  rw [Refused, nfnlSubsysId, nfnlMsgType, hlen, htype] at h
  exact h

/-- A turn that meets the condition returns and answers what it received. -/
theorem turn_answers {s : Provider} {t : Turn} (h : Meets s t) :
    Answers t (turn s t).2.1 ∧ (turn s t).2.2.isSome = true := by
  rw [Meets] at h
  rw [Answers]
  cases hout : t.outcome with
  | datagram q =>
    rw [hout] at h
    obtain ⟨hsize, hpayload⟩ := h
    rw [turn_datagram hout hsize]
    exact ⟨verdicts_of_payload hpayload t.judge _, rfl⟩
  | failed =>
    rw [hout] at h
    have hmemory : Refused (recv s .failed).memory := by
      refine refused_congr (fun i hi => ?_) h
      have hbuf : i < bufSize := Nat.lt_trans hi (by decide)
      rw [Provider.memory, if_pos hbuf]
      rfl
    rw [turn, hout]
    exact handlePacket_of_refused hmemory t.judge _

/-- A datagram is answered exactly when it meets the condition. -/
theorem turn_answers_datagram_iff {s : Provider} {t : Turn} {q : QueuedPacket}
    (hout : t.outcome = .datagram q) :
    Answers t (turn s t).2.1 ↔ q.size ≤ bufSize ∧ q.payload.isSome = true := by
  constructor
  · intro hanswers
    rw [Answers, hout] at hanswers
    obtain ⟨accept, hverdict⟩ := hanswers
    have hsize : q.size ≤ bufSize := by
      by_contra hlarge
      rw [turn_oversized hout (Nat.lt_of_not_le hlarge)] at hverdict
      cases hverdict
    refine ⟨hsize, ?_⟩
    by_contra hnone
    have hpayload : q.payload = none := by simpa using hnone
    rw [turn_datagram hout hsize, QueuedPacket.verdicts,
      q.payloadStart_eq_none_iff.mpr hpayload] at hverdict
    cases hverdict
  · intro hmeets
    have h : Meets s t := by
      rw [Meets, hout]
      exact hmeets
    exact (turn_answers h).1

/-- Over a whole run, every turn answers what it received. -/
theorem start_answers {s : Provider} {turns : List Turn} (h : AllMeet s turns) :
    List.Forall₂ Answers turns (start s turns) := by
  induction turns generalizing s with
  | nil => exact .nil
  | cons t rest ih =>
    obtain ⟨hmeets, hrest⟩ := h
    obtain ⟨hanswers, hreturns⟩ := turn_answers hmeets
    obtain ⟨ret, hret⟩ := Option.isSome_iff_exists.mp hreturns
    have hstart : start s (t :: rest) = (turn s t).2.1 :: start (turn s t).1 rest := by
      rw [start]
      simp only [hret]
    rw [hstart]
    exact .cons hanswers (ih hrest)

theorem answers_cases {t : Turn} {verdicts : List Verdict} (h : Answers t verdicts) :
    (∃ q accept, t.outcome = .datagram q ∧ verdicts = [⟨q.id, accept⟩]) ∨
    (t.outcome = .failed ∧ verdicts = []) := by
  rw [Answers] at h
  cases hout : t.outcome with
  | datagram q =>
    rw [hout] at h
    obtain ⟨accept, hverdicts⟩ := h
    exact Or.inl ⟨q, accept, rfl, hverdicts⟩
  | failed =>
    rw [hout] at h
    exact Or.inr ⟨rfl, h⟩

theorem answered_ids {turns : List Turn} {answers : List (List Verdict)}
    (h : List.Forall₂ Answers turns answers) :
    answers.flatten.map Verdict.id = packetIds turns := by
  induction h with
  | nil => rfl
  | @cons t verdicts rest later hanswers _ ih =>
    rw [List.flatten_cons, List.map_append, ih, packetIds, packetIds, List.filterMap_cons]
    rcases answers_cases hanswers with ⟨q, accept, hout, rfl⟩ | ⟨hout, rfl⟩
    · rw [hout]
      rfl
    · rw [hout]
      rfl

/-- In a run whose turns all meet the condition, every packet is answered exactly
once, in the turn that received it. -/
theorem start_exactlyOnce {s : Provider} {turns : List Turn} (h : AllMeet s turns)
    (fresh : (packetIds turns).Nodup) : ExactlyOnce turns (start s turns) where
  once := by
    intro id hid
    rw [answered_ids (start_answers h)]
    exact List.nodup_iff_count_eq_one.mp fresh id hid
  current := by
    refine List.Forall₂.imp ?_ (start_answers h)
    intro t verdicts hanswers v hv
    rcases answers_cases hanswers with ⟨q, accept, hout, rfl⟩ | ⟨_, rfl⟩
    · rw [List.mem_singleton.mp hv]
      exact ⟨q, hout, rfl⟩
    · cases hv

def zeroProvider : Provider := ⟨fun _ => 0, 0, fun _ => 0⟩

/-- The datagram of a DNS packet. -/
def dnsDatagram (id : UInt32) : QueuedPacket :=
  packetOf id ReadingInstants.dnsPacket (by decide)

def acceptAll (outcome : Outcome) : Turn := ⟨outcome, fun _ => true⟩

theorem two_packets_exactlyOnce :
    ExactlyOnce [acceptAll .failed, acceptAll (.datagram (dnsDatagram 7)),
        acceptAll (.datagram (dnsDatagram 8))]
      (start zeroProvider [acceptAll .failed, acceptAll (.datagram (dnsDatagram 7)),
        acceptAll (.datagram (dnsDatagram 8))]) :=
  start_exactlyOnce
    ⟨Or.inl (by decide), ⟨by decide, rfl⟩, ⟨by decide, rfl⟩, trivial⟩ (by decide)

/-- A failed receive answers the packet before it once more. -/
theorem failed_recv_replays :
    (packetIds [acceptAll (.datagram (dnsDatagram 7)), acceptAll .failed]).Nodup ∧
    start zeroProvider [acceptAll (.datagram (dnsDatagram 7)), acceptAll .failed] =
      [[⟨7, true⟩], [⟨7, true⟩]] ∧
    ¬ ExactlyOnce [acceptAll (.datagram (dnsDatagram 7)), acceptAll .failed]
      (start zeroProvider [acceptAll (.datagram (dnsDatagram 7)), acceptAll .failed]) := by
  have hrun : start zeroProvider [acceptAll (.datagram (dnsDatagram 7)), acceptAll .failed] =
      [[⟨7, true⟩], [⟨7, true⟩]] := by
    decide +kernel
  refine ⟨by decide, hrun, ?_⟩
  rw [hrun]
  intro honce
  exact absurd (honce.once 7 (by decide)) (by decide)

end ReceiveLoop
