import ApplicationLayerFirewall.NetlinkWriting
import ApplicationLayerFirewall.ReceiveLoop

/-!
# The dispatcher of a query

A request waits for its answer with a dispatcher of its own, and packets that come
first are judged by it. It returns the remaining length of the attributes and takes
-1 for an error, and it does not stop at the end of a datagram whose last message is
not aligned.
-/

namespace QueryDispatch

open ByteOrder PacketReading Netlink QueuedPackets NetlinkWriting ReceiveLoop

/-! ### nfnl_step -/

def nlmsgFlags (nlh : Memory) : UInt16 := load16 nlh 6

def nlmsgSeq (nlh : Memory) : UInt32 := load32 nlh 8

def nlmsgError : UInt16 := 2
def nlmsgDone : UInt16 := 3
def nlmFMulti : UInt16 := 2

/-- `nfnl_is_error`. -/
def isError (nlh : Memory) : Bool :=
  nlmsgType nlh = nlmsgError ∨ (nlmsgType nlh = nlmsgDone ∧ nlmsgFlags nlh &&& nlmFMulti ≠ 0)

/-- What is left of `errno`; a message without room for an error is a bad one. -/
def acknowledged (nlh : Memory) : Bool := 20 ≤ nlmsgLen nlh ∧ load32 nlh 16 = 0

/-- The table and the remaining length. An attribute of type 0 would be stored in front of
the table, which has no meaning. -/
def parseAttrLoop (nlh : Memory) : Nat → Nat → Int → Attrs → Option (Attrs × Int)
  | 0, _, attrlen, nfa => some (nfa, attrlen)
  | rounds + 1, attr, attrlen, nfa =>
    if 0 < attrlen ∧ 4 ≤ nfaLen nlh attr ∧ (nfaLen nlh attr : Int) ≤ attrlen then
      let flavor := nfaType nlh attr
      if flavor = 0 then none
      else
        let nfa := if flavor ≤ nfqaMax then Function.update nfa flavor (some attr) else nfa
        let step := nfaAlign (nfaLen nlh attr)
        parseAttrLoop nlh rounds (attr + step) (attrlen - step) nfa
    else some (nfa, attrlen)

def nfnlParseAttr (nlh : Memory) : Option (Attrs × Int) :=
  let attrlen := (nlmsgLen nlh - 20).toInt32.toInt
  parseAttrLoop nlh attrlen.toNat 20 attrlen (fun _ => none)

/-- The return value of a verdict is the number of bytes sent. -/
def verdictLength : Int := 32

theorem verdict_sent (stack : Memory) (h : Handle) (time : UInt32) (queue : UInt16)
    (id verdict : UInt32) :
    ((nfqSetVerdict stack h time queue id verdict).1.length : Int) = verdictLength := by
  rw [nfqSetVerdict, setVerdict_eq]
  have hone := verdictAttribute_length id verdict
  have hlength := messageBytes_length (headerFields_length (nextSeq h time).1 0 queue
    nfqnlMsgVerdict nlmFRequest) [verdictAttribute id verdict]
  rw [hone] at hlength
  exact congrArg Nat.cast hlength

/-- `onPacket` with the value that it returns. -/
def onPacketSent (judge : PacketExtractor → Bool) (nlh : Memory) (nfa : Attrs) : Handled :=
  let handled := onPacket judge nlh nfa
  (handled.1, if handled.1 = [] then handled.2 else verdictLength)

/-- `__nfq_rcv_pkt` with the queues that are registered so far. -/
def rcvPkt (queues : List UInt16) (judge : PacketExtractor → Bool) (nlh : Memory) (nfa : Attrs) :
    Handled :=
  if ntohs (resId nlh) ∈ queues then onPacketSent judge nlh nfa else ([], -19)

def nfnlStep (queues : List UInt16) (judge : PacketExtractor → Bool) (nlh : Memory) :
    Option Handled :=
  if isError nlh then some ([], if acknowledged nlh then 0 else -1)
  else if nlmsgLen nlh < 20 then some ([], -1)
  else if nfnlMaxSubsys < nfnlSubsysId nlh then some ([], -1)
  else if cbCount (nfnlSubsysId nlh) ≤ nfnlMsgType nlh then some ([], -1)
  else if attrCount (nfnlMsgType nlh) = 0 then some ([], 1)
  else match nfnlParseAttr nlh with
    | none => none
    | some (nfa, rest) => if rest = -1 then some ([], -1) else some (rcvPkt queues judge nlh nfa)

/-! ### nfnl_process and nfnl_catch -/

/-- The length is unsigned, and the alignment of the last message is subtracted from it. -/
def processLoop (queues : List UInt16) (judge : PacketExtractor → Bool) :
    Nat → Memory → UInt64 → Int → Option Handled
  | 0, _, _, _ => none
  | rounds + 1, buf, len, ret =>
    if 16 ≤ len ∧ 16 ≤ nlmsgLen buf ∧ (nlmsgLen buf).toUInt64 ≤ len then
      match nfnlStep queues judge buf with
      | none => none
      | some (verdicts, ret) =>
        if ret ≤ 0 then some (verdicts, ret)
        else
          let size := nlmsgAlign (nlmsgLen buf)
          (processLoop queues judge rounds (buf.advance size.toNat) (len - size.toUInt64) ret).map
            fun later => (verdicts ++ later.1, later.2)
    else some ([], ret)

/-- More rounds than any buffer has messages. -/
def maxRounds : Nat := 18446744073709551616

def nfnlProcess (seq : UInt32) (queues : List UInt16) (judge : PacketExtractor → Bool)
    (buf : Memory) (len : UInt64) : Option Handled :=
  if nlmsgSeq buf ≠ 0 ∧ nlmsgSeq buf ≠ seq then some ([], -1)
  else processLoop queues judge maxRounds buf len 0

/-- `NFNL_BUFFSIZE`. -/
def rcvBufferSize : UInt64 := 8192

/-- A datagram in the buffer of `nfnl_catch`, with whatever lies behind it. -/
structure Datagram where
  buf : Memory
  len : UInt64
  nonempty : 0 < len
  fits : len ≤ rcvBufferSize

inductive Received where
  | datagram (d : Datagram)
  | interrupted
  | failed

/-- One result of `nfnl_recv`, with the judge as it is at that time. -/
structure Arrival where
  received : Received
  judge : PacketExtractor → Bool

/-- How a wait ends; it has no end when nothing more arrives. -/
inductive Caught where
  | done (verdicts : List Verdict) (ret : Int) (rest : List Arrival)
  | waiting (verdicts : List Verdict)
  | undefined

def Caught.after (verdicts : List Verdict) : Caught → Caught
  | .done later ret rest => .done (verdicts ++ later) ret rest
  | .waiting later => .waiting (verdicts ++ later)
  | .undefined => .undefined

def nfnlCatch (seq : UInt32) (queues : List UInt16) : List Arrival → Caught
  | [] => .waiting []
  | a :: rest =>
    match a.received with
    | .interrupted => nfnlCatch seq queues rest
    | .failed => .done [] (-1) rest
    | .datagram d =>
      match nfnlProcess seq queues a.judge d.buf d.len with
      | none => .undefined
      | some (verdicts, ret) =>
        if ret ≤ 0 then .done verdicts ret rest
        else (nfnlCatch seq queues rest).after verdicts

/-! ### The two attribute parsers -/

/-- The answer to a request, with an error number or zero. -/
structure Answer where
  flags : UInt16
  pid : UInt32
  error : UInt32
  request : List UInt8
  small : 20 + request.length ≤ 8192

def Answer.bytes (a : Answer) : List UInt8 :=
  bytes32 (UInt32.ofNat (20 + a.request.length)) ++ (bytes16 nlmsgError ++ (bytes16 a.flags ++
    (bytes32 0 ++ (bytes32 a.pid ++ (bytes32 a.error ++ a.request)))))

theorem Answer.bytes_length (a : Answer) : a.bytes.length = 20 + a.request.length := by
  simp [Answer.bytes, bytes16, bytes32]
  omega

/-- A packet that the parser of a query can read: no attribute of type 0, which is never used. -/
structure Readable (q : QueuedPacket) : Prop where
  known : ∀ a ∈ q.attrs, a.flavor ≠ 0
  fits : q.size ≤ 8192
  seq : q.seq = 0

theorem nfnlStep_unregistered {judge : PacketExtractor → Bool} {nlh : Memory} {handled : Handled}
    (h : nfnlStep [] judge nlh = some handled) : handled.1 = [] := by
  rw [nfnlStep] at h
  cases hparse : nfnlParseAttr nlh with
  | none =>
      rw [hparse] at h
      split_ifs at h <;> cases h <;> rfl
  | some parsed =>
      simp only [hparse, rcvPkt, List.not_mem_nil, if_false] at h
      split_ifs at h <;> cases h <;> rfl

theorem processLoop_unregistered {judge : PacketExtractor → Bool} {rounds : Nat} {buf : Memory}
    {len : UInt64} {ret : Int} {handled : Handled}
    (h : processLoop [] judge rounds buf len ret = some handled) : handled.1 = [] := by
  induction rounds generalizing buf len ret handled with
  | zero => cases h
  | succ rounds ih =>
      rw [processLoop] at h
      split_ifs at h
      · cases hstep : nfnlStep [] judge buf with
        | none =>
            rw [hstep] at h
            cases h
        | some first =>
            have hfirst := nfnlStep_unregistered hstep
            rw [hstep] at h
            simp only at h
            split_ifs at h
            · cases h
              exact hfirst
            · obtain ⟨later, hlater, rfl⟩ := Option.map_eq_some_iff.mp h
              simp [hfirst, ih hlater]
      · cases h
        rfl

theorem nfnlProcess_unregistered {seq : UInt32} {judge : PacketExtractor → Bool} {buf : Memory}
    {len : UInt64} {handled : Handled} (h : nfnlProcess seq [] judge buf len = some handled) :
    handled.1 = [] := by
  rw [nfnlProcess] at h
  split_ifs at h
  · cases h
    rfl
  · exact processLoop_unregistered h

def Caught.verdicts : Caught → List Verdict
  | .done verdicts _ _ => verdicts
  | .waiting verdicts => verdicts
  | .undefined => []

theorem nfnlCatch_unregistered (seq : UInt32) (arrivals : List Arrival) :
    (nfnlCatch seq [] arrivals).verdicts = [] := by
  induction arrivals with
  | nil => rfl
  | cons a arrivals ih =>
      obtain ⟨received, judge⟩ := a
      cases received with
      | interrupted => exact ih
      | failed => rfl
      | datagram d =>
          simp only [nfnlCatch]
          cases hprocess : nfnlProcess seq [] judge d.buf d.len with
          | none => rfl
          | some handled =>
              have hnone := nfnlProcess_unregistered hprocess
              obtain ⟨verdicts, ret⟩ := handled
              have hempty : verdicts = [] := hnone
              subst hempty
              simp only
              split_ifs
              · rfl
              · cases hlater : nfnlCatch seq [] arrivals <;>
                  (rw [hlater] at ih; exact ih)

theorem nfnlCatch_suffix {seq : UInt32} {queues : List UInt16} {arrivals rest : List Arrival}
    {verdicts : List Verdict} {ret : Int}
    (h : nfnlCatch seq queues arrivals = .done verdicts ret rest) : rest <:+ arrivals := by
  induction arrivals generalizing verdicts with
  | nil => cases h
  | cons a arrivals ih =>
      obtain ⟨received, judge⟩ := a
      have htail : arrivals <:+ ⟨received, judge⟩ :: arrivals := List.suffix_cons _ _
      cases received with
      | interrupted => exact (ih h).trans htail
      | failed =>
          cases h
          exact htail
      | datagram d =>
          simp only [nfnlCatch] at h
          cases hprocess : nfnlProcess seq queues judge d.buf d.len with
          | none =>
              rw [hprocess] at h
              cases h
          | some handled =>
              rw [hprocess] at h
              simp only at h
              split_ifs at h
              · cases h
                exact htail
              · cases hlater : nfnlCatch seq queues arrivals with
                | done more ret' rest' =>
                    rw [hlater] at h
                    cases h
                    exact (ih hlater).trans htail
                | waiting more =>
                    rw [hlater] at h
                    cases h
                | undefined =>
                    rw [hlater] at h
                    cases h

/-! ### Packets that do not fill their datagram -/

end QueryDispatch
