import ApplicationLayerFirewall.PacketReading
import Mathlib.Logic.Function.Basic

/-!
# From a received buffer to verdicts

The dispatcher of the netlink library, down to `onPacket`. Every test is made in
the C type in which the source makes it: a buffer length is signed in its
declaration and unsigned in every comparison, so a length of -1 stands for four
gigabytes. Attributes are offsets from the start of their message.
-/

namespace Netlink

open ByteOrder PacketReading

/-! ### Headers -/

/-- `NLMSG_ALIGN` and `NFA_ALIGN` clear the two low bits, in 32 bits and in an int. -/
def nlmsgAlign (len : UInt32) : UInt32 := (len + 3) / 4 * 4

def nfaAlign (len : Nat) : Nat := (len + 3) / 4 * 4

def nlmsgLen (nlh : Memory) : UInt32 := load32 nlh 0

def nlmsgType (nlh : Memory) : UInt16 := load16 nlh 4

/-- The queue number, in the `nfgenmsg` behind the 16 bytes of `nlmsghdr`. -/
def resId (nlh : Memory) : UInt16 := load16 nlh 18

/-- `NFNL_MSG_TYPE` and `NFNL_SUBSYS_ID`. -/
def nfnlMsgType (nlh : Memory) : Nat := (nlmsgType nlh).toNat % 256

def nfnlSubsysId (nlh : Memory) : Nat := (nlmsgType nlh).toNat / 256

def nfnlSubsysQueue : Nat := 3
def nfnlMaxSubsys : Nat := 16
def nfqnlMsgPacket : Nat := 0
def nfqnlMsgMax : Nat := 4

def nfqaPacketHdr : Nat := 1
def nfqaPayload : Nat := 10
def nfqaMax : Nat := 18

/-- Only the queue subsystem is open; the table of the others is empty. -/
def cbCount (subsys : Nat) : Nat := if subsys = nfnlSubsysQueue then nfqnlMsgMax else 0

/-- A callback is registered for packets only. -/
def attrCount (type : Nat) : Nat := if type = nfqnlMsgPacket then nfqaMax else 0

/-! ### Attributes -/

/-- The array `nfa`, by flavor. -/
abbrev Attrs := Nat → Option Nat

def nfaLen (nlh : Memory) (attr : Nat) : Nat := (load16 nlh attr).toNat

/-- `NFA_TYPE` masks the flag of nested attributes. -/
def nfaType (nlh : Memory) (attr : Nat) : Nat := (load16 nlh (attr + 2)).toNat % 32768

/-- Every round takes at least four bytes, so `attrlen` rounds are enough. -/
def checkAttributesLoop (nlh : Memory) : Nat → Nat → Int → Attrs → Attrs
  | 0, _, _, nfa => nfa
  | fuel + 1, attr, attrlen, nfa =>
    if 0 < attrlen ∧ 4 ≤ nfaLen nlh attr ∧ (nfaLen nlh attr : Int) ≤ attrlen then
      let flavor := nfaType nlh attr
      let nfa := if flavor = 0 ∨ nfqaMax < flavor then nfa
        else Function.update nfa flavor (some attr)
      let step := nfaAlign (nfaLen nlh attr)
      checkAttributesLoop nlh fuel (attr + step) (attrlen - step) nfa
    else nfa

/-- `__nfnl_handle_msg` has made the other checks of this function already. -/
def nfnlCheckAttributes (nlh : Memory) : Attrs :=
  if 20 < nlmsgLen nlh then
    let attrlen := (nlmsgLen nlh - 20).toInt32.toInt
    checkAttributesLoop nlh attrlen.toNat 20 attrlen (fun _ => none)
  else fun _ => none

/-! ### Callbacks -/

/-- One call of `nfq_set_verdict`. -/
structure Verdict where
  id : UInt32
  accept : Bool
  deriving DecidableEq

/-- The verdicts sent, with the return value. Sending succeeds. -/
abbrev Handled := List Verdict × Int

/-- The payload length is asked for, but nothing depends on it. -/
def onPacket (judge : PacketExtractor → Bool) (nlh : Memory) (nfa : Attrs) : Handled :=
  match nfa nfqaPacketHdr with
  | none => ([], 1)
  | some ph =>
    let id := ntohl (load32 nlh (ph + 4))
    match nfa nfqaPayload with
    | none => ([], 1)
    | some pdata => ([⟨id, judge ⟨nlh.advance (pdata + 4)⟩⟩], 0)

/-- Queue 0 is the only one created, and 19 is `ENODEV`. -/
def nfqRcvPkt (judge : PacketExtractor → Bool) (nlh : Memory) (nfa : Attrs) : Handled :=
  if ntohs (resId nlh) ≠ 0 then ([], -19) else onPacket judge nlh nfa

def nfnlHandleMsg (judge : PacketExtractor → Bool) (nlh : Memory) : Handled :=
  if nfnlMaxSubsys < nfnlSubsysId nlh then ([], -1)
  else if nlmsgLen nlh < 20 then ([], -1)
  else if cbCount (nfnlSubsysId nlh) ≤ nfnlMsgType nlh then ([], -1)
  else if attrCount (nfnlMsgType nlh) = 0 then ([], 0)
  else nfqRcvPkt judge nlh (nfnlCheckAttributes nlh)

/-! ### nfnl_handle_packet -/

/-- The loop over the messages of a buffer. It has no result when the rounds run
out; with more rounds than bytes that means an `rlen` of zero, which the source
repeats for ever. -/
def handleLoop (judge : PacketExtractor → Bool) :
    Nat → Memory → UInt32 → List Verdict × Option Int
  | 0, _, _ => ([], none)
  | rounds + 1, buf, len =>
    if len < 16 then ([], some 0)
    else if nlmsgLen buf < 16 ∨ len < nlmsgLen buf then ([], some (-1))
    else
      let rlen := nlmsgAlign (nlmsgLen buf)
      let rlen := if len < rlen then len else rlen
      let handled := nfnlHandleMsg judge buf
      if handled.2 < 0 then (handled.1, some (-1))
      else
        let rest := handleLoop judge rounds (buf.advance rlen.toNat) (len - rlen)
        (handled.1 ++ rest.1, rest.2)

/-- `nfq_handle_packet` passes its arguments on. -/
def nfqHandlePacket (judge : PacketExtractor → Bool) (buf : Memory) (len : Int32) :
    List Verdict × Option Int :=
  handleLoop judge (len.toUInt32.toNat + 1) buf len.toUInt32

/-! ### Buffers that are handled in one round -/

/-- The header is refused before any callback could run. -/
def Refused (buf : Memory) : Prop :=
  nlmsgLen buf < 20 ∨ nfnlSubsysId buf ≠ nfnlSubsysQueue ∨ nfqnlMsgMax ≤ nfnlMsgType buf

theorem handleMsg_of_refused {buf : Memory} (h : Refused buf)
    (judge : PacketExtractor → Bool) : nfnlHandleMsg judge buf = ([], -1) := by
  unfold nfnlHandleMsg
  by_cases hsubsys : nfnlMaxSubsys < nfnlSubsysId buf
  · rw [if_pos hsubsys]
  · by_cases hlen : nlmsgLen buf < 20
    · rw [if_neg hsubsys, if_pos hlen]
    · have hcount : cbCount (nfnlSubsysId buf) ≤ nfnlMsgType buf := by
        rcases h with hshort | hother | htype
        · exact False.elim (hlen hshort)
        · rw [cbCount, if_neg hother]
          exact Nat.zero_le _
        · rw [cbCount]
          split_ifs
          · exact htype
          · exact Nat.zero_le _
      rw [if_neg hsubsys, if_neg hlen, if_pos hcount]

/-- A refused header ends the loop, however long the buffer claims to be. -/
theorem handlePacket_of_refused {buf : Memory} (h : Refused buf)
    (judge : PacketExtractor → Bool) (len : Int32) :
    (nfqHandlePacket judge buf len).1 = [] ∧ (nfqHandlePacket judge buf len).2.isSome = true := by
  rw [nfqHandlePacket, handleLoop, handleMsg_of_refused h]
  split_ifs <;> simp_all

/-- A message that does not fit the received length is dropped. -/
theorem handlePacket_of_truncated {buf : Memory} {len : Int32}
    (h : len.toUInt32 < nlmsgLen buf) (judge : PacketExtractor → Bool) :
    (nfqHandlePacket judge buf len).1 = [] ∧ (nfqHandlePacket judge buf len).2.isSome = true := by
  rw [nfqHandlePacket, handleLoop]
  split_ifs <;> simp_all

/-- A buffer that is one packet message of the queue. -/
structure PacketMessage (buf : Memory) (len : UInt32) : Prop where
  whole : nlmsgLen buf = len
  lower : 20 ≤ len.toNat
  upper : len.toNat + 3 < 4294967296
  type : nlmsgType buf = 0x300
  queue : resId buf = 0

theorem nlmsgAlign_toNat {len : UInt32} (h : len.toNat + 3 < 4294967296) :
    (nlmsgAlign len).toNat = (len.toNat + 3) / 4 * 4 := by
  rw [nlmsgAlign, UInt32.toNat_mul, UInt32.toNat_div, UInt32.toNat_add]
  simp only [UInt32.reduceToNat]
  omega

theorem handleMsg_of_packet {buf : Memory} {len : UInt32} (h : PacketMessage buf len)
    (judge : PacketExtractor → Bool) :
    nfnlHandleMsg judge buf = onPacket judge buf (nfnlCheckAttributes buf) := by
  have hsubsys : nfnlSubsysId buf = nfnlSubsysQueue := by
    rw [nfnlSubsysId, h.type]
    rfl
  have htype : nfnlMsgType buf = nfqnlMsgPacket := by
    rw [nfnlMsgType, h.type]
    rfl
  have hlen : ¬ nlmsgLen buf < 20 := by
    rw [h.whole, UInt32.lt_iff_toNat_lt]
    exact Nat.not_lt.mpr h.lower
  have hqueue : ¬ ntohs (resId buf) ≠ 0 := by
    rw [h.queue]
    decide
  rw [nfnlHandleMsg, hsubsys, htype, if_neg (by decide), if_neg hlen, if_neg (by decide),
    if_neg (by decide), nfqRcvPkt, if_neg hqueue]

theorem onPacket_nonneg (judge : PacketExtractor → Bool) (nlh : Memory) (nfa : Attrs) :
    ¬ (onPacket judge nlh nfa).2 < 0 := by
  unfold onPacket
  split
  · decide
  · split <;> simp

/-- One packet message is handled by one call of `onPacket`, and the loop returns. -/
theorem handlePacket_of_packet {buf : Memory} {len : Int32}
    (h : PacketMessage buf len.toUInt32) (judge : PacketExtractor → Bool) :
    nfqHandlePacket judge buf len =
      ((onPacket judge buf (nfnlCheckAttributes buf)).1, some 0) := by
  have hlower := h.lower
  have halign := nlmsgAlign_toNat h.upper
  have hlong : ¬ len.toUInt32 < 16 := by
    rw [UInt32.lt_iff_toNat_lt]
    exact Nat.not_lt.mpr (Nat.le_trans (by decide) hlower)
  have hfits : ¬ (nlmsgLen buf < 16 ∨ len.toUInt32 < nlmsgLen buf) := by
    rw [h.whole]
    rintro (hshort | hself)
    · exact hlong hshort
    · exact absurd hself (UInt32.lt_irrefl _)
  have hrlen : (if len.toUInt32 < nlmsgAlign (nlmsgLen buf) then len.toUInt32
      else nlmsgAlign (nlmsgLen buf)) = len.toUInt32 := by
    rw [h.whole]
    split_ifs with hmore
    · rfl
    · apply UInt32.toNat_inj.mp
      rw [UInt32.lt_iff_toNat_lt] at hmore
      omega
  obtain ⟨rounds, hrounds⟩ : ∃ rounds, len.toUInt32.toNat + 1 = rounds + 2 :=
    ⟨len.toUInt32.toNat - 1, by omega⟩
  rw [nfqHandlePacket, hrounds, handleLoop, if_neg hlong, if_neg hfits]
  simp only [hrlen, handleMsg_of_packet h, if_neg (onPacket_nonneg judge buf _), UInt32.sub_self]
  rw [handleLoop, if_pos (by decide)]
  simp

end Netlink
