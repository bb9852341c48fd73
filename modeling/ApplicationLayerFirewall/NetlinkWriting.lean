import ApplicationLayerFirewall.QueuedPackets

/-!
# Messages to the queue

A message is written into a union on the stack: the header, then attributes
behind it, each padded with zeros, while the length in the header grows. What is
sent is the union up to that length. Verdicts and configuration requests differ
in their attributes only, and the parser of the same library reads them back.
-/

namespace NetlinkWriting

open ByteOrder PacketReading Netlink QueuedPackets

/-! ### Stores -/

/-- The memory after bytes were stored from an offset on. -/
def write (m : Memory) (start : Nat) (bytes : List UInt8) : Memory := fun i =>
  if start ≤ i ∧ i < start + bytes.length then bytes.getD (i - start) 0 else m i

theorem holds_write (m : Memory) (start : Nat) (bytes : List UInt8) :
    (write m start bytes).Holds start bytes := by
  intro i hi
  have hinside : start ≤ start + i ∧ start + i < start + bytes.length := by omega
  rw [write, if_pos hinside, Nat.add_sub_cancel_left, List.getD_eq_getElem?_getD,
    List.getElem?_eq_getElem hi]
  rfl

/-- What lies apart is kept. -/
theorem holds_write_apart {m : Memory} {from' : Nat} {old : List UInt8} (h : m.Holds from' old)
    {start : Nat} {bytes : List UInt8}
    (hapart : from' + old.length ≤ start ∨ start + bytes.length ≤ from') :
    (write m start bytes).Holds from' old := by
  intro i hi
  have houtside : ¬ (start ≤ from' + i ∧ from' + i < start + bytes.length) := by omega
  rw [write, if_neg houtside]
  exact h i hi

theorem holds_append {m : Memory} {start : Nat} {left right : List UInt8}
    (hleft : m.Holds start left) (hright : m.Holds (start + left.length) right) :
    m.Holds start (left ++ right) := by
  intro i hi
  by_cases h : i < left.length
  · rw [hleft i h, List.getElem_append_left h]
  · have hlen := List.length_append ▸ hi
    have hbyte := hright (i - left.length) (by omega)
    have hplace : start + left.length + (i - left.length) = start + i := by omega
    rw [hplace] at hbyte
    rw [hbyte, List.getElem_append_right (Nat.le_of_not_lt h)]

/-- The bytes that a call is given by address and length. -/
def bytesFrom (m : Memory) (n : Nat) : List UInt8 := (List.range n).map m

theorem bytesFrom_of_holds {m : Memory} {bytes : List UInt8} (h : m.Holds 0 bytes) :
    bytesFrom m bytes.length = bytes := by
  refine List.ext_getElem (by simp [bytesFrom]) fun i _ hi => ?_
  have hbyte := h i hi
  rw [Nat.zero_add] at hbyte
  simp [bytesFrom, hbyte]

/-! ### Headers and attributes -/

/-- `NFNL_F_SEQTRACK_ENABLED` and the last sequence number of an nfnetlink handle. -/
structure Handle where
  tracked : Bool
  seq : UInt32

/-- The sequence number of the next message; the clock replaces a zero. -/
def nextSeq (h : Handle) (time : UInt32) : UInt32 × Handle :=
  if h.tracked then
    let seq := if h.seq + 1 = 0 then time else h.seq + 1
    (seq, { h with seq := seq })
  else (0, h)

/-- Header and `nfgenmsg` of a message of the queue subsystem, up to the length. -/
def headerFields (seq : UInt32) (family : UInt8) (resId msgType msgFlags : UInt16) : List UInt8 :=
  bytes16 (UInt16.ofNat (nfnlSubsysQueue * 256) ||| msgType) ++ (bytes16 msgFlags ++
    (bytes32 seq ++ (bytes32 0 ++ ([family, 0] ++ bytes16 (ntohs resId)))))

def nfnlFillHdr (m : Memory) (h : Handle) (time len : UInt32) (family : UInt8)
    (resId msgType msgFlags : UInt16) : Memory × Handle :=
  let (seq, h) := nextSeq h time
  (write m 0 (bytes32 (len + 4 + 16) ++ headerFields seq family resId msgType msgFlags), h)

/-- A message that has no room for the attribute is left as it is. -/
def nfnlAddattr (m : Memory) (maxlen : UInt32) (type : UInt16) (data : List UInt8) :
    Memory × Int :=
  let len := data.length + 4
  let tail := nlmsgAlign (nlmsgLen m)
  if maxlen < tail + UInt32.ofNat len then (m, -1)
  else
    let m := write m tail.toNat (bytes16 (UInt16.ofNat len) ++ (bytes16 type ++ data))
    let m := write m (tail.toNat + len) (List.replicate (nfaAlign data.length - data.length) 0)
    (write m 0 (bytes32 (tail + UInt32.ofNat (nfaAlign len))), 0)

/-! ### A message with its attributes -/

/-- An attribute as it is written. -/
def zeroPadded (type : UInt16) (data : List UInt8) (small : data.length + 4 < 65536) :
    Attribute where
  type := type
  data := data
  pad := List.replicate (nfaAlign data.length - data.length) 0
  small := small

theorem zeroPadded_padded (type : UInt16) (data : List UInt8) (small : data.length + 4 < 65536) :
    (zeroPadded type data small).Padded := by
  simp only [Attribute.Padded, zeroPadded, List.length_replicate, nfaAlign]
  omega

/-- The memory starts with a message that consists of these parts. -/
structure Written (m : Memory) (fields : List UInt8) (attrs : List Attribute) : Prop where
  whole : fields.length = 16
  padded : ∀ a ∈ attrs, a.Padded
  bytes : m.Holds 0 (bytes32 (UInt32.ofNat (20 + (encode attrs).length)) ++
    (fields ++ encode attrs))

theorem encode_length_mod {attrs : List Attribute} (h : ∀ a ∈ attrs, a.Padded) :
    (encode attrs).length % 4 = 0 := by
  induction attrs with
  | nil => rfl
  | cons a rest ih =>
      obtain ⟨⟨hmod, -⟩, hrest⟩ := List.forall_mem_cons.mp h
      have htail := ih hrest
      have hhead := a.bytes_length
      rw [encode_cons_length]
      omega

theorem encode_concat (attrs : List Attribute) (a : Attribute) :
    encode (attrs ++ [a]) = encode attrs ++ a.bytes := by
  simp [encode]

theorem bytes32_length (x : UInt32) : (bytes32 x).length = 4 := rfl

theorem headerFields_length (seq : UInt32) (family : UInt8) (resId msgType msgFlags : UInt16) :
    (headerFields seq family resId msgType msgFlags).length = 16 := rfl

theorem Written.lengthField {m : Memory} {fields : List UInt8} {attrs : List Attribute}
    (h : Written m fields attrs) :
    nlmsgLen m = UInt32.ofNat (20 + (encode attrs).length) :=
  load32_of_holds h.bytes.append_left

/-- A header on its own is a message without attributes. -/
theorem fillHdr_written (m : Memory) (h : Handle) (time : UInt32) (family : UInt8)
    (resId msgType msgFlags : UInt16) :
    Written (nfnlFillHdr m h time 0 family resId msgType msgFlags).1
      (headerFields (nextSeq h time).1 family resId msgType msgFlags) [] where
  whole := headerFields_length _ _ _ _ _
  padded := fun a ha => absurd ha List.not_mem_nil
  bytes := by
    have hwritten := holds_write m 0 (bytes32 (0 + 4 + 16) ++
      headerFields (nextSeq h time).1 family resId msgType msgFlags)
    have hempty : encode [] = [] := rfl
    rw [hempty, List.append_nil]
    exact hwritten

/-- An attribute that fits is appended, and everything before it stays. -/
theorem addattr_written {m : Memory} {fields : List UInt8} {attrs : List Attribute}
    (h : Written m fields attrs) {maxlen : UInt32} (type : UInt16) {data : List UInt8}
    (small : data.length + 4 < 65536)
    (hroom : 20 + (encode attrs).length + (data.length + 4) ≤ maxlen.toNat)
    (hmax : maxlen.toNat + 3 < 4294967296) :
    (nfnlAddattr m maxlen type data).2 = 0 ∧
      Written (nfnlAddattr m maxlen type data).1 fields
        (attrs ++ [zeroPadded type data small]) := by
  have hmod := encode_length_mod h.padded
  have hnat : (UInt32.ofNat (20 + (encode attrs).length)).toNat = 20 + (encode attrs).length := by
    rw [UInt32.toNat_ofNat']
    omega
  have htail : (nlmsgAlign (nlmsgLen m)).toNat = 20 + (encode attrs).length := by
    rw [nlmsgAlign_toNat (by rw [h.lengthField]; omega), h.lengthField]
    omega
  have hlen : (UInt32.ofNat (data.length + 4)).toNat = data.length + 4 := by
    rw [UInt32.toNat_ofNat']
    omega
  have hfits : ¬ maxlen < nlmsgAlign (nlmsgLen m) + UInt32.ofNat (data.length + 4) := by
    rw [UInt32.lt_iff_toNat_lt, UInt32.toNat_add, htail, hlen]
    omega
  have hbytes := (zeroPadded type data small).bytes_length
  have htotal : nlmsgAlign (nlmsgLen m) + UInt32.ofNat (nfaAlign (data.length + 4)) =
      UInt32.ofNat (20 + (encode (attrs ++ [zeroPadded type data small])).length) := by
    apply UInt32.toNat_inj.mp
    rw [encode_concat, List.length_append, UInt32.toNat_add, htail, UInt32.toNat_ofNat',
      UInt32.toNat_ofNat', hbytes]
    simp only [zeroPadded, List.length_replicate, nfaAlign]
    omega
  rw [nfnlAddattr, if_neg hfits, htotal, htail]
  refine ⟨rfl, h.whole, ?_, ?_⟩
  · intro a ha
    rcases List.mem_append.mp ha with ha | ha
    · exact h.padded a ha
    · rw [List.mem_singleton.mp ha]
      exact zeroPadded_padded type data small
  · have hfields : m.Holds 4 fields := h.bytes.append_right.append_left
    have hattrs : m.Holds 20 (encode attrs) := by
      have hright := h.bytes.append_right.append_right
      rwa [h.whole] at hright
    have hwhole := h.whole
    -- three stores: the attribute, its padding, and the new length at the front
    refine holds_append (holds_write _ 0 _) (holds_append ?_ ?_)
    · refine holds_write_apart (holds_write_apart (holds_write_apart hfields ?_) ?_) ?_
      · exact Or.inl (by omega)
      · exact Or.inl (by omega)
      · exact Or.inr (Nat.le_refl 4)
    · rw [encode_concat]
      refine holds_append ?_ ?_
      · rw [bytes32_length, hwhole]
        refine holds_write_apart (holds_write_apart (holds_write_apart hattrs ?_) ?_) ?_
        · exact Or.inl (by omega)
        · exact Or.inl (by omega)
        · exact Or.inr (Nat.le_trans (Nat.le_refl 4) (by decide))
      · rw [bytes32_length, hwhole]
        refine holds_write_apart ?_ (Or.inr (Nat.le_trans (Nat.le_refl 4) (by omega)))
        have hsplit : (zeroPadded type data small).bytes =
            (bytes16 (UInt16.ofNat (data.length + 4)) ++ (bytes16 type ++ data)) ++
              List.replicate (nfaAlign data.length - data.length) 0 := by
          simp [Attribute.bytes, zeroPadded]
        have hfront : (bytes16 (UInt16.ofNat (data.length + 4)) ++ (bytes16 type ++ data)).length =
            data.length + 4 := by
          simp [bytes16]
        rw [hsplit]
        refine holds_append (holds_write_apart (holds_write _ _ _) (Or.inl ?_)) ?_
        · rw [hfront]
        · rw [hfront]
          exact holds_write _ _ _

/-- The first attribute of a message. -/
theorem first_written (stack : Memory) (h : Handle) (time : UInt32) (queue msgType msgFlags : UInt16)
    {maxlen : UInt32} (type : UInt16) {data : List UInt8} (small : data.length + 4 < 65536)
    (hroom : 24 + data.length ≤ maxlen.toNat) (hmax : maxlen.toNat + 3 < 4294967296) :
    Written (nfnlAddattr (nfnlFillHdr stack h time 0 0 queue msgType msgFlags).1 maxlen type data).1
      (headerFields (nextSeq h time).1 0 queue msgType msgFlags) [zeroPadded type data small] := by
  have hheader := fillHdr_written stack h time 0 queue msgType msgFlags
  have hempty : (encode []).length = 0 := rfl
  exact (addattr_written hheader type small (by omega) hmax).2

/-! ### Requests -/

def nfqnlMsgVerdict : UInt16 := 1
def nfqnlMsgConfig : UInt16 := 2

def nlmFRequest : UInt16 := 1
def nlmFAck : UInt16 := 4

def nfqaVerdictHdr : UInt16 := 2
def nfqaMark : UInt16 := 3

def nfqaCfgCmd : UInt16 := 1
def nfqaCfgParams : UInt16 := 2

/-- The bytes up to the end of the last attribute. -/
def sentBytes (m : Memory) : List UInt8 := bytesFrom m (nlmsgAlign (nlmsgLen m)).toNat

/-- `__set_verdict`: the union has room for both attributes. A packet that goes back with
the verdict stands behind the union, and its padding is whatever follows the packet. -/
def setVerdict (stack : Memory) (h : Handle) (time : UInt32) (queue : UInt16)
    (id verdict mark : UInt32) (setMark : Bool) (dataLen : UInt32) (data : Memory) :
    List UInt8 × Handle :=
  let (m, h) := nfnlFillHdr stack h time 0 0 queue nfqnlMsgVerdict nlmFRequest
  let m := (nfnlAddattr m 40 nfqaVerdictHdr (bytes32 (ntohl verdict) ++ bytes32 (ntohl id))).1
  let m := if setMark then (nfnlAddattr m 40 nfqaMark (bytes32 mark)).1 else m
  if dataLen = 0 then (sentBytes m, h)
  else
    let nfaLen := (4 + dataLen).toUInt16
    let sized := write m 0 (bytes32 (nlmsgLen m + nfaLen.toUInt32))
    (bytesFrom sized (nlmsgAlign (nlmsgLen m)).toNat ++
      (bytes16 nfaLen ++ (bytes16 (UInt16.ofNat nfqaPayload) ++
        bytesFrom data (nfaAlign dataLen.toNat))), h)

/-- `nfq_set_verdict` sets no mark and sends no packet back. -/
def nfqSetVerdict (stack : Memory) (h : Handle) (time : UInt32) (queue : UInt16)
    (id verdict : UInt32) : List UInt8 × Handle :=
  setVerdict stack h time queue id verdict 0 false 0 (fun _ => 0)

/-- `__build_send_cfg_msg` up to the sending. -/
def buildCfgMsg (stack : Memory) (h : Handle) (time : UInt32) (command : UInt8)
    (queuenum pf : UInt16) : List UInt8 × Handle :=
  let (m, h) := nfnlFillHdr stack h time 0 0 queuenum nfqnlMsgConfig (nlmFRequest ||| nlmFAck)
  let m := (nfnlAddattr m 28 nfqaCfgCmd ([command, 0] ++ bytes16 (ntohs pf))).1
  (bytesFrom m (nlmsgLen m).toNat, h)

/-- `nfq_set_mode` up to the sending; the parameters are packed into five bytes. -/
def buildModeMsg (stack : Memory) (h : Handle) (time : UInt32) (queue : UInt16) (mode : UInt8)
    (range : UInt32) : List UInt8 × Handle :=
  let (m, h) := nfnlFillHdr stack h time 0 0 queue nfqnlMsgConfig (nlmFRequest ||| nlmFAck)
  let m := (nfnlAddattr m 32 nfqaCfgParams (bytes32 (ntohl range) ++ [mode])).1
  (bytesFrom m (nlmsgLen m).toNat, h)

/-! ### What is sent -/

/-- The bytes of a message that consists of these parts. -/
def messageBytes (fields : List UInt8) (attrs : List Attribute) : List UInt8 :=
  bytes32 (UInt32.ofNat (20 + (encode attrs).length)) ++ (fields ++ encode attrs)

theorem messageBytes_length {fields : List UInt8} (h : fields.length = 16)
    (attrs : List Attribute) : (messageBytes fields attrs).length = 20 + (encode attrs).length := by
  simp only [messageBytes, List.length_append, bytes32_length, h]
  omega

/-- The union up to the length in its header is the message. -/
theorem Written.sent {m : Memory} {fields : List UInt8} {attrs : List Attribute}
    (h : Written m fields attrs) (hsize : 20 + (encode attrs).length < 4294967296) :
    bytesFrom m (nlmsgLen m).toNat = messageBytes fields attrs := by
  have hlen : (nlmsgLen m).toNat = (messageBytes fields attrs).length := by
    rw [h.lengthField, messageBytes_length h.whole, UInt32.toNat_ofNat']
    omega
  rw [hlen]
  exact bytesFrom_of_holds h.bytes

theorem Written.sentTail {m : Memory} {fields : List UInt8} {attrs : List Attribute}
    (h : Written m fields attrs) (hsize : 20 + (encode attrs).length + 3 < 4294967296) :
    sentBytes m = messageBytes fields attrs := by
  have hmod := encode_length_mod h.padded
  have hnat : (nlmsgLen m).toNat = 20 + (encode attrs).length := by
    rw [h.lengthField, UInt32.toNat_ofNat']
    omega
  have halign : (nlmsgAlign (nlmsgLen m)).toNat = (nlmsgLen m).toNat := by
    rw [nlmsgAlign_toNat (by omega)]
    omega
  rw [sentBytes, halign]
  exact h.sent (by omega)

def verdictAttribute (id verdict : UInt32) : Attribute :=
  zeroPadded nfqaVerdictHdr (bytes32 (ntohl verdict) ++ bytes32 (ntohl id)) (by simp [bytes32])

def markAttribute (mark : UInt32) : Attribute :=
  zeroPadded nfqaMark (bytes32 mark) (by simp [bytes32])

theorem verdictAttribute_length (id verdict : UInt32) :
    (encode [verdictAttribute id verdict]).length = 12 := by
  simp [encode, Attribute.bytes, verdictAttribute, zeroPadded, bytes16, bytes32, nfaAlign]

theorem verdictAttributes_length (id verdict mark : UInt32) :
    (encode [verdictAttribute id verdict, markAttribute mark]).length = 20 := by
  simp [encode, Attribute.bytes, verdictAttribute, markAttribute, zeroPadded, bytes16, bytes32,
    nfaAlign]

/-- The attributes of a verdict. -/
def verdictAttributes (id verdict : UInt32) (mark : Option UInt32) : List Attribute :=
  verdictAttribute id verdict :: mark.toList.map markAttribute

def verdictFields (seq : UInt32) (queue : UInt16) : List UInt8 :=
  headerFields seq 0 queue nfqnlMsgVerdict nlmFRequest

/-- The message depends on nothing that was on the stack. -/
theorem setVerdict_eq (stack : Memory) (h : Handle) (time : UInt32) (queue : UInt16)
    (id verdict mark : UInt32) (setMark : Bool) (data : Memory) :
    setVerdict stack h time queue id verdict mark setMark 0 data =
      (messageBytes (verdictFields (nextSeq h time).1 queue)
        (verdictAttributes id verdict (if setMark then some mark else none)),
        (nextSeq h time).2) := by
  have hfirst : Written (nfnlAddattr _ 40 nfqaVerdictHdr
      (bytes32 (ntohl verdict) ++ bytes32 (ntohl id))).1 _ [verdictAttribute id verdict] :=
    first_written stack h time queue nfqnlMsgVerdict nlmFRequest nfqaVerdictHdr
      (by simp [bytes32]) (by simp [bytes32]) (by decide)
  have hone := verdictAttribute_length id verdict
  have htwo := verdictAttributes_length id verdict mark
  cases setMark with
  | false =>
      have hsent := hfirst.sentTail (by omega)
      simp only [setVerdict, Bool.false_eq_true, if_false, if_true]
      exact Prod.ext hsent rfl
  | true =>
      have hroom : 20 + (encode [verdictAttribute id verdict]).length +
          ((bytes32 mark).length + 4) ≤ (40 : UInt32).toNat := by
        simp [hone, bytes32]
      have hsecond : Written (nfnlAddattr _ 40 nfqaMark (bytes32 mark)).1 _
          [verdictAttribute id verdict, markAttribute mark] :=
        (addattr_written hfirst nfqaMark (by simp [bytes32]) hroom (by decide)).2
      have hsent := hsecond.sentTail (by omega)
      simp only [setVerdict, if_true]
      exact Prod.ext hsent rfl

def configFields (seq : UInt32) (queue : UInt16) : List UInt8 :=
  headerFields seq 0 queue nfqnlMsgConfig (nlmFRequest ||| nlmFAck)

def commandAttribute (command : UInt8) (pf : UInt16) : Attribute :=
  zeroPadded nfqaCfgCmd ([command, 0] ++ bytes16 (ntohs pf)) (by simp [bytes16])

def modeAttribute (mode : UInt8) (range : UInt32) : Attribute :=
  zeroPadded nfqaCfgParams (bytes32 (ntohl range) ++ [mode]) (by simp [bytes32])

theorem commandAttribute_length (command : UInt8) (pf : UInt16) :
    (encode [commandAttribute command pf]).length = 8 := by
  simp [encode, Attribute.bytes, commandAttribute, zeroPadded, bytes16, nfaAlign]

/-- Five bytes of parameters and three of padding. -/
theorem modeAttribute_length (mode : UInt8) (range : UInt32) :
    (encode [modeAttribute mode range]).length = 12 := by
  simp [encode, Attribute.bytes, modeAttribute, zeroPadded, bytes16, bytes32, nfaAlign]

theorem buildCfgMsg_eq (stack : Memory) (h : Handle) (time : UInt32) (command : UInt8)
    (queuenum pf : UInt16) :
    buildCfgMsg stack h time command queuenum pf =
      (messageBytes (configFields (nextSeq h time).1 queuenum) [commandAttribute command pf],
        (nextSeq h time).2) := by
  have hfirst : Written (nfnlAddattr _ 28 nfqaCfgCmd ([command, 0] ++ bytes16 (ntohs pf))).1 _
      [commandAttribute command pf] :=
    first_written stack h time queuenum nfqnlMsgConfig (nlmFRequest ||| nlmFAck) nfqaCfgCmd
      (by simp [bytes16]) (by simp [bytes16]) (by decide)
  have hone := commandAttribute_length command pf
  exact Prod.ext (hfirst.sent (by omega)) rfl

theorem buildModeMsg_eq (stack : Memory) (h : Handle) (time : UInt32) (queue : UInt16)
    (mode : UInt8) (range : UInt32) :
    buildModeMsg stack h time queue mode range =
      (messageBytes (configFields (nextSeq h time).1 queue) [modeAttribute mode range],
        (nextSeq h time).2) := by
  have hfirst : Written (nfnlAddattr _ 32 nfqaCfgParams (bytes32 (ntohl range) ++ [mode])).1 _
      [modeAttribute mode range] :=
    first_written stack h time queue nfqnlMsgConfig (nlmFRequest ||| nlmFAck) nfqaCfgParams
      (by simp [bytes32]) (by simp [bytes32]) (by decide)
  have hone := modeAttribute_length mode range
  exact Prod.ext (hfirst.sent (by omega)) rfl

/-! ### Messages read back -/

theorem wellPadded_of_padded {attrs : List Attribute} (h : ∀ a ∈ attrs, a.Padded) :
    WellPadded attrs := by
  induction attrs with
  | nil => trivial
  | cons a rest ih =>
      obtain ⟨ha, hrest⟩ := List.forall_mem_cons.mp h
      cases rest with
      | nil => exact Or.inl ha
      | cons b rest => exact ⟨ha, ih hrest⟩

/-- A flavor that is not behind is the one that counts. -/
theorem locate_append {flavor : Nat} (before : List Attribute) (a : Attribute)
    {after : List Attribute} (ha : a.flavor = flavor) (hafter : ∀ b ∈ after, b.flavor ≠ flavor)
    (off : Nat) :
    locate flavor off (before ++ a :: after) = some (off + (encode before).length) := by
  induction before generalizing off with
  | nil =>
      have hnone := (locate_eq_none_iff flavor (off + a.bytes.length) after).mpr hafter
      simp [locate, hnone, ha, encode]
  | cons b before ih =>
      rw [List.cons_append, locate, ih, encode_cons_length, Option.some_or]
      congr 1
      omega

/-- The attribute table of a message. -/
theorem Written.attributes {m : Memory} {fields : List UInt8} {attrs : List Attribute}
    (h : Written m fields attrs) (hsome : 0 < (encode attrs).length)
    (hsize : 20 + (encode attrs).length < 2147483648) {flavor : Nat}
    (hflavor : 0 < flavor ∧ flavor ≤ nfqaMax) :
    nfnlCheckAttributes m flavor = locate flavor 20 attrs := by
  have hattrs : m.Holds 20 (encode attrs) := by
    have hright := h.bytes.append_right.append_right
    rwa [h.whole] at hright
  have hnat : (nlmsgLen m).toNat = 20 + (encode attrs).length := by
    rw [h.lengthField, UInt32.toNat_ofNat']
    omega
  have hmore : 20 < nlmsgLen m := by
    rw [UInt32.lt_iff_toNat_lt, hnat]
    simp only [UInt32.reduceToNat]
    omega
  have hrest : (nlmsgLen m - 20).toNat = (encode attrs).length := by
    rw [UInt32.toNat_sub_of_le _ _ (UInt32.le_of_lt hmore), hnat]
    simp
  have hint : (nlmsgLen m - 20).toInt32.toInt = (encode attrs).length := by
    rw [QueuedPacket.toInt_toInt32 (by omega), hrest]
  rw [nfnlCheckAttributes, if_pos hmore]
  simp only [hint, Int.toNat_natCast]
  rw [checkAttributesLoop_encode hflavor.1 hflavor.2 (wellPadded_of_padded h.padded) hattrs
    (Nat.le_refl _), Option.or_none]

/-- The parser finds an attribute where it was written. -/
theorem Written.attribute {m : Memory} {fields : List UInt8} {before after : List Attribute}
    {a : Attribute} (h : Written m fields (before ++ a :: after)) {flavor : Nat}
    (ha : a.flavor = flavor) (hafter : ∀ b ∈ after, b.flavor ≠ flavor)
    (hflavor : 0 < flavor ∧ flavor ≤ nfqaMax)
    (hsize : 20 + (encode (before ++ a :: after)).length < 2147483648) :
    nfnlCheckAttributes m flavor = some (20 + (encode before).length) ∧
      m.Holds (20 + (encode before).length + 4) a.data := by
  have hroom := @length_le_encode (before ++ a :: after) a (by simp)
  have hbytes := a.bytes_length
  constructor
  · rw [h.attributes (by omega) hsize hflavor]
    exact locate_append before a ha hafter 20
  · have hattrs : m.Holds 20 (encode (before ++ a :: after)) := by
      have hright := h.bytes.append_right.append_right
      rwa [h.whole] at hright
    have hsplit : encode (before ++ a :: after) = encode before ++ (a.bytes ++ encode after) := by
      simp [encode]
    rw [hsplit] at hattrs
    exact (Attribute.read hattrs.append_right.append_left).2.2

/-- What a message asks of the queue. -/
inductive Request where
  | verdict (queue : UInt16) (id verdict : UInt32) (mark : Option UInt32)
  | command (queue : UInt16) (command : UInt8) (pf : UInt16)
  | mode (queue : UInt16) (mode : UInt8) (range : UInt32)
  deriving DecidableEq

/-- A message read with the attribute parser of the library, numbers in network order
except for the mark. -/
def readRequest (m : Memory) : Option Request :=
  let queue := ntohs (resId m)
  let nfa := nfnlCheckAttributes m
  if nlmsgType m = 0x301 then
    (nfa nfqaVerdictHdr.toNat).map fun hdr =>
      .verdict queue (ntohl (load32 m (hdr + 8))) (ntohl (load32 m (hdr + 4)))
        ((nfa nfqaMark.toNat).map fun mark => load32 m (mark + 4))
  else if nlmsgType m = 0x302 then
    match nfa nfqaCfgCmd.toNat with
    | some cmd => some (.command queue (m (cmd + 4)) (ntohs (load16 m (cmd + 6))))
    | none => (nfa nfqaCfgParams.toNat).map fun params =>
        .mode queue (m (params + 8)) (ntohl (load32 m (params + 4)))
  else none

theorem written_of_holds {m : Memory} {fields : List UInt8} {attrs : List Attribute}
    (h : m.Holds 0 (messageBytes fields attrs)) (hwhole : fields.length = 16)
    (hpadded : ∀ a ∈ attrs, a.Padded) : Written m fields attrs :=
  ⟨hwhole, hpadded, h⟩

theorem written_header {m : Memory} {seq : UInt32} {queue msgType msgFlags : UInt16}
    {attrs : List Attribute} (h : Written m (headerFields seq 0 queue msgType msgFlags) attrs) :
    nlmsgType m = UInt16.ofNat (nfnlSubsysQueue * 256) ||| msgType ∧ ntohs (resId m) = queue := by
  have hfields := h.bytes.append_right.append_left
  have hqueue : m.Holds 18 (bytes16 (ntohs queue)) :=
    hfields.append_right.append_right.append_right.append_right.append_right
  have hres : resId m = ntohs queue := load16_of_holds hqueue
  exact ⟨load16_of_holds hfields.append_left, by rw [hres, ntohs_ntohs]⟩

theorem readRequest_verdict {m : Memory} {seq : UInt32} {queue : UInt16} {id verdict : UInt32}
    {mark : Option UInt32}
    (h : m.Holds 0 (messageBytes (verdictFields seq queue) (verdictAttributes id verdict mark))) :
    readRequest m = some (.verdict queue id verdict mark) := by
  have hone := verdictAttribute_length id verdict
  have hpadded : ∀ a ∈ verdictAttributes id verdict mark, a.Padded := by
    intro a ha
    rcases List.mem_cons.mp ha with rfl | ha
    · exact zeroPadded_padded _ _ _
    · obtain ⟨x, -, rfl⟩ := List.mem_map.mp ha
      exact zeroPadded_padded _ _ _
  have hwritten := written_of_holds h (headerFields_length _ _ _ _ _) hpadded
  obtain ⟨htype, hqueue⟩ := written_header hwritten
  have hother : ∀ b ∈ mark.toList.map markAttribute, b.flavor ≠ nfqaVerdictHdr.toNat := by
    intro b hb
    obtain ⟨x, -, rfl⟩ := List.mem_map.mp hb
    exact (by decide : nfqaMark.toNat % 32768 ≠ nfqaVerdictHdr.toNat)
  have hsize : 20 + (encode (verdictAttributes id verdict mark)).length < 2147483648 := by
    cases mark with
    | none => exact (by simp [verdictAttributes, hone])
    | some x => exact (by simp [verdictAttributes, verdictAttributes_length])
  have hflavor : (verdictAttribute id verdict).flavor = nfqaVerdictHdr.toNat := rfl
  obtain ⟨hhdr, hdata⟩ := @Written.attribute m _ [] _ _ hwritten _ hflavor hother (by decide) hsize
  have hverdict : load32 m 24 = ntohl verdict := load32_of_holds hdata.append_left
  have hid : load32 m 28 = ntohl id := load32_of_holds hdata.append_right
  have hmark : (nfnlCheckAttributes m nfqaMark.toNat).map (fun p => load32 m (p + 4)) = mark := by
    cases mark with
    | none =>
        have hpos : 0 < (encode (verdictAttributes id verdict none)).length := by
          simp [verdictAttributes, hone]
        have hnone := @Written.attributes _ _ _ hwritten hpos hsize nfqaMark.toNat (by decide)
        have hlocate : locate nfqaMark.toNat 20 (verdictAttributes id verdict none) = none := by
          refine (locate_eq_none_iff _ _ _).mpr fun b hb => ?_
          rw [List.mem_singleton.mp hb]
          exact (by decide : nfqaVerdictHdr.toNat % 32768 ≠ nfqaMark.toNat)
        rw [hnone, hlocate]
        rfl
    | some x =>
        have hlast : (markAttribute x).flavor = nfqaMark.toNat := rfl
        obtain ⟨hfound, hvalue⟩ := @Written.attribute m _ [verdictAttribute id verdict] [] _
          hwritten _ hlast (by simp) (by decide) hsize
        rw [hfound, hone]
        exact congrArg some (load32_of_holds (hone ▸ hvalue))
  have hkind : nlmsgType m = 0x301 := htype.trans (by decide)
  have hzero : (encode []).length = 0 := rfl
  rw [hzero] at hhdr
  simp only [readRequest, hkind, if_true, hhdr, Option.map_some, hmark, hqueue, hverdict, hid,
    ntohl_ntohl]

theorem readRequest_command {m : Memory} {seq : UInt32} {queue pf : UInt16} {command : UInt8}
    (h : m.Holds 0 (messageBytes (configFields seq queue) [commandAttribute command pf])) :
    readRequest m = some (.command queue command pf) := by
  have hone := commandAttribute_length command pf
  have hpadded : ∀ a ∈ [commandAttribute command pf], a.Padded :=
    List.forall_mem_singleton.mpr (zeroPadded_padded _ _ _)
  have hwritten := written_of_holds h (headerFields_length _ _ _ _ _) hpadded
  obtain ⟨htype, hqueue⟩ := written_header hwritten
  have hflavor : (commandAttribute command pf).flavor = nfqaCfgCmd.toNat := rfl
  obtain ⟨hcmd, hdata⟩ := @Written.attribute m _ [] [] _ hwritten _ hflavor (by simp) (by decide)
    (by simp [hone])
  have hcommand : m 24 = command := hdata.append_left 0 (by simp)
  have hpf : load16 m 26 = ntohs pf := load16_of_holds hdata.append_right
  have hkind : nlmsgType m = 0x302 := htype.trans (by decide)
  have hzero : (encode []).length = 0 := rfl
  rw [hzero] at hcmd
  simp [readRequest, hkind, hcmd, hqueue, hcommand, hpf, ntohs_ntohs]

theorem readRequest_mode {m : Memory} {seq range : UInt32} {queue : UInt16} {mode : UInt8}
    (h : m.Holds 0 (messageBytes (configFields seq queue) [modeAttribute mode range])) :
    readRequest m = some (.mode queue mode range) := by
  have hone := modeAttribute_length mode range
  have hpadded : ∀ a ∈ [modeAttribute mode range], a.Padded :=
    List.forall_mem_singleton.mpr (zeroPadded_padded _ _ _)
  have hwritten := written_of_holds h (headerFields_length _ _ _ _ _) hpadded
  obtain ⟨htype, hqueue⟩ := written_header hwritten
  have hnone : nfnlCheckAttributes m nfqaCfgCmd.toNat = none := by
    rw [hwritten.attributes (by omega) (by omega) (by decide), locate_eq_none_iff]
    exact List.forall_mem_singleton.mpr
      (by decide : nfqaCfgParams.toNat % 32768 ≠ nfqaCfgCmd.toNat)
  have hflavor : (modeAttribute mode range).flavor = nfqaCfgParams.toNat := rfl
  obtain ⟨hparams, hdata⟩ := @Written.attribute m _ [] [] _ hwritten _ hflavor (by simp)
    (by decide) (by simp [hone])
  have hrange : load32 m 24 = ntohl range := load32_of_holds hdata.append_left
  have hmode : m 28 = mode := hdata.append_right 0 (by simp)
  have hkind : nlmsgType m = 0x302 := htype.trans (by decide)
  have hzero : (encode []).length = 0 := rfl
  rw [hzero] at hparams
  simp [readRequest, hkind, hnone, hparams, hqueue, hmode, hrange, ntohl_ntohl]

/-- Every message is determined by the call, whatever the stack held, and says what the
call said. -/
theorem requests_read_back (h : Handle) (time : UInt32) (queue : UInt16) :
    (∀ (id verdict mark : UInt32) (setMark : Bool) (data : Memory), ∃ bytes,
      (∀ stack, setVerdict stack h time queue id verdict mark setMark 0 data =
        (bytes, (nextSeq h time).2)) ∧
      ∀ m : Memory, m.Holds 0 bytes →
        readRequest m = some (.verdict queue id verdict (if setMark then some mark else none))) ∧
    (∀ (command : UInt8) (pf : UInt16), ∃ bytes,
      (∀ stack, buildCfgMsg stack h time command queue pf = (bytes, (nextSeq h time).2)) ∧
      ∀ m : Memory, m.Holds 0 bytes → readRequest m = some (.command queue command pf)) ∧
    (∀ (mode : UInt8) (range : UInt32), ∃ bytes,
      (∀ stack, buildModeMsg stack h time queue mode range = (bytes, (nextSeq h time).2)) ∧
      ∀ m : Memory, m.Holds 0 bytes → readRequest m = some (.mode queue mode range)) := by
  refine ⟨fun id verdict mark setMark data => ?_, fun command pf => ?_, fun mode range => ?_⟩
  · exact ⟨_, fun stack => setVerdict_eq stack h time queue id verdict mark setMark data,
      fun m hm => readRequest_verdict hm⟩
  · exact ⟨_, fun stack => buildCfgMsg_eq stack h time command queue pf,
      fun m hm => readRequest_command hm⟩
  · exact ⟨_, fun stack => buildModeMsg_eq stack h time queue mode range,
      fun m hm => readRequest_mode hm⟩

end NetlinkWriting
