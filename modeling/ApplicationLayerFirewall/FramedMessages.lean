import ApplicationLayerFirewall.ByteOrder
import Mathlib.Algebra.Group.Nat.Defs
import Mathlib.Data.List.GetD

/-!
# Messages with a length in front

`putString` sends a header and the text, `getString` reads both back with one
`recv` each and does not look at how much came. So a message arrives as it was
sent only if the network never divides a header or a text. What `recv` returns
is up to a limit chosen freely for each turn of the loop; the bytes of a header
that were not received are whatever the stack held.
-/

namespace FramedMessages

open ByteOrder

/-! ### Sending -/

/-- `packet_head_type` with type 0, and the message. -/
def putString (message : List UInt8) : List UInt8 :=
  bytes32 0 ++ bytes32 (UInt32.ofNat message.length) ++ message

def stream (messages : List (List UInt8)) : List UInt8 := messages.flatMap putString

/-! ### Receiving -/

/-- `sizeof(packet_head_type)`. -/
def headSize : Nat := 8

/-- The most that the two calls of `recv` in one turn of the loop return, which is
something as long as anything is outstanding, the contents of `_head` before them, and
what the handler makes of the buffer afterwards. -/
structure Turn where
  headLimit : Nat
  bodyLimit : Nat
  stale : Memory
  leave : UInt32 → Memory → Memory
  headLimit_pos : 0 < headLimit
  bodyLimit_pos : 0 < bodyLimit

/-- What is outstanding, and the buffer. -/
structure Conn where
  outstanding : List UInt8
  buff : Memory

/-- What was received over what was there. -/
def received (m : Memory) (bytes : List UInt8) : Memory := fun i => bytes.getD i (m i)

/-- `_head.size` after the first `recv`. -/
def Turn.size (turn : Turn) (outstanding : List UInt8) : UInt32 :=
  load32 (received turn.stale (outstanding.take (min turn.headLimit headSize))) 4

/-- At the end of the stream `recv` returns 0, which is no error to `getString`: the
result is the announced size whatever was received. -/
def getString (turn : Turn) (conn : Conn) : Int32 × Conn :=
  let size := turn.size conn.outstanding
  let rest := conn.outstanding.drop (min turn.headLimit headSize)
  let n := min turn.bodyLimit size.toNat
  (size.toInt32, ⟨rest.drop n, received conn.buff (rest.take n)⟩)

/-- The message that the handler is given. -/
def Conn.message (conn : Conn) (size : UInt32) : List UInt8 :=
  (List.range size.toNat).map conn.buff

def Turn.handled (turn : Turn) (size : UInt32) (conn : Conn) : Conn :=
  { conn with buff := turn.leave size conn.buff }

/-- The framed branch of `startListening`, as the list of messages handed over, unless it
takes more turns than allowed. -/
def framedLoop (turns : Nat → Turn) : Nat → Nat → Conn → Option (List (List UInt8))
  | 0, _, _ => none
  | fuel + 1, k, conn =>
    let (size, conn) := getString (turns k) conn
    if 0 < size then
      (framedLoop turns fuel (k + 1) ((turns k).handled size.toUInt32 conn)).map
        (conn.message size.toUInt32 :: ·)
    else some []

/-- The loop ends, and has handed over these messages. -/
def Delivers (turns : Nat → Turn) (k : Nat) (conn : Conn) (messages : List (List UInt8)) : Prop :=
  ∃ fuel, framedLoop turns fuel k conn = some messages

/-- No header and no message is divided, no message is empty, and the size that is left in
`_head` at the end of the stream is not positive. -/
def Undivided (turns : Nat → Turn) : Nat → List Nat → Prop
  | k, [] => ¬ 0 < ((turns k).size []).toInt32
  | k, length :: lengths =>
    headSize ≤ (turns k).headLimit ∧ 0 < length ∧ length ≤ (turns k).bodyLimit ∧
      Undivided turns (k + 1) lengths

/-! ### One message -/

theorem received_apply (m : Memory) {bytes : List UInt8} {i : Nat} (hi : i < bytes.length) :
    received m bytes i = bytes[i] := by
  rw [received, List.getD_eq_getElem _ _ hi]

theorem received_beyond (m : Memory) {bytes : List UInt8} {i : Nat} (hi : bytes.length ≤ i) :
    received m bytes i = m i := by
  rw [received, List.getD_eq_default _ _ hi]

theorem received_holds (m : Memory) (bytes : List UInt8) : (received m bytes).Holds 0 bytes := by
  intro i hi
  rw [Nat.zero_add]
  exact received_apply m hi

section
variable {turns : Nat → Turn} {k : Nat} {conn : Conn} {messages : List (List UInt8)}

theorem delivers_of_pos (h : 0 < (getString (turns k) conn).1) :
    Delivers turns k conn messages ↔ ∃ later,
      messages = (getString (turns k) conn).2.message
        (getString (turns k) conn).1.toUInt32 :: later ∧
      Delivers turns (k + 1) ((turns k).handled (getString (turns k) conn).1.toUInt32
        (getString (turns k) conn).2) later := by
  constructor
  · rintro ⟨fuel, hfuel⟩
    cases fuel with
    | zero => cases hfuel
    | succ fuel =>
      simp only [framedLoop, if_pos h] at hfuel
      obtain ⟨later, hlater, rfl⟩ := Option.map_eq_some_iff.mp hfuel
      exact ⟨later, rfl, fuel, hlater⟩
  · rintro ⟨later, rfl, fuel, hfuel⟩
    exact ⟨fuel + 1, by simp only [framedLoop, if_pos h, hfuel, Option.map_some]⟩

theorem delivers_of_not_pos (h : ¬ 0 < (getString (turns k) conn).1) :
    Delivers turns k conn messages ↔ messages = [] := by
  constructor
  · rintro ⟨fuel, hfuel⟩
    cases fuel with
    | zero => cases hfuel
    | succ fuel =>
      simp only [framedLoop, if_neg h] at hfuel
      exact (Option.some.inj hfuel).symm
  · rintro rfl
    exact ⟨1, by simp only [framedLoop, if_neg h]⟩

/-- A message that is delivered first is what the buffer holds after the first turn. -/
theorem first_delivered {message : List UInt8} {later : List (List UInt8)}
    (h : Delivers turns k conn (message :: later)) :
    0 < (getString (turns k) conn).1 ∧
      message = (getString (turns k) conn).2.message (getString (turns k) conn).1.toUInt32 := by
  by_cases hpos : 0 < (getString (turns k) conn).1
  · obtain ⟨_, hmessages, _⟩ := (delivers_of_pos hpos).mp h
    exact ⟨hpos, (List.cons.inj hmessages).1⟩
  · cases (delivers_of_not_pos hpos).mp h

end

theorem toNat_ofNat {n : Nat} (h : n < 2 ^ 31) : (UInt32.ofNat n).toNat = n := by
  rw [UInt32.toNat_ofNat', Nat.mod_eq_of_lt (by omega)]

/-- A size is read as an `int` in two's complement. -/
theorem toInt32_toInt (x : UInt32) :
    x.toInt32.toInt = if x.toNat < 2 ^ 31 then (x.toNat : Int) else x.toNat - 4294967296 := by
  change x.toBitVec.toInt = _
  rw [BitVec.toInt_eq_toNat_cond]
  change (if 2 * x.toNat < 2 ^ 32 then (x.toNat : Int) else x.toNat - (2 ^ 32 : Nat)) = _
  split_ifs <;> omega

theorem toInt32_pos_iff (x : UInt32) : 0 < x.toInt32 ↔ 0 < x.toNat ∧ x.toNat < 2 ^ 31 := by
  have hlt : x.toNat < 2 ^ 32 := x.toNat_lt
  have hzero : (0 : Int32).toInt = 0 := rfl
  rw [Int32.lt_iff_toInt_lt, hzero, toInt32_toInt]
  split_ifs <;> omega

theorem toInt32_nonneg_iff (x : UInt32) : 0 ≤ x.toInt32 ↔ x.toNat < 2 ^ 31 := by
  have hlt : x.toNat < 2 ^ 32 := x.toNat_lt
  have hzero : (0 : Int32).toInt = 0 := rfl
  rw [Int32.le_iff_toInt_le, hzero, toInt32_toInt]
  split_ifs <;> omega

theorem toInt32_ofNat_pos_iff {n : Nat} (h : n < 2 ^ 31) :
    0 < (UInt32.ofNat n).toInt32 ↔ 0 < n := by
  rw [toInt32_pos_iff, toNat_ofNat h]
  exact and_iff_left h

/-- The header of a message. -/
def head (length : Nat) : List UInt8 := bytes32 0 ++ bytes32 (UInt32.ofNat length)

theorem putString_append (message rest : List UInt8) :
    putString message ++ rest = head message.length ++ (message ++ rest) := by
  rw [putString, head, List.append_assoc]

/-- A header that comes in one piece announces the message behind it. -/
theorem getString_of_head {turn : Turn} (h : headSize ≤ turn.headLimit) (message rest : List UInt8)
    (buff : Memory) : getString turn ⟨putString message ++ rest, buff⟩ =
      ((UInt32.ofNat message.length).toInt32,
        ⟨(message ++ rest).drop (min turn.bodyLimit (UInt32.ofNat message.length).toNat),
          received buff ((message ++ rest).take
            (min turn.bodyLimit (UInt32.ofNat message.length).toNat))⟩) := by
  have htake : (putString message ++ rest).take (min turn.headLimit headSize) =
      head message.length := by
    rw [Nat.min_eq_right h, putString_append]
    exact List.take_left' rfl
  have hdrop : (putString message ++ rest).drop (min turn.headLimit headSize) =
      message ++ rest := by
    rw [Nat.min_eq_right h, putString_append]
    exact List.drop_left' rfl
  have hsize : turn.size (putString message ++ rest) = UInt32.ofNat message.length := by
    rw [Turn.size, htake]
    refine load32_of_holds ?_
    have hholds := (received_holds turn.stale (head message.length)).append_right
    exact hholds
  simp only [getString, hsize, hdrop]

theorem message_getElem (conn : Conn) (size : UInt32) {i : Nat}
    (hi : i < (conn.message size).length) : (conn.message size)[i] = conn.buff i := by
  simp [Conn.message]

theorem message_received (rest message : List UInt8) (buff : Memory)
    (h : message.length < 2 ^ 31) :
    Conn.message ⟨rest, received buff message⟩ (UInt32.ofNat message.length) = message := by
  refine List.ext_getElem ?_ fun i _ hi => ?_
  · simp [Conn.message, toNat_ofNat h]
  · rw [message_getElem]
    exact received_apply buff hi

/-- The buffer after a message was handed over. -/
def Turn.afterMessage (turn : Turn) (buff : Memory) (message : List UInt8) : Memory :=
  turn.leave (UInt32.ofNat message.length) (received buff message)

/-- A message that is not divided is handed over, and the loop goes on behind it. -/
theorem delivers_undivided {turns : Nat → Turn} {k : Nat} {message : List UInt8}
    (hhead : headSize ≤ (turns k).headLimit) (hpos : 0 < message.length)
    (hbody : message.length ≤ (turns k).bodyLimit) (hlength : message.length < 2 ^ 31)
    (rest : List UInt8) (buff : Memory) (messages : List (List UInt8)) :
    Delivers turns k ⟨putString message ++ rest, buff⟩ messages ↔
      ∃ later, messages = message :: later ∧
        Delivers turns (k + 1) ⟨rest, (turns k).afterMessage buff message⟩ later := by
  have hget : getString (turns k) ⟨putString message ++ rest, buff⟩ =
      ((UInt32.ofNat message.length).toInt32, ⟨rest, received buff message⟩) := by
    rw [getString_of_head hhead, toNat_ofNat hlength, Nat.min_eq_right hbody,
      List.take_left' rfl, List.drop_left' rfl]
  have hcount : 0 < (getString (turns k) ⟨putString message ++ rest, buff⟩).1 := by
    rw [hget]
    exact (toInt32_ofNat_pos_iff hlength).mpr hpos
  rw [delivers_of_pos hcount, hget, UInt32.toUInt32_toInt32,
    message_received rest message buff hlength]
  rfl

theorem delivers_end_iff (turns : Nat → Turn) (k : Nat) (buff : Memory) :
    Delivers turns k ⟨[], buff⟩ [] ↔ ¬ 0 < ((turns k).size []).toInt32 := by
  have hget : (getString (turns k) ⟨[], buff⟩).1 = ((turns k).size []).toInt32 := rfl
  rw [← hget]
  by_cases hpos : 0 < (getString (turns k) ⟨[], buff⟩).1
  · refine iff_of_false (fun h => ?_) (not_not_intro hpos)
    obtain ⟨_, hmessages, _⟩ := (delivers_of_pos hpos).mp h
    cases hmessages
  · exact iff_of_true ((delivers_of_not_pos hpos).mpr rfl) hpos

/-- What is not divided arrives. -/
theorem delivers_of_undivided {turns : Nat → Turn} {k : Nat} {messages : List (List UInt8)}
    (h : Undivided turns k (messages.map List.length))
    (hfit : ∀ message ∈ messages, message.length < 2 ^ 31) (buff : Memory) :
    Delivers turns k ⟨stream messages, buff⟩ messages := by
  induction messages generalizing k buff with
  | nil => exact (delivers_end_iff turns k buff).mpr h
  | cons message later ih =>
    obtain ⟨hhead, hpos, hbody, hrest⟩ := h
    obtain ⟨hlength, hfit⟩ := List.forall_mem_cons.mp hfit
    exact (delivers_undivided hhead hpos hbody hlength (stream later) buff _).mpr
      ⟨later, rfl, ih hrest hfit ((turns k).afterMessage buff message)⟩

/-! ### Divided messages -/

theorem message_head (conn : Conn) {size : UInt32} (h : 0 < size.toNat) :
    (conn.message size).head? = some (conn.buff 0) := by
  obtain ⟨n, hn⟩ := Nat.exists_eq_succ_of_ne_zero (Nat.ne_of_gt h)
  rw [Conn.message, hn, List.range_succ_eq_map]
  rfl

/-- Behind a divided header the rest of the header is read as the message. -/
theorem head_of_divided {turn : Turn} (h : turn.headLimit < headSize) (message rest : List UInt8)
    (buff : Memory) (hpos : 0 < (getString turn ⟨putString message ++ rest, buff⟩).1) :
    ((getString turn ⟨putString message ++ rest, buff⟩).2.message
      (getString turn ⟨putString message ++ rest, buff⟩).1.toUInt32).head? =
        (head message.length)[turn.headLimit]? := by
  have hsize : 0 < (getString turn ⟨putString message ++ rest, buff⟩).1.toUInt32.toNat := by
    refine Nat.pos_of_ne_zero fun hzero => ?_
    have hnone : (getString turn ⟨putString message ++ rest, buff⟩).1.toUInt32 = 0 :=
      UInt32.toNat_inj.mp hzero
    have hcount : (getString turn ⟨putString message ++ rest, buff⟩).1 = 0 := by
      rw [← Int32.toInt32_toUInt32 (getString turn ⟨putString message ++ rest, buff⟩).1, hnone]
      rfl
    rw [hcount] at hpos
    exact absurd hpos (by decide)
  have hmin : min turn.headLimit headSize = turn.headLimit := Nat.min_eq_left (Nat.le_of_lt h)
  have hlimit : turn.headLimit < (head message.length).length := h
  have hdrop : (putString message ++ rest).drop turn.headLimit =
      (head message.length)[turn.headLimit] ::
        ((head message.length).drop (turn.headLimit + 1) ++ (message ++ rest)) := by
    rw [putString_append, List.drop_append_of_le_length (Nat.le_of_lt hlimit),
      List.drop_eq_getElem_cons hlimit, List.cons_append]
  have hcount : 0 < min turn.bodyLimit (turn.size (putString message ++ rest)).toNat :=
    Nat.lt_min.mpr ⟨turn.bodyLimit_pos, hsize⟩
  obtain ⟨n, hn⟩ := Nat.exists_eq_succ_of_ne_zero (Nat.ne_of_gt hcount)
  have hbyte : (getString turn ⟨putString message ++ rest, buff⟩).2.buff 0 =
      (head message.length)[turn.headLimit] := by
    simp only [getString, hmin, hdrop, hn, Nat.succ_eq_add_one, List.take_succ_cons]
    rfl
  rw [message_head _ hsize, List.getElem?_eq_getElem hlimit, hbyte]

/-- Behind the received part of a message stands what the buffer held before. -/
theorem stale_byte_of_divided {turn : Turn} (hhead : headSize ≤ turn.headLimit)
    {message : List UInt8} (h : turn.bodyLimit < message.length)
    (hlength : message.length < 2 ^ 31) (rest : List UInt8) (buff : Memory) :
    ((getString turn ⟨putString message ++ rest, buff⟩).2.message
      (getString turn ⟨putString message ++ rest, buff⟩).1.toUInt32)[turn.bodyLimit]? =
        some (buff turn.bodyLimit) := by
  have hpart : ((message ++ rest).take turn.bodyLimit).length ≤ turn.bodyLimit :=
    List.length_take_le _ _
  rw [getString_of_head hhead, UInt32.toUInt32_toInt32, toNat_ofNat hlength,
    Nat.min_eq_left (Nat.le_of_lt h)]
  simp [Conn.message, toNat_ofNat hlength, h, received_beyond buff hpart]

section
variable {turns : Nat → Turn} {k length : Nat} {rest : List UInt8} {buff : Memory}
  {later : List (List UInt8)}

theorem byte_add_one_ne (b : UInt8) : b + 1 ≠ b := by
  intro h
  have hnat := congrArg UInt8.toNat h
  rw [UInt8.toNat_add] at hnat
  have hone : (1 : UInt8).toNat = 1 := rfl
  omega

/-- If messages of equal bytes are delivered whatever the byte, their header is not divided, -/
theorem headSize_le_of_delivers
    (h : ∀ b, Delivers turns k ⟨putString (List.replicate length b) ++ rest, buff⟩
      (List.replicate length b :: later)) : headSize ≤ (turns k).headLimit := by
  by_contra hdivided
  have hshort : (turns k).headLimit < headSize := Nat.lt_of_not_le hdivided
  obtain ⟨b, hb⟩ : ∃ b, (head length)[(turns k).headLimit]? = some b :=
    ⟨_, List.getElem?_eq_getElem hshort⟩
  obtain ⟨hpos, hmessage⟩ := first_delivered (h (b + 1))
  have hbyte := head_of_divided hshort (List.replicate length (b + 1)) rest buff hpos
  rw [← hmessage, List.length_replicate, hb, List.head?_replicate] at hbyte
  split_ifs at hbyte
  exact byte_add_one_ne b (Option.some.inj hbyte)

/-- they are not empty, -/
theorem length_pos_of_delivers (hhead : headSize ≤ (turns k).headLimit) (hlength : length < 2 ^ 31)
    (h : ∀ b, Delivers turns k ⟨putString (List.replicate length b) ++ rest, buff⟩
      (List.replicate length b :: later)) : 0 < length := by
  obtain ⟨hpos, _⟩ := first_delivered (h 0)
  rw [getString_of_head hhead, List.length_replicate] at hpos
  exact (toInt32_ofNat_pos_iff hlength).mp hpos

/-- and they are not divided either. -/
theorem length_le_of_delivers (hhead : headSize ≤ (turns k).headLimit) (hlength : length < 2 ^ 31)
    (h : ∀ b, Delivers turns k ⟨putString (List.replicate length b) ++ rest, buff⟩
      (List.replicate length b :: later)) : length ≤ (turns k).bodyLimit := by
  by_contra hdivided
  have hshort : (turns k).bodyLimit < length := Nat.lt_of_not_le hdivided
  let message := List.replicate length (buff (turns k).bodyLimit + 1)
  have hsize : message.length = length := List.length_replicate
  obtain ⟨_, hmessage⟩ := first_delivered (h (buff (turns k).bodyLimit + 1))
  have hbyte := stale_byte_of_divided hhead (hsize ▸ hshort : _ < message.length)
    (hsize ▸ hlength) rest buff
  rw [← hmessage, List.getElem?_replicate, if_pos hshort] at hbyte
  exact byte_add_one_ne _ (Option.some.inj hbyte)

end

/-- If all messages of some lengths are delivered, none of them is divided. -/
theorem undivided_of_delivers {turns : Nat → Turn} {lengths : List Nat}
    (hfit : ∀ length ∈ lengths, length < 2 ^ 31) (k : Nat) (buff : Memory)
    (h : ∀ messages, messages.map List.length = lengths →
      Delivers turns k ⟨stream messages, buff⟩ messages) : Undivided turns k lengths := by
  induction lengths generalizing k buff with
  | nil => exact (delivers_end_iff turns k buff).mp (h [] rfl)
  | cons length lengths ih =>
    obtain ⟨hlength, hfit⟩ := List.forall_mem_cons.mp hfit
    let others := lengths.map (fun n => List.replicate n (0 : UInt8))
    have hfirst : ∀ b : UInt8, Delivers turns k
        ⟨putString (List.replicate length b) ++ stream others, buff⟩
          (List.replicate length b :: others) := by
      intro b
      exact h (List.replicate length b :: others) (by simp [others, Function.comp_def])
    have hhead := headSize_le_of_delivers hfirst
    have hpos := length_pos_of_delivers hhead hlength hfirst
    have hbody := length_le_of_delivers hhead hlength hfirst
    -- the rest is read behind one fixed first message
    let first := List.replicate length (0 : UInt8)
    have hsize : first.length = length := List.length_replicate
    refine ⟨hhead, hpos, hbody, ih hfit (k + 1) ((turns k).afterMessage buff first) ?_⟩
    intro messages hmessages
    have hall := h (first :: messages) (by rw [List.map_cons, hsize, hmessages])
    obtain ⟨later, hlater, hdelivers⟩ := (delivers_undivided hhead (hsize ▸ hpos) (hsize ▸ hbody)
      (hsize ▸ hlength) (stream messages) buff _).mp hall
    exact (List.cons.inj hlater).2 ▸ hdelivers

/-- For lengths that fit the buffer, whatever the messages are, the loop hands over exactly
what was sent if and only if the network divides nothing, no message is empty, and
the stack holds no positive size at the end. -/
theorem delivers_iff_undivided {lengths : List Nat} (hfit : ∀ length ∈ lengths, length ≤ 2048)
    (turns : Nat → Turn) (buff : Memory) :
    (∀ messages, messages.map List.length = lengths →
      Delivers turns 0 ⟨stream messages, buff⟩ messages) ↔ Undivided turns 0 lengths := by
  have hsmall : ∀ length ∈ lengths, length < 2 ^ 31 := fun length hlength =>
    Nat.lt_of_le_of_lt (hfit length hlength) (by decide)
  constructor
  · exact undivided_of_delivers hsmall 0 buff
  · rintro hundivided messages rfl
    refine delivers_of_undivided hundivided (fun message hmessage => ?_) buff
    exact hsmall _ (List.mem_map_of_mem hmessage)

/-! ### Three bytes -/

def clean : Memory := fun _ => 0

/-- Nothing is divided, the stack is clean and the handler leaves the buffer alone. -/
def wholeTurn : Turn := ⟨2048, 2048, clean, fun _ => id, by decide, by decide⟩

/-- The text of the first message comes in two parts. -/
def dividedTurn : Turn := ⟨2048, 2, clean, fun _ => id, by decide, by decide⟩

/-- The first message comes whole and the second one in two parts. -/
def laterDivided : Nat → Turn
  | 0 => wholeTurn
  | _ => dividedTurn

theorem threeAndFour_iff :
    (∀ messages, messages.map List.length = [3, 4] →
      Delivers laterDivided 0 ⟨stream messages, clean⟩ messages) ↔
        Undivided laterDivided 0 [3, 4] := by
  have hfit : ∀ length ∈ [3, 4], length ≤ 2048 := by decide
  exact delivers_iff_undivided hfit laterDivided clean

/-- A message of three bytes of which two came is handed over with a zero instead of
the third, and behind an empty message nothing is received any more. -/
theorem divided_and_empty_are_lost :
    ¬ Delivers (fun _ => dividedTurn) 0 ⟨stream [[1, 2, 3]], clean⟩ [[1, 2, 3]] ∧
    ¬ Delivers (fun _ => wholeTurn) 0 ⟨stream [[], [65]], clean⟩ [[], [65]] := by
  constructor
  · intro h
    obtain ⟨_, hmessage⟩ := first_delivered h
    have hdivided : (getString dividedTurn ⟨stream [[1, 2, 3]], clean⟩).2.message
        (getString dividedTurn ⟨stream [[1, 2, 3]], clean⟩).1.toUInt32 = [1, 2, 0] := by
      decide +kernel
    rw [hdivided] at hmessage
    exact absurd hmessage (by decide)
  · intro h
    obtain ⟨hpos, _⟩ := first_delivered h
    exact absurd hpos (by decide +kernel)

end FramedMessages
