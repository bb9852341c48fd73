import ApplicationLayerFirewall.ByteOrder
import Mathlib.Tactic.IntervalCases

/-!
# Internet addresses in numbers-and-dots notation

`inetAton` follows the C library: one to four numbers, each decimal, octal or
hexadecimal as `strtoul` with base 0 reads it, where the last number fills all
remaining bytes. `inetNtoa` prints four decimal bytes. An address is the 32-bit
word whose bytes in memory are in network order.
-/

namespace InetAddress

open ByteOrder

/-! ### Numbers -/

def digitVal (c : Char) : Option Nat :=
  if '0' ≤ c ∧ c ≤ '9' then some (c.toNat - 48)
  else if 'a' ≤ c ∧ c ≤ 'f' then some (c.toNat - 87)
  else if 'A' ≤ c ∧ c ≤ 'F' then some (c.toNat - 55)
  else none

/-- Read digits of the base onto an accumulator, up to the first other character. -/
def scan (base : Nat) : Nat → List Char → Nat × List Char
  | acc, [] => (acc, [])
  | acc, c :: rest =>
    match digitVal c with
    | some d => if d < base then scan base (acc * base + d) rest else (acc, c :: rest)
    | none => (acc, c :: rest)

/-- `strtoul` with base 0 on a string that starts with a digit. -/
def strtoul : List Char → Nat × List Char
  | '0' :: x :: h :: rest =>
    if (x = 'x' ∨ x = 'X') ∧ (digitVal h).isSome = true then scan 16 0 (h :: rest)
    else scan 8 0 (x :: h :: rest)
  | '0' :: rest => scan 8 0 rest
  | s => scan 10 0 s

theorem digitVal_digitChar {d : Nat} (h : d < 10) : digitVal d.digitChar = some d := by
  have table : ∀ e : Fin 10, digitVal (e.val.digitChar) = some e.val := by decide
  exact table ⟨d, h⟩

theorem scan_digitChar {base d : Nat} (hd : d < 10) (hbase : d < base) (acc : Nat)
    (rest : List Char) :
    scan base acc (d.digitChar :: rest) = scan base (acc * base + d) rest := by
  rw [scan, digitVal_digitChar hd]
  simp only [if_pos hbase]

/-- What ends a number: the end of the string or a character that is no digit. -/
def Stops (rest : List Char) : Prop := ∀ c ∈ rest.head?, digitVal c = none

theorem scan_stops {rest : List Char} (h : Stops rest) (base acc : Nat) :
    scan base acc rest = (acc, rest) := by
  cases rest with
  | nil => rfl
  | cons c rest =>
    have hc := h c rfl
    rw [scan, hc]

/-- Decimal digits of a byte, without leading zeros. -/
def octet (n : Nat) : List Char :=
  if n < 10 then [n.digitChar]
  else if n < 100 then [(n / 10).digitChar, (n % 10).digitChar]
  else [(n / 100).digitChar, (n / 10 % 10).digitChar, (n % 10).digitChar]

theorem digitChar_ne_zero {d : Nat} (hd : d < 10) (hpos : 0 < d) : d.digitChar ≠ '0' := by
  have table : ∀ e : Fin 10, 0 < e.val → e.val.digitChar ≠ '0' := by decide
  exact table ⟨d, hd⟩ hpos

/-- A number that does not start with a zero is read in base ten. -/
theorem strtoul_decimal {c : Char} (hc : c ≠ '0') (rest : List Char) :
    strtoul (c :: rest) = scan 10 0 (c :: rest) := by
  unfold strtoul
  split
  · rename_i heq
    exact False.elim (hc (List.cons.inj heq).1)
  · rename_i heq
    exact False.elim (hc (List.cons.inj heq).1)
  · rfl

theorem strtoul_zero {rest : List Char} (h : Stops rest)
    (hx : ∀ c ∈ rest.head?, c ≠ 'x' ∧ c ≠ 'X') : strtoul ('0' :: rest) = (0, rest) := by
  unfold strtoul
  split
  · rename_i x y tail heq
    obtain ⟨_, rfl⟩ := List.cons.inj heq
    have hne := hx x rfl
    rw [if_neg (by simp [hne.1, hne.2])]
    exact scan_stops h 8 0
  · rename_i heq
    obtain ⟨_, rfl⟩ := List.cons.inj heq
    exact scan_stops h 8 0
  · rename_i heq1 heq2
    exact False.elim (heq2 _ rfl)

/-- A printed byte is read back, whatever stops the reading. -/
theorem strtoul_octet {n : Nat} (hn : n < 256) {rest : List Char} (h : Stops rest)
    (hx : ∀ c ∈ rest.head?, c ≠ 'x' ∧ c ≠ 'X') : strtoul (octet n ++ rest) = (n, rest) := by
  unfold octet
  split_ifs with h10 h100
  · by_cases hzero : n = 0
    · subst n
      exact strtoul_zero h hx
    · rw [List.cons_append, strtoul_decimal (digitChar_ne_zero h10 (by omega)),
        scan_digitChar h10 h10, List.nil_append, scan_stops h]
      simp
  · have hhi : n / 10 < 10 := by omega
    have hlo : n % 10 < 10 := by omega
    rw [List.cons_append, strtoul_decimal (digitChar_ne_zero hhi (by omega)),
      scan_digitChar hhi hhi, List.cons_append, scan_digitChar hlo hlo, List.nil_append,
      scan_stops h]
    have hval : (0 * 10 + n / 10) * 10 + n % 10 = n := by omega
    rw [hval]
  · have hhi : n / 100 < 10 := by omega
    have hmid : n / 10 % 10 < 10 := by omega
    have hlo : n % 10 < 10 := by omega
    rw [List.cons_append, strtoul_decimal (digitChar_ne_zero hhi (by omega)),
      scan_digitChar hhi hhi, List.cons_append, scan_digitChar hmid hmid, List.cons_append,
      scan_digitChar hlo hlo, List.nil_append, scan_stops h]
    have hval : ((0 * 10 + n / 100) * 10 + n / 10 % 10) * 10 + n % 10 = n := by omega
    rw [hval]

/-! ### Addresses -/

def inaddrNone : UInt32 := 0xffffffff

/-- After the last number only the end of the string or white space may follow. -/
def trailing : List Char → Bool
  | [] => true
  | c :: _ => c = '\x00' || c = ' ' || ('\t' ≤ c && c ≤ '\r')

def isDigit (c : Char) : Bool := '0' ≤ c && c ≤ '9'

/-- The numbers between the dots; `k` more of them may follow the current one. -/
def inetParts (k : Nat) (s : List Char) : Option (List Nat) :=
  match s with
  | [] => none
  | c :: tail =>
    if isDigit c = false then none
    else
      let (val, rest) := strtoul (c :: tail)
      if 0xffffffff < val then none
      else match rest with
        | '.' :: next =>
          match k with
          | 0 => none
          | k + 1 => if 0xff < val then none else (inetParts k next).map (val :: ·)
        | _ => if trailing rest then some [val] else none

/-- The last number fills the bytes that the numbers before it leave. -/
def assemble : List Nat → Option Nat
  | [a] => if a ≤ 0xffffffff then some a else none
  | [a, b] => if b ≤ 0xffffff then some (16777216 * a + b) else none
  | [a, b, c] => if c ≤ 0xffff then some (16777216 * a + 65536 * b + c) else none
  | [a, b, c, d] =>
    if d ≤ 0xff then some (16777216 * a + 65536 * b + 256 * c + d) else none
  | _ => none

def inetAton (s : List Char) : Option UInt32 :=
  ((inetParts 3 s).bind assemble).map (fun n => ntohl (UInt32.ofNat n))

/-- Rejection has no value of its own: it is the address 255.255.255.255. -/
def inetAddr (s : List Char) : UInt32 := (inetAton s).getD inaddrNone

def dottedQuad (a b c d : UInt8) : List Char :=
  octet a.toNat ++ '.' :: (octet b.toNat ++ '.' :: (octet c.toNat ++ '.' :: octet d.toNat))

/-- The number whose network-order bytes are given. -/
def quadNumber (a b c d : UInt8) : UInt32 :=
  UInt32.ofNat (16777216 * a.toNat + 65536 * b.toNat + 256 * c.toNat + d.toNat)

/-- The bytes of the word in memory order, printed in decimal. -/
def inetNtoa (x : UInt32) : List Char :=
  dottedQuad (UInt8.ofNat x.toNat) (UInt8.ofNat (x.toNat / 256))
    (UInt8.ofNat (x.toNat / 65536)) (UInt8.ofNat (x.toNat / 16777216))

theorem isDigit_octet_head {n : Nat} (hn : n < 256) (rest : List Char) :
    ∃ c tail, octet n ++ rest = c :: tail ∧ isDigit c = true := by
  have table : ∀ e : Fin 10, isDigit e.val.digitChar = true := by decide
  unfold octet
  split_ifs with h10 h100
  · exact ⟨_, _, rfl, table ⟨n, h10⟩⟩
  · exact ⟨_, _, rfl, table ⟨n / 10, by omega⟩⟩
  · exact ⟨_, _, rfl, table ⟨n / 100, by omega⟩⟩

theorem inetParts_dot (k : Nat) (n : UInt8) (next : List Char) :
    inetParts (k + 1) (octet n.toNat ++ '.' :: next) =
      (inetParts k next).map (n.toNat :: ·) := by
  have hn := n.toNat_lt
  have hread : strtoul (octet n.toNat ++ '.' :: next) = (n.toNat, '.' :: next) :=
    strtoul_octet hn (by intro c hc; cases hc; decide) (by intro c hc; cases hc; decide)
  obtain ⟨c, tail, hcons, hdigit⟩ := isDigit_octet_head hn ('.' :: next)
  rw [hcons] at hread ⊢
  rw [inetParts, if_neg (by simp [hdigit]), hread]
  simp only [if_neg (show ¬ 0xffffffff < n.toNat by omega),
    if_neg (show ¬ 0xff < n.toNat by omega)]

theorem inetParts_last (k : Nat) (n : UInt8) : inetParts k (octet n.toNat) = some [n.toNat] := by
  have hn := n.toNat_lt
  have hread : strtoul (octet n.toNat ++ []) = (n.toNat, []) :=
    strtoul_octet hn (by intro c hc; cases hc) (by intro c hc; cases hc)
  obtain ⟨c, tail, hcons, hdigit⟩ := isDigit_octet_head hn []
  rw [List.append_nil] at hread hcons
  rw [hcons] at hread ⊢
  rw [inetParts, if_neg (by simp [hdigit]), hread]
  simp only [if_neg (show ¬ 0xffffffff < n.toNat by omega), trailing, if_true]

/-- Four decimal bytes are read as the number they spell in network order. -/
theorem inetAton_dottedQuad (a b c d : UInt8) :
    inetAton (dottedQuad a b c d) = some (ntohl (quadNumber a b c d)) := by
  have hd := d.toNat_lt
  rw [inetAton, dottedQuad, inetParts_dot, inetParts_dot, inetParts_dot, inetParts_last]
  simp only [Option.map_some, Option.bind_some, assemble,
    if_pos (show d.toNat ≤ 0xff by omega)]
  rfl

theorem inetAddr_dottedQuad (a b c d : UInt8) :
    inetAddr (dottedQuad a b c d) = ntohl (quadNumber a b c d) := by
  rw [inetAddr, inetAton_dottedQuad, Option.getD_some]

/-- `inet_addr` undoes `inet_ntoa`, also on the broadcast address. -/
theorem inetAddr_inetNtoa (x : UInt32) : inetAddr (inetNtoa x) = x := by
  have hx := x.toNat_lt
  have hnumber : quadNumber (UInt8.ofNat x.toNat) (UInt8.ofNat (x.toNat / 256))
      (UInt8.ofNat (x.toNat / 65536)) (UInt8.ofNat (x.toNat / 16777216)) = ntohl x := by
    rw [quadNumber, ntohl]
    simp only [UInt8.toNat_ofNat']
    congr 1
    omega
  rw [inetNtoa, inetAddr_dottedQuad, hnumber, ntohl_ntohl]

example : inetAddr "192.168.0.1".toList = 0x0100a8c0 := by decide +kernel
example : inetAddr "0x7f.1".toList = 0x0100007f := by decide +kernel
example : inetAton "10.0.0.256".toList = none := by decide +kernel

end InetAddress
