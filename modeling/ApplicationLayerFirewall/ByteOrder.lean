import Mathlib.Tactic.Common

/-!
# Bytes, machine words and network byte order

Memory is a function from offsets to bytes. A multi-byte load follows a
little-endian host; `ntohs` and `ntohl` turn such a load into the number that
the bytes spell in network order. Words are rebuilt from their bytes with
natural-number arithmetic, so that every law below is a statement about
quotients and remainders.
-/

namespace ByteOrder

/-- The bytes found from a pointer on. -/
abbrev Memory := Nat → UInt8

/-- Pointer arithmetic: the memory seen from `n` bytes further on. -/
def Memory.advance (m : Memory) (n : Nat) : Memory := fun i => m (n + i)

@[simp] theorem advance_apply (m : Memory) (n i : Nat) :
    m.advance n i = m (n + i) := rfl

/-- The memory holds exactly these bytes at offset `start`. -/
def Memory.Holds (m : Memory) (start : Nat) (bytes : List UInt8) : Prop :=
  ∀ i (h : i < bytes.length), m (start + i) = bytes[i]

/-- A byte string as memory; what lies beyond its end reads as zero. -/
def Memory.ofBytes (bytes : List UInt8) : Memory := fun i => bytes.getD i 0

theorem Memory.ofBytes_eq {m : Memory} {bytes : List UInt8} (h : m.Holds 0 bytes) {i : Nat}
    (hi : i < bytes.length) : Memory.ofBytes bytes i = m i := by
  have hbyte := h i hi
  rw [Nat.zero_add] at hbyte
  rw [Memory.ofBytes, List.getD_eq_getElem?_getD, List.getElem?_eq_getElem hi, hbyte]
  rfl

theorem Memory.ofBytes_holds (bytes : List UInt8) : (Memory.ofBytes bytes).Holds 0 bytes := by
  intro i hi
  rw [Nat.zero_add, Memory.ofBytes, List.getD_eq_getElem?_getD, List.getElem?_eq_getElem hi]
  rfl

theorem Memory.Holds.append_left {m : Memory} {start : Nat} {left right : List UInt8}
    (h : m.Holds start (left ++ right)) : m.Holds start left := by
  intro i hi
  have hbyte := h i (by rw [List.length_append]; omega)
  rw [hbyte, List.getElem_append_left hi]

theorem Memory.Holds.append_right {m : Memory} {start : Nat} {left right : List UInt8}
    (h : m.Holds start (left ++ right)) : m.Holds (start + left.length) right := by
  intro i hi
  have hbyte := h (left.length + i) (by rw [List.length_append]; omega)
  rw [Nat.add_assoc, hbyte, List.getElem_append_right (Nat.le_add_right _ _)]
  simp only [Nat.add_sub_cancel_left]

/-- A 16-bit load on a little-endian host. -/
def load16 (m : Memory) (i : Nat) : UInt16 :=
  UInt16.ofNat ((m i).toNat + 256 * (m (i + 1)).toNat)

/-- A 32-bit load on a little-endian host. -/
def load32 (m : Memory) (i : Nat) : UInt32 :=
  UInt32.ofNat ((m i).toNat + 256 * (m (i + 1)).toNat +
    65536 * (m (i + 2)).toNat + 16777216 * (m (i + 3)).toNat)

/-- The bytes of a word in the memory of a little-endian host. -/
def bytes16 (x : UInt16) : List UInt8 := [UInt8.ofNat x.toNat, UInt8.ofNat (x.toNat / 256)]

def bytes32 (x : UInt32) : List UInt8 :=
  [UInt8.ofNat x.toNat, UInt8.ofNat (x.toNat / 256), UInt8.ofNat (x.toNat / 65536),
    UInt8.ofNat (x.toNat / 16777216)]

/-- The number that two bytes spell in network order. -/
def bigEndian16 (m : Memory) (i : Nat) : UInt16 :=
  UInt16.ofNat (256 * (m i).toNat + (m (i + 1)).toNat)

/-- The number that four bytes spell in network order. -/
def bigEndian32 (m : Memory) (i : Nat) : UInt32 :=
  UInt32.ofNat (16777216 * (m i).toNat + 65536 * (m (i + 1)).toNat +
    256 * (m (i + 2)).toNat + (m (i + 3)).toNat)

def ntohs (x : UInt16) : UInt16 :=
  UInt16.ofNat (x.toNat % 256 * 256 + x.toNat / 256)

def ntohl (x : UInt32) : UInt32 :=
  UInt32.ofNat (x.toNat % 256 * 16777216 + x.toNat / 256 % 256 * 65536 +
    x.toNat / 65536 % 256 * 256 + x.toNat / 16777216)

/-- `ntohs` exchanges the two bytes a number is made of. -/
theorem ntohs_toNat {x : UInt16} {lo hi : Nat} (hlo : lo < 256) (hhi : hi < 256)
    (hx : x.toNat = lo + 256 * hi) : (ntohs x).toNat = hi + 256 * lo := by
  have hquot : x.toNat / 256 = hi := by omega
  have hrem : x.toNat % 256 = lo := by omega
  rw [ntohs, hquot, hrem, UInt16.toNat_ofNat', Nat.mod_eq_of_lt (by omega)]
  omega

/-- `ntohl` reverses the four bytes a number is made of. -/
theorem ntohl_toNat {x : UInt32} {a b c d : Nat}
    (ha : a < 256) (hb : b < 256) (hc : c < 256) (hd : d < 256)
    (hx : x.toNat = a + 256 * b + 65536 * c + 16777216 * d) :
    (ntohl x).toNat = d + 256 * c + 65536 * b + 16777216 * a := by
  have h0 : x.toNat % 256 = a := by omega
  have h1 : x.toNat / 256 % 256 = b := by omega
  have h2 : x.toNat / 65536 % 256 = c := by omega
  have h3 : x.toNat / 16777216 = d := by omega
  rw [ntohl, h0, h1, h2, h3, UInt32.toNat_ofNat', Nat.mod_eq_of_lt (by omega)]
  omega

theorem load16_toNat (m : Memory) (i : Nat) :
    (load16 m i).toNat = (m i).toNat + 256 * (m (i + 1)).toNat := by
  have h0 := (m i).toNat_lt
  have h1 := (m (i + 1)).toNat_lt
  rw [load16, UInt16.toNat_ofNat', Nat.mod_eq_of_lt (by omega)]

theorem load32_toNat (m : Memory) (i : Nat) :
    (load32 m i).toNat = (m i).toNat + 256 * (m (i + 1)).toNat +
      65536 * (m (i + 2)).toNat + 16777216 * (m (i + 3)).toNat := by
  have h0 := (m i).toNat_lt
  have h1 := (m (i + 1)).toNat_lt
  have h2 := (m (i + 2)).toNat_lt
  have h3 := (m (i + 3)).toNat_lt
  rw [load32, UInt32.toNat_ofNat', Nat.mod_eq_of_lt (by omega)]

/-- Loading reads back what was stored. -/
theorem load16_of_holds {m : Memory} {i : Nat} {x : UInt16} (h : m.Holds i (bytes16 x)) :
    load16 m i = x := by
  have hx := x.toNat_lt
  have h0 : m i = UInt8.ofNat x.toNat := h 0 (by simp [bytes16])
  have h1 : m (i + 1) = UInt8.ofNat (x.toNat / 256) := h 1 (by simp [bytes16])
  apply UInt16.toNat_inj.mp
  rw [load16_toNat, h0, h1, UInt8.toNat_ofNat', UInt8.toNat_ofNat']
  omega

theorem load32_of_holds {m : Memory} {i : Nat} {x : UInt32} (h : m.Holds i (bytes32 x)) :
    load32 m i = x := by
  have hx := x.toNat_lt
  have h0 : m i = UInt8.ofNat x.toNat := h 0 (by simp [bytes32])
  have h1 : m (i + 1) = UInt8.ofNat (x.toNat / 256) := h 1 (by simp [bytes32])
  have h2 : m (i + 2) = UInt8.ofNat (x.toNat / 65536) := h 2 (by simp [bytes32])
  have h3 : m (i + 3) = UInt8.ofNat (x.toNat / 16777216) := h 3 (by simp [bytes32])
  apply UInt32.toNat_inj.mp
  rw [load32_toNat, h0, h1, h2, h3, UInt8.toNat_ofNat', UInt8.toNat_ofNat',
    UInt8.toNat_ofNat', UInt8.toNat_ofNat']
  omega

theorem bigEndian16_congr {p q : Memory} {i : Nat} (h0 : p i = q i)
    (h1 : p (i + 1) = q (i + 1)) : bigEndian16 p i = bigEndian16 q i := by
  rw [bigEndian16, bigEndian16, h0, h1]

theorem bigEndian32_congr {p q : Memory} {i : Nat} (h0 : p i = q i)
    (h1 : p (i + 1) = q (i + 1)) (h2 : p (i + 2) = q (i + 2)) (h3 : p (i + 3) = q (i + 3)) :
    bigEndian32 p i = bigEndian32 q i := by
  rw [bigEndian32, bigEndian32, h0, h1, h2, h3]

theorem ntohs_ntohs (x : UInt16) : ntohs (ntohs x) = x := by
  have hx := x.toNat_lt
  have hsplit : x.toNat = x.toNat % 256 + 256 * (x.toNat / 256) := by omega
  have hswap := ntohs_toNat (by omega) (by omega) hsplit
  apply UInt16.toNat_inj.mp
  rw [ntohs_toNat (by omega) (by omega) hswap]
  exact hsplit.symm

theorem ntohl_ntohl (x : UInt32) : ntohl (ntohl x) = x := by
  have hx := x.toNat_lt
  have hsplit : x.toNat = x.toNat % 256 + 256 * (x.toNat / 256 % 256) +
      65536 * (x.toNat / 65536 % 256) + 16777216 * (x.toNat / 16777216) := by omega
  have hswap := ntohl_toNat (by omega) (by omega) (by omega) (by omega) hsplit
  apply UInt32.toNat_inj.mp
  rw [ntohl_toNat (by omega) (by omega) (by omega) (by omega) hswap]
  exact hsplit.symm

theorem ntohs_load16 (m : Memory) (i : Nat) :
    ntohs (load16 m i) = bigEndian16 m i := by
  have h0 := (m i).toNat_lt
  have h1 := (m (i + 1)).toNat_lt
  apply UInt16.toNat_inj.mp
  rw [ntohs_toNat h0 h1 (load16_toNat m i), bigEndian16, UInt16.toNat_ofNat',
    Nat.mod_eq_of_lt (by omega)]
  omega

theorem ntohl_load32 (m : Memory) (i : Nat) :
    ntohl (load32 m i) = bigEndian32 m i := by
  have h0 := (m i).toNat_lt
  have h1 := (m (i + 1)).toNat_lt
  have h2 := (m (i + 2)).toNat_lt
  have h3 := (m (i + 3)).toNat_lt
  apply UInt32.toNat_inj.mp
  rw [ntohl_toNat h0 h1 h2 h3 (load32_toNat m i), bigEndian32, UInt32.toNat_ofNat',
    Nat.mod_eq_of_lt (by omega)]
  omega

/-- Comparing a stored field with a load is comparing the two numbers. -/
theorem load16_eq_iff (m : Memory) (i : Nat) (x : UInt16) :
    load16 m i = x ↔ bigEndian16 m i = ntohs x := by
  rw [← ntohs_load16]
  constructor
  · intro h
    rw [h]
  · intro h
    have hback := congrArg ntohs h
    rwa [ntohs_ntohs, ntohs_ntohs] at hback

theorem load32_eq_iff (m : Memory) (i : Nat) (x : UInt32) :
    load32 m i = x ↔ bigEndian32 m i = ntohl x := by
  rw [← ntohl_load32]
  constructor
  · intro h
    rw [h]
  · intro h
    have hback := congrArg ntohl h
    rwa [ntohl_ntohl, ntohl_ntohl] at hback

/-- Zero is its own image, so a wildcard survives the conversion. -/
theorem ntohs_eq_zero_iff (x : UInt16) : ntohs x = 0 ↔ x = 0 := by
  constructor
  · intro h
    have hback := congrArg ntohs h
    rwa [ntohs_ntohs] at hback
  · rintro rfl
    rfl

theorem ntohl_eq_zero_iff (x : UInt32) : ntohl x = 0 ↔ x = 0 := by
  constructor
  · intro h
    have hback := congrArg ntohl h
    rwa [ntohl_ntohl] at hback
  · rintro rfl
    rfl

end ByteOrder
