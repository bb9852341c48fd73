import ApplicationLayerFirewall.ByteOrder
import Mathlib.Data.Nat.Bitwise

/-!
# The packet wrapper and its clock

`PacketExtractor` reads an IPv4 packet through a raw pointer, so a packet is
the memory found from that pointer on and nothing records where it ends. The
clock is the other input of a match: every `time(NULL)` takes the next of a
given sequence of readings.
-/

namespace PacketReading

open ByteOrder

def ipprotoIcmp : UInt8 := 1
def ipprotoTcp : UInt8 := 6
def ipprotoUdp : UInt8 := 17

structure PacketExtractor where
  mPData : Memory

namespace PacketExtractor

/-- The bit-field `ihl` of `struct iphdr`: the low half of the first byte. -/
def ihl (pe : PacketExtractor) : Nat := (pe.mPData 0).toNat % 16

/-- The transport header, found behind the IP options. -/
def getData (pe : PacketExtractor) : Memory := pe.mPData.advance (pe.ihl * 4)

def getSrcIp (pe : PacketExtractor) : UInt32 := load32 pe.mPData 12

def getDestIp (pe : PacketExtractor) : UInt32 := load32 pe.mPData 16

def getProtocol (pe : PacketExtractor) : UInt8 := pe.mPData 9

/-- `source` is the first field of `tcphdr` and of `udphdr`. -/
def getSrcPort (pe : PacketExtractor) : UInt16 :=
  if pe.getProtocol = ipprotoTcp then load16 pe.getData 0
  else if pe.getProtocol = ipprotoUdp then load16 pe.getData 0
  else 0

def getDestPort (pe : PacketExtractor) : UInt16 :=
  if pe.getProtocol = ipprotoTcp then load16 pe.getData 2
  else if pe.getProtocol = ipprotoUdp then load16 pe.getData 2
  else 0

def getICMPType (pe : PacketExtractor) : UInt8 :=
  if pe.getProtocol = ipprotoIcmp then pe.getData 0 else 0

end PacketExtractor

/-! ### The clock -/

abbrev TimeT := Int

/-- The fields of `struct tm` that the filter reads, in their documented ranges. -/
structure Tm where
  tmHour : Fin 24
  tmWday : Fin 7
  deriving DecidableEq

/-- The readings that successive `time(NULL)` calls return, and the time zone. -/
structure Clock where
  time : Nat → TimeT
  localtime : TimeT → Tm

/-- A clock that stands still. -/
def Clock.fixed (localtime : TimeT → Tm) (now : TimeT) : Clock :=
  ⟨fun _ => now, localtime⟩

def Clock.getTime (clock : Clock) (n : Nat) : Tm := clock.localtime (clock.time n)

/-- The members of the union `time_pass_type`. -/
structure TimePassType where
  hours : Fin 3 → UInt8
  wday : UInt8

/-- The member `data`: the same four bytes read as one little-endian word. -/
def TimePassType.data (t : TimePassType) : UInt32 :=
  UInt32.ofNat ((t.hours 0).toNat + 256 * (t.hours 1).toNat +
    65536 * (t.hours 2).toNat + 16777216 * t.wday.toNat)

def getTimePass (now : Tm) : TimePassType where
  hours := fun i => if i.val = now.tmHour.val / 8
    then UInt8.ofNat (2 ^ (now.tmHour.val % 8)) else 0
  wday := UInt8.ofNat (2 ^ now.tmWday.val)

/-- The current time has two bits: its hour and, from bit 24 on, its weekday. -/
theorem getTimePass_data (now : Tm) :
    (getTimePass now).data.toNat = 2 ^ (24 + now.tmWday.val) ||| 2 ^ now.tmHour.val := by
  have table : ∀ (h : Fin 24) (w : Fin 7),
      (getTimePass ⟨h, w⟩).data.toNat = 2 ^ (24 + w.val) ||| 2 ^ h.val := by decide +kernel
  exact table now.tmHour now.tmWday

/-- The time test of `leastCheck`: one AND of the rule's mask with the current time. -/
def TimePasses (timePass : UInt32) (now : Tm) : Prop :=
  timePass &&& (getTimePass now).data ≠ 0

instance (timePass : UInt32) (now : Tm) : Decidable (TimePasses timePass now) :=
  inferInstanceAs (Decidable (_ ≠ _))

theorem and_two_pow_eq_zero_iff (n i : Nat) : n &&& 2 ^ i = 0 ↔ n.testBit i = false := by
  rw [Nat.and_two_pow]
  cases n.testBit i <;> simp

/-- The AND against a two-bit word asks for either bit, not for both. -/
theorem timePasses_iff (timePass : UInt32) (now : Tm) :
    TimePasses timePass now ↔
      timePass.toNat.testBit now.tmHour.val = true ∨
        timePass.toNat.testBit (24 + now.tmWday.val) = true := by
  have hzero : timePass &&& (getTimePass now).data = 0 ↔
      timePass.toNat &&& 2 ^ (24 + now.tmWday.val) = 0 ∧
        timePass.toNat &&& 2 ^ now.tmHour.val = 0 := by
    rw [← UInt32.toNat_inj, UInt32.toNat_and, getTimePass_data, Nat.and_or_distrib_left]
    exact Nat.or_eq_zero_iff
  rw [TimePasses, ne_eq, hzero, and_two_pow_eq_zero_iff, and_two_pow_eq_zero_iff]
  cases timePass.toNat.testBit now.tmHour.val <;>
    cases timePass.toNat.testBit (24 + now.tmWday.val) <;> simp

/-- The bits that an hour or a weekday can set: all but the highest. -/
theorem timePasses_exists_iff (timePass : UInt32) :
    (∃ now, TimePasses timePass now) ↔ timePass &&& 0x7fffffff ≠ 0 := by
  have hmod : timePass &&& 0x7fffffff = 0 ↔ timePass.toNat % 2 ^ 31 = 0 := by
    rw [← UInt32.toNat_inj, UInt32.toNat_and, ← Nat.and_two_pow_sub_one_eq_mod]
    rfl
  constructor
  · rintro ⟨now, hnow⟩ hzero
    have hbit : ∀ i < 31, timePass.toNat.testBit i = false := by
      intro i hi
      have h : (timePass.toNat % 2 ^ 31).testBit i = false := by
        rw [hmod.mp hzero, Nat.zero_testBit]
      rw [Nat.testBit_mod_two_pow, decide_eq_true hi, Bool.true_and] at h
      exact h
    have hhour := now.tmHour.isLt
    have hwday := now.tmWday.isLt
    rcases (timePasses_iff timePass now).mp hnow with h | h
    · rw [hbit _ (by omega)] at h
      cases h
    · rw [hbit _ (by omega)] at h
      cases h
  · intro hmask
    by_contra hnone
    apply hmask
    rw [hmod]
    apply Nat.eq_of_testBit_eq
    intro i
    rw [Nat.testBit_mod_two_pow, Nat.zero_testBit]
    by_cases hi : i < 31
    · have hbit : timePass.toNat.testBit i = false := by
        by_contra hset
        rw [Bool.not_eq_false] at hset
        by_cases hhour : i < 24
        · exact hnone ⟨⟨⟨i, hhour⟩, 0⟩, (timePasses_iff timePass _).mpr (Or.inl hset)⟩
        · have hwday : 24 + (i - 24) = i := by omega
          refine hnone ⟨⟨0, ⟨i - 24, by omega⟩⟩, (timePasses_iff timePass _).mpr (Or.inr ?_)⟩
          rw [hwday]
          exact hset
      rw [hbit, Bool.and_false]
    · simp [hi]

theorem timePasses_all (now : Tm) : TimePasses 0xffffffff now := by
  have table : ∀ (h : Fin 24) (w : Fin 7), TimePasses 0xffffffff ⟨h, w⟩ := by decide +kernel
  exact table now.tmHour now.tmWday

end PacketReading
