import Mathlib.Algebra.Order.Field.Rat
import Mathlib.Data.Rat.Cast.Order
import Mathlib.Tactic.Linarith

/-!
# JSON values as picojson holds them

A value carries its kind, and an accessor for another kind throws: that is the
interface the server relies on. Numbers are finite doubles, here rationals; an
object is its list of fields, of which only lookups are used. A `Char` stands
for one byte of a C++ string, so strings may hold any bytes, a NUL included.
The conversion of a double to an integer type is defined only when the
truncated value fits, and what happens otherwise is a parameter.
-/

namespace PicoJson

inductive Value where
  | null
  | boolean (b : Bool)
  | number (d : ℚ)
  | string (s : String)
  | array (a : List Value)
  | object (o : List (String × Value))

abbrev Fields := List (String × Value)

/-- `PICOJSON_ASSERT` throws a runtime error, a number without finite value an
overflow error. -/
inductive Exception where
  | runtimeError
  | overflowError
  deriving DecidableEq

namespace Value

def contains : Value → String → Except Exception Bool
  | .object o, key => .ok (o.lookup key).isSome
  | _, _ => .error .runtimeError

/-- A missing key yields the shared null value. -/
def get : Value → String → Except Exception Value
  | .object o, key => .ok ((o.lookup key).getD .null)
  | _, _ => .error .runtimeError

def isNumber : Value → Bool
  | .number _ => true
  | _ => false

def isString : Value → Bool
  | .string _ => true
  | _ => false

def isArray : Value → Bool
  | .array _ => true
  | _ => false

def isObject : Value → Bool
  | .object _ => true
  | _ => false

def getNumber : Value → Except Exception ℚ
  | .number d => .ok d
  | _ => .error .runtimeError

def getString : Value → Except Exception String
  | .string s => .ok s
  | _ => .error .runtimeError

def getArray : Value → Except Exception (List Value)
  | .array a => .ok a
  | _ => .error .runtimeError

end Value

/-- What `picojson::parse` can do with a text. -/
inductive ParseResult where
  | value (v : Value)
  | syntaxError (err : String)
  | thrown (e : Exception)

/-- The two text functions of the library. -/
structure Text where
  parse : String → ParseResult
  serialize : Value → String

/-- A library that knows some texts, takes no other one for JSON, and prints one text. -/
def Text.ofTable (known : List (String × ParseResult)) (printed : String) : Text where
  parse := fun s => (known.lookup s).getD (.syntaxError "syntax error at line 1 near: ")
  serialize := fun _ => printed

@[simp] theorem Text.ofTable_parse_self (s : String) (r : ParseResult)
    (known : List (String × ParseResult)) (printed : String) :
    (Text.ofTable ((s, r) :: known) printed).parse s = r := by
  simp [Text.ofTable]

theorem Text.ofTable_parse_of_ne {s other : String} (h : s ≠ other) (r : ParseResult)
    (known : List (String × ParseResult)) (printed : String) :
    (Text.ofTable ((other, r) :: known) printed).parse s =
      (Text.ofTable known printed).parse s := by
  have hsecond : (s == other) = false := by simpa using h
  simp [Text.ofTable, List.lookup_cons, hsecond]

/-! ### Doubles as integers -/

/-- The results of conversions that the language leaves undefined. -/
structure Conversions where
  toUInt64 : ℚ → UInt64
  toInt32 : ℚ → Int32

def truncate (d : ℚ) : Int := d.num.tdiv d.den

def toUInt64 (undef : Conversions) (d : ℚ) : UInt64 :=
  if -1 < d ∧ d < 18446744073709551616 then UInt64.ofNat (truncate d).toNat
  else undef.toUInt64 d

def toInt32 (undef : Conversions) (d : ℚ) : Int32 :=
  if -2147483649 < d ∧ d < 2147483648 then Int32.ofInt (truncate d) else undef.toInt32 d

/-- Whole numbers in range are converted exactly. -/
theorem toUInt64_natCast (undef : Conversions) {n : Nat} (h : n < 2 ^ 64) :
    toUInt64 undef (n : ℚ) = UInt64.ofNat n := by
  have hlo : (-1 : ℚ) < n := by
    have hnonneg : (0 : ℚ) ≤ n := Nat.cast_nonneg n
    linarith
  have hhi : (n : ℚ) < 18446744073709551616 := by exact_mod_cast h
  rw [toUInt64, if_pos ⟨hlo, hhi⟩, truncate]
  simp

theorem toUInt16_natCast (undef : Conversions) (n : UInt16) :
    (toUInt64 undef (n.toNat : ℚ)).toUInt16 = n := by
  have hn := n.toNat_lt
  rw [toUInt64_natCast undef (by omega)]
  apply UInt16.toNat_inj.mp
  rw [UInt64.toNat_toUInt16, UInt64.toNat_ofNat']
  omega

theorem toUInt8_natCast (undef : Conversions) (n : UInt8) :
    (toUInt64 undef (n.toNat : ℚ)).toUInt8 = n := by
  have hn := n.toNat_lt
  rw [toUInt64_natCast undef (by omega)]
  apply UInt8.toNat_inj.mp
  rw [UInt64.toNat_toUInt8, UInt64.toNat_ofNat']
  omega

end PicoJson
