import ApplicationLayerFirewall.BinaryRounding
import ApplicationLayerFirewall.PicoJson
import ApplicationLayerFirewall.SortedMaps
import Mathlib.Data.String.Basic

/-!
# JSON texts and what they mean

The grammar of JSON over the bytes of a text, with the value each text stands
for: escapes stand for the UTF-8 bytes of their character, a numeral for the
double nearest to it, and of the members with one name the last one counts. A
lone surrogate and a numeral beyond the doubles have no meaning. Which numerals
are allowed is a parameter, and the grammar says nothing about UTF-8 outside
escapes.
-/

namespace JsonTexts

open PicoJson

/-! ### Blanks and digits -/

def IsBlank (c : Char) : Prop := c = ' ' ∨ c = '\t' ∨ c = '\n' ∨ c = '\r'

instance (c : Char) : Decidable (IsBlank c) := inferInstanceAs (Decidable (_ ∨ _))

def Blank (t : List Char) : Prop := ∀ c ∈ t, IsBlank c

theorem blank_nil : Blank [] := by simp [Blank]

def IsDigit (c : Char) : Prop := '0' ≤ c ∧ c ≤ '9'

instance (c : Char) : Decidable (IsDigit c) := inferInstanceAs (Decidable (_ ∧ _))

def Digits (t : List Char) : Prop := ∀ c ∈ t, IsDigit c

/-- The natural number that a list of digits writes. -/
def digitsValue (t : List Char) : Nat := Nat.ofDigitChars 10 t 0

def hexValue (c : Char) : Option Nat :=
  if IsDigit c then some (c.toNat - '0'.toNat)
  else if 'A' ≤ c ∧ c ≤ 'F' then some (c.toNat - 'A'.toNat + 10)
  else if 'a' ≤ c ∧ c ≤ 'f' then some (c.toNat - 'a'.toNat + 10)
  else none

/-- Four hexadecimal digits, which spell one UTF-16 code unit. -/
inductive CodeUnit : List Char → Nat → Prop
  | digits {a b c d : Char} {na nb nc nd : Nat} (ha : hexValue a = some na)
      (hb : hexValue b = some nb) (hc : hexValue c = some nc) (hd : hexValue d = some nd) :
      CodeUnit [a, b, c, d] (((na * 16 + nb) * 16 + nc) * 16 + nd)

/-! ### Strings -/

/-- The bytes of a character, each as a `Char`. -/
def utf8 (c : Char) : List Char := (String.utf8EncodeChar c).map Char.ofUInt8

/-- The digits after `\u`, with the second escape of a surrogate pair where there is one. -/
inductive Codepoint : List Char → Char → Prop
  | basic {t : List Char} {n : Nat} (h : CodeUnit t n) (hscalar : n < 0xd800 ∨ 0xe000 ≤ n) :
      Codepoint t (Char.ofNat n)
  | pair {t u : List Char} {high low : Nat} (hhigh : CodeUnit t high)
      (hfirst : 0xd800 ≤ high ∧ high < 0xdc00) (hlow : CodeUnit u low)
      (hsecond : 0xdc00 ≤ low ∧ low < 0xe000) :
      Codepoint (t ++ '\\' :: 'u' :: u)
        (Char.ofNat (0x10000 + (high - 0xd800) * 0x400 + (low - 0xdc00)))

/-- The characters that may follow a backslash, and what they stand for. -/
def escapes : List (Char × Char) :=
  [('"', '"'), ('\\', '\\'), ('/', '/'), ('b', '\x08'), ('f', '\x0c'), ('n', '\n'), ('r', '\r'),
    ('t', '\t')]

/-- What follows an opening quote, the closing one included. -/
inductive StringBody : List Char → List Char → Prop
  | close : StringBody ['"'] []
  | plain {c : Char} {t s : List Char} (hcontrol : ' ' ≤ c) (hquote : c ≠ '"')
      (hslash : c ≠ '\\') (h : StringBody t s) : StringBody (c :: t) (c :: s)
  | escape {e c : Char} {t s : List Char} (he : (e, c) ∈ escapes) (h : StringBody t s) :
      StringBody ('\\' :: e :: t) (c :: s)
  | unicode {u t s : List Char} {c : Char} (hu : Codepoint u c) (h : StringBody t s) :
      StringBody ('\\' :: 'u' :: (u ++ t)) (utf8 c ++ s)

/-! ### Numerals -/

/-- A numeral as it is written: the digits around an optional point, and an
optional exponent with the letter and sign that introduce it. -/
structure Numeral where
  negative : Bool
  whole : List Char
  fraction : Option (List Char)
  exponent : Option (Char × Option Char × List Char)

namespace Numeral

def fractionText : Option (List Char) → List Char
  | none => []
  | some digits => '.' :: digits

def exponentText : Option (Char × Option Char × List Char) → List Char
  | none => []
  | some (letter, sign, digits) => letter :: (sign.toList ++ digits)

def text (n : Numeral) : List Char :=
  (if n.negative then ['-'] else []) ++ n.whole ++ fractionText n.fraction ++
    exponentText n.exponent

def exponentValue : Option (Char × Option Char × List Char) → ℤ
  | none => 0
  | some (_, sign, digits) => if sign = some '-' then -digitsValue digits else digitsValue digits

def value (n : Numeral) : ℚ :=
  (if n.negative then -1 else 1) * digitsValue (n.whole ++ n.fraction.getD []) *
    10 ^ (exponentValue n.exponent - (n.fraction.getD []).length)

def ExponentOk : Option (Char × Option Char × List Char) → Prop
  | none => True
  | some (letter, sign, digits) =>
      (letter = 'e' ∨ letter = 'E') ∧ (sign = none ∨ sign = some '+' ∨ sign = some '-') ∧
        Digits digits ∧ digits ≠ []

/-- The numerals of the JSON standard. -/
structure Standard (n : Numeral) : Prop where
  whole : Digits n.whole
  nonempty : n.whole ≠ []
  leading : n.whole.head? = some '0' → n.whole = ['0']
  fraction : ∀ digits, n.fraction = some digits → Digits digits ∧ digits ≠ []
  exponent : ExponentOk n.exponent

end Numeral

/-- Spells a double: the value is the nearest one. -/
def Spelling (allowed : Numeral → Prop) (t : List Char) (d : ℚ) : Prop :=
  ∃ n : Numeral, allowed n ∧ n.text = t ∧ BinaryRounding.binary64.nearest n.value = some d

theorem Spelling.mono {allowed wider : Numeral → Prop} (h : ∀ n, allowed n → wider n)
    {t : List Char} {d : ℚ} (ht : Spelling allowed t d) : Spelling wider t d := by
  obtain ⟨n, hn, htext, hvalue⟩ := ht
  exact ⟨n, h n hn, htext, hvalue⟩

/-! ### Values -/

section
variable (number : List Char → ℚ → Prop)

mutual

/-- A text without blanks around it and its value. The bodies of arrays and
objects start after the bracket and end with the closing one. -/
inductive Spells : List Char → Value → Prop
  | null : Spells ['n', 'u', 'l', 'l'] .null
  | true : Spells ['t', 'r', 'u', 'e'] (.boolean Bool.true)
  | false : Spells ['f', 'a', 'l', 's', 'e'] (.boolean Bool.false)
  | number {t : List Char} {d : ℚ} (h : number t d) : Spells t (.number d)
  | string {t s : List Char} (h : StringBody t s) : Spells ('"' :: t) (.string (String.ofList s))
  | emptyArray {w : List Char} (hw : Blank w) : Spells ('[' :: (w ++ [']'])) (.array [])
  | array {t : List Char} {vs : List Value} (h : Items t vs) : Spells ('[' :: t) (.array vs)
  | emptyObject {w : List Char} (hw : Blank w) : Spells ('\x7b' :: (w ++ ['\x7d'])) (.object [])
  | object {t : List Char} {members : List (String × Value)} (h : Members t members) :
      Spells ('\x7b' :: t) (.object (SortedMaps.ofAssignments members))

/-- The elements of an array. -/
inductive Items : List Char → List Value → Prop
  | last {w t w' : List Char} {v : Value} (hw : Blank w) (ht : Spells t v) (hw' : Blank w') :
      Items (w ++ (t ++ (w' ++ [']']))) [v]
  | more {w t w' u : List Char} {v : Value} {vs : List Value} (hw : Blank w) (ht : Spells t v)
      (hw' : Blank w') (hu : Items u vs) : Items (w ++ (t ++ (w' ++ ',' :: u))) (v :: vs)

/-- A name, a colon and a value, up to the blanks after the value. -/
inductive Member : List Char → String × Value → Prop
  | member {w k key w' w'' t : List Char} {v : Value} (hw : Blank w) (hk : StringBody k key)
      (hw' : Blank w') (hw'' : Blank w'') (ht : Spells t v) :
      Member (w ++ '"' :: (k ++ (w' ++ ':' :: (w'' ++ t)))) (String.ofList key, v)

/-- The members of an object. -/
inductive Members : List Char → List (String × Value) → Prop
  | last {t w : List Char} {m : String × Value} (ht : Member t m) (hw : Blank w) :
      Members (t ++ (w ++ ['\x7d'])) [m]
  | more {t w u : List Char} {m : String × Value} {ms : List (String × Value)} (ht : Member t m)
      (hw : Blank w) (hu : Members u ms) : Members (t ++ (w ++ ',' :: u)) (m :: ms)

end

end

end JsonTexts
