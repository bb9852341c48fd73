import ApplicationLayerFirewall.JsonDocuments

/-!
# The printer of picojson

A whole number below the precision of a double is printed without a fraction,
any other with the 17 significant digits of `%.17g`. Strings escape what JSON
wants escaped, and the slash. Indented text puts every element on a line of its
own. Negative zero is left out: a value here does not tell it from zero, and the
library prints its sign.
-/

namespace JsonPrinter

open JsonTexts PicoJson

/-! ### Numbers -/

/-- `%.f` of a whole number. -/
def formatF (n : ℤ) : Numeral where
  negative := decide (n < 0)
  whole := Nat.toDigits 10 n.natAbs
  fraction := none
  exponent := none

/-- Seventeen significant digits of a positive number, and the power of ten of the first. -/
def significant (x : ℚ) : Nat × ℤ :=
  let e := Int.log 10 x
  let m := (BinaryRounding.roundEven (x / 10 ^ (e - 16))).toNat
  if m < 10 ^ 17 then (m, e) else (10 ^ 16, e + 1)

def stripZeros (t : List Char) : List Char := t.rdropWhile (· = '0')

/-- The point goes with the last digit behind it. -/
def fractionOf (t : List Char) : Option (List Char) :=
  if stripZeros t = [] then none else some (stripZeros t)

/-- The exponent has a sign and two digits at least. -/
def exponentOf (e : ℤ) : Char × Option Char × List Char :=
  ('e', some (if e < 0 then '-' else '+'),
    if e.natAbs < 10 then '0' :: Nat.toDigits 10 e.natAbs else Nat.toDigits 10 e.natAbs)

/-- `%.17g` of a number that is not zero. -/
def formatG (d : ℚ) : Numeral :=
  let digits := Nat.toDigits 10 (significant |d|).1
  let e := (significant |d|).2
  if 0 ≤ e ∧ e < 17 then
    { negative := decide (d < 0)
      whole := digits.take (e.toNat + 1)
      fraction := fractionOf (digits.drop (e.toNat + 1))
      exponent := none }
  else if -4 ≤ e ∧ e < 0 then
    { negative := decide (d < 0)
      whole := ['0']
      fraction := fractionOf (List.replicate (-e - 1).toNat '0' ++ digits)
      exponent := none }
  else
    { negative := decide (d < 0)
      whole := digits.take 1
      fraction := fractionOf (digits.drop 1)
      exponent := some (exponentOf e) }

def numeralOf (d : ℚ) : Numeral :=
  if |d| < 2 ^ 53 ∧ d.den = 1 then formatF d.num else formatG d

def toStr : Value → List Char
  | .null => ['n', 'u', 'l', 'l']
  | .boolean true => ['t', 'r', 'u', 'e']
  | .boolean false => ['f', 'a', 'l', 's', 'e']
  | .number d => (numeralOf d).text
  | .string s => s.toList
  | .array _ => ['a', 'r', 'r', 'a', 'y']
  | .object _ => ['o', 'b', 'j', 'e', 'c', 't']

/-! ### Strings -/

/-- A lower-case hexadecimal digit. -/
def hexDigit (n : Nat) : Char := Nat.digitChar n

/-- `%04x` of a control character. -/
def hex4 (c : Char) : List Char := ['0', '0', hexDigit (c.toNat / 16), hexDigit (c.toNat % 16)]

def serializeStrChar (c : Char) : List Char :=
  if c = '"' then ['\\', '"']
  else if c = '\\' then ['\\', '\\']
  else if c = '/' then ['\\', '/']
  else if c = '\x08' then ['\\', 'b']
  else if c = '\x0c' then ['\\', 'f']
  else if c = '\n' then ['\\', 'n']
  else if c = '\r' then ['\\', 'r']
  else if c = '\t' then ['\\', 't']
  else if c < ' ' ∨ c = '\x7f' then '\\' :: 'u' :: hex4 c
  else [c]

def serializeStr (s : List Char) : List Char := '"' :: (s.flatMap serializeStrChar ++ ['"'])

/-! ### Values -/

/-- `_indent` at a level, or nothing where the text is not indented. -/
def indented : Option Nat → List Char
  | none => []
  | some level => '\n' :: List.replicate (level * 2) ' '

/-- An indented text ends with its line. -/
def ending : Option Nat → List Char
  | some 0 => ['\n']
  | _ => []

/-- Blanks before the closing bracket of what is not empty. -/
def closing (indent : Option Nat) (empty : Bool) : List Char :=
  if empty then [] else indented indent

def deeper (indent : Option Nat) : Option Nat := indent.map (· + 1)

mutual

/-- No indent is the level -1 of the library. -/
def serializeAt (indent : Option Nat) : Value → List Char
  | .string s => serializeStr s.toList ++ ending indent
  | .array a =>
      '[' :: (serializeItems (deeper indent) true a ++ closing indent a.isEmpty ++ [']']) ++
        ending indent
  | .object o =>
      '\x7b' :: (serializeFields (deeper indent) true o ++ closing indent o.isEmpty ++ ['\x7d']) ++
        ending indent
  | .null => toStr .null ++ ending indent
  | .boolean b => toStr (.boolean b) ++ ending indent
  | .number d => toStr (.number d) ++ ending indent

def serializeItems (indent : Option Nat) (begin : Bool) : List Value → List Char
  | [] => []
  | v :: rest =>
      (if begin then [] else [',']) ++ (indented indent ++
        (serializeAt indent v ++ serializeItems indent false rest))

def serializeFields (indent : Option Nat) (begin : Bool) : List (String × Value) → List Char
  | [] => []
  | (key, v) :: rest =>
      (if begin then [] else [',']) ++ (indented indent ++
        (serializeStr key.toList ++ (':' :: ((if indent = none then [] else [' ']) ++
          (serializeAt indent v ++ serializeFields indent false rest)))))

end

def serialize (prettify : Bool) (v : Value) : String :=
  String.ofList (serializeAt (if prettify then some 0 else none) v)

/-- The library as the server uses it. -/
def picoText : Text where
  parse := JsonParser.parseText
  serialize := serialize false

end JsonPrinter
