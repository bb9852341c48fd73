import ApplicationLayerFirewall.JsonTexts

/-!
# The parser of picojson

The reader keeps one character of lookahead by not advancing until the next
`getc`, and counts a line when it advances over its end. The functions below
are those of the library over that reader, with the default parse context. The
recursion and the loops carry a bound on their turns that the length of the text
always covers. The depth of the machine's stack is not modelled, and the locale
is the one every program starts in.
-/

namespace JsonParser

open JsonTexts PicoJson

/-! ### The reader -/

/-- `rest` starts at `cur_`. A consumed character is there to be passed. -/
structure Input where
  rest : List Char
  consumed : Bool
  line : Nat
  ahead : consumed = true → rest ≠ []

theorem nothing_consumed {t : List Char} (h : false = true) : t ≠ [] :=
  absurd h Bool.false_ne_true

namespace Input

def start (text : List Char) : Input where
  rest := text
  consumed := false
  line := 1
  ahead := nothing_consumed

/-- What the next `getc` will see. -/
def unread (s : Input) : List Char := if s.consumed then s.rest.tail else s.rest

/-- The line once a consumed character has been passed. -/
def lineAhead (s : Input) : Nat :=
  if s.consumed ∧ s.rest.head? = some '\n' then s.line + 1 else s.line

def getc (s : Input) : Option Char × Input :=
  match s.unread with
  | [] =>
      (none, { rest := [], consumed := false, line := s.lineAhead, ahead := nothing_consumed })
  | c :: t =>
      (some c, { rest := c :: t, consumed := true, line := s.lineAhead,
                 ahead := fun _ => List.cons_ne_nil c t })

def ungetc (s : Input) : Input where
  rest := s.rest
  consumed := false
  line := s.line
  ahead := nothing_consumed

end Input

/-- A parser succeeds or fails and leaves the reader somewhere, or an exception
passes through it. `exhausted` stands for the bound on turns being too small. -/
inductive Outcome (α : Type) where
  | ok (a : α) (s : Input)
  | failed (s : Input)
  | thrown (e : Exception)
  | exhausted

def Parser (α : Type) := Input → Outcome α

namespace Parser

def pure {α : Type} (a : α) : Parser α := fun s => .ok a s

def bind {α β : Type} (p : Parser α) (f : α → Parser β) : Parser β := fun s =>
  match p s with
  | .ok a s' => f a s'
  | .failed s' => .failed s'
  | .thrown e => .thrown e
  | .exhausted => .exhausted

instance : Monad Parser where
  pure := Parser.pure
  bind := Parser.bind

def fail {α : Type} : Parser α := fun s => .failed s

def throw {α : Type} (e : Exception) : Parser α := fun _ => .thrown e

def exhaust {α : Type} : Parser α := fun _ => .exhausted

def getc : Parser (Option Char) := fun s => .ok s.getc.1 s.getc.2

def ungetc : Parser Unit := fun s => .ok () s.ungetc

end Parser

open JsonParser.Parser

/-! ### Tokens -/

/-- The loop passes one blank a turn. -/
def skipWsLoop : Nat → Input → Input
  | 0, s => s
  | n + 1, s =>
      match s.getc with
      | (some c, s') => if IsBlank c then skipWsLoop n s' else s'.ungetc
      | (none, s') => s'.ungetc

def skipWs : Parser Unit := fun s => .ok () (skipWsLoop (s.rest.length + 1) s)

def expect (expected : Char) : Parser Bool := do
  skipWs
  let ch ← getc
  if ch = some expected then
    return true
  else do
    ungetc
    return false

def matchText : List Char → Parser Bool
  | [] => return true
  | c :: pattern => do
      let ch ← getc
      if ch = some c then
        matchText pattern
      else do
        ungetc
        return false

/-- `none` is the value -1 of the library, and only a bad digit is put back. -/
def parseQuadhexLoop : Nat → Nat → Parser (Option Nat)
  | 0, uniCh => return some uniCh
  | i + 1, uniCh => do
      let ch ← getc
      match ch with
      | none => return none
      | some c =>
          match hexValue c with
          | some hex => parseQuadhexLoop i (uniCh * 16 + hex)
          | none => do
              ungetc
              return none

def parseQuadhex : Parser (Option Nat) := parseQuadhexLoop 4 0

/-- The bytes pushed for a code point. -/
def pushCodepoint (uniCh : Nat) : List Char :=
  if uniCh < 0x80 then
    [Char.ofNat uniCh]
  else if uniCh < 0x800 then
    [Char.ofNat (0xc0 ||| (uniCh >>> 6)), Char.ofNat (0x80 ||| (uniCh &&& 0x3f))]
  else if uniCh < 0x10000 then
    [Char.ofNat (0xe0 ||| (uniCh >>> 12)), Char.ofNat (0x80 ||| ((uniCh >>> 6) &&& 0x3f)),
      Char.ofNat (0x80 ||| (uniCh &&& 0x3f))]
  else
    [Char.ofNat (0xf0 ||| (uniCh >>> 18)), Char.ofNat (0x80 ||| ((uniCh >>> 12) &&& 0x3f)),
      Char.ofNat (0x80 ||| ((uniCh >>> 6) &&& 0x3f)), Char.ofNat (0x80 ||| (uniCh &&& 0x3f))]

/-- The second half of a surrogate pair: `\u` and a low surrogate. -/
def parseLowSurrogate (uniCh : Nat) : Parser Nat := do
  let ch ← getc
  if ch = some '\\' then do
    let ch ← getc
    if ch = some 'u' then do
      let second ← parseQuadhex
      match second with
      | some second =>
          if 0xdc00 ≤ second ∧ second ≤ 0xdfff then
            return (((uniCh - 0xd800) <<< 10) ||| ((second - 0xdc00) &&& 0x3ff)) + 0x10000
          else
            fail
      | none => fail
    else do
      ungetc
      fail
  else do
    ungetc
    fail

def parseCodepoint (out : List Char) : Parser (List Char) := do
  let first ← parseQuadhex
  match first with
  | none => fail
  | some uniCh =>
      if 0xd800 ≤ uniCh ∧ uniCh ≤ 0xdfff then
        if 0xdc00 ≤ uniCh then
          fail
        else do
          let uniCh ← parseLowSurrogate uniCh
          return out ++ pushCodepoint uniCh
      else
        return out ++ pushCodepoint uniCh

/-- One turn takes a character, or an escape as a whole. -/
def parseStringLoop : Nat → List Char → Parser (List Char)
  | 0, _ => exhaust
  | n + 1, out => do
      let ch ← getc
      match ch with
      | none => do
          ungetc
          fail
      | some c =>
          if c < ' ' then do
            ungetc
            fail
          else if c = '"' then
            return out
          else if c = '\\' then do
            let ch ← getc
            match ch with
            | none => fail
            | some e =>
                match escapes.lookup e with
                | some c => parseStringLoop n (out ++ [c])
                | none =>
                    if e = 'u' then do
                      let out ← parseCodepoint out
                      parseStringLoop n out
                    else
                      fail
          else
            parseStringLoop n (out ++ [c])

def parseString : Parser (List Char) := fun s => parseStringLoop (s.rest.length + 1) [] s

/-! ### Numbers -/

def IsNumberChar (c : Char) : Prop :=
  IsDigit c ∨ c = '+' ∨ c = '-' ∨ c = 'e' ∨ c = 'E' ∨ c = '.'

instance (c : Char) : Decidable (IsNumberChar c) := inferInstanceAs (Decidable (_ ∨ _))

def parseNumberLoop : Nat → List Char → Parser (List Char)
  | 0, _ => exhaust
  | n + 1, numStr => do
      let ch ← getc
      match ch with
      | some c =>
          if IsNumberChar c then
            parseNumberLoop n (numStr ++ [c])
          else do
            ungetc
            return numStr
      | none => do
          ungetc
          return numStr

def parseNumber : Parser (List Char) := fun s => parseNumberLoop (s.rest.length + 1) [] s

def takeSign : List Char → Option Char × List Char
  | '+' :: t => (some '+', t)
  | '-' :: t => (some '-', t)
  | t => (none, t)

def takeFraction : List Char → Option (List Char) × List Char
  | '.' :: t => (some (t.takeWhile IsDigit), t.dropWhile IsDigit)
  | t => (none, t)

def takeExponent : List Char → Option (Char × Option Char × List Char) × List Char
  | [] => (none, [])
  | c :: t =>
      if (c = 'e' ∨ c = 'E') ∧ (takeSign t).2.takeWhile IsDigit ≠ [] then
        (some (c, (takeSign t).1, (takeSign t).2.takeWhile IsDigit),
          (takeSign t).2.dropWhile IsDigit)
      else
        (none, c :: t)

/-- The longest decimal numeral at the start of a text, as `strtod` finds it in
texts of number characters only, and what follows it. -/
def takeNumeral (t : List Char) : Option (Numeral × List Char) :=
  let signed := takeSign t
  let whole := signed.2.takeWhile IsDigit
  let fraction := takeFraction (signed.2.dropWhile IsDigit)
  let exponent := takeExponent fraction.2
  if whole = [] ∧ fraction.1.getD [] = [] then none
  else some (⟨decide (signed.1 = some '-'), whole, fraction.1, exponent.1⟩, exponent.2)

/-- The double and where the conversion stopped. No double is an infinite one. -/
def strtod (t : List Char) : Option ℚ × List Char :=
  match takeNumeral t with
  | none => (some 0, t)
  | some (n, rest) => (BinaryRounding.binary64.nearest n.value, rest)

/-- The default case of `_parse`, once the first character has been looked at. -/
def parseNumberValue : Parser Value := do
  let numStr ← parseNumber
  if numStr = [] then
    fail
  else if (strtod numStr).2 = [] then
    match (strtod numStr).1 with
    | some d => return .number d
    | none => throw .overflowError
  else
    fail

/-! ### Values -/

mutual

def parse : Nat → Parser Value
  | 0 => exhaust
  | n + 1 => do
      skipWs
      let ch ← getc
      if ch = some 'n' then do
        if ← matchText ['u', 'l', 'l'] then return .null else fail
      else if ch = some 'f' then do
        if ← matchText ['a', 'l', 's', 'e'] then return .boolean false else fail
      else if ch = some 't' then do
        if ← matchText ['r', 'u', 'e'] then return .boolean true else fail
      else if ch = some '"' then do
        let out ← parseString
        return .string (String.ofList out)
      else if ch = some '[' then
        parseArray n
      else if ch = some '\x7b' then
        parseObject n
      else if ch.any (fun c => IsDigit c ∨ c = '-') then do
        ungetc
        parseNumberValue
      else do
        ungetc
        fail

def parseArray : Nat → Parser Value
  | 0 => exhaust
  | n + 1 => do
      if ← expect ']' then return .array [] else parseItems n []

def parseItems : Nat → List Value → Parser Value
  | 0, _ => exhaust
  | n + 1, a => do
      let item ← parse n
      if ← expect ',' then
        parseItems n (a ++ [item])
      else if ← expect ']' then
        return .array (a ++ [item])
      else
        fail

def parseObject : Nat → Parser Value
  | 0 => exhaust
  | n + 1 => do
      if ← expect '\x7d' then return .object [] else parseMembers n []

def parseMembers : Nat → Fields → Parser Value
  | 0, _ => exhaust
  | n + 1, o => do
      if ← expect '"' then do
        let key ← parseString
        if ← expect ':' then do
          let item ← parse n
          if ← expect ',' then
            parseMembers n (SortedMaps.assign (String.ofList key) item o)
          else if ← expect '\x7d' then
            return .object (SortedMaps.assign (String.ofList key) item o)
          else
            fail
        else
          fail
      else
        fail

end

/-! ### Texts -/

/-- The rest of the line the reader stopped in, without control characters. -/
def nearText (s : Input) : List Char :=
  (s.unread.takeWhile (· ≠ '\n')).filter (fun c => ' ' ≤ c)

def errorText (s : Input) : String :=
  "syntax error at line " ++ toString s.line ++ " near: " ++ String.ofList (nearText s)

def parseText (text : String) : ParseResult :=
  match parse (3 * text.toList.length + 1) (Input.start text.toList) with
  | .ok v _ => .value v
  | .failed s => .syntaxError (errorText s)
  | .thrown e => .thrown e
  | .exhausted => .syntaxError ""

end JsonParser
