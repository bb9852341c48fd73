import ApplicationLayerFirewall.JsonErrors
import ApplicationLayerFirewall.PrintedNumerals

/-!
# Printed values, parsed again

What is printed is a standard document of the value, indented or not, for every
value that a parse can yield or the server can build. So the parser undoes the
printer, whatever text follows, and a printed array or object that is cut off is
no JSON text.
-/

namespace JsonRoundTrip

open JsonAcceptance JsonDocuments JsonNumerals JsonParser JsonPrinter JsonTexts PicoJson
open PrintedNumerals

/-! ### Strings -/

theorem hexValue_hexDigit {n : Nat} (h : n < 16) : hexValue (hexDigit n) = some n := by
  have table : ∀ d : Fin 16, hexValue (hexDigit d.val) = some d.val := by decide
  exact table ⟨n, h⟩

theorem utf8_ascii {c : Char} (h : c.toNat < 0x80) : utf8 c = [c] := by
  rw [← JsonTokens.pushCodepoint_eq_utf8, pushCodepoint, if_pos h, Char.ofNat_toNat]

theorem codepoint_hex4 {c : Char} (h : c.toNat < 0x80) : Codepoint (hex4 c) c := by
  have hzero : hexValue '0' = some 0 := by decide
  have hunit : CodeUnit (hex4 c) (((0 * 16 + 0) * 16 + c.toNat / 16) * 16 + c.toNat % 16) :=
    CodeUnit.digits hzero hzero (hexValue_hexDigit (by omega)) (hexValue_hexDigit (by omega))
  have hvalue : ((0 * 16 + 0) * 16 + c.toNat / 16) * 16 + c.toNat % 16 = c.toNat := by omega
  rw [hvalue] at hunit
  have hcode := Codepoint.basic hunit (Or.inl (by omega))
  rwa [Char.ofNat_toNat] at hcode

/-- A printed character is the character again when the string is read. -/
theorem stringBody_serializeStrChar (c : Char) {t s : List Char} (h : StringBody t s) :
    StringBody (serializeStrChar c ++ t) (c :: s) := by
  have hescape : ∀ {e : Char}, (e, c) ∈ escapes → StringBody (['\\', e] ++ t) (c :: s) :=
    fun he => StringBody.escape he h
  rw [serializeStrChar]
  split_ifs with h1 h2 h3 h4 h5 h6 h7 h8 h9
  · subst h1
    exact hescape (by decide)
  · subst h2
    exact hescape (by decide)
  · subst h3
    exact hescape (by decide)
  · subst h4
    exact hescape (by decide)
  · subst h5
    exact hescape (by decide)
  · subst h6
    exact hescape (by decide)
  · subst h7
    exact hescape (by decide)
  · subst h8
    exact hescape (by decide)
  · have hascii : c.toNat < 0x80 := by
      rcases h9 with hcontrol | rfl
      · exact lt_trans hcontrol (by decide)
      · decide
    have hbody := StringBody.unicode (codepoint_hex4 hascii) h
    rwa [utf8_ascii hascii] at hbody
  · exact StringBody.plain (le_of_not_gt fun hc => h9 (Or.inl hc)) h1 h2 h

theorem stringBody_serializeStr (s : List Char) :
    StringBody (s.flatMap serializeStrChar ++ ['"']) s := by
  induction s with
  | nil => exact StringBody.close
  | cons c s ih =>
      rw [List.flatMap_cons, List.append_assoc]
      exact stringBody_serializeStrChar c ih

/-! ### Values -/

theorem blank_indented (indent : Option Nat) : Blank (indented indent) := by
  cases indent with
  | none => exact blank_nil
  | some level =>
      intro c hc
      rcases List.mem_cons.mp hc with rfl | hc
      · decide
      · rw [List.eq_of_mem_replicate hc]
        decide

theorem blank_closing (indent : Option Nat) (empty : Bool) : Blank (closing indent empty) := by
  rw [closing]
  split_ifs
  · exact blank_nil
  · exact blank_indented indent

theorem blank_ending (indent : Option Nat) : Blank (ending indent) := by
  rw [ending.eq_def]
  split
  · intro c hc
    rw [List.mem_singleton.mp hc]
    decide
  · exact blank_nil

theorem ending_deeper (indent : Option Nat) : ending (deeper indent) = [] := by
  cases indent with
  | none => rfl
  | some level => rfl

/-- A value whose text is a standard one of another value, at every level of indentation. -/
def PrintedAs (v v' : Value) : Prop :=
  ∀ indent, ∃ t, serializeAt indent v = t ++ ending indent ∧ StandardSpells t v'

/-- Below the top level nothing follows a value. -/
theorem PrintedAs.deeper {v v' : Value} (h : PrintedAs v v') (indent : Option Nat) :
    StandardSpells (serializeAt (deeper indent) v) v' := by
  obtain ⟨t, ht, hspells⟩ := h (JsonPrinter.deeper indent)
  rw [ht, ending_deeper, List.append_nil]
  exact hspells

theorem items_serializeItems (g : Value → Value) (indent : Option Nat) {w : List Char}
    (hw : Blank w) (v : Value) (vs : List Value) (h : ∀ v' ∈ v :: vs, PrintedAs v' (g v')) :
    Items (Spelling Numeral.Standard)
      (serializeItems (deeper indent) true (v :: vs) ++ (w ++ [']'])) ((v :: vs).map g) := by
  have hv := (h v List.mem_cons_self).deeper indent
  induction vs generalizing v with
  | nil =>
      have hlast := Items.last (blank_indented (deeper indent)) hv hw
      simpa [serializeItems] using hlast
  | cons v' vs ih =>
      have htail : ∀ v'' ∈ v' :: vs, PrintedAs v'' (g v'') := fun v'' hv'' =>
        h v'' (List.mem_cons_of_mem v hv'')
      have hrest := ih v' htail ((htail v' List.mem_cons_self).deeper indent)
      have hmore := Items.more (blank_indented (deeper indent)) hv blank_nil hrest
      simpa [serializeItems] using hmore

/-- The blank behind a colon. -/
def afterColon (indent : Option Nat) : List Char := if indent = none then [] else [' ']

theorem blank_afterColon (indent : Option Nat) : Blank (afterColon indent) := by
  rw [afterColon]
  split_ifs
  · exact blank_nil
  · intro c hc
    rw [List.mem_singleton.mp hc]
    decide

theorem member_serialized (indent : Option Nat) (key : String) {v v' : Value}
    (h : PrintedAs v v') :
    Member (Spelling Numeral.Standard)
      (indented (deeper indent) ++ (serializeStr key.toList ++ (':' ::
        (afterColon (deeper indent) ++ serializeAt (deeper indent) v)))) (key, v') := by
  have hmember := Member.member (blank_indented (deeper indent))
    (stringBody_serializeStr key.toList) blank_nil (blank_afterColon (deeper indent))
    (h.deeper indent)
  rw [String.ofList_toList] at hmember
  simpa [serializeStr] using hmember

theorem members_serializeFields (g : Value → Value) (indent : Option Nat) {w : List Char}
    (hw : Blank w) (f : String × Value) (fs : Fields)
    (h : ∀ f' ∈ f :: fs, PrintedAs f'.2 (g f'.2)) :
    Members (Spelling Numeral.Standard)
      (serializeFields (deeper indent) true (f :: fs) ++ (w ++ ['\x7d']))
      ((f :: fs).map (fun f => (f.1, g f.2))) := by
  have hf := member_serialized indent f.1 (h f List.mem_cons_self)
  induction fs generalizing f with
  | nil =>
      have hlast := Members.last hf hw
      simpa [serializeFields, afterColon] using hlast
  | cons f' fs ih =>
      have htail : ∀ f'' ∈ f' :: fs, PrintedAs f''.2 (g f''.2) := fun f'' hf'' =>
        h f'' (List.mem_cons_of_mem f hf'')
      have hrest := ih f' htail (member_serialized indent f'.1 (htail f' List.mem_cons_self))
      have hmore := Members.more hf blank_nil hrest
      simpa [serializeFields, afterColon] using hmore

/-! ### Objects in any order -/

/-- A value of doubles all the way down, whose objects have different keys in any order. -/
inductive OfDoubles : Value → Prop
  | null : OfDoubles .null
  | boolean (b : Bool) : OfDoubles (.boolean b)
  | number {d : ℚ} (h : BinaryRounding.binary64.Representable d) : OfDoubles (.number d)
  | string (s : String) : OfDoubles (.string s)
  | array {a : List Value} (h : ∀ v ∈ a, OfDoubles v) : OfDoubles (.array a)
  | object {o : Fields} (hkeys : (o.map Prod.fst).Nodup) (h : ∀ f ∈ o, OfDoubles f.2) :
      OfDoubles (.object o)

mutual

/-- The value as the library holds it once it has been read. -/
def held : Value → Value
  | .array a => .array (heldItems a)
  | .object o => .object (SortedMaps.ofAssignments (heldFields o))
  | .null => .null
  | .boolean b => .boolean b
  | .number d => .number d
  | .string s => .string s

def heldItems : List Value → List Value
  | [] => []
  | v :: rest => held v :: heldItems rest

def heldFields : List (String × Value) → Fields
  | [] => []
  | (key, v) :: rest => (key, held v) :: heldFields rest

end

theorem heldItems_eq (a : List Value) : heldItems a = a.map held := by
  induction a with
  | nil => rfl
  | cons v rest ih => rw [heldItems, ih, List.map_cons]

theorem heldFields_eq (o : Fields) : heldFields o = o.map (fun f => (f.1, held f.2)) := by
  induction o with
  | nil => rfl
  | cons f rest ih => rw [heldFields, ih, List.map_cons]

/-- What is printed is the text of the value that will be held. -/
theorem printed_held {v : Value} (h : OfDoubles v) : PrintedAs v (held v) := by
  induction h with
  | null => exact fun indent => ⟨_, rfl, Spells.null⟩
  | boolean b =>
      cases b with
      | true => exact fun indent => ⟨_, rfl, Spells.true⟩
      | false => exact fun indent => ⟨_, rfl, Spells.false⟩
  | number hd => exact fun indent => ⟨_, rfl, Spells.number (spelling_numeralOf hd)⟩
  | string s =>
      intro indent
      have hbody : StandardSpells (serializeStr s.toList) (.string (String.ofList s.toList)) :=
        Spells.string (stringBody_serializeStr s.toList)
      rw [String.ofList_toList] at hbody
      exact ⟨_, rfl, hbody⟩
  | @array a _ ih =>
      intro indent
      cases a with
      | nil => exact ⟨_, rfl, Spells.emptyArray (blank_closing indent true)⟩
      | cons v vs =>
          have hitems := items_serializeItems held indent (blank_closing indent false) v vs ih
          refine ⟨_, rfl, ?_⟩
          rw [held, heldItems_eq]
          have harray := Spells.array hitems
          simpa using harray
  | @object o _ _ ih =>
      intro indent
      cases o with
      | nil => exact ⟨_, rfl, Spells.emptyObject (blank_closing indent true)⟩
      | cons f fs =>
          have hmembers := members_serializeFields held indent (blank_closing indent false) f fs ih
          refine ⟨_, rfl, ?_⟩
          rw [held, heldFields_eq]
          have hobject := Spells.object hmembers
          simpa using hobject

theorem ofDoubles_of_wellFormed {v : Value} (h : WellFormed v) : OfDoubles v := by
  induction h with
  | null => exact .null
  | boolean b => exact .boolean b
  | number hd => exact .number hd
  | string s => exact .string s
  | array _ ih => exact .array ih
  | object hsorted _ ih => exact .object (hsorted.imp fun hlt => ne_of_lt hlt) ih

/-- A value that was parsed is held as it is. -/
theorem held_of_wellFormed {v : Value} (h : WellFormed v) : held v = v := by
  induction h with
  | array _ ih =>
      rw [held, heldItems_eq, List.map_congr_left ih, List.map_id']
  | @object o hsorted _ ih =>
      have hsame : ∀ f ∈ o, (f.1, held f.2) = f := fun f hf => by rw [ih f hf]
      have hfields : o.map (fun f => (f.1, held f.2)) = o := by
        rw [List.map_congr_left hsame, List.map_id']
      rw [held, heldFields_eq, hfields, SortedMaps.ofAssignments_of_sorted hsorted]
  | _ => rw [held]

theorem printed_of_wellFormed {v : Value} (h : WellFormed v) : PrintedAs v v := by
  have hprinted := printed_held (ofDoubles_of_wellFormed h)
  rwa [held_of_wellFormed h] at hprinted

/-! ### Round trips -/

/-- Where the text of an indented value ends. -/
def level (prettify : Bool) : Option Nat := if prettify then some 0 else none

theorem serialize_spells (prettify : Bool) {v : Value} (h : WellFormed v) :
    ∃ t, (serialize prettify v).toList = t ++ ending (level prettify) ∧ StandardSpells t v := by
  obtain ⟨t, ht, hspells⟩ := printed_of_wellFormed h (level prettify)
  refine ⟨t, ?_, hspells⟩
  rw [serialize, String.toList_ofList]
  exact ht

/-- The parser undoes the printer. -/
theorem parseText_serialize (prettify : Bool) {v : Value} (h : WellFormed v) :
    parseText (serialize prettify v) = .value v := by
  obtain ⟨t, ht, hspells⟩ := serialize_spells prettify h
  have hparse := parseText_standard blank_nil hspells (blank_ending (level prettify))
  rwa [List.nil_append, ← ht, String.ofList_toList] at hparse

/-- A printed value is read back as itself, and a printed array, object, string or
literal also when more text follows. None of its numbers is a negative zero. -/
theorem printed_document (prettify : Bool) {v : Value} (h : WellFormed v) :
    parseText (serialize prettify v) = .value v ∧
      (v.isNumber = false → ∀ more, parseText (serialize prettify v ++ more) = .value v) :=
  have hback := parseText_serialize prettify h
  ⟨hback, fun hv more => parseText_append hback hv more⟩

theorem printed_path :
    parseText (serialize true (.array [.string "a/b"])) = .value (.array [.string "a/b"]) ∧
      ((Value.array [.string "a/b"]).isNumber = false → ∀ more,
        parseText (serialize true (.array [.string "a/b"]) ++ more) =
          .value (.array [.string "a/b"])) :=
  printed_document true (.array (by simp [WellFormed.string]))

end JsonRoundTrip
