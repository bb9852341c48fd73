import ApplicationLayerFirewall.JsonTokens

/-!
# The numerals the parser takes

A run of number characters is collected first and must be a decimal numeral as a
whole. That is more than the standard allows: leading zeros, a point without
digits on one side, and nothing but a point and digits after a minus sign.
-/

namespace JsonNumerals

open JsonParser JsonTexts JsonTokens PicoJson

/-! ### The numerals -/

/-- What the first character and `strtod` together let through. -/
structure Accepted (n : Numeral) : Prop where
  whole : Digits n.whole
  fraction : ∀ digits, n.fraction = some digits → Digits digits
  nonempty : n.whole ≠ [] ∨ n.fraction.getD [] ≠ []
  leading : n.negative = false → n.whole ≠ []
  exponent : Numeral.ExponentOk n.exponent

theorem accepted_of_standard {n : Numeral} (h : n.Standard) : Accepted n where
  whole := h.whole
  fraction := fun digits hd => (h.fraction digits hd).1
  nonempty := Or.inl h.nonempty
  leading := fun _ => h.nonempty
  exponent := h.exponent

def StartsNumber (t : List Char) : Prop := ∃ c ∈ t.head?, IsDigit c ∨ c = '-'

theorem takeWhile_digits {t u : List Char} (ht : Digits t) (hu : ∀ c ∈ u.head?, ¬ IsDigit c) :
    (t ++ u).takeWhile IsDigit = t ∧ (t ++ u).dropWhile IsDigit = u := by
  have hall : ∀ c ∈ t, decide (IsDigit c) = true := fun c hc => decide_eq_true (ht c hc)
  rw [List.takeWhile_append_of_pos hall, List.dropWhile_append_of_pos hall]
  cases u with
  | nil => simp
  | cons c u =>
      have hc : ¬ IsDigit c := hu c (by simp)
      simp [hc]

theorem digits_takeWhile (t : List Char) : Digits (t.takeWhile IsDigit) := by
  intro c hc
  have hdigit := List.mem_takeWhile_imp hc
  exact of_decide_eq_true hdigit

theorem takeSign_of_digits {t u : List Char} (ht : Digits t) (hne : t ≠ []) :
    takeSign (t ++ u) = (none, t ++ u) := by
  cases t with
  | nil => exact absurd rfl hne
  | cons c t =>
      have hdigit := ht c List.mem_cons_self
      have hplus : c ≠ '+' := fun h => by
        subst h
        exact absurd hdigit (by decide)
      have hminus : c ≠ '-' := fun h => by
        subst h
        exact absurd hdigit (by decide)
      rw [List.cons_append, takeSign]
      · exact fun t' h => hplus (List.cons.inj h).1
      · exact fun t' h => hminus (List.cons.inj h).1

theorem takeExponent_text {e : Option (Char × Option Char × List Char)}
    (h : Numeral.ExponentOk e) : takeExponent (Numeral.exponentText e) = (e, []) := by
  cases e with
  | none => rfl
  | some e =>
      obtain ⟨letter, sign, digits⟩ := e
      obtain ⟨hletter, hsign, hdigits, hne⟩ := h
      have htake := takeWhile_digits (u := []) hdigits (by simp)
      rw [List.append_nil] at htake
      have hsigned : takeSign (sign.toList ++ digits) = (sign, digits) := by
        rcases hsign with rfl | rfl | rfl
        · have hplain := takeSign_of_digits (u := []) hdigits hne
          rw [List.append_nil] at hplain
          exact hplain
        · rfl
        · rfl
      simp [Numeral.exponentText, takeExponent, hsigned, htake, hletter, hne]

theorem exponentText_head {e : Option (Char × Option Char × List Char)}
    (h : Numeral.ExponentOk e) : ∀ c ∈ (Numeral.exponentText e).head?, ¬ IsDigit c ∧ c ≠ '.' := by
  cases e with
  | none => simp [Numeral.exponentText]
  | some e =>
      obtain ⟨letter, sign, digits⟩ := e
      obtain ⟨hletter, -, -, -⟩ := h
      intro c hc
      have hc' : c = letter := by simpa [Numeral.exponentText, eq_comm] using hc
      rcases hletter with rfl | rfl <;> subst hc' <;> decide

theorem takeFraction_text {f : Option (List Char)} {t : List Char}
    (h : ∀ digits, f = some digits → Digits digits) (ht : ∀ c ∈ t.head?, ¬ IsDigit c ∧ c ≠ '.') :
    takeFraction (Numeral.fractionText f ++ t) = (f, t) := by
  cases f with
  | none =>
      cases t with
      | nil => rfl
      | cons c t =>
          have hpoint : c ≠ '.' := (ht c (by simp)).2
          rw [Numeral.fractionText, List.nil_append, takeFraction]
          exact fun t' h => hpoint (List.cons.inj h).1
  | some digits =>
      have htake := takeWhile_digits (h digits rfl) fun c hc => (ht c hc).1
      simp [Numeral.fractionText, takeFraction, htake]

theorem fractionText_head {f : Option (List Char)} {t : List Char}
    (ht : ∀ c ∈ t.head?, ¬ IsDigit c) :
    ∀ c ∈ (Numeral.fractionText f ++ t).head?, ¬ IsDigit c := by
  cases f with
  | none => simpa [Numeral.fractionText] using ht
  | some digits =>
      intro c hc
      have hc' : c = '.' := by simpa [Numeral.fractionText, eq_comm] using hc
      subst hc'
      decide

/-- An accepted numeral is read back from its text. -/
theorem takeNumeral_text {n : Numeral} (h : Accepted n) : takeNumeral n.text = some (n, []) := by
  obtain ⟨negative, whole, fraction, exponent⟩ := n
  have hexp := exponentText_head h.exponent
  have hwhole := takeWhile_digits h.whole
    (fractionText_head (f := fraction) fun c hc => (hexp c hc).1)
  have hfraction := takeFraction_text h.fraction hexp
  have hexponent := takeExponent_text h.exponent
  have hsigned : takeSign (Numeral.text ⟨negative, whole, fraction, exponent⟩) =
      (if negative then some '-' else none,
        whole ++ (Numeral.fractionText fraction ++ Numeral.exponentText exponent)) := by
    cases negative with
    | true => simp [Numeral.text, takeSign]
    | false =>
        have hplain := takeSign_of_digits h.whole (h.leading rfl)
          (u := Numeral.fractionText fraction ++ Numeral.exponentText exponent)
        simpa [Numeral.text] using hplain
  have hnot : ¬ (whole = [] ∧ fraction.getD [] = []) := fun hempty =>
    h.nonempty.elim (fun hw => hw hempty.1) (fun hf => hf hempty.2)
  rw [takeNumeral, hsigned]
  simp only [hwhole, hfraction, hexponent, hnot, if_false]
  cases negative <;> rfl

theorem takeSign_split (t : List Char) :
    t = (takeSign t).1.toList ++ (takeSign t).2 ∧
      ((takeSign t).1 = none ∨ (takeSign t).1 = some '+' ∨ (takeSign t).1 = some '-') := by
  unfold takeSign
  split <;> simp

theorem takeFraction_split (t : List Char) :
    t = Numeral.fractionText (takeFraction t).1 ++ (takeFraction t).2 ∧
      ∀ digits, (takeFraction t).1 = some digits → Digits digits := by
  unfold takeFraction
  split
  · refine ⟨?_, ?_⟩
    · rw [Numeral.fractionText, List.cons_append, List.takeWhile_append_dropWhile]
    · intro digits hd
      cases hd
      exact digits_takeWhile _
  · exact ⟨rfl, nofun⟩

theorem takeExponent_split (t : List Char) :
    t = Numeral.exponentText (takeExponent t).1 ++ (takeExponent t).2 ∧
      Numeral.ExponentOk (takeExponent t).1 := by
  cases t with
  | nil => exact ⟨rfl, trivial⟩
  | cons c t =>
      rw [takeExponent]
      split_ifs with h
      · obtain ⟨hsplit, hsign⟩ := takeSign_split t
        refine ⟨?_, h.1, hsign, digits_takeWhile _, h.2⟩
        rw [Numeral.exponentText, List.cons_append, List.append_assoc,
          List.takeWhile_append_dropWhile, ← hsplit]
      · exact ⟨rfl, trivial⟩

/-- A numeral that `strtod` finds in a text which starts like a number. -/
theorem of_takeNumeral {t rest : List Char} {n : Numeral} (h : takeNumeral t = some (n, rest))
    (hstart : StartsNumber t) : t = n.text ++ rest ∧ Accepted n := by
  rw [takeNumeral] at h
  split_ifs at h with hempty
  injection h with h
  injection h with hn hrest
  subst hn hrest
  obtain ⟨hsign, hkind⟩ := takeSign_split t
  obtain ⟨hfraction, hfdigits⟩ := takeFraction_split ((takeSign t).2.dropWhile IsDigit)
  obtain ⟨hexponent, hok⟩ := takeExponent_split
    (takeFraction ((takeSign t).2.dropWhile IsDigit)).2
  have hplus : (takeSign t).1 ≠ some '+' := by
    intro hplus
    obtain ⟨c, hc, hdigit⟩ := hstart
    rw [hsign, hplus] at hc
    have hc' : c = '+' := by simpa [eq_comm] using hc
    subst hc'
    exact absurd hdigit (by decide)
  have hsigntext : (takeSign t).1.toList =
      if decide ((takeSign t).1 = some '-') = true then ['-'] else [] := by
    rcases hkind with hk | hk | hk
    · simp [hk]
    · exact absurd hk hplus
    · simp [hk]
  constructor
  · rw [Numeral.text, ← hsigntext]
    simp only [List.append_assoc]
    rw [← hexponent, ← hfraction, List.takeWhile_append_dropWhile]
    exact hsign
  · refine ⟨digits_takeWhile _, hfdigits, ?_, ?_, hok⟩
    · by_contra hnone
      push Not at hnone
      exact hempty hnone
    · intro hnegative hwhole
      have hnone : (takeSign t).1 = none := by
        rcases hkind with hk | hk | hk
        · exact hk
        · exact absurd hk hplus
        · exact absurd hk (of_decide_eq_false hnegative)
      obtain ⟨c, hc, hdigit | hminus⟩ := hstart
      · rw [hsign, hnone] at hc
        cases htext : (takeSign t).2 with
        | nil => simp [htext] at hc
        | cons d u =>
            have hcd : c = d := by simpa [htext, eq_comm] using hc
            rw [htext] at hwhole
            simp [← hcd, hdigit] at hwhole
      · subst hminus
        cases t with
        | nil => simp at hc
        | cons d u =>
            have hd : d = '-' := by simpa using hc
            subst hd
            simp [takeSign] at hnone

/-! ### Runs of number characters -/

theorem isNumberChar_of_isDigit {c : Char} (h : IsDigit c) : IsNumberChar c := Or.inl h

theorem numberChars_text {n : Numeral} (h : Accepted n) : ∀ c ∈ n.text, IsNumberChar c := by
  obtain ⟨negative, whole, fraction, exponent⟩ := n
  intro c hc
  simp only [Numeral.text, List.mem_append] at hc
  rcases hc with ((hsign | hwhole) | hfraction) | hexponent
  · cases negative with
    | true =>
        have hc' : c = '-' := by simpa using hsign
        subst hc'
        decide
    | false => simp at hsign
  · exact isNumberChar_of_isDigit (h.whole c hwhole)
  · cases fraction with
    | none => simp [Numeral.fractionText] at hfraction
    | some digits =>
        rcases List.mem_cons.mp hfraction with rfl | hdigit
        · decide
        · exact isNumberChar_of_isDigit (h.fraction digits rfl c hdigit)
  · cases exponent with
    | none => simp [Numeral.exponentText] at hexponent
    | some e =>
        obtain ⟨letter, sign, digits⟩ := e
        obtain ⟨hletter, hsign, hdigits, -⟩ := h.exponent
        simp only [Numeral.exponentText, List.mem_cons, List.mem_append] at hexponent
        rcases hexponent with rfl | hs | hdigit
        · rcases hletter with rfl | rfl <;> decide
        · rcases hsign with rfl | rfl | rfl
          · simp at hs
          · have hc' : c = '+' := by simpa using hs
            subst hc'
            decide
          · have hc' : c = '-' := by simpa using hs
            subst hc'
            decide
        · exact isNumberChar_of_isDigit (hdigits c hdigit)

theorem startsNumber_text {n : Numeral} (h : Accepted n) : StartsNumber n.text := by
  obtain ⟨negative, whole, fraction, exponent⟩ := n
  cases negative with
  | true => exact ⟨'-', by simp [Numeral.text], Or.inr rfl⟩
  | false =>
      have hne := h.leading rfl
      cases whole with
      | nil => exact absurd rfl hne
      | cons c whole => exact ⟨c, by simp [Numeral.text], Or.inl (h.whole c List.mem_cons_self)⟩

/-- Not in the middle of a run of number characters. -/
def NumberStops (t : List Char) : Prop := ∀ c ∈ t.head?, ¬ IsNumberChar c

theorem parseNumberLoop_eq (n : Nat) (numStr : List Char) (s : Input)
    (h : s.unread.length < n) :
    ∃ s', parseNumberLoop n numStr s = .ok (numStr ++ s.unread.takeWhile IsNumberChar) s' ∧
      s'.unread = s.unread.dropWhile IsNumberChar := by
  induction n generalizing numStr s with
  | zero => omega
  | succ n ih =>
      rw [parseNumberLoop]
      cases hs : s.unread with
      | nil =>
          obtain ⟨s1, h1, -, hback⟩ := getc_nil hs
          rw [bind_of_ok (getc_apply h1)]
          exact ⟨s1.ungetc, by simp [bind_apply, ungetc_apply, pure_apply], by simp [hback]⟩
      | cons c t =>
          obtain ⟨s1, h1, hnext, hback⟩ := getc_cons hs
          rw [bind_of_ok (getc_apply h1)]
          rw [hs, List.length_cons] at h
          by_cases hc : IsNumberChar c
          · obtain ⟨s2, h2, hrest⟩ := ih (numStr ++ [c]) s1 (by rw [hnext]; omega)
            rw [hnext] at h2 hrest
            refine ⟨s2, ?_, by simpa [hc] using hrest⟩
            simpa [hc] using h2
          · refine ⟨s1.ungetc, ?_, by simp [hc, hback]⟩
            simp [hc, bind_apply, ungetc_apply, pure_apply]

theorem parseNumber_eq (s : Input) :
    ∃ s', parseNumber s = .ok (s.unread.takeWhile IsNumberChar) s' ∧
      s'.unread = s.unread.dropWhile IsNumberChar :=
  parseNumberLoop_eq (s.rest.length + 1) [] s (Nat.lt_succ_of_le (unread_length_le s))

theorem startsNumber_takeWhile {t : List Char} (h : StartsNumber t) :
    StartsNumber (t.takeWhile IsNumberChar) := by
  obtain ⟨c, hc, hkind⟩ := h
  refine ⟨c, ?_, hkind⟩
  have hnumber : IsNumberChar c := by
    rcases hkind with hdigit | rfl
    · exact Or.inl hdigit
    · decide
  cases t with
  | nil => simp at hc
  | cons d t =>
      have hcd : d = c := by simpa using hc
      simp [hcd, hnumber]

theorem numberStops_dropWhile (t : List Char) : NumberStops (t.dropWhile IsNumberChar) := by
  intro c hc
  have hnot := List.head?_dropWhile_not (fun c => decide (IsNumberChar c)) t
  simp [Option.mem_def.mp hc] at hnot
  exact hnot

/-! ### Number values -/

theorem parseNumberValue_ok {s : Input} {t u : List Char} {d : ℚ} (ht : Spelling Accepted t d)
    (hu : NumberStops u) (h : s.unread = t ++ u) :
    ∃ s', parseNumberValue s = .ok (.number d) s' ∧ s'.unread = u := by
  obtain ⟨n, hn, rfl, hvalue⟩ := ht
  obtain ⟨s1, h1, hrest⟩ := parseNumber_eq s
  have hall : ∀ c ∈ n.text, decide (IsNumberChar c) = true :=
    fun c hc => decide_eq_true (numberChars_text hn c hc)
  have hstop : u.takeWhile IsNumberChar = [] ∧ u.dropWhile IsNumberChar = u := by
    cases u with
    | nil => simp
    | cons c u =>
        have hc : ¬ IsNumberChar c := hu c (by simp)
        simp [hc]
  rw [h, List.takeWhile_append_of_pos hall, hstop.1, List.append_nil] at h1
  rw [h, List.dropWhile_append_of_pos hall, hstop.2] at hrest
  have hne : n.text ≠ [] := by
    obtain ⟨c, hc, -⟩ := startsNumber_text hn
    intro hnil
    simp [hnil] at hc
  have hstrtod : strtod n.text = (some d, []) := by
    simp only [strtod, takeNumeral_text hn, hvalue]
  refine ⟨s1, ?_, hrest⟩
  rw [parseNumberValue, bind_of_ok h1, if_neg hne, hstrtod]
  rfl

theorem of_parseNumberValue {s s' : Input} {v : Value} (h : parseNumberValue s = .ok v s')
    (hstart : StartsNumber s.unread) :
    ∃ t d, v = .number d ∧ Spelling Accepted t d ∧ s.unread = t ++ s'.unread ∧
      NumberStops s'.unread := by
  rw [parseNumberValue] at h
  obtain ⟨s1, h1, hrest⟩ := parseNumber_eq s
  rw [bind_of_ok h1] at h
  split_ifs at h with hempty hall
  · exact absurd h (by simp [Parser.fail])
  · rw [strtod] at h hall
    cases htake : takeNumeral (s.unread.takeWhile IsNumberChar) with
    | none =>
        simp only [htake] at hall
        exact absurd hall hempty
    | some found =>
        obtain ⟨n, rest⟩ := found
        simp only [htake] at h hall
        subst hall
        obtain ⟨htext, haccepted⟩ := of_takeNumeral htake (startsNumber_takeWhile hstart)
        rw [List.append_nil] at htext
        cases hvalue : BinaryRounding.binary64.nearest n.value with
        | none =>
            simp only [hvalue] at h
            exact absurd h (by simp [Parser.throw])
        | some d =>
            simp only [hvalue] at h
            injection h with hv hs
            subst hs
            refine ⟨n.text, d, hv.symm, ⟨n, haccepted, rfl, hvalue⟩, ?_, ?_⟩
            · rw [← htext, hrest, List.takeWhile_append_dropWhile]
            · rw [hrest]
              exact numberStops_dropWhile s.unread
  · exact absurd h (by simp [Parser.fail])

end JsonNumerals
