import ApplicationLayerFirewall.JsonOverflows

/-!
# What a failed parse reports

A text is refused exactly if it neither starts with a value nor reaches a numeral
beyond the doubles. Wherever the reader stands, its line is one more than the
line breaks it has passed, so the message of a syntax error names the line of
its place and quotes what is left of it. A character that was read but not put
back is neither counted nor quoted.
-/

namespace JsonErrors

open JsonAcceptance JsonDocuments JsonInvariants JsonOverflows JsonParser JsonSoundness JsonTexts
open JsonTokens PicoJson

/-! ### The line of the reader -/

/-- The reader stands in a text, behind as many line breaks as it has counted. -/
def Located (text : List Char) (s : Input) : Prop :=
  ∃ before, text = before ++ s.rest ∧ s.line = 1 + before.count '\n'

theorem located_start (text : List Char) : Located text (Input.start text) := ⟨[], rfl, rfl⟩

/-- Passing the consumed character moves the text and counts it. -/
theorem located_ahead {text : List Char} {s : Input} (h : Located text s) :
    ∃ before, text = before ++ s.unread ∧ s.lineAhead = 1 + before.count '\n' := by
  obtain ⟨before, htext, hline⟩ := h
  rw [Input.unread, Input.lineAhead]
  cases hconsumed : s.consumed with
  | false => exact ⟨before, by simpa using htext, by simpa using hline⟩
  | true =>
      cases hrest : s.rest with
      | nil => exact absurd hrest (s.ahead hconsumed)
      | cons c t =>
          refine ⟨before ++ [c], ?_, ?_⟩
          · rw [htext, hrest, List.append_assoc]
            rfl
          · by_cases hc : c = '\n'
            · simp [hc, hline, Nat.add_assoc]
            · simp [hc, hline]

theorem located_stable (text : List Char) : Stable (Located text) where
  getc := by
    intro s hs
    obtain ⟨before, htext, hline⟩ := located_ahead hs
    rw [Input.getc]
    cases h : s.unread with
    | nil =>
        rw [h] at htext
        exact ⟨before, htext, hline⟩
    | cons c t =>
        rw [h] at htext
        exact ⟨before, htext, hline⟩
  ungetc := fun _ hs => hs

/-- What a message says about a place in the text. -/
def reportAt (before after : List Char) : String :=
  "syntax error at line " ++ toString (1 + before.count '\n') ++ " near: " ++
    String.ofList ((after.takeWhile (· ≠ '\n')).filter (fun c => ' ' ≤ c))

/-- The message of a reader that stands behind `before`. -/
theorem errorText_located {before : List Char} {s : Input}
    (h : Located (before ++ s.rest) s) : errorText s = reportAt before s.unread := by
  obtain ⟨before', htext, hline⟩ := h
  have hbefore : before = before' := List.append_cancel_right htext
  unfold errorText nearText reportAt
  rw [hline, hbefore]

/-! ### The outcome of a text -/

/-- Blanks, a value and anything that does not continue it. -/
def TextSpells (text : List Char) (v : Value) : Prop :=
  ∃ w t u, text = w ++ (t ++ u) ∧ Blank w ∧ PicoSpells t v ∧ Ends v u

theorem parseText_of_textSpells {text : String} {v : Value} (h : TextSpells text.toList v) :
    parseText text = .value v := by
  obtain ⟨w, t, u, htext, hw, ht, hu⟩ := h
  exact parseText_of_spells hw ht hu htext

/-- The reader ends a failed parse of the text behind `before`, with `after` unread. At most
one character was read but not put back. -/
def StopsAt (text before seen after : List Char) : Prop :=
  text = before ++ (seen ++ after) ∧ seen.length ≤ 1 ∧
    ∃ s, parse (3 * text.length + 1) (Input.start text) = .failed s ∧ s.rest = seen ++ after ∧
      s.unread = after

theorem rest_eq_unread (s : Input) : ∃ seen, seen.length ≤ 1 ∧ s.rest = seen ++ s.unread := by
  rw [Input.unread]
  split_ifs
  · exact ⟨s.rest.take 1, List.length_take_le 1 s.rest, by cases s.rest <;> simp⟩
  · exact ⟨[], Nat.zero_le 1, rfl⟩

theorem report_of_failed {text : String} {s : Input}
    (h : parse (3 * text.toList.length + 1) (Input.start text.toList) = .failed s) :
    ∃ before, text.toList = before ++ s.rest ∧
      parseText text = .syntaxError (reportAt before s.unread) := by
  have hkeeps := keepsAll (located_stable text.toList) (E := fun _ => True) trivial
    (3 * text.toList.length + 1)
  have hlocated := hkeeps.value.failed (located_start text.toList) h
  obtain ⟨before, htext, -⟩ := id hlocated
  refine ⟨before, htext, ?_⟩
  simp only [parseText, h]
  rw [errorText_located (htext ▸ hlocated)]

theorem stopsAt_of_refused {text : String} (hvalue : ∀ v, ¬ TextSpells text.toList v)
    (hnumeral : ¬ TextOverflows text.toList) :
    ∃ before seen after, StopsAt text.toList before seen after ∧
      parseText text = .syntaxError (reportAt before after) := by
  have hample := (ample (3 * text.toList.length + 1)).value (Input.start text.toList) (by simp)
  cases hp : parse (3 * text.toList.length + 1) (Input.start text.toList) with
  | ok v s' =>
      have hparsed : parseText text = .value v := by simp only [parseText, hp]
      exact absurd (spells_of_parseText hparsed) (hvalue v)
  | failed s =>
      obtain ⟨before, htext, hreport⟩ := report_of_failed hp
      obtain ⟨seen, hseen, hrest⟩ := rest_eq_unread s
      rw [hrest] at htext
      exact ⟨before, seen, s.unread, ⟨htext, hseen, s, hp, hrest, rfl⟩, hreport⟩
  | thrown e =>
      have hthrown : parseText text = .thrown e := by simp only [parseText, hp]
      exact absurd ((parseText_thrown_iff text e).mp hthrown).2 hnumeral
  | exhausted => exact absurd hp hample

/-- A text is refused unless it starts with a value or reaches a numeral beyond the doubles. -/
theorem parseText_refused_iff (text : String) :
    (∃ err, parseText text = .syntaxError err) ↔
      (∀ v, ¬ TextSpells text.toList v) ∧ ¬ TextOverflows text.toList := by
  constructor
  · rintro ⟨err, herr⟩
    refine ⟨fun v hv => ?_, fun hnumeral => ?_⟩
    · have hvalue := parseText_of_textSpells hv
      exact absurd (herr.symm.trans hvalue) (by simp)
    · have hthrown := (parseText_thrown_iff text .overflowError).mpr ⟨rfl, hnumeral⟩
      exact absurd (herr.symm.trans hthrown) (by simp)
  · rintro ⟨hvalue, hnumeral⟩
    obtain ⟨before, seen, after, -, hreport⟩ := stopsAt_of_refused hvalue hnumeral
    exact ⟨_, hreport⟩

theorem syntaxError_of_no_value {text : String} (hvalue : ∀ v, parseText text ≠ .value v)
    (hnumeral : ¬ TextOverflows text.toList) : ∃ err, parseText text = .syntaxError err :=
  (parseText_refused_iff text).mpr ⟨fun v hv => hvalue v (parseText_of_textSpells hv), hnumeral⟩

/-- The three outcomes of a text: a well-formed value exactly if it starts with one, the
exception exactly if it reaches a numeral beyond the doubles, and otherwise a message about
the place where the reader stopped. -/
theorem parseText_outcome (text : String) :
    (∀ v, parseText text = .value v ↔ TextSpells text.toList v ∧ WellFormed v) ∧
    (∀ e, parseText text = .thrown e ↔ e = .overflowError ∧ TextOverflows text.toList) ∧
    ∀ err, parseText text = .syntaxError err ↔
      (∀ v, ¬ TextSpells text.toList v) ∧ ¬ TextOverflows text.toList ∧
        ∃ before seen after, StopsAt text.toList before seen after ∧
          err = reportAt before after := by
  refine ⟨fun v => ?_, parseText_thrown_iff text, fun err => ⟨fun herr => ?_, ?_⟩⟩
  · constructor
    · intro hvalue
      exact ⟨spells_of_parseText hvalue, wellFormed_of_parseText hvalue⟩
    · rintro ⟨hspells, -⟩
      exact parseText_of_textSpells hspells
  · obtain ⟨hvalue, hnumeral⟩ := (parseText_refused_iff text).mp ⟨err, herr⟩
    obtain ⟨before, seen, after, hstops, hreport⟩ := stopsAt_of_refused hvalue hnumeral
    rw [herr] at hreport
    injection hreport with heq
    exact ⟨hvalue, hnumeral, before, seen, after, hstops, heq⟩
  · rintro ⟨-, -, before, seen, after, ⟨htext, -, s, hp, hrest, rfl⟩, rfl⟩
    obtain ⟨before', htext', hreport⟩ := report_of_failed hp
    have hbefore : before = before' := by
      rw [htext, hrest] at htext'
      exact List.append_cancel_right htext'
    rw [hreport, hbefore]

end JsonErrors
