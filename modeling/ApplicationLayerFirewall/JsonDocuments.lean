import ApplicationLayerFirewall.JsonSoundness

/-!
# Texts parsed as a whole

`parseText` yields a value exactly when its text starts with one, so standard
JSON documents are understood, a value is not affected by what follows it, and
no text that breaks off inside a value yields one. Numerals are the exception:
the digits of a longer numeral are a numeral.
-/

namespace JsonDocuments

open JsonAcceptance JsonNumerals JsonParser JsonSoundness JsonTexts JsonTokens PicoJson

/-! ### Exactly the texts that start with a value -/

theorem parseText_of_spells {w t u : List Char} {v : Value} {text : String} (hw : Blank w)
    (ht : PicoSpells t v) (hu : Ends v u) (h : text.toList = w ++ (t ++ u)) :
    parseText text = .value v := by
  have hlen : 3 * t.length + 1 ≤ 3 * text.toList.length + 1 := by
    rw [h, List.length_append, List.length_append]
    omega
  have htrim : trimmed (Input.start text.toList).unread = t ++ u := by
    rw [unread_start, h]
    exact trimmed_spells ht hw
  obtain ⟨s', hs, -⟩ := parse_ok ht hlen htrim hu
  simp only [parseText, hs]

theorem spells_of_parseText {text : String} {v : Value} (h : parseText text = .value v) :
    ∃ w t u, text.toList = w ++ (t ++ u) ∧ Blank w ∧ PicoSpells t v ∧ Ends v u := by
  cases hp : parse (3 * text.toList.length + 1) (Input.start text.toList) with
  | ok v' s' =>
      simp only [parseText, hp] at h
      injection h with hv
      subst hv
      obtain ⟨w, t, hw, ht, hunread, hends⟩ := (sound _).value hp
      exact ⟨w, t, s'.unread, hunread, hw, ht, hends⟩
  | failed s' => simp [parseText, hp] at h
  | thrown e => simp [parseText, hp] at h
  | exhausted => simp [parseText, hp] at h

theorem parseText_eq_value_iff (text : String) (v : Value) :
    parseText text = .value v ↔
      ∃ w t u, text.toList = w ++ (t ++ u) ∧ Blank w ∧ PicoSpells t v ∧ Ends v u := by
  constructor
  · exact spells_of_parseText
  · rintro ⟨w, t, u, h, hw, ht, hu⟩
    exact parseText_of_spells hw ht hu h

/-! ### Standard documents -/

section
variable {allowed wider : List Char → ℚ → Prop}

mutual

theorem spells_mono (hwider : ∀ t d, allowed t d → wider t d) :
    ∀ {t : List Char} {v : Value}, Spells allowed t v → Spells wider t v
  | _, _, .null => .null
  | _, _, .true => .true
  | _, _, .false => .false
  | _, _, .number hn => .number (hwider _ _ hn)
  | _, _, .string hs => .string hs
  | _, _, .emptyArray hw => .emptyArray hw
  | _, _, .array hi => .array (items_mono hwider hi)
  | _, _, .emptyObject hw => .emptyObject hw
  | _, _, .object hm => .object (members_mono hwider hm)

theorem items_mono (hwider : ∀ t d, allowed t d → wider t d) :
    ∀ {t : List Char} {vs : List Value}, Items allowed t vs → Items wider t vs
  | _, _, .last hw hv hw' => .last hw (spells_mono hwider hv) hw'
  | _, _, .more hw hv hw' hvs => .more hw (spells_mono hwider hv) hw' (items_mono hwider hvs)

theorem member_mono (hwider : ∀ t d, allowed t d → wider t d) :
    ∀ {t : List Char} {m : String × Value}, Member allowed t m → Member wider t m
  | _, _, .member hw hk hw' hw'' hv => .member hw hk hw' hw'' (spells_mono hwider hv)

theorem members_mono (hwider : ∀ t d, allowed t d → wider t d) :
    ∀ {t : List Char} {ms : List (String × Value)}, Members allowed t ms → Members wider t ms
  | _, _, .last hm hw => .last (member_mono hwider hm) hw
  | _, _, .more hm hw hms => .more (member_mono hwider hm) hw (members_mono hwider hms)

end

end

abbrev StandardSpells := Spells (Spelling Numeral.Standard)

theorem pico_of_standard {t : List Char} {v : Value} (h : StandardSpells t v) : PicoSpells t v :=
  spells_mono (fun _ _ hs => hs.mono fun _ hn => accepted_of_standard hn) h

/-- A standard document, with blanks around its value, has the value the standard gives it. -/
theorem parseText_standard {w t w' : List Char} {v : Value} (hw : Blank w)
    (ht : StandardSpells t v) (hw' : Blank w') :
    parseText (String.ofList (w ++ (t ++ w'))) = .value v := by
  have hends : Ends v w' := by
    intro _
    have hstops := numberStops_blank (t := []) hw' (by simp [NumberStops])
    rwa [List.append_nil] at hstops
  exact parseText_of_spells hw (pico_of_standard ht) hends (String.toList_ofList)

/-! ### Values that were parsed -/

/-- A number is a finite double and an object an ordered map, all the way down. -/
inductive WellFormed : Value → Prop
  | null : WellFormed .null
  | boolean (b : Bool) : WellFormed (.boolean b)
  | number {d : ℚ} (h : BinaryRounding.binary64.Representable d) : WellFormed (.number d)
  | string (s : String) : WellFormed (.string s)
  | array {a : List Value} (h : ∀ v ∈ a, WellFormed v) : WellFormed (.array a)
  | object {o : Fields} (hsorted : SortedMaps.Sorted o) (h : ∀ f ∈ o, WellFormed f.2) :
      WellFormed (.object o)

section
variable {allowed : Numeral → Prop}

mutual

theorem wellFormed_of_spells :
    ∀ {t : List Char} {v : Value}, Spells (Spelling allowed) t v → WellFormed v
  | _, _, .null => .null
  | _, _, .true => .boolean _
  | _, _, .false => .boolean _
  | _, _, .number ⟨_, _, _, hvalue⟩ =>
      .number (BinaryRounding.Format.representable_of_nearest _ hvalue)
  | _, _, .string _ => .string _
  | _, _, .emptyArray _ => .array (by simp)
  | _, _, .array hi => .array (wellFormed_of_items hi)
  | _, _, .emptyObject _ => .object SortedMaps.sorted_nil (by simp)
  | _, _, .object hm => .object (SortedMaps.sorted_ofAssignments _)
      (SortedMaps.forall_mem_ofAssignments (wellFormed_of_members hm))

theorem wellFormed_of_items :
    ∀ {t : List Char} {vs : List Value}, Items (Spelling allowed) t vs → ∀ v ∈ vs, WellFormed v
  | _, _, .last _ hv _ => List.forall_mem_singleton.mpr (wellFormed_of_spells hv)
  | _, _, .more _ hv _ hvs =>
      List.forall_mem_cons.mpr ⟨wellFormed_of_spells hv, wellFormed_of_items hvs⟩

theorem wellFormed_of_member :
    ∀ {t : List Char} {m : String × Value}, Member (Spelling allowed) t m → WellFormed m.2
  | _, _, .member _ _ _ _ hv => wellFormed_of_spells hv

theorem wellFormed_of_members :
    ∀ {t : List Char} {ms : List (String × Value)}, Members (Spelling allowed) t ms →
      ∀ m ∈ ms, WellFormed m.2
  | _, _, .last hm _ => List.forall_mem_singleton.mpr (wellFormed_of_member hm)
  | _, _, .more hm _ hms =>
      List.forall_mem_cons.mpr ⟨wellFormed_of_member hm, wellFormed_of_members hms⟩

end

end

theorem wellFormed_of_parseText {text : String} {v : Value} (h : parseText text = .value v) :
    WellFormed v := by
  obtain ⟨w, t, u, -, -, ht, -⟩ := spells_of_parseText h
  exact wellFormed_of_spells ht

/-! ### Nothing after a value matters, and nothing of it may be missing -/

/-- A text starts with one value at most. -/
theorem spells_unique {t t' u u' : List Char} {v v' : Value} (ht : PicoSpells t v)
    (ht' : PicoSpells t' v') (h : t ++ u = t' ++ u') (hu : Ends v u) (hu' : Ends v' u') :
    v = v' ∧ u = u' := by
  let s := Input.start (t ++ u)
  have htrim : trimmed s.unread = t ++ u := trimmed_spells (w := []) ht blank_nil
  obtain ⟨s1, h1, hrest1⟩ := parse_ok ht (n := 3 * (t ++ u).length + 1)
    (by rw [List.length_append]; omega) htrim hu
  obtain ⟨s2, h2, hrest2⟩ := parse_ok ht' (n := 3 * (t ++ u).length + 1)
    (by rw [h, List.length_append]; omega) (htrim.trans h) hu'
  rw [h1] at h2
  injection h2 with hv hs
  exact ⟨hv, by rw [← hrest1, ← hrest2, hs]⟩

theorem startsNumber_cons {c : Char} {t : List Char} :
    StartsNumber (c :: t) ↔ IsDigit c ∨ c = '-' := by
  simp [StartsNumber]

/-- Only a number starts like a number. -/
theorem isNumber_of_head {t : List Char} {v : Value} (h : PicoSpells t v)
    (hhead : StartsNumber t) : v.isNumber = true := by
  cases h with
  | number hn => rfl
  | _ => exact absurd (startsNumber_cons.mp hhead) (by decide)

theorem startsNumber_of_number {t u : List Char} {v : Value} (h : PicoSpells t v)
    (hv : v.isNumber = true) : StartsNumber (t ++ u) := by
  cases h with
  | number hn =>
      obtain ⟨c, t', rfl, hkind⟩ := spelling_head hn
      exact ⟨c, rfl, hkind⟩
  | _ => exact absurd hv Bool.false_ne_true

/-- The value of a text is not affected by what is appended, unless it is a number. -/
theorem parseText_append {text : String} {v : Value} (h : parseText text = .value v)
    (hv : v.isNumber = false) (more : String) : parseText (text ++ more) = .value v := by
  obtain ⟨w, t, u, htext, hw, ht, -⟩ := spells_of_parseText h
  refine parseText_of_spells hw ht (ends_of_not_number hv (u ++ more.toList)) ?_
  rw [String.toList_append, htext, List.append_assoc, List.append_assoc]

/-- A text that breaks off before its value is complete yields no value at all. -/
theorem parseText_truncated {w t p q : List Char} {v : Value} (hw : Blank w)
    (ht : PicoSpells t v) (hv : v.isNumber = false) (hsplit : w ++ t = p ++ q) (hq : q ≠ [])
    (v' : Value) : parseText (String.ofList p) ≠ .value v' := by
  intro hvalue
  obtain ⟨w', t', u, htext, hw', ht', -⟩ := spells_of_parseText hvalue
  rw [String.toList_ofList] at htext
  have hsame : t = t' ++ (u ++ q) := by
    have htrim := congrArg trimmed hsplit
    rw [htext, List.append_assoc, List.append_assoc, trimmed_spells ht' hw'] at htrim
    have hleft := trimmed_spells (u := []) ht hw
    rw [List.append_nil] at hleft
    rw [← hleft, htrim]
  have hv' : v'.isNumber = false := by
    by_contra hnumber
    have hhead := startsNumber_of_number (u := u ++ q) ht' (Bool.eq_true_of_not_eq_false hnumber)
    rw [← hsame] at hhead
    exact absurd (hv.symm.trans (isNumber_of_head ht hhead)) (by decide)
  obtain ⟨-, hrest⟩ := spells_unique (u := []) ht ht' (by rw [List.append_nil, hsame])
    (ends_of_not_number hv []) (ends_of_not_number hv' (u ++ q))
  exact hq (List.append_eq_nil_iff.mp hrest.symm).2

end JsonDocuments
