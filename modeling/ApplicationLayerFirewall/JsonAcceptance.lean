import ApplicationLayerFirewall.JsonNumerals
import Mathlib.Data.List.DropRight

/-!
# Texts of the grammar are accepted

The parser takes a text that spells a value, blanks before it included, off the
front of its input and yields that value. It looks no further, so the value can
be followed by anything that does not continue a numeral.
-/

namespace JsonAcceptance

open JsonNumerals JsonParser JsonTexts JsonTokens PicoJson

abbrev PicoSpells := Spells (Spelling Accepted)
abbrev PicoItems := Items (Spelling Accepted)
abbrev PicoMember := Member (Spelling Accepted)
abbrev PicoMembers := Members (Spelling Accepted)

/-! ### Where a value starts and ends -/

theorem numberStops_blank {w t : List Char} (hw : Blank w) (ht : NumberStops t) :
    NumberStops (w ++ t) := by
  cases w with
  | nil => exact ht
  | cons c w =>
      intro d hd
      have hcd : d = c := by simpa [eq_comm] using hd
      subst hcd
      rcases hw d List.mem_cons_self with rfl | rfl | rfl | rfl <;> decide

/-- What may follow a value: a numeral must be at its end. -/
def Ends (v : Value) (u : List Char) : Prop := v.isNumber = true → NumberStops u

theorem ends_blank {v : Value} {w u : List Char} {c : Char} (hw : Blank w)
    (hc : ¬ IsNumberChar c) : Ends v (w ++ c :: u) := by
  intro _
  apply numberStops_blank hw
  intro d hd
  have hcd : d = c := by simpa [eq_comm] using hd
  rw [hcd]
  exact hc

theorem spelling_head {t : List Char} {d : ℚ} (h : Spelling Accepted t d) :
    ∃ c t', t = c :: t' ∧ (IsDigit c ∨ c = '-') := by
  obtain ⟨n, hn, rfl, -⟩ := h
  obtain ⟨c, hc, hkind⟩ := startsNumber_text hn
  cases htext : n.text with
  | nil => simp [htext] at hc
  | cons d t =>
      have hcd : d = c := by simpa [htext] using hc
      exact ⟨d, t, rfl, hcd ▸ hkind⟩

/-- A numeral's first character is none that starts another kind of value. -/
theorem numberHead_other {c : Char} (h : IsDigit c ∨ c = '-') :
    ¬ IsBlank c ∧ c ≠ 'n' ∧ c ≠ 'f' ∧ c ≠ 't' ∧ c ≠ '"' ∧ c ≠ '[' ∧ c ≠ '\x7b' ∧ c ≠ ']' ∧
      c ≠ '\x7d' := by
  refine ⟨?_, ?_, ?_, ?_, ?_, ?_, ?_, ?_, ?_⟩
  · rintro (rfl | rfl | rfl | rfl) <;> revert h <;> decide
  all_goals
    rintro rfl
    revert h
    decide

/-- A value's text starts with a character that is no blank and closes nothing. -/
theorem spells_head {t : List Char} {v : Value} (h : PicoSpells t v) :
    ∃ c t', t = c :: t' ∧ ¬ IsBlank c ∧ c ≠ ']' ∧ c ≠ '\x7d' := by
  cases h with
  | number hnumber =>
      obtain ⟨c, t', ht, hkind⟩ := spelling_head hnumber
      obtain ⟨hblank, -, -, -, -, -, -, hsquare, hcurly⟩ := numberHead_other hkind
      exact ⟨c, t', ht, hblank, hsquare, hcurly⟩
  | null => exact ⟨_, _, rfl, by decide⟩
  | true => exact ⟨_, _, rfl, by decide⟩
  | false => exact ⟨_, _, rfl, by decide⟩
  | string hs => exact ⟨_, _, rfl, by decide⟩
  | emptyArray hw => exact ⟨_, _, rfl, by decide⟩
  | array hitems => exact ⟨_, _, rfl, by decide⟩
  | emptyObject hw => exact ⟨_, _, rfl, by decide⟩
  | object hmembers => exact ⟨_, _, rfl, by decide⟩

theorem trimmed_spells {t u w : List Char} {v : Value} (h : PicoSpells t v) (hw : Blank w) :
    trimmed (w ++ (t ++ u)) = t ++ u := by
  obtain ⟨c, t', rfl, hc, -⟩ := spells_head h
  exact trimmed_blank_cons hw hc

/-- The parser's first two steps: blanks are skipped and a character is read. -/
theorem parse_reads {s : Input} {t : List Char} {c : Char} (h : trimmed s.unread = c :: t) :
    ∃ s1 s2, skipWs s = .ok () s1 ∧ Parser.getc s1 = .ok (some c) s2 ∧ s2.unread = t ∧
      s2.ungetc.unread = c :: t := by
  obtain ⟨s1, h1, hunread⟩ := skipWs_eq s
  obtain ⟨s2, h2, hnext, hback⟩ := getc_cons (hunread.trans h)
  exact ⟨s1, s2, h1, getc_apply h2, hnext, hback⟩

theorem trimmed_trimmed (t : List Char) : trimmed (trimmed t) = trimmed t := by
  rw [trimmed, trimmed]
  exact List.dropWhile_idempotent _ t

theorem items_head {t u : List Char} {vs : List Value} (h : PicoItems t vs) :
    (trimmed (t ++ u)).head? ≠ some ']' := by
  cases h with
  | last hw hv hw' =>
      obtain ⟨c, t', rfl, hc, hclose, -⟩ := spells_head hv
      simp only [List.append_assoc, List.cons_append]
      rw [trimmed_blank_cons hw hc]
      exact fun heq => hclose (Option.some.inj heq)
  | more hw hv hw' hvs =>
      obtain ⟨c, t', rfl, hc, hclose, -⟩ := spells_head hv
      simp only [List.append_assoc, List.cons_append]
      rw [trimmed_blank_cons hw hc]
      exact fun heq => hclose (Option.some.inj heq)

theorem members_head {t u : List Char} {ms : List (String × Value)} (h : PicoMembers t ms) :
    (trimmed (t ++ u)).head? ≠ some '\x7d' := by
  have hhead : ∀ {t : List Char} {m : String × Value} (u : List Char), PicoMember t m →
      (trimmed (t ++ u)).head? = some '"' := by
    rintro _ _ u ⟨hw, -, -, -, -⟩
    simp only [List.append_assoc, List.cons_append]
    rw [trimmed_blank_cons hw (by decide)]
    rfl
  cases h with
  | last hm hw =>
      rw [List.append_assoc, hhead _ hm]
      decide
  | more hm hw hms =>
      rw [List.append_assoc, hhead _ hm]
      decide

/-! ### The values -/

mutual

theorem parse_ok {t : List Char} {v : Value} (ht : PicoSpells t v) {n : Nat}
    (hn : 3 * t.length + 1 ≤ n) {s : Input} {u : List Char} (h : trimmed s.unread = t ++ u)
    (hu : Ends v u) : ∃ s', parse n s = .ok v s' ∧ s'.unread = u := by
  obtain ⟨n, rfl⟩ := Nat.exists_eq_succ_of_ne_zero (show n ≠ 0 by omega)
  cases ht with
  | null =>
      obtain ⟨s1, s2, h1, h2, hnext, -⟩ := parse_reads h
      obtain ⟨s3, h3, hrest⟩ := matchText_true ['u', 'l', 'l'] hnext
      refine ⟨s3, ?_, hrest⟩
      rw [parse, bind_of_ok h1, bind_of_ok h2, if_pos rfl, bind_of_ok h3]
      rfl
  | true =>
      obtain ⟨s1, s2, h1, h2, hnext, -⟩ := parse_reads h
      obtain ⟨s3, h3, hrest⟩ := matchText_true ['r', 'u', 'e'] hnext
      refine ⟨s3, ?_, hrest⟩
      rw [parse, bind_of_ok h1, bind_of_ok h2, if_neg (by decide), if_neg (by decide),
        if_pos rfl, bind_of_ok h3]
      rfl
  | false =>
      obtain ⟨s1, s2, h1, h2, hnext, -⟩ := parse_reads h
      obtain ⟨s3, h3, hrest⟩ := matchText_true ['a', 'l', 's', 'e'] hnext
      refine ⟨s3, ?_, hrest⟩
      rw [parse, bind_of_ok h1, bind_of_ok h2, if_neg (by decide), if_pos rfl, bind_of_ok h3]
      rfl
  | @number _ d hnumber =>
      obtain ⟨c, t', rfl, hkind⟩ := spelling_head hnumber
      obtain ⟨-, hn', hf, ht', hq, hsquare, hcurly, -⟩ := numberHead_other hkind
      obtain ⟨s1, s2, h1, h2, -, hback⟩ := parse_reads h
      have hunread : s2.ungetc.unread = (c :: t') ++ u := hback
      obtain ⟨s3, h3, hrest⟩ := parseNumberValue_ok hnumber (hu rfl) hunread
      refine ⟨s3, ?_, hrest⟩
      have hany : Option.any (fun c => decide (IsDigit c ∨ c = '-')) (some c) = Bool.true :=
        decide_eq_true hkind
      have hother : ∀ d, c ≠ d → some c ≠ some d := fun d hd h => hd (Option.some.inj h)
      rw [parse, bind_of_ok h1, bind_of_ok h2, if_neg (hother _ hn'), if_neg (hother _ hf),
        if_neg (hother _ ht'), if_neg (hother _ hq), if_neg (hother _ hsquare),
        if_neg (hother _ hcurly), if_pos hany, bind_of_ok (ungetc_apply s2), h3]
  | string hs =>
      obtain ⟨s1, s2, h1, h2, hnext, -⟩ := parse_reads h
      obtain ⟨s3, h3, hrest⟩ := parseString_ok hs hnext
      refine ⟨s3, ?_, hrest⟩
      rw [parse, bind_of_ok h1, bind_of_ok h2, if_neg (by decide), if_neg (by decide),
        if_neg (by decide), if_pos rfl, bind_of_ok h3]
      rfl
  | emptyArray hw =>
      obtain ⟨s1, s2, h1, h2, hnext, -⟩ := parse_reads h
      have hclose : trimmed s2.unread = ']' :: u := by
        rw [hnext, List.append_eq, List.append_assoc]
        exact trimmed_blank_cons hw (by decide)
      obtain ⟨s3, h3, hrest⟩ := expect_true hclose
      obtain ⟨n, rfl⟩ := Nat.exists_eq_succ_of_ne_zero
        (show n ≠ 0 by rw [List.length_cons] at hn; omega)
      refine ⟨s3, ?_, hrest⟩
      rw [parse, bind_of_ok h1, bind_of_ok h2, if_neg (by decide), if_neg (by decide),
        if_neg (by decide), if_neg (by decide), if_pos rfl, parseArray, bind_of_ok h3]
      rfl
  | @array t vs hitems =>
      rw [List.length_cons] at hn
      obtain ⟨n, rfl⟩ := Nat.exists_eq_succ_of_ne_zero (show n ≠ 0 by omega)
      obtain ⟨s1, s2, h1, h2, hnext, -⟩ := parse_reads h
      rw [List.append_eq] at hnext
      obtain ⟨s3, h3, hunread⟩ := expect_false (s := s2) (c := ']') (by
        rw [hnext]
        exact items_head hitems)
      obtain ⟨s4, h4, hrest⟩ := parseItems_ok hitems (n := n) (by omega) (s := s3) (u := u)
        (a := []) (by rw [hunread, trimmed_trimmed, hnext])
      refine ⟨s4, ?_, hrest⟩
      rw [parse, bind_of_ok h1, bind_of_ok h2, if_neg (by decide), if_neg (by decide),
        if_neg (by decide), if_neg (by decide), if_pos rfl, parseArray, bind_of_ok h3]
      exact h4
  | emptyObject hw =>
      obtain ⟨s1, s2, h1, h2, hnext, -⟩ := parse_reads h
      have hclose : trimmed s2.unread = '\x7d' :: u := by
        rw [hnext, List.append_eq, List.append_assoc]
        exact trimmed_blank_cons hw (by decide)
      obtain ⟨s3, h3, hrest⟩ := expect_true hclose
      obtain ⟨n, rfl⟩ := Nat.exists_eq_succ_of_ne_zero
        (show n ≠ 0 by rw [List.length_cons] at hn; omega)
      refine ⟨s3, ?_, hrest⟩
      rw [parse, bind_of_ok h1, bind_of_ok h2, if_neg (by decide), if_neg (by decide),
        if_neg (by decide), if_neg (by decide), if_neg (by decide), if_pos rfl, parseObject,
        bind_of_ok h3]
      rfl
  | @object t members hmembers =>
      rw [List.length_cons] at hn
      obtain ⟨n, rfl⟩ := Nat.exists_eq_succ_of_ne_zero (show n ≠ 0 by omega)
      obtain ⟨s1, s2, h1, h2, hnext, -⟩ := parse_reads h
      rw [List.append_eq] at hnext
      obtain ⟨s3, h3, hunread⟩ := expect_false (s := s2) (c := '\x7d') (by
        rw [hnext]
        exact members_head hmembers)
      obtain ⟨s4, h4, hrest⟩ := parseMembers_ok hmembers (n := n) (by omega) (s := s3) (u := u)
        (o := []) (by rw [hunread, trimmed_trimmed, hnext])
      refine ⟨s4, ?_, hrest⟩
      rw [parse, bind_of_ok h1, bind_of_ok h2, if_neg (by decide), if_neg (by decide),
        if_neg (by decide), if_neg (by decide), if_neg (by decide), if_pos rfl, parseObject,
        bind_of_ok h3]
      exact h4

theorem parseItems_ok {t : List Char} {vs : List Value} (ht : PicoItems t vs) {n : Nat}
    (hn : 3 * t.length ≤ n) {s : Input} {u : List Char} {a : List Value}
    (h : trimmed s.unread = trimmed (t ++ u)) :
    ∃ s', parseItems n a s = .ok (.array (a ++ vs)) s' ∧ s'.unread = u := by
  cases ht with
  | @last w t w' v hw hv hw' =>
      obtain ⟨n, rfl⟩ := Nat.exists_eq_succ_of_ne_zero
        (show n ≠ 0 by simp only [List.length_append, List.length_cons] at hn; omega)
      simp only [List.length_append, List.length_cons, List.length_nil] at hn
      simp only [List.append_assoc, List.singleton_append] at h
      rw [trimmed_spells hv hw] at h
      obtain ⟨s1, h1, hnext1⟩ := parse_ok hv (n := n) (by omega) h (ends_blank hw' (by decide))
      have hclose : trimmed s1.unread = ']' :: u := by
        rw [hnext1]
        exact trimmed_blank_cons hw' (by decide)
      obtain ⟨s2, h2, hnext2⟩ := expect_false (s := s1) (c := ',') (by simp [hclose])
      rw [hclose] at hnext2
      obtain ⟨s3, h3, hrest⟩ := expect_true (s := s2) (c := ']') (t := u) (by
        rw [hnext2]
        exact trimmed_cons (by decide))
      refine ⟨s3, ?_, hrest⟩
      rw [parseItems, bind_of_ok h1, bind_of_ok h2, if_neg (by decide), bind_of_ok h3]
      rfl
  | @more w t w' t' v vs hw hv hw' hvs =>
      obtain ⟨n, rfl⟩ := Nat.exists_eq_succ_of_ne_zero
        (show n ≠ 0 by simp only [List.length_append, List.length_cons] at hn; omega)
      simp only [List.length_append, List.length_cons] at hn
      simp only [List.append_assoc, List.cons_append] at h
      rw [trimmed_spells hv hw] at h
      obtain ⟨s1, h1, hnext1⟩ := parse_ok hv (n := n) (by omega) h (ends_blank hw' (by decide))
      have hcomma : trimmed s1.unread = ',' :: (t' ++ u) := by
        rw [hnext1]
        exact trimmed_blank_cons hw' (by decide)
      obtain ⟨s2, h2, hnext2⟩ := expect_true hcomma
      obtain ⟨s3, h3, hrest⟩ := parseItems_ok hvs (n := n) (by omega) (a := a ++ [v])
        (congrArg trimmed hnext2)
      refine ⟨s3, ?_, hrest⟩
      rw [parseItems, bind_of_ok h1, bind_of_ok h2, if_pos rfl, h3, List.append_assoc,
        List.singleton_append]

/-- The four steps by which `_parse_object` reads one member. -/
theorem member_ok {t : List Char} {m : String × Value} (ht : PicoMember t m) {n : Nat}
    (hn : 3 * t.length + 1 ≤ n) {s : Input} {u : List Char}
    (h : trimmed s.unread = trimmed (t ++ u)) (hu : Ends m.2 u) :
    ∃ key s1 s2 s3 s4, String.ofList key = m.1 ∧ expect '"' s = .ok true s1 ∧
      parseString s1 = .ok key s2 ∧ expect ':' s2 = .ok true s3 ∧ parse n s3 = .ok m.2 s4 ∧
      s4.unread = u := by
  cases ht with
  | @member w k key w' w'' t v hw hk hw' hw'' hv =>
      simp only [List.length_append, List.length_cons] at hn
      simp only [List.append_assoc, List.cons_append] at h
      rw [trimmed_blank_cons hw (by decide)] at h
      obtain ⟨s1, h1, hnext1⟩ := expect_true h
      obtain ⟨s2, h2, hnext2⟩ := parseString_ok hk hnext1
      have hcolon : trimmed s2.unread = ':' :: (w'' ++ (t ++ u)) := by
        rw [hnext2]
        exact trimmed_blank_cons hw' (by decide)
      obtain ⟨s3, h3, hnext3⟩ := expect_true hcolon
      have hvalue : trimmed s3.unread = t ++ u := by
        rw [hnext3]
        exact trimmed_spells hv hw''
      obtain ⟨s4, h4, hrest⟩ := parse_ok hv (n := n) (by omega) hvalue hu
      exact ⟨key, s1, s2, s3, s4, rfl, h1, h2, h3, h4, hrest⟩

theorem parseMembers_ok {t : List Char} {ms : List (String × Value)} (ht : PicoMembers t ms)
    {n : Nat} (hn : 3 * t.length ≤ n) {s : Input} {u : List Char} {o : Fields}
    (h : trimmed s.unread = trimmed (t ++ u)) :
    ∃ s', parseMembers n o s =
      .ok (.object (ms.foldl (fun o m => SortedMaps.assign m.1 m.2 o) o)) s' ∧ s'.unread = u := by
  cases ht with
  | @last t w m hm hw =>
      obtain ⟨n, rfl⟩ := Nat.exists_eq_succ_of_ne_zero
        (show n ≠ 0 by simp only [List.length_append, List.length_cons] at hn; omega)
      simp only [List.length_append, List.length_cons, List.length_nil] at hn
      simp only [List.append_assoc, List.singleton_append] at h
      obtain ⟨key, s1, s2, s3, s4, hkey, h1, h2, h3, h4, hnext4⟩ :=
        member_ok hm (n := n) (by omega) h (ends_blank hw (by decide))
      have hclose : trimmed s4.unread = '\x7d' :: u := by
        rw [hnext4]
        exact trimmed_blank_cons hw (by decide)
      obtain ⟨s5, h5, hnext5⟩ := expect_false (s := s4) (c := ',') (by simp [hclose])
      rw [hclose] at hnext5
      obtain ⟨s6, h6, hrest⟩ := expect_true (s := s5) (c := '\x7d') (t := u) (by
        rw [hnext5]
        exact trimmed_cons (by decide))
      refine ⟨s6, ?_, hrest⟩
      rw [parseMembers, bind_of_ok h1, if_pos rfl, bind_of_ok h2, bind_of_ok h3, if_pos rfl,
        bind_of_ok h4, bind_of_ok h5, if_neg (by decide), bind_of_ok h6, hkey]
      rfl
  | @more t w t' m ms hm hw hms =>
      obtain ⟨n, rfl⟩ := Nat.exists_eq_succ_of_ne_zero
        (show n ≠ 0 by simp only [List.length_append, List.length_cons] at hn; omega)
      simp only [List.length_append, List.length_cons] at hn
      simp only [List.append_assoc, List.cons_append] at h
      obtain ⟨key, s1, s2, s3, s4, hkey, h1, h2, h3, h4, hnext4⟩ :=
        member_ok hm (n := n) (by omega) h (ends_blank hw (by decide))
      have hcomma : trimmed s4.unread = ',' :: (t' ++ u) := by
        rw [hnext4]
        exact trimmed_blank_cons hw (by decide)
      obtain ⟨s5, h5, hnext5⟩ := expect_true hcomma
      obtain ⟨s6, h6, hrest⟩ := parseMembers_ok hms (n := n) (by omega)
        (o := SortedMaps.assign m.1 m.2 o) (congrArg trimmed hnext5)
      refine ⟨s6, ?_, hrest⟩
      rw [parseMembers, bind_of_ok h1, if_pos rfl, bind_of_ok h2, bind_of_ok h3, if_pos rfl,
        bind_of_ok h4, bind_of_ok h5, if_pos rfl, hkey, h6]
      rfl

end

end JsonAcceptance
