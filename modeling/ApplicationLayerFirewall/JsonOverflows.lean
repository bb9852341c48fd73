import ApplicationLayerFirewall.JsonInvariants

/-!
# Numerals beyond the doubles

A numeral that no finite double is near ends the parse by an exception. The
texts on which that happens are those that follow the grammar up to such a
numeral, whatever stands behind it.
-/

namespace JsonOverflows

open JsonAcceptance JsonDocuments JsonInvariants JsonNumerals JsonParser JsonSoundness JsonTexts
open JsonTokens PicoJson

/-! ### Texts that reach such a numeral -/

/-- Taken as a numeral, with no finite double near its value. -/
def Beyond (n : Numeral) : Prop :=
  Accepted n ∧ BinaryRounding.binary64.nearest n.value = none

mutual

/-- The value that starts the text cannot be given because of a numeral in it. The
bodies of arrays and objects start after the bracket, as in the grammar. -/
inductive Overflows : List Char → Prop
  | numeral {n : Numeral} {u : List Char} (hn : Beyond n) (hu : NumberStops u) :
      Overflows (n.text ++ u)
  | array {t : List Char} (h : ItemsOverflow t) : Overflows ('[' :: t)
  | object {t : List Char} (h : MembersOverflow t) : Overflows ('\x7b' :: t)

/-- The elements before the one with the numeral are complete. -/
inductive ItemsOverflow : List Char → Prop
  | here {w t : List Char} (hw : Blank w) (ht : Overflows t) : ItemsOverflow (w ++ t)
  | later {w t w' u : List Char} {v : Value} (hw : Blank w) (ht : PicoSpells t v)
      (hw' : Blank w') (hu : ItemsOverflow u) : ItemsOverflow (w ++ (t ++ (w' ++ ',' :: u)))

/-- The members before the one with the numeral are complete. -/
inductive MembersOverflow : List Char → Prop
  | here {w k key w' w'' t : List Char} (hw : Blank w) (hk : StringBody k key) (hw' : Blank w')
      (hw'' : Blank w'') (ht : Overflows t) :
      MembersOverflow (w ++ '"' :: (k ++ (w' ++ ':' :: (w'' ++ t))))
  | later {t w u : List Char} {m : String × Value} (ht : PicoMember t m) (hw : Blank w)
      (hu : MembersOverflow u) : MembersOverflow (t ++ (w ++ ',' :: u))

end

/-- The whole text, blanks before its value included. -/
def TextOverflows (text : List Char) : Prop := ∃ w t, text = w ++ t ∧ Blank w ∧ Overflows t

theorem itemsOverflow_blank {w t : List Char} (hw : Blank w) (h : ItemsOverflow t) :
    ItemsOverflow (w ++ t) := by
  cases h with
  | here hw1 ht =>
      rw [← List.append_assoc]
      exact .here (blank_append hw hw1) ht
  | later hw1 ht hw2 hu =>
      rw [← List.append_assoc]
      exact .later (blank_append hw hw1) ht hw2 hu

theorem membersOverflow_blank {w t : List Char} (hw : Blank w) (h : MembersOverflow t) :
    MembersOverflow (w ++ t) := by
  cases h with
  | here hw1 hk hw2 hw3 ht =>
      rw [← List.append_assoc]
      exact .here (blank_append hw hw1) hk hw2 hw3 ht
  | later hm hw1 hu =>
      rw [← List.append_assoc]
      exact .later (member_blank hw hm) hw1 hu

/-! ### The exception is thrown on them -/

section
variable {α β : Type}

theorem bind_of_thrown {p : Parser α} {s : Input} {e : Exception} (h : p s = .thrown e)
    (f : α → Parser β) : (p >>= f) s = .thrown e := by
  rw [bind_apply, h]

/-- The exception of a sequence comes from its first part or from its second. -/
theorem thrown_of_bind {p : Parser α} {f : α → Parser β} {s : Input} {e : Exception}
    (h : (p >>= f) s = .thrown e) :
    p s = .thrown e ∨ ∃ a s', p s = .ok a s' ∧ f a s' = .thrown e := by
  rw [bind_apply] at h
  cases hp : p s with
  | ok a s' =>
      rw [hp] at h
      exact Or.inr ⟨a, s', rfl, h⟩
  | failed s' => simp [hp] at h
  | thrown e' =>
      rw [hp] at h
      injection h with he
      exact Or.inl (congrArg Outcome.thrown he)
  | exhausted => simp [hp] at h

end

theorem parseNumberValue_thrown {n : Numeral} (hn : Beyond n) {u : List Char}
    (hu : NumberStops u) {s : Input} (h : s.unread = n.text ++ u) :
    parseNumberValue s = .thrown .overflowError := by
  obtain ⟨haccepted, hnearest⟩ := hn
  obtain ⟨s1, h1, -⟩ := parseNumber_eq s
  have hall : ∀ c ∈ n.text, decide (IsNumberChar c) = true :=
    fun c hc => decide_eq_true (numberChars_text haccepted c hc)
  have hstop : u.takeWhile IsNumberChar = [] := by
    cases u with
    | nil => rfl
    | cons c u =>
        have hc : ¬ IsNumberChar c := hu c (by simp)
        simp [hc]
  rw [h, List.takeWhile_append_of_pos hall, hstop, List.append_nil] at h1
  have hne : n.text ≠ [] := by
    obtain ⟨c, hc, -⟩ := startsNumber_text haccepted
    intro hnil
    simp [hnil] at hc
  have hstrtod : strtod n.text = (none, []) := by
    simp only [strtod, takeNumeral_text haccepted, hnearest]
  rw [parseNumberValue, bind_of_ok h1, if_neg hne, hstrtod]
  rfl

theorem overflows_head {t : List Char} (h : Overflows t) :
    ∃ c t', t = c :: t' ∧ ¬ IsBlank c ∧ c ≠ ']' ∧ c ≠ '\x7d' := by
  cases h with
  | @numeral n u hn hu =>
      obtain ⟨c, hc, hkind⟩ := startsNumber_text hn.1
      obtain ⟨hblank, -, -, -, -, -, -, hsquare, hcurly⟩ := numberHead_other hkind
      cases htext : n.text with
      | nil => simp [htext] at hc
      | cons d t =>
          have hd : d = c := by simpa [htext] using hc
          subst hd
          exact ⟨d, t ++ u, rfl, hblank, hsquare, hcurly⟩
  | array h => exact ⟨_, _, rfl, by decide⟩
  | object h => exact ⟨_, _, rfl, by decide⟩

theorem trimmed_overflows {t w : List Char} (h : Overflows t) (hw : Blank w) :
    trimmed (w ++ t) = t := by
  obtain ⟨c, t', rfl, hc, -⟩ := overflows_head h
  exact trimmed_blank_cons hw hc

theorem itemsOverflow_head {t : List Char} (h : ItemsOverflow t) :
    (trimmed t).head? ≠ some ']' := by
  cases h with
  | here hw ht =>
      obtain ⟨c, t', rfl, hc, hclose, -⟩ := overflows_head ht
      rw [trimmed_blank_cons hw hc]
      exact fun heq => hclose (Option.some.inj heq)
  | later hw hv hw' hu =>
      obtain ⟨c, t', rfl, hc, hclose, -⟩ := spells_head hv
      rw [List.cons_append, trimmed_blank_cons hw hc]
      exact fun heq => hclose (Option.some.inj heq)

theorem membersOverflow_head {t : List Char} (h : MembersOverflow t) :
    (trimmed t).head? ≠ some '\x7d' := by
  cases h with
  | here hw hk hw' hw'' ht =>
      rw [trimmed_blank_cons hw (by decide)]
      exact fun heq => absurd (Option.some.inj heq) (by decide)
  | later hm hw hu =>
      obtain @⟨w1, k, key, w2, w3, t, v, hw1, -, -, -, -⟩ := hm
      simp only [List.append_assoc, List.cons_append]
      rw [trimmed_blank_cons hw1 (by decide)]
      exact fun heq => absurd (Option.some.inj heq) (by decide)

mutual

theorem parse_thrown {t : List Char} (ht : Overflows t) {n : Nat} (hn : 3 * t.length + 1 ≤ n)
    {s : Input} (h : trimmed s.unread = t) : parse n s = .thrown .overflowError := by
  obtain ⟨n, rfl⟩ := Nat.exists_eq_succ_of_ne_zero (show n ≠ 0 by omega)
  cases ht with
  | @numeral num u hnum hu =>
      obtain ⟨c, hc, hkind⟩ := startsNumber_text hnum.1
      obtain ⟨-, hn', hf, ht', hq, hsquare, hcurly, -⟩ := numberHead_other hkind
      have hcons : num.text ++ u = c :: (num.text.tail ++ u) := by
        rw [← List.cons_append]
        exact congrArg (· ++ u) (List.eq_cons_of_mem_head? hc)
      obtain ⟨s1, s2, h1, h2, -, hback⟩ := parse_reads (h.trans hcons)
      have hthrown := parseNumberValue_thrown hnum hu (hback.trans hcons.symm)
      have hany : Option.any (fun c => decide (IsDigit c ∨ c = '-')) (some c) = Bool.true :=
        decide_eq_true hkind
      have hother : ∀ d, c ≠ d → some c ≠ some d := fun d hd h => hd (Option.some.inj h)
      rw [parse, bind_of_ok h1, bind_of_ok h2, if_neg (hother _ hn'), if_neg (hother _ hf),
        if_neg (hother _ ht'), if_neg (hother _ hq), if_neg (hother _ hsquare),
        if_neg (hother _ hcurly), if_pos hany, bind_of_ok (ungetc_apply s2), hthrown]
  | @array t hitems =>
      rw [List.length_cons] at hn
      obtain ⟨n, rfl⟩ := Nat.exists_eq_succ_of_ne_zero (show n ≠ 0 by omega)
      obtain ⟨s1, s2, h1, h2, hnext, -⟩ := parse_reads h
      obtain ⟨s3, h3, hunread⟩ := expect_false (s := s2) (c := ']') (by
        rw [hnext]
        exact itemsOverflow_head hitems)
      have hthrown := parseItems_thrown hitems (n := n) (by omega) (s := s3) (a := [])
        (by rw [hunread, trimmed_trimmed, hnext])
      rw [parse, bind_of_ok h1, bind_of_ok h2, if_neg (by decide), if_neg (by decide),
        if_neg (by decide), if_neg (by decide), if_pos rfl, parseArray, bind_of_ok h3]
      exact hthrown
  | @object t hmembers =>
      rw [List.length_cons] at hn
      obtain ⟨n, rfl⟩ := Nat.exists_eq_succ_of_ne_zero (show n ≠ 0 by omega)
      obtain ⟨s1, s2, h1, h2, hnext, -⟩ := parse_reads h
      obtain ⟨s3, h3, hunread⟩ := expect_false (s := s2) (c := '\x7d') (by
        rw [hnext]
        exact membersOverflow_head hmembers)
      have hthrown := parseMembers_thrown hmembers (n := n) (by omega) (s := s3) (o := [])
        (by rw [hunread, trimmed_trimmed, hnext])
      rw [parse, bind_of_ok h1, bind_of_ok h2, if_neg (by decide), if_neg (by decide),
        if_neg (by decide), if_neg (by decide), if_neg (by decide), if_pos rfl, parseObject,
        bind_of_ok h3]
      exact hthrown

theorem parseItems_thrown {t : List Char} (ht : ItemsOverflow t) {n : Nat}
    (hn : 3 * t.length + 2 ≤ n) {s : Input} {a : List Value}
    (h : trimmed s.unread = trimmed t) : parseItems n a s = .thrown .overflowError := by
  obtain ⟨n, rfl⟩ := Nat.exists_eq_succ_of_ne_zero (show n ≠ 0 by omega)
  cases ht with
  | here hw ht =>
      rw [List.length_append] at hn
      rw [trimmed_overflows ht hw] at h
      rw [parseItems, bind_of_thrown (parse_thrown ht (n := n) (by omega) h)]
  | @later w t w' u v hw hv hw' hu =>
      simp only [List.length_append, List.length_cons] at hn
      rw [trimmed_spells hv hw] at h
      obtain ⟨s1, h1, hnext1⟩ := parse_ok hv (n := n) (by omega) h (ends_blank hw' (by decide))
      have hcomma : trimmed s1.unread = ',' :: u := by
        rw [hnext1]
        exact trimmed_blank_cons hw' (by decide)
      obtain ⟨s2, h2, hnext2⟩ := expect_true hcomma
      have hthrown := parseItems_thrown hu (n := n) (by omega) (s := s2) (a := a ++ [v])
        (congrArg trimmed hnext2)
      rw [parseItems, bind_of_ok h1, bind_of_ok h2, if_pos rfl, hthrown]

theorem parseMembers_thrown {t : List Char} (ht : MembersOverflow t) {n : Nat}
    (hn : 3 * t.length + 2 ≤ n) {s : Input} {o : Fields}
    (h : trimmed s.unread = trimmed t) : parseMembers n o s = .thrown .overflowError := by
  obtain ⟨n, rfl⟩ := Nat.exists_eq_succ_of_ne_zero (show n ≠ 0 by omega)
  cases ht with
  | @here w k key w' w'' t hw hk hw' hw'' ht =>
      simp only [List.length_append, List.length_cons] at hn
      rw [trimmed_blank_cons hw (by decide)] at h
      obtain ⟨s1, h1, hnext1⟩ := expect_true h
      obtain ⟨s2, h2, hnext2⟩ := parseString_ok hk hnext1
      have hcolon : trimmed s2.unread = ':' :: (w'' ++ t) := by
        rw [hnext2]
        exact trimmed_blank_cons hw' (by decide)
      obtain ⟨s3, h3, hnext3⟩ := expect_true hcolon
      have hvalue : trimmed s3.unread = t := by
        rw [hnext3]
        exact trimmed_overflows ht hw''
      rw [parseMembers, bind_of_ok h1, if_pos rfl, bind_of_ok h2, bind_of_ok h3, if_pos rfl,
        bind_of_thrown (parse_thrown ht (n := n) (by omega) hvalue)]
  | @later t w u m hm hw hu =>
      simp only [List.length_append, List.length_cons] at hn
      obtain ⟨key, s1, s2, s3, s4, hkey, h1, h2, h3, h4, hnext4⟩ :=
        member_ok hm (n := n) (by omega) h (ends_blank hw (by decide))
      have hcomma : trimmed s4.unread = ',' :: u := by
        rw [hnext4]
        exact trimmed_blank_cons hw (by decide)
      obtain ⟨s5, h5, hnext5⟩ := expect_true hcomma
      have hthrown := parseMembers_thrown hu (n := n) (by omega)
        (o := SortedMaps.assign m.1 m.2 o) (congrArg trimmed hnext5)
      rw [parseMembers, bind_of_ok h1, if_pos rfl, bind_of_ok h2, bind_of_ok h3, if_pos rfl,
        bind_of_ok h4, bind_of_ok h5, if_pos rfl, hkey, hthrown]

end

/-! ### It is thrown on no others -/

/-- The tokens throw nothing. -/
def Quiet {α : Type} (p : Parser α) : Prop := Keeps (fun _ => True) (fun _ => False) p

theorem stable_true : Stable (fun _ => True) := ⟨fun _ _ => trivial, fun _ _ => trivial⟩

section
variable {α β : Type}

/-- Behind a token, the exception of a sequence comes from its second part. -/
theorem thrown_of_quiet {p : Parser α} {f : α → Parser β} (hp : Quiet p) {s : Input}
    {e : Exception} (h : (p >>= f) s = .thrown e) :
    ∃ a s', p s = .ok a s' ∧ f a s' = .thrown e :=
  (thrown_of_bind h).resolve_left fun hthrown => hp.thrown trivial hthrown

theorem not_thrown {p : Parser α} (hp : Quiet p) {s : Input} {e : Exception} :
    p s ≠ .thrown e := fun h => hp.thrown trivial h

end

theorem quiet_expect (c : Char) : Quiet (expect c) := keeps_expect stable_true c

/-- What one level of the recursion throws on. -/
structure Thrown (n : Nat) : Prop where
  value : ∀ {s : Input} {e : Exception}, parse n s = .thrown e →
    ∃ w t, Blank w ∧ s.unread = w ++ t ∧ Overflows t
  array : ∀ {s : Input} {e : Exception}, parseArray n s = .thrown e → ItemsOverflow s.unread
  object : ∀ {s : Input} {e : Exception}, parseObject n s = .thrown e → MembersOverflow s.unread
  items : ∀ {a : List Value} {s : Input} {e : Exception}, parseItems n a s = .thrown e →
    ItemsOverflow s.unread
  members : ∀ {o : Fields} {s : Input} {e : Exception}, parseMembers n o s = .thrown e →
    MembersOverflow s.unread

theorem thrown_array {n : Nat} (hn : Thrown n) {s : Input} {e : Exception}
    (h : parseArray (n + 1) s = .thrown e) : ItemsOverflow s.unread := by
  rw [parseArray] at h
  obtain ⟨b, s1, h1, h⟩ := thrown_of_quiet (quiet_expect _) h
  cases b with
  | true => exact absurd h (not_thrown (keeps_pure _))
  | false =>
      obtain ⟨w, hw, hunread⟩ := of_expect_false h1
      rw [if_neg (by decide)] at h
      rw [hunread]
      exact itemsOverflow_blank hw (hn.items h)

theorem thrown_object {n : Nat} (hn : Thrown n) {s : Input} {e : Exception}
    (h : parseObject (n + 1) s = .thrown e) : MembersOverflow s.unread := by
  rw [parseObject] at h
  obtain ⟨b, s1, h1, h⟩ := thrown_of_quiet (quiet_expect _) h
  cases b with
  | true => exact absurd h (not_thrown (keeps_pure _))
  | false =>
      obtain ⟨w, hw, hunread⟩ := of_expect_false h1
      rw [if_neg (by decide)] at h
      rw [hunread]
      exact membersOverflow_blank hw (hn.members h)

/-- Behind an element or a member no token throws, so the exception comes from the next one. -/
theorem thrown_behind {c : Char} {next : Parser Value} {v : Value} {s : Input} {e : Exception}
    (h : (expect ',' >>= fun b => if b then next else
      expect c >>= fun b => if b then pure v else Parser.fail) s = .thrown e) :
    ∃ w s', Blank w ∧ s.unread = w ++ ',' :: s'.unread ∧ next s' = .thrown e := by
  obtain ⟨comma, s1, h1, h⟩ := thrown_of_quiet (quiet_expect _) h
  cases comma with
  | true =>
      obtain ⟨w, hw, hunread⟩ := of_expect_true h1
      exact ⟨w, s1, hw, hunread, h⟩
  | false =>
      refine absurd h (not_thrown ?_)
      exact (keeps_expect stable_true _).bind fun _ => (keeps_pure _).ite keeps_fail

theorem thrown_items {n : Nat} (hn : Thrown n) {a : List Value} {s : Input} {e : Exception}
    (h : parseItems (n + 1) a s = .thrown e) : ItemsOverflow s.unread := by
  rw [parseItems] at h
  rcases thrown_of_bind h with h | ⟨item, s1, h1, h⟩
  · obtain ⟨w, t, hw, hunread, ht⟩ := hn.value h
    rw [hunread]
    exact .here hw ht
  · obtain ⟨w, t, hw, ht, hunread, -⟩ := (sound n).value h1
    obtain ⟨w', s2, hw', hcomma, h⟩ := thrown_behind h
    rw [hunread, hcomma]
    exact .later hw ht hw' (hn.items h)

theorem thrown_members {n : Nat} (hn : Thrown n) {o : Fields} {s : Input} {e : Exception}
    (h : parseMembers (n + 1) o s = .thrown e) : MembersOverflow s.unread := by
  rw [parseMembers] at h
  obtain ⟨quote, s1, h1, h⟩ := thrown_of_quiet (quiet_expect _) h
  cases quote with
  | false => exact absurd h (not_thrown keeps_fail)
  | true =>
      obtain ⟨w, hw, hquote⟩ := of_expect_true h1
      rw [if_pos rfl] at h
      obtain ⟨key, s2, h2, h⟩ := thrown_of_quiet (keeps_parseString stable_true) h
      obtain ⟨k, hk, hkey⟩ := of_parseString h2
      obtain ⟨colon, s3, h3, h⟩ := thrown_of_quiet (quiet_expect _) h
      cases colon with
      | false => exact absurd h (not_thrown keeps_fail)
      | true =>
          obtain ⟨w', hw', hcolon⟩ := of_expect_true h3
          rw [if_pos rfl] at h
          rcases thrown_of_bind h with h | ⟨item, s4, h4, h⟩
          · obtain ⟨w2, t, hw2, hunread, ht⟩ := hn.value h
            rw [hquote, hkey, hcolon, hunread]
            exact .here hw hk hw' hw2 ht
          · obtain ⟨w2, t, hw2, ht, hitem, -⟩ := (sound n).value h4
            obtain ⟨w3, s5, hw3, hcomma, h⟩ := thrown_behind h
            have hlater := MembersOverflow.later (Member.member hw hk hw' hw2 ht) hw3 (hn.members h)
            rw [hquote, hkey, hcolon, hitem, hcomma]
            simpa only [List.append_assoc, List.cons_append] using hlater

theorem of_parseNumberValue_thrown {s : Input} {e : Exception}
    (h : parseNumberValue s = .thrown e) (hstart : StartsNumber s.unread) :
    Overflows s.unread := by
  rw [parseNumberValue] at h
  obtain ⟨s1, h1, -⟩ := parseNumber_eq s
  rw [bind_of_ok h1] at h
  split_ifs at h with hempty hall
  · exact absurd h (not_thrown keeps_fail)
  · rw [strtod] at h hall
    cases htake : takeNumeral (s.unread.takeWhile IsNumberChar) with
    | none =>
        simp only [htake] at h
        exact absurd h (not_thrown (keeps_pure _))
    | some found =>
        obtain ⟨n, rest⟩ := found
        simp only [htake] at h hall
        subst hall
        obtain ⟨htext, haccepted⟩ := of_takeNumeral htake (startsNumber_takeWhile hstart)
        cases hvalue : BinaryRounding.binary64.nearest n.value with
        | none =>
            rw [List.append_nil] at htext
            have hover := Overflows.numeral ⟨haccepted, hvalue⟩ (numberStops_dropWhile s.unread)
            rw [← htext, List.takeWhile_append_dropWhile] at hover
            exact hover
        | some d =>
            simp only [hvalue] at h
            exact absurd h (not_thrown (keeps_pure _))
  · exact absurd h (not_thrown keeps_fail)

theorem thrown_value {n : Nat} (hn : Thrown n) {s : Input} {e : Exception}
    (h : parse (n + 1) s = .thrown e) : ∃ w t, Blank w ∧ s.unread = w ++ t ∧ Overflows t := by
  have hliteral : ∀ (pattern : List Char) (v : Value),
      Quiet (matchText pattern >>= fun b => if b then pure v else Parser.fail) :=
    fun pattern v =>
      (keeps_matchText stable_true pattern).bind fun _ => (keeps_pure v).ite keeps_fail
  rw [parse] at h
  obtain ⟨_, s1, h1, h⟩ := thrown_of_quiet (keeps_skipWs stable_true) h
  obtain ⟨w, hw, hblank⟩ := of_skipWs h1
  obtain ⟨ch, s2, h2, h⟩ := thrown_of_quiet (keeps_getc stable_true) h
  refine ⟨w, s1.unread, hw, hblank, ?_⟩
  split_ifs at h with hnull hfalse htrue hquote hsquare hcurly hnumber
  · exact absurd h (not_thrown (hliteral _ _))
  · exact absurd h (not_thrown (hliteral _ _))
  · exact absurd h (not_thrown (hliteral _ _))
  · refine absurd h (not_thrown ?_)
    exact (keeps_parseString stable_true).bind fun _ => keeps_pure _
  · subst hsquare
    rw [(of_getc_some h2).1]
    exact .array (hn.array h)
  · subst hcurly
    rw [(of_getc_some h2).1]
    exact .object (hn.object h)
  · cases ch with
    | none => simp at hnumber
    | some c =>
        obtain ⟨hfirst, hback⟩ := of_getc_some h2
        rw [bind_of_ok (ungetc_apply s2)] at h
        rw [← hback]
        apply of_parseNumberValue_thrown h
        rw [hback, hfirst]
        exact ⟨c, rfl, of_decide_eq_true hnumber⟩
  · exact absurd h (not_thrown (keeps_putBack stable_true keeps_fail))

theorem thrown (n : Nat) : Thrown n := by
  induction n with
  | zero =>
      constructor <;> intros <;> rename_i h <;>
        simp [parse, parseArray, parseObject, parseItems, parseMembers, Parser.exhaust] at h
  | succ n ih =>
      exact ⟨thrown_value ih, thrown_array ih, thrown_object ih, thrown_items ih,
        thrown_members ih⟩

/-! ### Whole texts -/

/-- The exception ends the parse of exactly the texts that reach such a numeral. -/
theorem parseText_thrown_iff (text : String) (e : Exception) :
    parseText text = .thrown e ↔ e = .overflowError ∧ TextOverflows text.toList := by
  constructor
  · intro h
    cases hp : parse (3 * text.toList.length + 1) (Input.start text.toList) with
    | ok v s' => simp [parseText, hp] at h
    | failed s' => simp [parseText, hp] at h
    | thrown e' =>
        have hkept := keepsAll stable_true (E := (· = .overflowError)) rfl
          (3 * text.toList.length + 1)
        simp only [parseText, hp] at h
        injection h with he
        obtain ⟨w, t, hw, hunread, ht⟩ := (thrown _).value hp
        exact ⟨he ▸ hkept.value.thrown trivial hp, w, t, hunread, hw, ht⟩
    | exhausted => simp [parseText, hp] at h
  · rintro ⟨rfl, w, t, htext, hw, ht⟩
    have hlen : 3 * t.length + 1 ≤ 3 * text.toList.length + 1 := by
      rw [htext, List.length_append]
      omega
    have htrim : trimmed (Input.start text.toList).unread = t := by
      rw [unread_start, htext]
      exact trimmed_overflows ht hw
    simp only [parseText, parse_thrown ht hlen htrim]

/-! ### Texts without digits -/

theorem digit_of_accepted {n : Numeral} (h : Accepted n) : ∃ c ∈ n.text, IsDigit c := by
  obtain ⟨negative, whole, fraction, exponent⟩ := n
  rcases h.nonempty with hwhole | hfraction
  · obtain ⟨c, hc⟩ := List.exists_mem_of_ne_nil whole hwhole
    exact ⟨c, by simp [Numeral.text, hc], h.whole c hc⟩
  · cases fraction with
    | none => exact absurd rfl hfraction
    | some digits =>
        obtain ⟨c, hc⟩ := List.exists_mem_of_ne_nil digits hfraction
        exact ⟨c, by simp [Numeral.text, Numeral.fractionText, hc], h.fraction digits rfl c hc⟩

mutual

theorem digit_of_overflows : ∀ {t : List Char}, Overflows t → ∃ c ∈ t, IsDigit c
  | _, .numeral hn _ => by
      obtain ⟨c, hc, hdigit⟩ := digit_of_accepted hn.1
      exact ⟨c, List.mem_append_left _ hc, hdigit⟩
  | _, .array h => by
      obtain ⟨c, hc, hdigit⟩ := digit_of_itemsOverflow h
      exact ⟨c, List.mem_cons_of_mem _ hc, hdigit⟩
  | _, .object h => by
      obtain ⟨c, hc, hdigit⟩ := digit_of_membersOverflow h
      exact ⟨c, List.mem_cons_of_mem _ hc, hdigit⟩

theorem digit_of_itemsOverflow : ∀ {t : List Char}, ItemsOverflow t → ∃ c ∈ t, IsDigit c
  | _, .here _ ht => by
      obtain ⟨c, hc, hdigit⟩ := digit_of_overflows ht
      exact ⟨c, List.mem_append_right _ hc, hdigit⟩
  | _, .later _ _ _ hu => by
      obtain ⟨c, hc, hdigit⟩ := digit_of_itemsOverflow hu
      exact ⟨c, by simp [hc], hdigit⟩

theorem digit_of_membersOverflow : ∀ {t : List Char}, MembersOverflow t → ∃ c ∈ t, IsDigit c
  | _, .here _ _ _ _ ht => by
      obtain ⟨c, hc, hdigit⟩ := digit_of_overflows ht
      exact ⟨c, by simp [hc], hdigit⟩
  | _, .later _ _ hu => by
      obtain ⟨c, hc, hdigit⟩ := digit_of_membersOverflow hu
      exact ⟨c, by simp [hc], hdigit⟩

end

theorem not_textOverflows_of_no_digit {text : List Char} (h : ∀ c ∈ text, ¬ IsDigit c) :
    ¬ TextOverflows text := by
  rintro ⟨w, t, rfl, -, ht⟩
  obtain ⟨c, hc, hdigit⟩ := digit_of_overflows ht
  exact h c (List.mem_append_right w hc) hdigit

end JsonOverflows
