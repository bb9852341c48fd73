import ApplicationLayerFirewall.JsonAcceptance

/-!
# What the parser accepts is in the grammar

A parse that succeeds has taken the text of its value, so the grammar describes
the parser exactly, and a text has one value at most. The bound on the parser's
turns is never what ends a parse.
-/

namespace JsonSoundness

open JsonAcceptance JsonNumerals JsonParser JsonTexts JsonTokens PicoJson

/-! ### Blanks in front -/

theorem blank_append {w w' : List Char} (hw : Blank w) (hw' : Blank w') : Blank (w ++ w') :=
  fun c hc => (List.mem_append.mp hc).elim (hw c) (hw' c)

theorem items_blank {w t : List Char} {vs : List Value} (hw : Blank w) (h : PicoItems t vs) :
    PicoItems (w ++ t) vs := by
  cases h with
  | last hw1 hv hw2 =>
      rw [← List.append_assoc]
      exact Items.last (blank_append hw hw1) hv hw2
  | more hw1 hv hw2 hvs =>
      rw [← List.append_assoc]
      exact Items.more (blank_append hw hw1) hv hw2 hvs

theorem member_blank {w t : List Char} {m : String × Value} (hw : Blank w) (h : PicoMember t m) :
    PicoMember (w ++ t) m := by
  cases h with
  | member hw1 hk hw2 hw3 hv =>
      rw [← List.append_assoc]
      exact Member.member (blank_append hw hw1) hk hw2 hw3 hv

theorem members_blank {w t : List Char} {ms : List (String × Value)} (hw : Blank w)
    (h : PicoMembers t ms) : PicoMembers (w ++ t) ms := by
  cases h with
  | last hm hw1 =>
      rw [← List.append_assoc]
      exact Members.last (member_blank hw hm) hw1
  | more hm hw1 hms =>
      rw [← List.append_assoc]
      exact Members.more (member_blank hw hm) hw1 hms

/-! ### One level of the recursion -/

/-- What one level of the recursion is known to accept. A numeral has come to its end. -/
structure Sound (n : Nat) : Prop where
  value : ∀ {s s' : Input} {v : Value}, parse n s = .ok v s' →
    ∃ w t, Blank w ∧ PicoSpells t v ∧ s.unread = w ++ (t ++ s'.unread) ∧ Ends v s'.unread
  array : ∀ {s s' : Input} {v : Value}, parseArray n s = .ok v s' →
    ∃ t, PicoSpells ('[' :: t) v ∧ s.unread = t ++ s'.unread ∧ v.isNumber = false
  object : ∀ {s s' : Input} {v : Value}, parseObject n s = .ok v s' →
    ∃ t, PicoSpells ('\x7b' :: t) v ∧ s.unread = t ++ s'.unread ∧ v.isNumber = false
  items : ∀ {a : List Value} {s s' : Input} {v : Value}, parseItems n a s = .ok v s' →
    ∃ t vs, PicoItems t vs ∧ s.unread = t ++ s'.unread ∧ v = .array (a ++ vs)
  members : ∀ {o : Fields} {s s' : Input} {v : Value}, parseMembers n o s = .ok v s' →
    ∃ t ms, PicoMembers t ms ∧ s.unread = t ++ s'.unread ∧
      v = .object (ms.foldl (fun o m => SortedMaps.assign m.1 m.2 o) o)

theorem ends_of_not_number {v : Value} (h : v.isNumber = false) (u : List Char) : Ends v u :=
  fun hn => absurd (h.symm.trans hn) (by decide)

theorem sound_array {n : Nat} (hn : Sound n) {s s' : Input} {v : Value}
    (h : parseArray (n + 1) s = .ok v s') :
    ∃ t, PicoSpells ('[' :: t) v ∧ s.unread = t ++ s'.unread ∧ v.isNumber = false := by
  rw [parseArray] at h
  obtain ⟨b, s1, h1, h⟩ := ok_of_bind h
  cases b with
  | true =>
      obtain ⟨w, hw, hunread⟩ := of_expect_true h1
      rw [if_pos rfl] at h
      injection h with hv hs
      subst hv hs
      exact ⟨_, Spells.emptyArray hw, by rw [hunread, List.append_assoc]; rfl, rfl⟩
  | false =>
      obtain ⟨w, hw, hunread⟩ := of_expect_false h1
      rw [if_neg (by decide)] at h
      obtain ⟨t, vs, ht, hrest, rfl⟩ := hn.items h
      refine ⟨_, Spells.array (items_blank hw ht), ?_, rfl⟩
      rw [hunread, hrest, List.append_assoc]

theorem sound_object {n : Nat} (hn : Sound n) {s s' : Input} {v : Value}
    (h : parseObject (n + 1) s = .ok v s') :
    ∃ t, PicoSpells ('\x7b' :: t) v ∧ s.unread = t ++ s'.unread ∧ v.isNumber = false := by
  rw [parseObject] at h
  obtain ⟨b, s1, h1, h⟩ := ok_of_bind h
  cases b with
  | true =>
      obtain ⟨w, hw, hunread⟩ := of_expect_true h1
      rw [if_pos rfl] at h
      injection h with hv hs
      subst hv hs
      exact ⟨_, Spells.emptyObject hw, by rw [hunread, List.append_assoc]; rfl, rfl⟩
  | false =>
      obtain ⟨w, hw, hunread⟩ := of_expect_false h1
      rw [if_neg (by decide)] at h
      obtain ⟨t, ms, ht, hrest, rfl⟩ := hn.members h
      refine ⟨_, Spells.object (members_blank hw ht), ?_, rfl⟩
      rw [hunread, hrest, List.append_assoc]

theorem sound_items {n : Nat} (hn : Sound n) {a : List Value} {s s' : Input} {v : Value}
    (h : parseItems (n + 1) a s = .ok v s') :
    ∃ t vs, PicoItems t vs ∧ s.unread = t ++ s'.unread ∧ v = .array (a ++ vs) := by
  rw [parseItems] at h
  obtain ⟨item, s1, h1, h⟩ := ok_of_bind h
  obtain ⟨w, t, hw, ht, hunread, -⟩ := hn.value h1
  obtain ⟨comma, s2, h2, h⟩ := ok_of_bind h
  cases comma with
  | true =>
      obtain ⟨w', hw', hcomma⟩ := of_expect_true h2
      rw [if_pos rfl] at h
      obtain ⟨t', vs, hvs, hrest, rfl⟩ := hn.items h
      refine ⟨_, _, Items.more hw ht hw' hvs, ?_, ?_⟩
      · rw [hunread, hcomma, hrest]
        simp only [List.append_assoc, List.cons_append]
      · rw [List.append_assoc, List.singleton_append]
  | false =>
      obtain ⟨w', hw', hcomma⟩ := of_expect_false h2
      rw [if_neg (by decide)] at h
      obtain ⟨close, s3, h3, h⟩ := ok_of_bind h
      cases close with
      | true =>
          obtain ⟨w2, hw2, hclose⟩ := of_expect_true h3
          rw [if_pos rfl] at h
          injection h with hv hs
          subst hv hs
          refine ⟨_, _, Items.last hw ht (blank_append hw' hw2), ?_, rfl⟩
          rw [hunread, hcomma, hclose]
          simp only [List.append_assoc, List.singleton_append]
      | false => exact absurd h (by simp [Parser.fail])

theorem sound_members {n : Nat} (hn : Sound n) {o : Fields} {s s' : Input} {v : Value}
    (h : parseMembers (n + 1) o s = .ok v s') :
    ∃ t ms, PicoMembers t ms ∧ s.unread = t ++ s'.unread ∧
      v = .object (ms.foldl (fun o m => SortedMaps.assign m.1 m.2 o) o) := by
  rw [parseMembers] at h
  obtain ⟨quote, s1, h1, h⟩ := ok_of_bind h
  cases quote with
  | false => exact absurd h (by simp [Parser.fail])
  | true =>
      obtain ⟨w, hw, hquote⟩ := of_expect_true h1
      rw [if_pos rfl] at h
      obtain ⟨key, s2, h2, h⟩ := ok_of_bind h
      obtain ⟨k, hk, hkey⟩ := of_parseString h2
      obtain ⟨colon, s3, h3, h⟩ := ok_of_bind h
      cases colon with
      | false => exact absurd h (by simp [Parser.fail])
      | true =>
          obtain ⟨w', hw', hcolon⟩ := of_expect_true h3
          rw [if_pos rfl] at h
          obtain ⟨item, s4, h4, h⟩ := ok_of_bind h
          obtain ⟨w2, t, hw2, ht, hitem, -⟩ := hn.value h4
          have hmember := Member.member hw hk hw' hw2 ht
          obtain ⟨comma, s5, h5, h⟩ := ok_of_bind h
          cases comma with
          | true =>
              obtain ⟨w3, hw3, hcomma⟩ := of_expect_true h5
              rw [if_pos rfl] at h
              obtain ⟨t', ms, hms, hrest, rfl⟩ := hn.members h
              refine ⟨_, _, Members.more hmember hw3 hms, ?_, rfl⟩
              rw [hquote, hkey, hcolon, hitem, hcomma, hrest]
              simp only [List.append_assoc, List.cons_append]
          | false =>
              obtain ⟨w3, hw3, hcomma⟩ := of_expect_false h5
              rw [if_neg (by decide)] at h
              obtain ⟨close, s6, h6, h⟩ := ok_of_bind h
              cases close with
              | true =>
                  obtain ⟨w4, hw4, hclose⟩ := of_expect_true h6
                  rw [if_pos rfl] at h
                  injection h with hv hs
                  subst hv hs
                  refine ⟨_, _, Members.last hmember (blank_append hw3 hw4), ?_, rfl⟩
                  rw [hquote, hkey, hcolon, hitem, hcomma, hclose]
                  simp only [List.append_assoc, List.cons_append, List.nil_append]
              | false => exact absurd h (by simp [Parser.fail])

theorem of_literal {pattern : List Char} {v v' : Value} {s s' : Input}
    (h : (matchText pattern >>= fun b => if b then pure v else Parser.fail) s = .ok v' s') :
    v' = v ∧ s.unread = pattern ++ s'.unread := by
  obtain ⟨b, s1, h1, h⟩ := ok_of_bind h
  cases b with
  | true =>
      rw [if_pos rfl] at h
      injection h with hv hs
      subst hs
      exact ⟨hv.symm, of_matchText_true h1⟩
  | false => exact absurd h (by simp [Parser.fail])

theorem sound_value {n : Nat} (hn : Sound n) {s s' : Input} {v : Value}
    (h : parse (n + 1) s = .ok v s') :
    ∃ w t, Blank w ∧ PicoSpells t v ∧ s.unread = w ++ (t ++ s'.unread) ∧ Ends v s'.unread := by
  rw [parse] at h
  obtain ⟨_, s1, h1, h⟩ := ok_of_bind h
  obtain ⟨w, hw, hblank⟩ := of_skipWs h1
  obtain ⟨ch, s2, h2, h⟩ := ok_of_bind h
  -- whichever case it is, the text before it is the blanks
  suffices hgoal : ∃ t, PicoSpells t v ∧ s1.unread = t ++ s'.unread ∧ Ends v s'.unread by
    obtain ⟨t, ht, hunread, hends⟩ := hgoal
    exact ⟨w, t, hw, ht, by rw [hblank, hunread], hends⟩
  split_ifs at h with hnull hfalse htrue hquote hsquare hcurly hnumber
  · subst hnull
    obtain ⟨rfl, hrest⟩ := of_literal h
    refine ⟨_, Spells.null, ?_, ends_of_not_number rfl _⟩
    rw [(of_getc_some h2).1, hrest]
    rfl
  · subst hfalse
    obtain ⟨rfl, hrest⟩ := of_literal h
    refine ⟨_, Spells.false, ?_, ends_of_not_number rfl _⟩
    rw [(of_getc_some h2).1, hrest]
    rfl
  · subst htrue
    obtain ⟨rfl, hrest⟩ := of_literal h
    refine ⟨_, Spells.true, ?_, ends_of_not_number rfl _⟩
    rw [(of_getc_some h2).1, hrest]
    rfl
  · subst hquote
    obtain ⟨body, s3, h3, h⟩ := ok_of_bind h
    obtain ⟨t, ht, hrest⟩ := of_parseString h3
    injection h with hv hs
    subst hv hs
    refine ⟨_, Spells.string ht, ?_, ends_of_not_number rfl _⟩
    rw [(of_getc_some h2).1, hrest, List.cons_append]
  · subst hsquare
    obtain ⟨t, ht, hrest, hkind⟩ := hn.array h
    refine ⟨_, ht, ?_, ends_of_not_number hkind _⟩
    rw [(of_getc_some h2).1, hrest, List.cons_append]
  · subst hcurly
    obtain ⟨t, ht, hrest, hkind⟩ := hn.object h
    refine ⟨_, ht, ?_, ends_of_not_number hkind _⟩
    rw [(of_getc_some h2).1, hrest, List.cons_append]
  · cases ch with
    | none => simp at hnumber
    | some c =>
        obtain ⟨hfirst, hback⟩ := of_getc_some h2
        rw [bind_of_ok (ungetc_apply s2)] at h
        have hstart : StartsNumber s2.ungetc.unread := by
          rw [hback, hfirst]
          exact ⟨c, rfl, of_decide_eq_true hnumber⟩
        obtain ⟨t, d, rfl, ht, hrest, hstops⟩ := of_parseNumberValue h hstart
        exact ⟨t, Spells.number ht, by rw [← hback, hrest], fun _ => hstops⟩
  · exact absurd h (by simp [bind_apply, ungetc_apply, Parser.fail])

theorem sound (n : Nat) : Sound n := by
  induction n with
  | zero =>
      constructor <;> intros <;> rename_i h <;>
        simp [parse, parseArray, parseObject, parseItems, parseMembers, Parser.exhaust] at h
  | succ n ih =>
      exact ⟨sound_value ih, sound_array ih, sound_object ih, sound_items ih, sound_members ih⟩

/-! ### Enough turns -/

section
variable {α β : Type}

theorem bind_ne_exhausted {p : Parser α} {f : α → Parser β} {s : Input}
    (hp : p s ≠ .exhausted) (hf : ∀ a s', p s = .ok a s' → f a s' ≠ .exhausted) :
    (p >>= f) s ≠ .exhausted := by
  rw [bind_apply]
  cases h : p s with
  | ok a s' => exact hf a s' h
  | failed s' => simp
  | thrown e => simp
  | exhausted => exact absurd h hp

/-- The parser's own loops stay within their bounds. -/
def Finishes (p : Parser α) : Prop := ∀ s, p s ≠ .exhausted

theorem Finishes.bind {p : Parser α} {f : α → Parser β} (hp : Finishes p)
    (hf : ∀ a, Finishes (f a)) : Finishes (p >>= f) :=
  fun s => bind_ne_exhausted (hp s) fun a s' _ => hf a s'

theorem Finishes.ite {c : Prop} [Decidable c] {p q : Parser α} (hp : Finishes p)
    (hq : Finishes q) : Finishes (if c then p else q) := by
  split_ifs
  · exact hp
  · exact hq

theorem finishes_pure (a : α) : Finishes (pure a : Parser α) := fun s => by simp [pure_apply]

theorem finishes_fail : Finishes (Parser.fail : Parser α) := fun s => by simp [Parser.fail]

theorem finishes_getc : Finishes Parser.getc := fun s => by simp [Parser.getc]

theorem finishes_ungetc : Finishes Parser.ungetc := fun s => by simp [Parser.ungetc]

end

theorem finishes_putBack {α : Type} {p : Parser α} (hp : Finishes p) :
    Finishes (Parser.ungetc >>= fun _ => p) :=
  finishes_ungetc.bind fun _ => hp

theorem finishes_expect (c : Char) : Finishes (expect c) := by
  intro s
  obtain ⟨s', h, -⟩ := expect_eq c s
  simp [h]

theorem finishes_matchText (pattern : List Char) : Finishes (matchText pattern) := by
  induction pattern with
  | nil => exact finishes_pure Bool.true
  | cons c pattern ih =>
      rw [matchText]
      exact finishes_getc.bind fun _ => ih.ite (finishes_putBack (finishes_pure _))

theorem finishes_parseQuadhexLoop (i n : Nat) : Finishes (parseQuadhexLoop i n) := by
  induction i generalizing n with
  | zero => exact finishes_pure (some n)
  | succ i ih =>
      rw [parseQuadhexLoop]
      refine finishes_getc.bind fun ch => ?_
      cases ch with
      | none => exact finishes_pure _
      | some c =>
          cases hc : hexValue c with
          | none =>
              simp only [hc]
              exact finishes_putBack (finishes_pure _)
          | some hex =>
              simp only [hc]
              exact ih (n * 16 + hex)

theorem finishes_parseLowSurrogate (n : Nat) : Finishes (parseLowSurrogate n) := by
  have hback : Finishes (Parser.ungetc >>= fun _ => (Parser.fail : Parser Nat)) :=
    finishes_putBack finishes_fail
  rw [parseLowSurrogate]
  refine finishes_getc.bind fun _ => Finishes.ite (finishes_getc.bind fun _ => Finishes.ite
    ((finishes_parseQuadhexLoop 4 0).bind fun second => ?_) hback) hback
  cases second with
  | none => exact finishes_fail
  | some low => exact (finishes_pure _).ite finishes_fail

theorem finishes_parseCodepoint (out : List Char) : Finishes (parseCodepoint out) := by
  rw [parseCodepoint]
  refine (finishes_parseQuadhexLoop 4 0).bind fun first => ?_
  cases first with
  | none => exact finishes_fail
  | some n =>
      exact (finishes_fail.ite ((finishes_parseLowSurrogate n).bind fun _ => finishes_pure _)).ite
        (finishes_pure _)

theorem parseStringLoop_ne_exhausted {n : Nat} {out : List Char} {s : Input}
    (h : s.unread.length < n) : parseStringLoop n out s ≠ .exhausted := by
  induction n generalizing out s with
  | zero => omega
  | succ n ih =>
      rw [parseStringLoop]
      refine bind_ne_exhausted (finishes_getc s) fun ch s1 h1 => ?_
      cases ch with
      | none => exact finishes_putBack finishes_fail s1
      | some c =>
          have hlen := congrArg List.length (of_getc_some h1).1
          rw [List.length_cons] at hlen
          simp only
          split_ifs
          · exact finishes_putBack finishes_fail s1
          · exact finishes_pure out s1
          · refine bind_ne_exhausted (finishes_getc s1) fun ch s2 h2 => ?_
            cases ch with
            | none => exact finishes_fail s2
            | some e =>
                have hlen2 := congrArg List.length (of_getc_some h2).1
                rw [List.length_cons] at hlen2
                simp only
                cases escapes.lookup e with
                | some d => exact ih (by omega)
                | none =>
                    simp only
                    split_ifs
                    · refine bind_ne_exhausted (finishes_parseCodepoint out s2) fun out' s3 h3 => ?_
                      obtain ⟨u, d, -, hunread, -⟩ := of_parseCodepoint h3
                      have hlen3 := congrArg List.length hunread
                      rw [List.length_append] at hlen3
                      exact ih (by omega)
                    · exact finishes_fail s2
          · exact ih (by omega)

theorem finishes_parseString : Finishes parseString :=
  fun s => parseStringLoop_ne_exhausted (Nat.lt_succ_of_le (unread_length_le s))

theorem finishes_parseNumberValue : Finishes parseNumberValue := by
  have hnumber : Finishes parseNumber := by
    intro s
    obtain ⟨s', h, -⟩ := parseNumber_eq s
    simp [h]
  refine hnumber.bind fun numStr => finishes_fail.ite (Finishes.ite ?_ finishes_fail)
  cases (strtod numStr).1 with
  | none => exact fun s => by simp [Parser.throw]
  | some d => exact finishes_pure _

/-- With the turns that `parseText` allows, the bound is never what ends the parse. -/
structure Ample (n : Nat) : Prop where
  value : ∀ s : Input, 3 * s.unread.length + 1 ≤ n → parse n s ≠ .exhausted
  array : ∀ s : Input, 3 * s.unread.length + 3 ≤ n → parseArray n s ≠ .exhausted
  object : ∀ s : Input, 3 * s.unread.length + 3 ≤ n → parseObject n s ≠ .exhausted
  items : ∀ (a : List Value) (s : Input), 3 * s.unread.length + 2 ≤ n →
    parseItems n a s ≠ .exhausted
  members : ∀ (o : Fields) (s : Input), 3 * s.unread.length + 2 ≤ n →
    parseMembers n o s ≠ .exhausted

/-- Reading takes nothing away from what was unread but its front. -/
theorem length_of_append {s s' : Input} {t : List Char} (h : s.unread = t ++ s'.unread) :
    s'.unread.length ≤ s.unread.length := by
  rw [h, List.length_append]
  omega

theorem length_of_parse {n : Nat} {s s' : Input} {v : Value} (h : parse n s = .ok v s') :
    s'.unread.length < s.unread.length := by
  obtain ⟨w, t, -, ht, hunread, -⟩ := (sound n).value h
  obtain ⟨c, t', rfl, -⟩ := spells_head ht
  rw [hunread, List.length_append, List.length_append, List.length_cons]
  omega

theorem length_of_expect {c : Char} {b : Bool} {s s' : Input} (h : expect c s = .ok b s') :
    s'.unread.length ≤ s.unread.length := by
  cases b with
  | true =>
      obtain ⟨w, -, hunread⟩ := of_expect_true h
      rw [hunread, List.length_append, List.length_cons]
      omega
  | false =>
      obtain ⟨w, -, hunread⟩ := of_expect_false h
      exact length_of_append hunread

theorem ample_value {n : Nat} (hn : Ample n) (s : Input) (h : 3 * s.unread.length + 1 ≤ n + 1) :
    parse (n + 1) s ≠ .exhausted := by
  rw [parse]
  have hskip : Finishes skipWs := fun s => by simp [skipWs]
  refine bind_ne_exhausted (hskip s) fun _ s1 h1 => ?_
  obtain ⟨w, -, hblank⟩ := of_skipWs h1
  have hlen1 := length_of_append hblank
  refine bind_ne_exhausted (finishes_getc s1) fun ch s2 h2 => ?_
  have hliteral : ∀ (pattern : List Char) (v : Value),
      Finishes (matchText pattern >>= fun b => if b then pure v else Parser.fail) :=
    fun pattern v => (finishes_matchText pattern).bind fun _ => (finishes_pure v).ite finishes_fail
  split_ifs with hnull hfalse htrue hquote hsquare hcurly hnumber
  · exact hliteral _ _ s2
  · exact hliteral _ _ s2
  · exact hliteral _ _ s2
  · exact (finishes_parseString.bind fun _ => finishes_pure _) s2
  · subst hsquare
    have hlen2 := congrArg List.length (of_getc_some h2).1
    rw [List.length_cons] at hlen2
    exact hn.array s2 (by omega)
  · subst hcurly
    have hlen2 := congrArg List.length (of_getc_some h2).1
    rw [List.length_cons] at hlen2
    exact hn.object s2 (by omega)
  · exact finishes_putBack finishes_parseNumberValue s2
  · exact finishes_putBack finishes_fail s2

theorem ample (n : Nat) : Ample n := by
  induction n with
  | zero => constructor <;> intros <;> omega
  | succ n ih =>
      refine ⟨ample_value ih, fun s h => ?_, fun s h => ?_, fun a s h => ?_, fun o s h => ?_⟩
      · rw [parseArray]
        refine bind_ne_exhausted (finishes_expect _ s) fun b s1 h1 => ?_
        have hlen := length_of_expect h1
        split_ifs
        · exact finishes_pure _ s1
        · exact ih.items [] s1 (by omega)
      · rw [parseObject]
        refine bind_ne_exhausted (finishes_expect _ s) fun b s1 h1 => ?_
        have hlen := length_of_expect h1
        split_ifs
        · exact finishes_pure _ s1
        · exact ih.members [] s1 (by omega)
      · rw [parseItems]
        refine bind_ne_exhausted (ih.value s (by omega)) fun item s1 h1 => ?_
        have hlen1 := length_of_parse h1
        refine bind_ne_exhausted (finishes_expect _ s1) fun comma s2 h2 => ?_
        have hlen2 := length_of_expect h2
        split_ifs
        · exact ih.items _ s2 (by omega)
        · exact ((finishes_expect _).bind fun _ => (finishes_pure _).ite finishes_fail) s2
      · rw [parseMembers]
        refine bind_ne_exhausted (finishes_expect _ s) fun quote s1 h1 => ?_
        have hlen1 := length_of_expect h1
        split_ifs
        swap
        · exact finishes_fail s1
        refine bind_ne_exhausted (finishes_parseString s1) fun key s2 h2 => ?_
        obtain ⟨k, hk, hkey⟩ := of_parseString h2
        have hlen2 := length_of_append hkey
        refine bind_ne_exhausted (finishes_expect _ s2) fun colon s3 h3 => ?_
        have hlen3 := length_of_expect h3
        split_ifs
        swap
        · exact finishes_fail s3
        refine bind_ne_exhausted (ih.value s3 (by omega)) fun item s4 h4 => ?_
        have hlen4 := length_of_parse h4
        refine bind_ne_exhausted (finishes_expect _ s4) fun comma s5 h5 => ?_
        have hlen5 := length_of_expect h5
        split_ifs
        · exact ih.members _ s5 (by omega)
        · exact ((finishes_expect _).bind fun _ => (finishes_pure _).ite finishes_fail) s5

end JsonSoundness
