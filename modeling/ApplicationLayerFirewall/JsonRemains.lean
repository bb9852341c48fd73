import ApplicationLayerFirewall.JsonDocuments

/-!
# What a failed parse leaves behind

The parser writes into the value it was given as it reads, and a failure later
on takes nothing back. A text that breaks off inside an object leaves the
members before the break, and of the member at the break at most a value under
its own name.
-/

namespace JsonRemains

open JsonAcceptance JsonDocuments JsonNumerals JsonParser JsonSoundness JsonTexts JsonTokens
open PicoJson

/-- What `_parse_string` has pushed when it is through. -/
def stringLeft : Nat → List Char → Input → List Char
  | 0, out, _ => out
  | n + 1, out, s =>
      match s.getc with
      | (none, _) => out
      | (some c, s) =>
          if c < ' ' ∨ c = '"' then out
          else if c = '\\' then
            match s.getc with
            | (none, _) => out
            | (some e, s) =>
                match escapes.lookup e with
                | some c => stringLeft n (out ++ [c]) s
                | none =>
                    if e = 'u' then
                      match parseCodepoint out s with
                      | .ok out s => stringLeft n out s
                      | _ => out
                    else out
          else stringLeft n (out ++ [c]) s

mutual

/-- What stands in `*out_` after `_parse`, if `out` stood there before. A literal or a
numeral is written only when it is complete. -/
def left : Nat → Value → Input → Value
  | 0, out, _ => out
  | n + 1, out, s =>
      match parse (n + 1) s with
      | .ok v _ => v
      | _ =>
          match (skipWsLoop (s.rest.length + 1) s).getc with
          | (some '"', s) => .string (String.ofList (stringLeft (s.rest.length + 1) [] s))
          | (some '[', s) => arrayLeft n s
          | (some '\x7b', s) => objectLeft n s
          | _ => out

def arrayLeft : Nat → Input → Value
  | 0, _ => .array []
  | n + 1, s =>
      match expect ']' s with
      | .ok false s => itemsLeft n [] s
      | _ => .array []

/-- An element is there before it is parsed. -/
def itemsLeft : Nat → List Value → Input → Value
  | 0, a, _ => .array a
  | n + 1, a, s =>
      match parse n s with
      | .ok item s =>
          match expect ',' s with
          | .ok true s => itemsLeft n (a ++ [item]) s
          | _ => .array (a ++ [item])
      | _ => .array (a ++ [left n .null s])

def objectLeft : Nat → Input → Value
  | 0, _ => .object []
  | n + 1, s =>
      match expect '\x7d' s with
      | .ok false s => membersLeft n [] s
      | _ => .object []

/-- The value under a name is there once the colon is, and may be an older one. -/
def membersLeft : Nat → Fields → Input → Value
  | 0, o, _ => .object o
  | n + 1, o, s =>
      match expect '"' s with
      | .ok true s =>
          match parseString s with
          | .ok key s =>
              match expect ':' s with
              | .ok true s =>
                  let key := String.ofList key
                  match parse n s with
                  | .ok item s =>
                      match expect ',' s with
                      | .ok true s => membersLeft n (SortedMaps.assign key item o) s
                      | _ => .object (SortedMaps.assign key item o)
                  | _ => .object (SortedMaps.assign key (left n ((o.lookup key).getD .null) s) o)
              | _ => .object o
          | _ => .object o
      | _ => .object o

end

/-- What stands in a null value after a text was parsed into it. -/
def textLeft (text : String) : Value :=
  left (3 * text.toList.length + 1) .null (Input.start text.toList)

theorem itemsLeft_array (n : Nat) (a : List Value) (s : Input) :
    ∃ a', itemsLeft n a s = .array a' := by
  induction n generalizing a s with
  | zero => exact ⟨a, rfl⟩
  | succ n ih =>
      rw [itemsLeft]
      split
      · split
        · exact ih _ _
        · exact ⟨_, rfl⟩
      · exact ⟨_, rfl⟩

theorem arrayLeft_array (n : Nat) (s : Input) : ∃ a, arrayLeft n s = .array a := by
  cases n with
  | zero => exact ⟨[], rfl⟩
  | succ n =>
      rw [arrayLeft]
      split
      · exact itemsLeft_array _ _ _
      · exact ⟨[], rfl⟩

theorem membersLeft_object (n : Nat) (o : Fields) (s : Input) :
    ∃ o', membersLeft n o s = .object o' := by
  induction n generalizing o s with
  | zero => exact ⟨o, rfl⟩
  | succ n ih =>
      rw [membersLeft]
      split
      · split
        · split
          · simp only
            split
            · split
              · exact ih _ _
              · exact ⟨_, rfl⟩
            · exact ⟨_, rfl⟩
          · exact ⟨_, rfl⟩
        · exact ⟨_, rfl⟩
      · exact ⟨_, rfl⟩

theorem objectLeft_object (n : Nat) (s : Input) : ∃ o, objectLeft n s = .object o := by
  cases n with
  | zero => exact ⟨[], rfl⟩
  | succ n =>
      rw [objectLeft]
      split
      · exact membersLeft_object _ _ _
      · exact ⟨[], rfl⟩

/-- Of the texts that spell a value those of objects start with a brace. -/
theorem isObject_iff_head {t : List Char} {v : Value} (h : PicoSpells t v) :
    v.isObject = true ↔ t.head? = some '\x7b' := by
  cases h with
  | number hnumber =>
      obtain ⟨c, t', rfl, hkind⟩ := spelling_head hnumber
      obtain ⟨-, -, -, -, -, -, hcurly, -⟩ := numberHead_other hkind
      simp [Value.isObject, hcurly]
  | _ => simp [Value.isObject]

/-- The failing parse of a value: its first character decides what is left. -/
theorem left_isObject_of_not_ok {n : Nat} {out : Value} {s : Input}
    (h : ∀ v s', parse (n + 1) s ≠ .ok v s') (hout : out.isObject = false) :
    (left (n + 1) out s).isObject = true ↔ (trimmed s.unread).head? = some '\x7b' := by
  have hskip : (skipWsLoop (s.rest.length + 1) s).unread = trimmed s.unread :=
    skipWsLoop_unread _ s (Nat.lt_succ_of_le (unread_length_le s))
  rw [left]
  split
  · rename_i v s' hok
    exact absurd hok (h v s')
  · cases htrim : trimmed s.unread with
    | nil =>
        obtain ⟨s1, h1, -⟩ := getc_nil (hskip.trans htrim)
        simp [h1, hout]
    | cons c t =>
        obtain ⟨s1, h1, -⟩ := getc_cons (hskip.trans htrim)
        rw [h1]
        split
        · rename_i heq
          have hc : c = '"' := Option.some.inj (congrArg Prod.fst heq)
          simp [hc, Value.isObject]
        · rename_i s2 heq
          have hc : c = '[' := Option.some.inj (congrArg Prod.fst heq)
          obtain ⟨a, ha⟩ := arrayLeft_array n s2
          simp [ha, hc, Value.isObject]
        · rename_i s2 heq
          have hc : c = '\x7b' := Option.some.inj (congrArg Prod.fst heq)
          obtain ⟨o, ho⟩ := objectLeft_object n s2
          simp [ho, hc, Value.isObject]
        · rename_i hquote hsquare hcurly
          have hc : c ≠ '\x7b' := fun hc => hcurly s1 (by rw [hc])
          simp [hc, hout]

/-- An object is left exactly by the texts whose first character that is no blank is an
opening brace, whether they are well formed or not. -/
theorem textLeft_isObject_iff (text : String) :
    (textLeft text).isObject = true ↔ (trimmed text.toList).head? = some '\x7b' := by
  rw [textLeft]
  by_cases hok : ∃ v s', parse (3 * text.toList.length + 1) (Input.start text.toList) = .ok v s'
  · obtain ⟨v, s', hparse⟩ := hok
    obtain ⟨w, t, hw, ht, hunread, -⟩ := (sound _).value hparse
    rw [unread_start] at hunread
    simp only [left, hparse]
    rw [isObject_iff_head ht, hunread, trimmed_spells ht hw]
    obtain ⟨c, t', rfl, -⟩ := spells_head ht
    rfl
  · have hnone : ∀ v s', parse (3 * text.toList.length + 1) (Input.start text.toList) ≠ .ok v s' :=
      fun v s' hparse => hok ⟨v, s', hparse⟩
    rw [left_isObject_of_not_ok hnone rfl, unread_start]

/-! ### A text that breaks off -/

/-- A text starts with one string body at most. -/
theorem stringBody_unique {t t' a b u u' : List Char} (h : StringBody t a)
    (h' : StringBody t' b) (heq : t ++ u = t' ++ u') : a = b ∧ u = u' := by
  obtain ⟨s1, h1, hrest1⟩ := parseString_ok (s := Input.start (t ++ u)) h rfl
  obtain ⟨s2, h2, hrest2⟩ := parseString_ok (s := Input.start (t ++ u)) h' heq
  rw [h1] at h2
  injection h2 with hbody hs
  exact ⟨hbody, by rw [← hrest1, ← hrest2, hs]⟩

/-- Members that are each followed by a comma. -/
inductive Listed : List Char → Fields → Prop
  | nil : Listed [] []
  | cons {t w u : List Char} {m : String × Value} {ms : Fields} (ht : PicoMember t m)
      (hw : Blank w) (hu : Listed u ms) : Listed (t ++ (w ++ ',' :: u)) (m :: ms)

/-- The text breaks off in or right behind the member `m`, and has all members before it. -/
structure BreaksAt (cut : List Char) (ms before : Fields) (m : String × Value) : Prop where
  members : ∃ after, ms = before ++ m :: after
  text : ∃ p q r, cut = p ++ q ∧ Listed p before ∧
    ∃ t w, PicoMember t m ∧ Blank w ∧ t ++ w = q ++ r

theorem BreaksAt.cons {cut t w : List Char} {ms before : Fields} {m m' : String × Value}
    (h : BreaksAt cut ms before m) (ht : PicoMember t m') (hw : Blank w) :
    BreaksAt (t ++ (w ++ ',' :: cut)) (m' :: ms) (m' :: before) m := by
  obtain ⟨⟨after, hms⟩, p, q, r, hcut, hlisted, hlast⟩ := h
  refine ⟨⟨after, by rw [hms, List.cons_append]⟩, t ++ (w ++ ',' :: p), q, r, ?_,
    .cons ht hw hlisted, hlast⟩
  rw [hcut]
  simp only [List.append_assoc, List.cons_append]

/-- Two ways to write a text as blanks and a character that is none. -/
theorem eq_of_blank_cons {w w' t t' : List Char} {c c' : Char} (hw : Blank w) (hw' : Blank w')
    (hc : ¬ IsBlank c) (hc' : ¬ IsBlank c') (h : w ++ c :: t = w' ++ c' :: t') : t = t' := by
  have htrim := congrArg trimmed h
  rw [trimmed_blank_cons hw hc, trimmed_blank_cons hw' hc'] at htrim
  exact (List.cons.inj htrim).2

/-- A value that is parsed from a text that breaks off in or right behind it is not followed
by a comma. -/
theorem no_comma_behind {t w w' lost : List Char} {v item : Value} {n : Nat} {s s' s'' : Input}
    (ht : PicoSpells t v) (hw : Blank w) (hw' : Blank w')
    (hsplit : w' ++ (t ++ w) = s.unread ++ lost) (hitem : parse n s = .ok item s') :
    expect ',' s' ≠ .ok true s'' := by
  intro hcomma
  obtain ⟨w1, t', hw1, ht', hunread, -⟩ := (sound n).value hitem
  obtain ⟨w2, hw2, hbehind⟩ := of_expect_true hcomma
  have hboth : w' ++ (t ++ w) = w1 ++ (t' ++ (w2 ++ ',' :: (s''.unread ++ lost))) := by
    rw [hsplit, hunread, hbehind]
    simp only [List.append_assoc, List.cons_append]
  have htrim := congrArg trimmed hboth
  rw [trimmed_spells ht hw', trimmed_spells ht' hw1] at htrim
  have hends : Ends v w := by
    intro _
    have hstops := numberStops_blank (t := []) hw (by simp [NumberStops])
    rwa [List.append_nil] at hstops
  obtain ⟨-, hrest⟩ := spells_unique ht ht' htrim hends (ends_blank hw2 (by decide))
  exact absurd (hw ',' (by rw [hrest]; simp)) (by decide)

/-- Where the text breaks off in a member, no other name than that member's is written. -/
theorem membersLeft_break {t w p r : List Char} {m : String × Value} (ht : PicoMember t m)
    (hw : Blank w) (hsplit : t ++ w = p ++ r) (n : Nat) (o : Fields) {s : Input}
    (hs : trimmed s.unread = trimmed p) :
    membersLeft n o s = .object o ∨
      ∃ v, membersLeft n o s = .object (SortedMaps.assign m.1 v o) := by
  cases n with
  | zero => exact Or.inl rfl
  | succ n =>
  obtain @⟨w1, k, key, w2, w3, t, v, hw1, hk, hw2, hw3, hv⟩ := ht
  obtain ⟨wp, hwp, hp⟩ := exists_blank_append_trimmed p
  obtain ⟨s1, h1, hunread1⟩ := expect_eq '"' s
  by_cases hquote : (trimmed s.unread).head? = some '"'
  swap
  · refine Or.inl ?_
    rw [membersLeft, h1, decide_eq_false hquote]
  rw [decide_eq_true hquote] at h1
  rw [if_pos hquote] at hunread1
  -- the quote is that before the name, so the name is the member's if it is complete
  have hopen : trimmed p = '"' :: s1.unread := by
    rw [← hs, hunread1, List.cons_head?_tail hquote]
  have hname : k ++ (w2 ++ ':' :: (w3 ++ (t ++ w))) = s1.unread ++ r := by
    rw [hp, hopen] at hsplit
    simp only [List.append_assoc, List.cons_append] at hsplit
    exact eq_of_blank_cons hw1 hwp (by decide) (by decide) hsplit
  simp only [membersLeft, h1]
  cases h2 : parseString s1 with
  | ok key' s2 =>
      obtain ⟨k', hk', hunread2⟩ := of_parseString h2
      rw [hunread2, List.append_assoc] at hname
      obtain ⟨rfl, hcolon⟩ := stringBody_unique hk hk' hname
      obtain ⟨s3, h3, -⟩ := expect_eq ':' s2
      cases hb : decide ((trimmed s2.unread).head? = some ':') with
      | false =>
          rw [hb] at h3
          simp only [h3]
          exact Or.inl trivial
      | true =>
          rw [hb] at h3
          obtain ⟨w4, hw4, hunread3⟩ := of_expect_true h3
          rw [hunread3, List.append_assoc, List.cons_append] at hcolon
          have hvalue := eq_of_blank_cons hw2 hw4 (by decide) (by decide) hcolon
          simp only [h3]
          right
          cases h4 : parse n s3 with
          | ok item s4 =>
              simp only
              split
              · rename_i s5 h5
                exact absurd h5 (no_comma_behind hv hw hw3 hvalue h4)
              · exact ⟨item, rfl⟩
          | failed s4 => exact ⟨_, rfl⟩
          | thrown e => exact ⟨_, rfl⟩
          | exhausted => exact ⟨_, rfl⟩
  | failed s2 => exact Or.inl rfl
  | thrown e => exact Or.inl rfl
  | exhausted => exact Or.inl rfl

/-- The members of a text that breaks off: those before the break are there, in their order,
and at most one more name. -/
theorem membersLeft_cut {t : List Char} {ms : Fields} (ht : PicoMembers t ms) {cut lost : List Char}
    (hsplit : t = cut ++ lost) (hlost : lost ≠ []) {n : Nat} (hn : 3 * cut.length ≤ n)
    (o : Fields) {s : Input} (hs : trimmed s.unread = trimmed cut) :
    ∃ before m, BreaksAt cut ms before m ∧
      (membersLeft n o s = .object (before.foldl (fun o m => SortedMaps.assign m.1 m.2 o) o) ∨
        ∃ v, membersLeft n o s = .object (SortedMaps.assign m.1 v
          (before.foldl (fun o m => SortedMaps.assign m.1 m.2 o) o))) := by
  cases ht with
  | @last t w m hm hw =>
      have hbreak : ∃ r, t ++ w = cut ++ r := by
        rw [← List.append_assoc] at hsplit
        rcases List.append_eq_append_iff.mp hsplit with ⟨a, hcut, hclose⟩ | ⟨r, hr, -⟩
        · cases a with
          | nil => exact ⟨[], by simpa using hcut.symm⟩
          | cons c a =>
              have hnil : a ++ lost = [] := (List.cons.inj hclose).2.symm
              exact absurd (List.append_eq_nil_iff.mp hnil).2 hlost
        · exact ⟨r, hr⟩
      obtain ⟨r, hr⟩ := hbreak
      exact ⟨[], m, ⟨⟨[], rfl⟩, [], cut, r, rfl, .nil, t, w, hm, hw, hr⟩,
        membersLeft_break hm hw hr n o hs⟩
  | @more t w u m ms hm hw hms =>
      rw [← List.append_assoc] at hsplit
      rcases List.append_eq_append_iff.mp hsplit with ⟨a, hcut, hcomma⟩ | ⟨r, hr, -⟩
      · cases a with
        | nil =>
            have hr : t ++ w = cut ++ [] := by simpa using hcut.symm
            exact ⟨[], m, ⟨⟨ms, rfl⟩, [], cut, [], rfl, .nil, t, w, hm, hw, hr⟩,
              membersLeft_break hm hw hr n o hs⟩
        | cons c a =>
            obtain ⟨rfl, hu⟩ := List.cons.inj hcomma
            have hlength := congrArg List.length hcut
            simp only [List.length_append, List.length_cons] at hlength
            obtain ⟨n, rfl⟩ := Nat.exists_eq_succ_of_ne_zero (show n ≠ 0 by omega)
            rw [hcut, List.append_assoc] at hs
            obtain ⟨key, s1, s2, s3, s4, hkey, h1, h2, h3, h4, hnext4⟩ :=
              member_ok hm (n := n) (by omega) hs (ends_blank hw (by decide))
            have hbehind : trimmed s4.unread = ',' :: a := by
              rw [hnext4]
              exact trimmed_blank_cons hw (by decide)
            obtain ⟨s5, h5, hnext5⟩ := expect_true hbehind
            obtain ⟨before, m', hbreaks, hleft⟩ := membersLeft_cut hms hu hlost (n := n)
              (by omega) (SortedMaps.assign m.1 m.2 o) (congrArg trimmed hnext5)
            have hcut' : cut = t ++ (w ++ ',' :: a) := by rw [hcut, List.append_assoc]
            refine ⟨m :: before, m', hcut' ▸ hbreaks.cons hm hw, ?_⟩
            have hstep : membersLeft (n + 1) o s =
                membersLeft n (SortedMaps.assign m.1 m.2 o) s5 := by
              simp only [membersLeft, h1, h2, h3, h4, h5, hkey]
            rw [hstep]
            exact hleft
      · exact ⟨[], m, ⟨⟨ms, rfl⟩, [], cut, r, rfl, .nil, t, w, hm, hw, hr⟩,
          membersLeft_break hm hw hr n o hs⟩

theorem head_trimmed_append {cut lost : List Char} {c : Char} (hc : ¬ IsBlank c)
    (h : (trimmed cut).head? = some c) : (trimmed (cut ++ lost)).head? = some c := by
  obtain ⟨w, hw, hcut⟩ := exists_blank_append_trimmed cut
  cases htrim : trimmed cut with
  | nil => simp [htrim] at h
  | cons d t =>
      have hd : d = c := by simpa [htrim] using h
      rw [htrim, hd] at hcut
      rw [hcut, List.append_assoc, List.cons_append, trimmed_blank_cons hw hc]
      rfl

/-- An object text that breaks off leaves an object: the members before the break, the later
of two with one name counting, and of the broken member at most one value. -/
theorem textLeft_cut {w t cut lost : List Char} {ms : Fields} (hw : Blank w)
    (ht : PicoMembers t ms) (hsplit : t = cut ++ lost) (hlost : lost ≠ []) :
    ∃ before m, BreaksAt cut ms before m ∧
      (textLeft (String.ofList (w ++ '\x7b' :: cut)) = .object (SortedMaps.ofAssignments before) ∨
        ∃ v, textLeft (String.ofList (w ++ '\x7b' :: cut)) =
          .object (SortedMaps.assign m.1 v (SortedMaps.ofAssignments before))) := by
  let text := w ++ '\x7b' :: cut
  let s := Input.start text
  have hwhole : w ++ '\x7b' :: t = text ++ lost := by
    simp only [text, hsplit, List.append_assoc, List.cons_append]
  have hnone : ∀ v s', parse (3 * text.length + 1) s ≠ .ok v s' := by
    intro v s' hok
    refine parseText_truncated hw (Spells.object ht) rfl hwhole hlost v ?_
    simp only [parseText, String.toList_ofList, text, s] at hok ⊢
    simp only [hok]
  have htrim : trimmed s.unread = '\x7b' :: cut := trimmed_blank_cons hw (by decide)
  have hskip : (skipWsLoop (s.rest.length + 1) s).unread = '\x7b' :: cut := by
    rw [← htrim]
    exact skipWsLoop_unread _ s (Nat.lt_succ_of_le (unread_length_le s))
  obtain ⟨s1, h1, hnext1, -⟩ := getc_cons hskip
  have hhead : (trimmed s1.unread).head? ≠ some '\x7d' := by
    rw [hnext1]
    intro hclose
    have hfull : (trimmed (t ++ [])).head? = some '\x7d' := by
      rw [List.append_nil, hsplit]
      exact head_trimmed_append (by decide) hclose
    exact members_head ht hfull
  obtain ⟨s2, h2, hnext2⟩ := expect_false hhead
  have hlength : text.length = w.length + (cut.length + 1) := by simp [text]
  obtain ⟨n, hn⟩ := Nat.exists_eq_succ_of_ne_zero (show 3 * text.length ≠ 0 by omega)
  have hleft : textLeft (String.ofList text) = membersLeft n [] s2 := by
    rw [textLeft, String.toList_ofList, left]
    split
    · rename_i v s' hok
      exact absurd hok (hnone v s')
    · rw [h1]
      simp only [hn, objectLeft, h2]
  obtain ⟨before, m, hbreaks, hmembers⟩ := membersLeft_cut ht hsplit hlost (n := n) (by omega) []
    (s := s2) (by rw [hnext2, trimmed_trimmed, hnext1])
  refine ⟨before, m, hbreaks, ?_⟩
  rw [← hleft] at hmembers
  exact hmembers

end JsonRemains
