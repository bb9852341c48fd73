import ApplicationLayerFirewall.JsonParser
import Mathlib.Data.List.TakeWhile

/-!
# What the tokens of the parser take from a text

The lookahead disappears behind `unread`: what a token does depends on the
unread text only. Blanks, expected characters and escapes are described exactly,
strings and numerals by what they accept and by what an acceptance means.
-/

namespace JsonTokens

open JsonParser JsonTexts PicoJson

/-! ### Sequencing -/

section
variable {α β : Type}

theorem pure_apply (a : α) (s : Input) : (pure a : Parser α) s = .ok a s := rfl

theorem bind_apply (p : Parser α) (f : α → Parser β) (s : Input) :
    (p >>= f) s = match p s with
      | .ok a s' => f a s'
      | .failed s' => .failed s'
      | .thrown e => .thrown e
      | .exhausted => .exhausted := rfl

theorem bind_of_ok {p : Parser α} {s s' : Input} {a : α} (h : p s = .ok a s')
    (f : α → Parser β) : (p >>= f) s = f a s' := by
  rw [bind_apply, h]

/-- A sequence that succeeds does so part by part. -/
theorem ok_of_bind {p : Parser α} {f : α → Parser β} {s s'' : Input} {b : β}
    (h : (p >>= f) s = .ok b s'') : ∃ a s', p s = .ok a s' ∧ f a s' = .ok b s'' := by
  rw [bind_apply] at h
  cases hp : p s with
  | ok a s' =>
      rw [hp] at h
      exact ⟨a, s', rfl, h⟩
  | failed s' => simp [hp] at h
  | thrown e => simp [hp] at h
  | exhausted => simp [hp] at h

end

/-! ### The reader -/

theorem getc_nil {s : Input} (h : s.unread = []) :
    ∃ s', s.getc = (none, s') ∧ s'.unread = [] ∧ s'.ungetc.unread = [] := by
  rw [Input.getc, h]
  exact ⟨_, rfl, rfl, rfl⟩

theorem getc_cons {s : Input} {c : Char} {t : List Char} (h : s.unread = c :: t) :
    ∃ s', s.getc = (some c, s') ∧ s'.unread = t ∧ s'.ungetc.unread = c :: t := by
  rw [Input.getc, h]
  exact ⟨_, rfl, rfl, rfl⟩

theorem getc_apply {s s' : Input} {ch : Option Char} (h : s.getc = (ch, s')) :
    Parser.getc s = .ok ch s' := by
  rw [Parser.getc, h]

theorem of_getc_some {s s' : Input} {c : Char} (h : Parser.getc s = .ok (some c) s') :
    s.unread = c :: s'.unread ∧ s'.ungetc.unread = s.unread := by
  cases hs : s.unread with
  | nil =>
      obtain ⟨s1, h1, -, -⟩ := getc_nil hs
      rw [getc_apply h1] at h
      injection h with hch
      exact absurd hch (by simp)
  | cons d t =>
      obtain ⟨s1, h1, hnext, hback⟩ := getc_cons hs
      rw [getc_apply h1] at h
      injection h with hch heq
      subst heq
      exact ⟨by rw [hnext, Option.some.inj hch], hback⟩

theorem ungetc_apply (s : Input) : Parser.ungetc s = .ok () s.ungetc := rfl

theorem unread_length_le (s : Input) : s.unread.length ≤ s.rest.length := by
  rw [Input.unread]
  split_ifs
  · simp
  · exact le_rfl

@[simp] theorem unread_start (text : List Char) : (Input.start text).unread = text := rfl

/-! ### Blanks and expected characters -/

theorem skipWsLoop_unread (n : Nat) (s : Input) (h : s.unread.length < n) :
    (skipWsLoop n s).unread = s.unread.dropWhile IsBlank := by
  induction n generalizing s with
  | zero => omega
  | succ n ih =>
      rw [skipWsLoop]
      cases hs : s.unread with
      | nil =>
          obtain ⟨s', hgetc, -, hback⟩ := getc_nil hs
          simp [hgetc, hback]
      | cons c t =>
          obtain ⟨s', hgetc, hnext, hback⟩ := getc_cons hs
          rw [hs, List.length_cons] at h
          by_cases hc : IsBlank c
          · simp [hgetc, hc, ih s' (by rw [hnext]; omega), hnext]
          · simp [hgetc, hc, hback]

theorem skipWs_eq (s : Input) :
    ∃ s', skipWs s = .ok () s' ∧ s'.unread = s.unread.dropWhile IsBlank :=
  ⟨_, rfl, skipWsLoop_unread _ s (Nat.lt_succ_of_le (unread_length_le s))⟩

/-- The unread text once blanks are skipped. -/
def trimmed (t : List Char) : List Char := t.dropWhile IsBlank

theorem expect_eq (c : Char) (s : Input) :
    ∃ s', expect c s = .ok (decide ((trimmed s.unread).head? = some c)) s' ∧
      s'.unread = if (trimmed s.unread).head? = some c
        then (trimmed s.unread).tail else trimmed s.unread := by
  obtain ⟨s1, h1, hunread⟩ := skipWs_eq s
  rw [expect, bind_of_ok h1, trimmed, ← hunread]
  cases hs : s1.unread with
  | nil =>
      obtain ⟨s2, h2, -, hback⟩ := getc_nil hs
      rw [bind_of_ok (getc_apply h2)]
      exact ⟨s2.ungetc, by simp [bind_apply, ungetc_apply, pure_apply], by simp [hback]⟩
  | cons d t =>
      obtain ⟨s2, h2, hnext, hback⟩ := getc_cons hs
      rw [bind_of_ok (getc_apply h2)]
      by_cases hd : d = c
      · exact ⟨s2, by simp [hd, pure_apply], by simp [hd, hnext]⟩
      · exact ⟨s2.ungetc, by simp [hd, bind_apply, ungetc_apply, pure_apply], by simp [hd, hback]⟩

theorem trimmed_append {w t : List Char} (hw : Blank w) : trimmed (w ++ t) = trimmed t :=
  List.dropWhile_append_of_pos fun c hc => decide_eq_true (hw c hc)

theorem trimmed_cons {c : Char} {t : List Char} (hc : ¬ IsBlank c) :
    trimmed (c :: t) = c :: t := by
  simp [trimmed, hc]

/-- What is trimmed is a blank text. -/
theorem exists_blank_append_trimmed (t : List Char) : ∃ w, Blank w ∧ t = w ++ trimmed t := by
  refine ⟨t.takeWhile IsBlank, ?_, ?_⟩
  · intro c hc
    have hblank := List.mem_takeWhile_imp hc
    exact of_decide_eq_true hblank
  · exact List.takeWhile_append_dropWhile.symm

theorem trimmed_blank_cons {w t : List Char} {c : Char} (hw : Blank w) (hc : ¬ IsBlank c) :
    trimmed (w ++ c :: t) = c :: t :=
  (trimmed_append hw).trans (trimmed_cons hc)

theorem expect_true {s : Input} {t : List Char} {c : Char} (h : trimmed s.unread = c :: t) :
    ∃ s', expect c s = .ok true s' ∧ s'.unread = t := by
  obtain ⟨s', hs, hunread⟩ := expect_eq c s
  rw [h] at hs hunread
  exact ⟨s', by simpa using hs, by simpa using hunread⟩

theorem expect_false {s : Input} {c : Char} (h : (trimmed s.unread).head? ≠ some c) :
    ∃ s', expect c s = .ok false s' ∧ s'.unread = trimmed s.unread := by
  obtain ⟨s', hs, hunread⟩ := expect_eq c s
  exact ⟨s', by simpa [h] using hs, by simpa [h] using hunread⟩

theorem of_expect_true {s s' : Input} {c : Char} (h : expect c s = .ok true s') :
    ∃ w, Blank w ∧ s.unread = w ++ c :: s'.unread := by
  obtain ⟨s1, hs, hunread⟩ := expect_eq c s
  rw [hs] at h
  injection h with hb hs'
  subst hs'
  have hhead := of_decide_eq_true hb
  obtain ⟨w, hw, heq⟩ := exists_blank_append_trimmed s.unread
  rw [if_pos hhead] at hunread
  refine ⟨w, hw, heq.trans ?_⟩
  rw [hunread]
  exact congrArg (w ++ ·) (List.eq_cons_of_mem_head? hhead)

theorem of_expect_false {s s' : Input} {c : Char} (h : expect c s = .ok false s') :
    ∃ w, Blank w ∧ s.unread = w ++ s'.unread := by
  obtain ⟨s1, hs, hunread⟩ := expect_eq c s
  rw [hs] at h
  injection h with hb hs'
  subst hs'
  obtain ⟨w, hw, heq⟩ := exists_blank_append_trimmed s.unread
  rw [if_neg (of_decide_eq_false hb)] at hunread
  exact ⟨w, hw, by rw [hunread]; exact heq⟩

theorem of_skipWs {s s' : Input} (h : skipWs s = .ok () s') :
    ∃ w, Blank w ∧ s.unread = w ++ s'.unread := by
  obtain ⟨s1, hs, hunread⟩ := skipWs_eq s
  rw [hs] at h
  injection h with _ hs'
  subst hs'
  obtain ⟨w, hw, heq⟩ := exists_blank_append_trimmed s.unread
  exact ⟨w, hw, by rw [hunread]; exact heq⟩

/-! ### Literals -/

theorem matchText_true (pattern : List Char) {s : Input} {t : List Char}
    (h : s.unread = pattern ++ t) : ∃ s', matchText pattern s = .ok true s' ∧ s'.unread = t := by
  induction pattern generalizing s with
  | nil => exact ⟨s, rfl, h⟩
  | cons c pattern ih =>
      obtain ⟨s1, h1, hnext, -⟩ := getc_cons h
      obtain ⟨s2, h2, hrest⟩ := ih hnext
      refine ⟨s2, ?_, hrest⟩
      rw [matchText, bind_of_ok (getc_apply h1), if_pos rfl]
      exact h2

theorem of_matchText_true {pattern : List Char} {s s' : Input}
    (h : matchText pattern s = .ok true s') : s.unread = pattern ++ s'.unread := by
  induction pattern generalizing s with
  | nil =>
      injection h with _ hs
      rw [hs, List.nil_append]
  | cons c pattern ih =>
      rw [matchText] at h
      cases hs : s.unread with
      | nil =>
          obtain ⟨s1, h1, -, -⟩ := getc_nil hs
          rw [bind_of_ok (getc_apply h1)] at h
          simp [bind_apply, ungetc_apply, pure_apply] at h
      | cons d t =>
          obtain ⟨s1, h1, hnext, -⟩ := getc_cons hs
          rw [bind_of_ok (getc_apply h1)] at h
          by_cases hd : d = c
          · subst hd
            rw [if_pos rfl] at h
            rw [List.cons_append, ← ih h, hnext]
          · simp [hd, bind_apply, ungetc_apply, pure_apply] at h

/-! ### Escapes -/

/-- A loop that reads `i` more digits succeeds exactly on `i` digits. -/
theorem parseQuadhexLoop_some {i n : Nat} {digits t : List Char} {values : List Nat} {s : Input}
    (h : s.unread = digits ++ t) (hlen : digits.length = i)
    (hvalues : digits.map hexValue = values.map some) :
    ∃ s', parseQuadhexLoop i n s = .ok (some (values.foldl (fun n v => n * 16 + v) n)) s' ∧
      s'.unread = t := by
  induction i generalizing n digits values s with
  | zero =>
      rw [List.length_eq_zero_iff] at hlen
      subst hlen
      have hnil : values = [] := by simpa using hvalues
      subst hnil
      exact ⟨s, rfl, h⟩
  | succ i ih =>
      cases digits with
      | nil => simp at hlen
      | cons c digits =>
          cases values with
          | nil => simp at hvalues
          | cons v values =>
              rw [List.map_cons, List.map_cons, List.cons.injEq] at hvalues
              obtain ⟨s1, h1, hnext, -⟩ := getc_cons h
              obtain ⟨s2, h2, hrest⟩ := ih (n := n * 16 + v) hnext (by simpa using hlen) hvalues.2
              refine ⟨s2, ?_, hrest⟩
              rw [parseQuadhexLoop, bind_of_ok (getc_apply h1)]
              simp only [hvalues.1]
              exact h2

theorem of_parseQuadhexLoop_some {i n r : Nat} {s s' : Input}
    (h : parseQuadhexLoop i n s = .ok (some r) s') :
    ∃ (digits : List Char) (values : List Nat), s.unread = digits ++ s'.unread ∧
      digits.length = i ∧ digits.map hexValue = values.map some ∧
      r = values.foldl (fun n v => n * 16 + v) n := by
  induction i generalizing n s with
  | zero =>
      injection h with hr hs
      injection hr with hr
      exact ⟨[], [], by rw [hs]; rfl, rfl, rfl, hr.symm⟩
  | succ i ih =>
      rw [parseQuadhexLoop] at h
      cases hs : s.unread with
      | nil =>
          obtain ⟨s1, h1, -, -⟩ := getc_nil hs
          rw [bind_of_ok (getc_apply h1)] at h
          simp [pure_apply] at h
      | cons c t =>
          obtain ⟨s1, h1, hnext, -⟩ := getc_cons hs
          rw [bind_of_ok (getc_apply h1)] at h
          cases hc : hexValue c with
          | none => simp [hc, bind_apply, ungetc_apply, pure_apply] at h
          | some v =>
              simp only [hc] at h
              obtain ⟨digits, values, hunread, hlen, hvalues, hr⟩ := ih h
              refine ⟨c :: digits, v :: values, ?_, ?_, ?_, hr⟩
              · rw [← hnext, hunread, List.cons_append]
              · rw [List.length_cons, hlen]
              · rw [List.map_cons, List.map_cons, hc, hvalues]

theorem parseQuadhex_some {s : Input} {t u : List Char} {n : Nat} (ht : CodeUnit t n)
    (h : s.unread = t ++ u) : ∃ s', parseQuadhex s = .ok (some n) s' ∧ s'.unread = u := by
  obtain ⟨ha, hb, hc, hd⟩ := ht
  rename_i a b c d na nb nc nd
  have hvalues : [a, b, c, d].map hexValue = [na, nb, nc, nd].map some := by
    simp [ha, hb, hc, hd]
  obtain ⟨s', hs, hunread⟩ := parseQuadhexLoop_some (n := 0) h rfl hvalues
  exact ⟨s', by simpa [parseQuadhex] using hs, hunread⟩

theorem of_parseQuadhex_some {s s' : Input} {n : Nat} (h : parseQuadhex s = .ok (some n) s') :
    ∃ t, CodeUnit t n ∧ s.unread = t ++ s'.unread := by
  obtain ⟨digits, values, hunread, hlen, hvalues, hn⟩ := of_parseQuadhexLoop_some h
  have hlength : values.length = 4 := by
    have hmap := congrArg List.length hvalues
    rw [List.length_map, List.length_map] at hmap
    omega
  obtain ⟨a, b, c, d, rfl⟩ := List.length_eq_four.mp hlen
  obtain ⟨na, nb, nc, nd, rfl⟩ := List.length_eq_four.mp hlength
  simp only [List.map_cons, List.map_nil, List.cons.injEq, and_true] at hvalues
  obtain ⟨ha, hb, hc, hd⟩ := hvalues
  refine ⟨_, ?_, hunread⟩
  have hunit := CodeUnit.digits ha hb hc hd
  have hvalue : n = ((na * 16 + nb) * 16 + nc) * 16 + nd := by simpa using hn
  rw [hvalue]
  exact hunit

/-! ### Code points -/

theorem charOfNat_eq_ofUInt8 {n : Nat} (h : n < 256) :
    Char.ofNat n = Char.ofUInt8 (UInt8.ofNat n) := by
  have hvalid : n.isValidChar := Or.inl (by omega)
  apply Char.ext
  apply UInt32.toNat_inj.mp
  rw [Char.ofNat, dif_pos hvalid]
  change n = (UInt8.ofNat n).toUInt32.toNat
  rw [UInt8.toNat_toUInt32, UInt8.toNat_ofNat', Nat.mod_eq_of_lt h]

theorem and_63 (n : Nat) : n &&& 0x3f = n % 64 := Nat.and_two_pow_sub_one_eq_mod n 6

theorem or_continuation (n : Nat) : 0x80 ||| n % 64 = n % 64 + 0x80 := by
  have h := Nat.two_pow_add_eq_or_of_lt (i := 6) (Nat.mod_lt n (by norm_num)) 2
  norm_num at h
  rw [← h]
  omega

theorem or_lead2 {n : Nat} (h : n < 32) : 0xc0 ||| n = n + 0xc0 := by
  have heq := Nat.two_pow_add_eq_or_of_lt (i := 5) h 6
  norm_num at heq
  rw [← heq]
  omega

theorem or_lead3 {n : Nat} (h : n < 16) : 0xe0 ||| n = n + 0xe0 := by
  have heq := Nat.two_pow_add_eq_or_of_lt (i := 4) h 14
  norm_num at heq
  rw [← heq]
  omega

theorem or_lead4 {n : Nat} (h : n < 8) : 0xf0 ||| n = n + 0xf0 := by
  have heq := Nat.two_pow_add_eq_or_of_lt (i := 3) h 30
  norm_num at heq
  rw [← heq]
  omega

theorem toNat_lt_max (c : Char) : c.toNat < 0x110000 := by
  rcases c.valid with h | h
  · exact lt_trans h (by norm_num)
  · exact h.2

/-- The shifts and masks of the library encode a character in UTF-8. -/
theorem pushCodepoint_eq_utf8 (c : Char) : pushCodepoint c.toNat = utf8 c := by
  have hmax := toNat_lt_max c
  have hval : c.val.toNat = c.toNat := rfl
  have hbyte : ∀ n, n < 256 → Char.ofNat n = Char.ofUInt8 (UInt8.ofNat n) :=
    fun n hn => charOfNat_eq_ofUInt8 hn
  have hsix := Nat.shiftRight_eq_div_pow c.toNat 6
  have htwelve := Nat.shiftRight_eq_div_pow c.toNat 12
  have heighteen := Nat.shiftRight_eq_div_pow c.toNat 18
  norm_num at hsix htwelve heighteen
  rw [pushCodepoint, hsix, htwelve, heighteen, and_63, and_63, and_63, or_continuation,
    or_continuation, or_continuation, utf8]
  by_cases h1 : c.toNat < 0x80
  · have hencode : String.utf8EncodeChar c = [UInt8.ofNat c.toNat] := if_pos (by omega)
    rw [if_pos h1, hencode, hbyte _ (by omega)]
    rfl
  · by_cases h2 : c.toNat < 0x800
    · have hencode : String.utf8EncodeChar c =
          [UInt8.ofNat (c.toNat / 64 % 32 + 0xc0), UInt8.ofNat (c.toNat % 64 + 0x80)] :=
        (if_neg (by omega)).trans (if_pos (by omega))
      have hsmall : c.toNat / 64 < 32 := by omega
      rw [if_neg h1, if_pos h2, hencode, or_lead2 hsmall, Nat.mod_eq_of_lt hsmall,
        hbyte _ (by omega), hbyte _ (by omega)]
      rfl
    · by_cases h3 : c.toNat < 0x10000
      · have hencode : String.utf8EncodeChar c =
            [UInt8.ofNat (c.toNat / 4096 % 16 + 0xe0), UInt8.ofNat (c.toNat / 64 % 64 + 0x80),
              UInt8.ofNat (c.toNat % 64 + 0x80)] :=
          (if_neg (by omega)).trans ((if_neg (by omega)).trans (if_pos (by omega)))
        have hsmall : c.toNat / 4096 < 16 := by omega
        rw [if_neg h1, if_neg h2, if_pos h3, hencode, or_lead3 hsmall, Nat.mod_eq_of_lt hsmall,
          hbyte _ (by omega), hbyte _ (by omega), hbyte _ (by omega)]
        rfl
      · have hencode : String.utf8EncodeChar c =
            [UInt8.ofNat (c.toNat / 262144 % 8 + 0xf0), UInt8.ofNat (c.toNat / 4096 % 64 + 0x80),
              UInt8.ofNat (c.toNat / 64 % 64 + 0x80), UInt8.ofNat (c.toNat % 64 + 0x80)] :=
          (if_neg (by omega)).trans ((if_neg (by omega)).trans (if_neg (by omega)))
        have hsmall : c.toNat / 262144 < 8 := by omega
        rw [if_neg h1, if_neg h2, if_neg h3, hencode, or_lead4 hsmall, Nat.mod_eq_of_lt hsmall,
          hbyte _ (by omega), hbyte _ (by omega), hbyte _ (by omega), hbyte _ (by omega)]
        rfl

theorem hexValue_lt {c : Char} {n : Nat} (h : hexValue c = some n) : n < 16 := by
  rw [hexValue] at h
  split_ifs at h with hdigit hupper hlower
  · have hhi : c.toNat ≤ '9'.toNat := hdigit.2
    have hn := Option.some.inj h
    have hnine : '9'.toNat = 57 := rfl
    have hzero : '0'.toNat = 48 := rfl
    omega
  · have hhi : c.toNat ≤ 'F'.toNat := hupper.2
    have hn := Option.some.inj h
    have hF : 'F'.toNat = 70 := rfl
    have hA : 'A'.toNat = 65 := rfl
    omega
  · have hhi : c.toNat ≤ 'f'.toNat := hlower.2
    have hn := Option.some.inj h
    have hf : 'f'.toNat = 102 := rfl
    have ha : 'a'.toNat = 97 := rfl
    omega

theorem codeUnit_lt {t : List Char} {n : Nat} (h : CodeUnit t n) : n < 0x10000 := by
  obtain ⟨ha, hb, hc, hd⟩ := h
  have hna := hexValue_lt ha
  have hnb := hexValue_lt hb
  have hnc := hexValue_lt hc
  have hnd := hexValue_lt hd
  omega

theorem toNat_ofNat_of_valid {n : Nat} (h : n.isValidChar) : (Char.ofNat n).toNat = n := by
  rw [Char.ofNat, dif_pos h]
  rfl

/-- Two surrogates are combined into a code point beyond the basic plane. -/
theorem surrogates_eq {high low : Nat} (hlow : 0xdc00 ≤ low ∧ low ≤ 0xdfff) :
    (((high - 0xd800) <<< 10) ||| ((low - 0xdc00) &&& 0x3ff)) + 0x10000 =
      0x10000 + (high - 0xd800) * 0x400 + (low - 0xdc00) := by
  have hmask : (low - 0xdc00) &&& 0x3ff = (low - 0xdc00) % 1024 :=
    Nat.and_two_pow_sub_one_eq_mod (low - 0xdc00) 10
  have hsmall : low - 0xdc00 < 2 ^ 10 := by omega
  have hor := Nat.two_pow_add_eq_or_of_lt (i := 10) hsmall (high - 0xd800)
  rw [hmask, Nat.mod_eq_of_lt (by omega), Nat.shiftLeft_eq, Nat.mul_comm (high - 0xd800), ← hor]
  omega

theorem parseLowSurrogate_ok (high : Nat) {s : Input} {u t : List Char} {low : Nat}
    (hu : CodeUnit u low) (hlow : 0xdc00 ≤ low ∧ low < 0xe000)
    (h : s.unread = '\\' :: 'u' :: (u ++ t)) :
    ∃ s', parseLowSurrogate high s =
      .ok (0x10000 + (high - 0xd800) * 0x400 + (low - 0xdc00)) s' ∧ s'.unread = t := by
  obtain ⟨s1, h1, hnext1, -⟩ := getc_cons h
  obtain ⟨s2, h2, hnext2, -⟩ := getc_cons hnext1
  obtain ⟨s3, h3, hrest⟩ := parseQuadhex_some hu hnext2
  have hrange : 0xdc00 ≤ low ∧ low ≤ 0xdfff := by omega
  refine ⟨s3, ?_, hrest⟩
  rw [parseLowSurrogate, bind_of_ok (getc_apply h1), if_pos rfl, bind_of_ok (getc_apply h2),
    if_pos rfl, bind_of_ok h3]
  simp only [hrange, and_self, if_true]
  rw [surrogates_eq hrange]
  rfl

theorem of_parseLowSurrogate {s s' : Input} {high r : Nat}
    (h : parseLowSurrogate high s = .ok r s') :
    ∃ u low, CodeUnit u low ∧ (0xdc00 ≤ low ∧ low < 0xe000) ∧
      s.unread = '\\' :: 'u' :: (u ++ s'.unread) ∧
      r = 0x10000 + (high - 0xd800) * 0x400 + (low - 0xdc00) := by
  rw [parseLowSurrogate] at h
  obtain ⟨ch1, s1, h1, h⟩ := ok_of_bind h
  split_ifs at h with hslash
  · obtain ⟨ch2, s2, h2, h⟩ := ok_of_bind h
    split_ifs at h with hu
    · obtain ⟨second, s3, h3, h⟩ := ok_of_bind h
      cases second with
      | none => exact absurd h (by simp [Parser.fail])
      | some low =>
          simp only at h
          split_ifs at h with hrange
          · obtain ⟨u, hunit, hunread⟩ := of_parseQuadhex_some h3
            injection h with hr hs
            subst hslash hu hs
            refine ⟨u, low, hunit, by omega, ?_, ?_⟩
            · rw [(of_getc_some h1).1, (of_getc_some h2).1, hunread]
            · rw [← hr, surrogates_eq hrange]
          · exact absurd h (by simp [Parser.fail])
    · exact absurd h (by simp [bind_apply, ungetc_apply, Parser.fail])
  · exact absurd h (by simp [bind_apply, ungetc_apply, Parser.fail])

/-- The code point of an escape is pushed in UTF-8. -/
theorem parseCodepoint_ok (out : List Char) {s : Input} {u t : List Char} {c : Char} (hu : Codepoint u c)
    (h : s.unread = u ++ t) :
    ∃ s', parseCodepoint out s = .ok (out ++ utf8 c) s' ∧ s'.unread = t := by
  cases hu with
  | @basic _ n hunit hscalar =>
      obtain ⟨s1, h1, hrest⟩ := parseQuadhex_some hunit h
      have hlt := codeUnit_lt hunit
      have hvalid : n.isValidChar := by
        rcases hscalar with hlow | hhigh
        · exact Or.inl hlow
        · exact Or.inr ⟨by omega, by omega⟩
      have hnot : ¬ (0xd800 ≤ n ∧ n ≤ 0xdfff) := by omega
      refine ⟨s1, ?_, hrest⟩
      rw [parseCodepoint, bind_of_ok h1]
      simp only [hnot, if_false]
      rw [← pushCodepoint_eq_utf8, toNat_ofNat_of_valid hvalid]
      rfl
  | @pair u1 u2 high low hhigh hfirst hlow hsecond =>
      rw [List.append_assoc, List.cons_append, List.cons_append] at h
      obtain ⟨s1, h1, hnext⟩ := parseQuadhex_some hhigh h
      obtain ⟨s2, h2, hrest⟩ := parseLowSurrogate_ok high hlow hsecond hnext
      have hvalid : (0x10000 + (high - 0xd800) * 0x400 + (low - 0xdc00)).isValidChar :=
        Or.inr ⟨by omega, by omega⟩
      have hsurrogate : 0xd800 ≤ high ∧ high ≤ 0xdfff := by omega
      have hfirst' : ¬ 0xdc00 ≤ high := by omega
      refine ⟨s2, ?_, hrest⟩
      rw [parseCodepoint, bind_of_ok h1]
      simp only [hsurrogate, and_self, if_true, hfirst', if_false]
      rw [bind_of_ok h2, ← pushCodepoint_eq_utf8, toNat_ofNat_of_valid hvalid]
      rfl

theorem of_parseCodepoint {s s' : Input} {out r : List Char}
    (h : parseCodepoint out s = .ok r s') :
    ∃ u c, Codepoint u c ∧ s.unread = u ++ s'.unread ∧ r = out ++ utf8 c := by
  rw [parseCodepoint] at h
  obtain ⟨first, s1, h1, h⟩ := ok_of_bind h
  cases first with
  | none => exact absurd h (by simp [Parser.fail])
  | some n =>
      obtain ⟨u, hunit, hunread⟩ := of_parseQuadhex_some h1
      have hlt := codeUnit_lt hunit
      simp only at h
      split_ifs at h with hsurrogate hsecond
      · exact absurd h (by simp [Parser.fail])
      · obtain ⟨code, s2, h2, h⟩ := ok_of_bind h
        obtain ⟨u2, low, hlow, hrange, hunread2, hcode⟩ := of_parseLowSurrogate h2
        injection h with hr hs
        subst hs
        have hhigh : 0xd800 ≤ n ∧ n < 0xdc00 := by omega
        have hvalid : code.isValidChar := Or.inr ⟨by omega, by omega⟩
        refine ⟨_, _, Codepoint.pair hunit hhigh hlow hrange, ?_, ?_⟩
        · rw [hunread, hunread2, List.append_assoc, List.cons_append, List.cons_append]
        · rw [← hr, ← hcode, ← pushCodepoint_eq_utf8, toNat_ofNat_of_valid hvalid]
      · injection h with hr hs
        subst hs
        have hscalar : n < 0xd800 ∨ 0xe000 ≤ n := by omega
        have hvalid : n.isValidChar := by
          rcases hscalar with hlow | hhigh
          · exact Or.inl hlow
          · exact Or.inr ⟨by omega, by omega⟩
        refine ⟨u, _, Codepoint.basic hunit hscalar, hunread, ?_⟩
        rw [← hr, ← pushCodepoint_eq_utf8, toNat_ofNat_of_valid hvalid]

/-! ### Strings -/

theorem lookup_escapes {e c : Char} (h : (e, c) ∈ escapes) : escapes.lookup e = some c := by
  simp only [escapes, List.mem_cons, List.not_mem_nil, or_false, Prod.mk.injEq] at h
  rcases h with h | h | h | h | h | h | h | h <;> rw [h.1, h.2] <;> rfl

theorem mem_of_lookup_escapes {e c : Char} (h : escapes.lookup e = some c) :
    (e, c) ∈ escapes := by
  obtain ⟨l, r, heq, -⟩ := List.lookup_eq_some_iff.mp h
  rw [heq]
  exact List.mem_append_right l List.mem_cons_self

/-- A string body is read up to its closing quote, one turn for each of its characters at most. -/
theorem parseStringLoop_ok {t body : List Char} (ht : StringBody t body) {n : Nat}
    (hn : t.length ≤ n) (out : List Char) {u : List Char} {s : Input} (h : s.unread = t ++ u) :
    ∃ s', parseStringLoop n out s = .ok (out ++ body) s' ∧ s'.unread = u := by
  induction ht generalizing n out s with
  | close =>
      cases n with
      | zero => simp at hn
      | succ n =>
          obtain ⟨s1, h1, hnext, -⟩ := getc_cons h
          refine ⟨s1, ?_, hnext⟩
          rw [parseStringLoop, bind_of_ok (getc_apply h1)]
          have hquote : ¬ ('"' : Char) < ' ' := by decide
          simp only [hquote, if_false, if_true, List.append_nil]
          rfl
  | @plain c t body hcontrol hquote hslash _ ih =>
      cases n with
      | zero => simp at hn
      | succ n =>
          obtain ⟨s1, h1, hnext, -⟩ := getc_cons h
          obtain ⟨s2, h2, hrest⟩ := ih (n := n) (by simpa using hn) (out ++ [c]) hnext
          refine ⟨s2, ?_, hrest⟩
          rw [parseStringLoop, bind_of_ok (getc_apply h1)]
          simp only [not_lt_of_ge hcontrol, hquote, hslash, if_false]
          rw [h2, List.append_assoc, List.singleton_append]
  | @escape e c t body he _ ih =>
      cases n with
      | zero => simp at hn
      | succ n =>
          obtain ⟨s1, h1, hnext1, -⟩ := getc_cons h
          obtain ⟨s2, h2, hnext2, -⟩ := getc_cons hnext1
          have hlen : t.length ≤ n := by
            rw [List.length_cons, List.length_cons] at hn
            omega
          obtain ⟨s3, h3, hrest⟩ := ih hlen (out ++ [c]) hnext2
          refine ⟨s3, ?_, hrest⟩
          have hnot : ¬ ('\\' : Char) < ' ' := by decide
          have hne : ('\\' : Char) ≠ '"' := by decide
          rw [parseStringLoop, bind_of_ok (getc_apply h1)]
          simp only [hnot, hne, if_false, if_true]
          rw [bind_of_ok (getc_apply h2)]
          simp only [lookup_escapes he]
          rw [h3, List.append_assoc, List.singleton_append]
  | @unicode u' t body c hu _ ih =>
      cases n with
      | zero => simp at hn
      | succ n =>
          obtain ⟨s1, h1, hnext1, -⟩ := getc_cons h
          obtain ⟨s2, h2, hnext2, -⟩ := getc_cons hnext1
          rw [List.append_eq, List.append_assoc] at hnext2
          obtain ⟨s3, h3, hnext3⟩ := parseCodepoint_ok out hu hnext2
          have hlen : t.length ≤ n := by
            simp only [List.length_cons, List.length_append] at hn
            omega
          obtain ⟨s4, h4, hrest⟩ := ih hlen (out ++ utf8 c) hnext3
          refine ⟨s4, ?_, hrest⟩
          have hnot : ¬ ('\\' : Char) < ' ' := by decide
          have hne : ('\\' : Char) ≠ '"' := by decide
          have hlookup : escapes.lookup 'u' = none := by decide
          rw [parseStringLoop, bind_of_ok (getc_apply h1)]
          simp only [hnot, hne, if_false, if_true]
          rw [bind_of_ok (getc_apply h2)]
          simp only [hlookup, if_true]
          rw [bind_of_ok h3, h4, List.append_assoc]

/-- What the loop accepts is a string body. -/
theorem of_parseStringLoop {n : Nat} {out r : List Char} {s s' : Input}
    (h : parseStringLoop n out s = .ok r s') :
    ∃ t body, StringBody t body ∧ s.unread = t ++ s'.unread ∧ r = out ++ body := by
  induction n generalizing out s with
  | zero => exact absurd h (by simp [parseStringLoop, Parser.exhaust])
  | succ n ih =>
      rw [parseStringLoop] at h
      obtain ⟨ch, s1, h1, h⟩ := ok_of_bind h
      cases ch with
      | none => exact absurd h (by simp [bind_apply, ungetc_apply, Parser.fail])
      | some c =>
          have hfirst := (of_getc_some h1).1
          simp only at h
          split_ifs at h with hcontrol hquote hslash
          · exact absurd h (by simp [bind_apply, ungetc_apply, Parser.fail])
          · injection h with hr hs
            subst hs
            refine ⟨_, _, StringBody.close, ?_, ?_⟩
            · rw [hfirst, hquote, List.singleton_append]
            · rw [hr, List.append_nil]
          · obtain ⟨ch, s2, h2, h⟩ := ok_of_bind h
            cases ch with
            | none => exact absurd h (by simp [Parser.fail])
            | some e =>
                have hsecond := (of_getc_some h2).1
                simp only at h
                cases hlookup : escapes.lookup e with
                | some d =>
                    simp only [hlookup] at h
                    obtain ⟨t, body, ht, hunread, hr⟩ := ih h
                    refine ⟨_, _, StringBody.escape (mem_of_lookup_escapes hlookup) ht, ?_, ?_⟩
                    · rw [hfirst, hslash, hsecond, hunread, List.cons_append, List.cons_append]
                    · rw [hr, List.append_assoc, List.singleton_append]
                | none =>
                    simp only [hlookup] at h
                    split_ifs at h with hu
                    · obtain ⟨out', s3, h3, h⟩ := ok_of_bind h
                      obtain ⟨u, d, hcode, hunread3, hout⟩ := of_parseCodepoint h3
                      obtain ⟨t, body, ht, hunread, hr⟩ := ih h
                      refine ⟨_, _, StringBody.unicode hcode ht, ?_, ?_⟩
                      · rw [hfirst, hslash, hsecond, hu, hunread3, hunread, List.cons_append,
                          List.cons_append, List.append_assoc]
                      · rw [hr, hout, List.append_assoc]
                    · exact absurd h (by simp [Parser.fail])
          · obtain ⟨t, body, ht, hunread, hr⟩ := ih h
            refine ⟨_, _, StringBody.plain (le_of_not_gt hcontrol) hquote hslash ht, ?_, ?_⟩
            · rw [hfirst, hunread, List.cons_append]
            · rw [hr, List.append_assoc, List.singleton_append]

theorem parseString_ok {s : Input} {t body u : List Char} (ht : StringBody t body)
    (h : s.unread = t ++ u) : ∃ s', parseString s = .ok body s' ∧ s'.unread = u := by
  have hlen : t.length ≤ s.rest.length + 1 := by
    have hle := unread_length_le s
    rw [h, List.length_append] at hle
    omega
  obtain ⟨s', hs, hunread⟩ := parseStringLoop_ok ht hlen [] h
  exact ⟨s', hs, hunread⟩

theorem of_parseString {s s' : Input} {body : List Char} (h : parseString s = .ok body s') :
    ∃ t, StringBody t body ∧ s.unread = t ++ s'.unread := by
  obtain ⟨t, body', ht, hunread, hbody⟩ := of_parseStringLoop h
  rw [List.nil_append] at hbody
  subst hbody
  exact ⟨t, ht, hunread⟩

end JsonTokens
