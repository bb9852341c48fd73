import ApplicationLayerFirewall.JsonDocuments

/-!
# What the parser keeps of its reader

A property of readers that reading and putting back preserve holds wherever a
function of the parser leaves the reader. The tokens let no exception through,
the values at most that of a number out of range.
-/

namespace JsonInvariants

open JsonParser JsonTexts JsonTokens PicoJson

/-! ### Invariants of the reader -/

/-- A property of readers that reading and putting back preserve. -/
structure Stable (I : Input → Prop) : Prop where
  getc : ∀ s, I s → I s.getc.2
  ungetc : ∀ s, I s → I s.ungetc

/-- Wherever a parser leaves the reader, the property still holds, and the exceptions
it lets through are among those of the second argument. -/
def Keeps {α : Type} (I : Input → Prop) (E : Exception → Prop) (p : Parser α) : Prop :=
  ∀ s, I s → match p s with
    | .ok _ s' => I s'
    | .failed s' => I s'
    | .thrown e => E e
    | .exhausted => True

section
variable {α β : Type} {I : Input → Prop} {E : Exception → Prop}

theorem Keeps.bind {p : Parser α} {f : α → Parser β} (hp : Keeps I E p)
    (hf : ∀ a, Keeps I E (f a)) : Keeps I E (p >>= f) := by
  intro s hs
  have hfirst := hp s hs
  rw [bind_apply]
  cases h : p s with
  | ok a s' =>
      rw [h] at hfirst
      exact hf a s' hfirst
  | failed s' =>
      rw [h] at hfirst
      exact hfirst
  | thrown e =>
      rw [h] at hfirst
      exact hfirst
  | exhausted => trivial

theorem Keeps.failed {p : Parser α} (hp : Keeps I E p) {s s' : Input} (hs : I s)
    (h : p s = .failed s') : I s' := by
  have hkept := hp s hs
  rw [h] at hkept
  exact hkept

theorem Keeps.thrown {p : Parser α} (hp : Keeps I E p) {s : Input} (hs : I s) {e : Exception}
    (h : p s = .thrown e) : E e := by
  have hkept := hp s hs
  rw [h] at hkept
  exact hkept

theorem Keeps.ite {c : Prop} [Decidable c] {p q : Parser α} (hp : Keeps I E p) (hq : Keeps I E q) :
    Keeps I E (if c then p else q) := by
  split_ifs
  · exact hp
  · exact hq

theorem keeps_pure (a : α) : Keeps I E (pure a : Parser α) := fun _ hs => hs

theorem keeps_fail : Keeps I E (Parser.fail : Parser α) := fun _ hs => hs

theorem keeps_exhaust : Keeps I E (Parser.exhaust : Parser α) := fun _ _ => trivial

theorem keeps_throw {e : Exception} (he : E e) : Keeps I E (Parser.throw e : Parser α) :=
  fun _ _ => he

end

section
variable {I : Input → Prop} {E : Exception → Prop} (stable : Stable I)
include stable

theorem keeps_getc : Keeps I E Parser.getc := stable.getc

theorem keeps_ungetc : Keeps I E Parser.ungetc := stable.ungetc

theorem keeps_putBack {α : Type} {p : Parser α} (hp : Keeps I E p) :
    Keeps I E (Parser.ungetc >>= fun _ => p) :=
  (keeps_ungetc stable).bind fun _ => hp

/-! ### The parser keeps them -/

theorem skipWsLoop_stable (n : Nat) {s : Input} (hs : I s) : I (skipWsLoop n s) := by
  induction n generalizing s with
  | zero => exact hs
  | succ n ih =>
      rw [skipWsLoop]
      have hnext := stable.getc s hs
      rcases hgetc : s.getc with ⟨ch, s'⟩
      rw [hgetc] at hnext
      cases ch with
      | none => exact stable.ungetc s' hnext
      | some c =>
          simp only
          split_ifs
          · exact ih hnext
          · exact stable.ungetc s' hnext

theorem keeps_skipWs : Keeps I E skipWs := fun _ hs => skipWsLoop_stable stable _ hs

theorem keeps_expect (c : Char) : Keeps I E (expect c) := by
  rw [expect]
  exact (keeps_skipWs stable).bind fun _ => (keeps_getc stable).bind fun _ =>
    (keeps_pure _).ite (keeps_putBack stable (keeps_pure _))

theorem keeps_matchText (pattern : List Char) : Keeps I E (matchText pattern) := by
  induction pattern with
  | nil => exact keeps_pure _
  | cons c pattern ih =>
      rw [matchText]
      exact (keeps_getc stable).bind fun _ => ih.ite (keeps_putBack stable (keeps_pure _))

theorem keeps_parseQuadhexLoop (i n : Nat) : Keeps I E (parseQuadhexLoop i n) := by
  induction i generalizing n with
  | zero => exact keeps_pure _
  | succ i ih =>
      rw [parseQuadhexLoop]
      refine (keeps_getc stable).bind fun ch => ?_
      cases ch with
      | none => exact keeps_pure _
      | some c =>
          cases hc : hexValue c with
          | none =>
              simp only [hc]
              exact keeps_putBack stable (keeps_pure _)
          | some hex =>
              simp only [hc]
              exact ih (n * 16 + hex)

theorem keeps_parseLowSurrogate (n : Nat) : Keeps I E (parseLowSurrogate n) := by
  have hback : Keeps I E (Parser.ungetc >>= fun _ => (Parser.fail : Parser Nat)) :=
    keeps_putBack stable keeps_fail
  rw [parseLowSurrogate]
  refine (keeps_getc stable).bind fun _ => Keeps.ite ((keeps_getc stable).bind fun _ => Keeps.ite
    ((keeps_parseQuadhexLoop stable 4 0).bind fun second => ?_) hback) hback
  cases second with
  | none => exact keeps_fail
  | some low => exact (keeps_pure _).ite keeps_fail

theorem keeps_parseCodepoint (out : List Char) : Keeps I E (parseCodepoint out) := by
  rw [parseCodepoint]
  refine (keeps_parseQuadhexLoop stable 4 0).bind fun first => ?_
  cases first with
  | none => exact keeps_fail
  | some n =>
      exact (keeps_fail.ite ((keeps_parseLowSurrogate stable n).bind fun _ => keeps_pure _)).ite
        (keeps_pure _)

theorem keeps_parseStringLoop (n : Nat) (out : List Char) : Keeps I E (parseStringLoop n out) := by
  induction n generalizing out with
  | zero => exact keeps_exhaust
  | succ n ih =>
      rw [parseStringLoop]
      refine (keeps_getc stable).bind fun ch => ?_
      cases ch with
      | none => exact keeps_putBack stable keeps_fail
      | some c =>
          refine (keeps_putBack stable keeps_fail).ite ((keeps_pure _).ite (Keeps.ite ?_ (ih _)))
          refine (keeps_getc stable).bind fun ch => ?_
          cases ch with
          | none => exact keeps_fail
          | some e =>
              cases hlookup : escapes.lookup e with
              | some d =>
                  simp only [hlookup]
                  exact ih _
              | none =>
                  simp only [hlookup]
                  exact ((keeps_parseCodepoint stable out).bind fun out' => ih out').ite keeps_fail

theorem keeps_parseString : Keeps I E parseString :=
  fun s hs => keeps_parseStringLoop stable _ _ s hs

theorem keeps_parseNumberLoop (n : Nat) (numStr : List Char) :
    Keeps I E (parseNumberLoop n numStr) := by
  induction n generalizing numStr with
  | zero => exact keeps_exhaust
  | succ n ih =>
      rw [parseNumberLoop]
      refine (keeps_getc stable).bind fun ch => ?_
      cases ch with
      | none => exact keeps_putBack stable (keeps_pure _)
      | some c => exact (ih _).ite (keeps_putBack stable (keeps_pure _))

theorem keeps_parseNumberValue (hoverflow : E .overflowError) : Keeps I E parseNumberValue := by
  have hnumber : Keeps I E parseNumber := fun s hs => keeps_parseNumberLoop stable _ _ s hs
  refine hnumber.bind fun numStr => keeps_fail.ite (Keeps.ite ?_ keeps_fail)
  cases (strtod numStr).1 with
  | none => exact keeps_throw hoverflow
  | some d => exact keeps_pure _

/-- One level of the recursion. -/
structure KeepsAll (I : Input → Prop) (E : Exception → Prop) (n : Nat) : Prop where
  value : Keeps I E (parse n)
  array : Keeps I E (parseArray n)
  object : Keeps I E (parseObject n)
  items : ∀ a, Keeps I E (parseItems n a)
  members : ∀ o, Keeps I E (parseMembers n o)

theorem keeps_value (hoverflow : E .overflowError) {n : Nat} (hn : KeepsAll I E n) :
    Keeps I E (parse (n + 1)) := by
  have hliteral : ∀ (pattern : List Char) (v : Value),
      Keeps I E (matchText pattern >>= fun b => if b then pure v else Parser.fail) :=
    fun pattern v => (keeps_matchText stable pattern).bind fun _ => (keeps_pure v).ite keeps_fail
  rw [parse]
  refine (keeps_skipWs stable).bind fun _ => (keeps_getc stable).bind fun ch => ?_
  exact (hliteral _ _).ite ((hliteral _ _).ite ((hliteral _ _).ite
    (((keeps_parseString stable).bind fun _ => keeps_pure _).ite (hn.array.ite (hn.object.ite
      ((keeps_putBack stable (keeps_parseNumberValue stable hoverflow)).ite
        (keeps_putBack stable keeps_fail)))))))

theorem keepsAll (hoverflow : E .overflowError) (n : Nat) : KeepsAll I E n := by
  induction n with
  | zero =>
      exact ⟨keeps_exhaust, keeps_exhaust, keeps_exhaust, fun _ => keeps_exhaust,
        fun _ => keeps_exhaust⟩
  | succ n ih =>
      have hclose : ∀ (c : Char) (v : Value),
          Keeps I E (expect c >>= fun b => if b then pure v else Parser.fail) :=
        fun c v => (keeps_expect stable c).bind fun _ => (keeps_pure v).ite keeps_fail
      refine ⟨keeps_value stable hoverflow ih, ?_, ?_, fun a => ?_, fun o => ?_⟩
      · rw [parseArray]
        exact (keeps_expect stable _).bind fun _ => (keeps_pure _).ite (ih.items _)
      · rw [parseObject]
        exact (keeps_expect stable _).bind fun _ => (keeps_pure _).ite (ih.members _)
      · rw [parseItems]
        exact ih.value.bind fun item => (keeps_expect stable _).bind fun _ =>
          (ih.items _).ite (hclose _ _)
      · rw [parseMembers]
        exact (keeps_expect stable _).bind fun _ => Keeps.ite
          ((keeps_parseString stable).bind fun _ => (keeps_expect stable _).bind fun _ => Keeps.ite
            (ih.value.bind fun _ => (keeps_expect stable _).bind fun _ =>
              (ih.members _).ite (hclose _ _)) keeps_fail) keeps_fail

end

end JsonInvariants
