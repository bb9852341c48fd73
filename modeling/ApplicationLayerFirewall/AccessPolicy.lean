import Mathlib.Data.List.Basic
import Mathlib.Data.List.Forall2
import Mathlib.Data.Set.Basic
import Mathlib.Order.Basic

/-!
# Policies made of white and black rules

A policy permits a request that some white rule covers, or that no black rule
covers. Requests are arbitrary, and a policy is the pair of sets its rules
cover, so order and multiplicity of the rules are gone from the start.
-/

namespace AccessPolicy

universe u v w x

structure Policy (Request : Type u) where
  white : Set Request
  black : Set Request

variable {Request : Type u}

def Policy.permitted (P : Policy Request) : Set Request :=
  {x | x ∈ P.white ∨ x ∉ P.black}

theorem Policy.mem_permitted {P : Policy Request} {x : Request} :
    x ∈ P.permitted ↔ x ∈ P.white ∨ x ∉ P.black := Iff.rfl

theorem Policy.not_mem_permitted {P : Policy Request} {x : Request} :
    x ∉ P.permitted ↔ x ∈ P.black ∧ x ∉ P.white := by
  rw [Policy.mem_permitted, not_or, not_not, and_comm]

/-- More white and less black permits more. -/
theorem Policy.permitted_mono {P Q : Policy Request} (white : P.white ⊆ Q.white)
    (black : Q.black ⊆ P.black) : P.permitted ⊆ Q.permitted := by
  rintro x (hwhite | hblack)
  · exact Or.inl (white hwhite)
  · exact Or.inr (fun h => hblack (black h))

/-- A policy whose rules cover more permits the same exactly when what is black only now is
white now, and what was refused is not white now. -/
theorem Policy.permitted_eq_iff {P Q : Policy Request} (white : P.white ⊆ Q.white)
    (black : P.black ⊆ Q.black) :
    (∀ x, x ∈ P.permitted ↔ x ∈ Q.permitted) ↔
      (∀ x, x ∈ Q.black → x ∉ P.black → x ∈ Q.white) ∧
      (∀ x, x ∈ P.black → x ∉ P.white → x ∉ Q.white) := by
  constructor
  · intro same
    refine ⟨fun x hnew hold => ?_, fun x hblack hwhite hnew => ?_⟩
    · rcases (same x).mp (Or.inr hold) with hwhite | hblack
      · exact hwhite
      · exact absurd hnew hblack
    · exact Policy.not_mem_permitted.mpr ⟨hblack, hwhite⟩ ((same x).mpr (Or.inl hnew))
  · rintro ⟨covered, refused⟩ x
    constructor
    · rintro (hwhite | hblack)
      · exact Or.inl (white hwhite)
      · by_cases hnew : x ∈ Q.black
        · exact Or.inl (covered x hnew hblack)
        · exact Or.inr hnew
    · rintro (hwhite | hblack)
      · by_contra hno
        obtain ⟨hblack, hnot⟩ := Policy.not_mem_permitted.mp hno
        exact refused x hblack hnot hwhite
      · exact Or.inr (fun h => hblack (black h))

/-- The verdict is the same on all of `S` exactly when the white rules cover
whatever the black ones cover there, or when all of `S` is refused. -/
theorem Policy.constant_on_iff (P : Policy Request) (S : Set Request) :
    (∀ x ∈ S, ∀ y ∈ S, x ∈ P.permitted ↔ y ∈ P.permitted) ↔
      (∀ x ∈ S, x ∈ P.black → x ∈ P.white) ∨
      (∀ x ∈ S, x ∈ P.black ∧ x ∉ P.white) := by
  constructor
  · intro same
    by_cases covered : ∀ x ∈ S, x ∈ P.black → x ∈ P.white
    · exact Or.inl covered
    · right
      push Not at covered
      obtain ⟨x, hx, hblack, hwhite⟩ := covered
      intro y hy
      have refused : x ∉ P.permitted := Policy.not_mem_permitted.mpr ⟨hblack, hwhite⟩
      exact Policy.not_mem_permitted.mp (fun hyp => refused ((same x hx y hy).mpr hyp))
  · rintro (covered | refused) x hx y hy
    · have all : ∀ z ∈ S, z ∈ P.permitted := fun z hz => by
        by_cases hblack : z ∈ P.black
        · exact Or.inl (covered z hz hblack)
        · exact Or.inr hblack
      exact ⟨fun _ => all y hy, fun _ => all x hx⟩
    · have none : ∀ z ∈ S, z ∉ P.permitted := fun z hz =>
        Policy.not_mem_permitted.mpr (refused z hz)
      exact ⟨fun h => False.elim (none x hx h), fun h => False.elim (none y hy h)⟩

/-! ### Policies written as lists of rules -/

/-- What a rule does for the requests it covers. -/
inductive Effect where
  | white
  | black
  | none
  deriving DecidableEq

section Rules

variable {Rule : Type v} (effect : Rule → Effect) (covers : Rule → Request → Prop)

def ofRules (rules : List Rule) : Policy Request where
  white := {x | ∃ r ∈ rules, effect r = .white ∧ covers r x}
  black := {x | ∃ r ∈ rules, effect r = .black ∧ covers r x}

/-- The rule changes no verdict, whatever rules stand around it. -/
def Inert (r : Rule) : Prop :=
  ∀ before after : List Rule,
    (ofRules effect covers (before ++ r :: after)).permitted =
      (ofRules effect covers (before ++ after)).permitted

variable {effect covers}

theorem not_mem_permitted {rules : List Rule} {x : Request} :
    x ∉ (ofRules effect covers rules).permitted ↔
      (∃ r ∈ rules, effect r = .black ∧ covers r x) ∧
        ¬ ∃ r ∈ rules, effect r = .white ∧ covers r x :=
  Policy.not_mem_permitted

@[simp] theorem not_mem_white_nil (x : Request) : x ∉ (ofRules effect covers []).white := by
  rintro ⟨r, hr, _⟩
  exact List.not_mem_nil hr

@[simp] theorem not_mem_black_nil (x : Request) : x ∉ (ofRules effect covers []).black := by
  rintro ⟨r, hr, _⟩
  exact List.not_mem_nil hr

theorem mem_white_cons {r : Rule} {rules : List Rule} {x : Request} :
    x ∈ (ofRules effect covers (r :: rules)).white ↔
      (effect r = .white ∧ covers r x) ∨ x ∈ (ofRules effect covers rules).white :=
  List.exists_mem_cons_iff (fun s => effect s = .white ∧ covers s x) r rules

theorem mem_black_cons {r : Rule} {rules : List Rule} {x : Request} :
    x ∈ (ofRules effect covers (r :: rules)).black ↔
      (effect r = .black ∧ covers r x) ∨ x ∈ (ofRules effect covers rules).black :=
  List.exists_mem_cons_iff (fun s => effect s = .black ∧ covers s x) r rules

theorem mem_permitted_nil (x : Request) :
    x ∈ (ofRules effect covers []).permitted :=
  Or.inr (not_mem_black_nil x)

/-- Enough that every white rule is covered by one of the other list, and every black
rule of that list by one of this. -/
theorem ofRules_permitted_mono {rules others : List Rule}
    (white : ∀ r ∈ rules, effect r = .white →
      ∃ s ∈ others, effect s = .white ∧ ∀ x, covers r x → covers s x)
    (black : ∀ s ∈ others, effect s = .black →
      ∃ r ∈ rules, effect r = .black ∧ ∀ x, covers s x → covers r x) :
    (ofRules effect covers rules).permitted ⊆ (ofRules effect covers others).permitted := by
  apply Policy.permitted_mono
  · rintro x ⟨r, hr, hwhite, hcovers⟩
    obtain ⟨s, hs, heffect, hwider⟩ := white r hr hwhite
    exact ⟨s, hs, heffect, hwider x hcovers⟩
  · rintro x ⟨s, hs, hblack, hcovers⟩
    obtain ⟨r, hr, heffect, hwider⟩ := black s hs hblack
    exact ⟨r, hr, heffect, hwider x hcovers⟩

/-- A rule is inert exactly when it has no effect or covers nothing. One rule
that refuses everything is enough to make every white rule visible. -/
theorem inert_iff {refuseAll : Rule} (hblack : effect refuseAll = .black)
    (hall : ∀ x, covers refuseAll x) (r : Rule) :
    Inert effect covers r ↔ effect r = .none ∨ ∀ x, ¬ covers r x := by
  constructor
  · intro inert
    cases hr : effect r with
    | none => exact Or.inl rfl
    | black =>
      right
      intro x hx
      have hmem : x ∈ (ofRules effect covers ([] ++ r :: [])).permitted := by
        rw [inert [] []]
        exact mem_permitted_nil x
      refine not_mem_permitted.mpr ⟨⟨r, by simp, hr, hx⟩, ?_⟩ hmem
      rintro ⟨s, hs, hwhite, _⟩
      rw [List.mem_singleton.mp hs, hr] at hwhite
      cases hwhite
    | white =>
      right
      intro x hx
      have hmem : x ∈ (ofRules effect covers ([] ++ r :: [refuseAll])).permitted :=
        Or.inl ⟨r, by simp, hr, hx⟩
      rw [inert [] [refuseAll]] at hmem
      refine not_mem_permitted.mpr ⟨⟨refuseAll, by simp, hblack, hall x⟩, ?_⟩ hmem
      rintro ⟨s, hs, hwhite, _⟩
      rw [List.mem_singleton.mp hs, hblack] at hwhite
      cases hwhite
  · intro silent before after
    have drop : ∀ e : Effect, e ≠ .none → ∀ x,
        (∃ s ∈ before ++ r :: after, effect s = e ∧ covers s x) ↔
          ∃ s ∈ before ++ after, effect s = e ∧ covers s x := by
      intro e he x
      constructor
      · rintro ⟨s, hs, heff, hcov⟩
        rcases List.mem_append.mp hs with hs | hs
        · exact ⟨s, List.mem_append_left _ hs, heff, hcov⟩
        · rcases List.mem_cons.mp hs with rfl | hs
          · rcases silent with hnone | hcovers
            · exact False.elim (he (heff.symm.trans hnone))
            · exact False.elim (hcovers x hcov)
          · exact ⟨s, List.mem_append_right _ hs, heff, hcov⟩
      · rintro ⟨s, hs, heff, hcov⟩
        refine ⟨s, ?_, heff, hcov⟩
        rcases List.mem_append.mp hs with hs | hs
        · exact List.mem_append_left _ hs
        · exact List.mem_append_right _ (List.mem_cons_of_mem r hs)
    ext x
    have hwhite := drop .white (by decide) x
    have hblack := drop .black (by decide) x
    exact or_congr hwhite (not_congr hblack)

end Rules

end AccessPolicy
