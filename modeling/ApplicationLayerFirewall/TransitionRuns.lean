import Mathlib.Data.List.Forall2
import Mathlib.Data.List.Infix

/-!
# Runs of a step function

A step function takes a state and an action and may refuse. A run is a list of
actions none of which is refused. Nothing is assumed about who chooses them, so
a theorem about all runs is one about every interleaving of the parties whose
actions they are.
-/

namespace TransitionRuns

universe u v w x

variable {State : Type u} {Action : Type v}

/-- The state after the actions, unless one is refused. -/
def run (step : State → Action → Option State) : State → List Action → Option State
  | s, [] => some s
  | s, a :: rest => (step s a).bind (fun next => run step next rest)

/-- Every action meets a condition in the state where it is taken. -/
def Throughout (step : State → Action → Option State) (Meets : State → Action → Prop) :
    State → List Action → Prop
  | _, [] => True
  | s, a :: rest => Meets s a ∧ ∀ next, step s a = some next → Throughout step Meets next rest

/-- Every state that the actions lead through is good, the first and the last included. -/
def Always (step : State → Action → Option State) (Good : State → Prop) (s : State)
    (actions : List Action) : Prop :=
  ∀ before, before <+: actions → ∀ t, run step s before = some t → Good t

variable {step : State → Action → Option State}

theorem run_cons_eq_some_iff {s final : State} {a : Action} {rest : List Action} :
    run step s (a :: rest) = some final ↔
      ∃ next, step s a = some next ∧ run step next rest = some final :=
  Option.bind_eq_some_iff

/-- What every step preserves, every run preserves. -/
theorem run_preserves {Inv : State → Prop}
    (preserved : ∀ {s a next}, Inv s → step s a = some next → Inv next) {s final : State}
    {actions : List Action} (hrun : run step s actions = some final) (h : Inv s) : Inv final := by
  induction actions generalizing s with
  | nil => exact Option.some.inj hrun ▸ h
  | cons a rest ih =>
    obtain ⟨next, hstep, hrest⟩ := run_cons_eq_some_iff.mp hrun
    exact ih hrest (preserved h hstep)

theorem throughout_cons_iff {Meets : State → Action → Prop} {s next : State} {a : Action}
    {rest : List Action} (hstep : step s a = some next) :
    Throughout step Meets s (a :: rest) ↔ Meets s a ∧ Throughout step Meets next rest := by
  rw [Throughout]
  refine and_congr_right fun _ => ⟨fun hall => hall next hstep, fun hnext t ht => ?_⟩
  exact Option.some.inj (hstep.symm.trans ht) ▸ hnext

/-- What holds throughout a run holds of the action taken after any part of it. -/
theorem Throughout.at {Meets : State → Action → Prop} {s t : State} {before rest : List Action}
    {a : Action} (h : Throughout step Meets s (before ++ a :: rest))
    (hrun : run step s before = some t) : Meets t a := by
  induction before generalizing s with
  | nil => exact Option.some.inj hrun ▸ h.1
  | cons b before ih =>
    obtain ⟨next, hstep, hrest⟩ := run_cons_eq_some_iff.mp hrun
    exact ih ((throughout_cons_iff hstep).mp h).2 hrest

/-- What every step that meets a condition preserves, a run of such steps preserves. -/
theorem throughout_preserves {Inv : State → Prop} {Meets : State → Action → Prop}
    (preserved : ∀ {s a next}, Inv s → Meets s a → step s a = some next → Inv next)
    {s final : State} {actions : List Action} (hrun : run step s actions = some final)
    (hmeets : Throughout step Meets s actions) (h : Inv s) : Inv final := by
  induction actions generalizing s with
  | nil => exact Option.some.inj hrun ▸ h
  | cons a rest ih =>
    obtain ⟨next, hstep, hrest⟩ := run_cons_eq_some_iff.mp hrun
    obtain ⟨hfirst, hlater⟩ := (throughout_cons_iff hstep).mp hmeets
    exact ih hrest hlater (preserved h hfirst hstep)

/-- If a step keeps a property exactly when it meets a condition, then a run keeps it
exactly when all its steps do. -/
theorem run_iff_throughout {Inv Good : State → Prop} {Meets : State → Action → Prop}
    (preserved : ∀ {s a next}, Inv s → step s a = some next → Inv next)
    (kept : ∀ {s a next}, Inv s → step s a = some next → (Good next ↔ Good s ∧ Meets s a))
    {s final : State} {actions : List Action} (hrun : run step s actions = some final)
    (h : Inv s) : Good final ↔ Good s ∧ Throughout step Meets s actions := by
  induction actions generalizing s with
  | nil =>
    have hsame : s = final := Option.some.inj hrun
    subst hsame
    exact (and_iff_left trivial).symm
  | cons a rest ih =>
    obtain ⟨next, hstep, hrest⟩ := run_cons_eq_some_iff.mp hrun
    rw [ih hrest (preserved h hstep), kept h hstep, throughout_cons_iff hstep, and_assoc]

/-- A condition on the actions alone holds throughout a run when each action meets it. -/
theorem throughout_const_iff {Meets : Action → Prop} {s final : State} {actions : List Action}
    (hrun : run step s actions = some final) :
    Throughout step (fun _ a => Meets a) s actions ↔ ∀ a ∈ actions, Meets a := by
  induction actions generalizing s with
  | nil => exact iff_of_true trivial (fun a h => (List.not_mem_nil h).elim)
  | cons a rest ih =>
    obtain ⟨next, hstep, hrest⟩ := run_cons_eq_some_iff.mp hrun
    rw [throughout_cons_iff hstep, List.forall_mem_cons, ih hrest]

/-- Two conditions that agree wherever an invariant holds agree along a run if each step
that meets them keeps the invariant. -/
theorem throughout_congr {Inv : State → Prop} {Safe Meets : State → Action → Prop}
    (same : ∀ {s a next}, Inv s → step s a = some next → (Safe s a ↔ Meets s a))
    (preserved : ∀ {s a next}, Inv s → Safe s a → step s a = some next → Inv next)
    {s final : State} {actions : List Action} (hrun : run step s actions = some final)
    (h : Inv s) : Throughout step Safe s actions ↔ Throughout step Meets s actions := by
  induction actions generalizing s with
  | nil => exact Iff.rfl
  | cons a rest ih =>
    obtain ⟨next, hstep, hrest⟩ := run_cons_eq_some_iff.mp hrun
    rw [throughout_cons_iff hstep, throughout_cons_iff hstep, ← same h hstep]
    exact and_congr_right fun hsafe => ih hrest (preserved h hsafe hstep)

/-! ### Every state on the way -/

variable {Good : State → Prop}

theorem always_nil_iff {s : State} : Always step Good s [] ↔ Good s := by
  constructor
  · intro h
    exact h [] (List.prefix_refl []) s rfl
  · intro h before hbefore t ht
    rw [List.prefix_nil.mp hbefore] at ht
    exact Option.some.inj ht ▸ h

theorem always_cons_iff {s next : State} {a : Action} {rest : List Action}
    (hstep : step s a = some next) :
    Always step Good s (a :: rest) ↔ Good s ∧ Always step Good next rest := by
  constructor
  · intro h
    refine ⟨h [] List.nil_prefix s rfl, fun before hbefore t ht => ?_⟩
    exact h (a :: before) (List.cons_prefix_cons.mpr ⟨rfl, hbefore⟩) t
      (run_cons_eq_some_iff.mpr ⟨next, hstep, ht⟩)
  · rintro ⟨hfirst, hrest⟩ before hbefore t ht
    rcases List.prefix_cons_iff.mp hbefore with rfl | ⟨later, rfl, hlater⟩
    · exact Option.some.inj ht ▸ hfirst
    · obtain ⟨mid, hmid, ht⟩ := run_cons_eq_some_iff.mp ht
      rw [Option.some.inj (hmid.symm.trans hstep)] at ht
      exact hrest later hlater t ht

/-- If a step from a good state leads to a good one exactly when it meets a condition,
then a run passes good states only exactly when all its steps do. Past the first bad
state nothing is known, and nothing has to be. -/
theorem always_iff_throughout {Inv : State → Prop} {Meets : State → Action → Prop}
    (preserved : ∀ {s a next}, Inv s → step s a = some next → Inv next)
    (kept : ∀ {s a next}, Inv s → Good s → step s a = some next → (Good next ↔ Meets s a))
    {s final : State} {actions : List Action} (hrun : run step s actions = some final)
    (h : Inv s) (hgood : Good s) :
    Always step Good s actions ↔ Throughout step Meets s actions := by
  induction actions generalizing s with
  | nil => exact iff_of_true (always_nil_iff.mpr hgood) trivial
  | cons a rest ih =>
    obtain ⟨next, hstep, hrest⟩ := run_cons_eq_some_iff.mp hrun
    rw [always_cons_iff hstep, throughout_cons_iff hstep, ← kept h hgood hstep,
      and_iff_right hgood]
    constructor
    · intro hall
      have hnext : Good next := hall [] List.nil_prefix next rfl
      exact ⟨hnext, (ih hrest (preserved h hstep) hnext).mp hall⟩
    · rintro ⟨hnext, hthroughout⟩
      exact (ih hrest (preserved h hstep) hnext).mpr hthroughout

/-! ### Simulation -/

section
variable {Model : Type w} {Command : Type x} (next : Model → Command → Model) (Fits : Model → Prop)

end

/-- If related states take corresponding actions to related states or refuse both, so do
whole runs of corresponding actions. -/
theorem run_related {Same : State → State → Prop} {f : Action → Action}
    (corresponds : ∀ {s t} (a : Action), Same s t → Option.Rel Same (step s a) (step t (f a)))
    {s t : State} (h : Same s t) (actions : List Action) :
    Option.Rel Same (run step s actions) (run step t (actions.map f)) := by
  induction actions generalizing s t with
  | nil => exact .some h
  | cons a rest ih =>
    have hfirst := corresponds a h
    rw [List.map_cons, run, run]
    generalize step s a = next, step t (f a) = next' at hfirst
    cases hfirst with
    | none => exact .none
    | some hnext => exact ih hnext

end TransitionRuns
