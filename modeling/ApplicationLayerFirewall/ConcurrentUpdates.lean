import ApplicationLayerFirewall.RequestHandler
import ApplicationLayerFirewall.TransitionRuns
import Mathlib.Data.List.Perm.Basic
import Mathlib.Logic.Function.Basic

/-!
# Updates from several connections

Each connection has a thread, and an update swaps the rules under the lock and
writes the flag without it. Two updates can therefore leave the rules of one and
the flag of the other. Any number of threads take their halves in any order
here, and the state left behind is compared with that of the same requests
handled one after another.
-/

namespace ConcurrentUpdates

open PicoJson RuleVerdict RuleJson RequestHandler TransitionRuns

/-! ### Requests -/

/-- An update that carries a list of rule objects and a flag. -/
structure Request (env : Env) where
  fields : Fields
  rules : RuleCollection
  enabled : Bool
  opt : optOf env fields = optUpdateRules
  data : ∃ arr, dataOf fields = some arr ∧ rulesOf env.undef arr = some rules
  flag : enabledOf fields = some enabled

variable {env : Env}

/-- The manager after the handler has dealt with a request alone. -/
def execute (m : RuleManager) (r : Request env) : RuleManager :=
  (handleValue env ⟨m, [], 0⟩ (.object r.fields)).2.manager

def serial (m : RuleManager) (order : List (Request env)) : RuleManager := order.foldl execute m

theorem execute_eq (m : RuleManager) (r : Request env) : execute m r = ⟨r.rules, r.enabled⟩ := by
  obtain ⟨arr, hdata, hrules⟩ := r.data
  have hmanager := (handleValue_object env ⟨m, [], 0⟩ r.fields).2
  rw [if_pos r.opt, updated_both hdata hrules r.flag] at hmanager
  exact hmanager

/-- Of several requests in a row only the last one shows. -/
theorem serial_append_singleton (m : RuleManager) (order : List (Request env))
    (r : Request env) : serial m (order ++ [r]) = ⟨r.rules, r.enabled⟩ := by
  simp [serial, execute_eq]

/-! ### Connection threads -/

/-- `pending t` is the request whose rules thread `t` has swapped in while its flag is
still to be written. The requests begun and those that wrote their flag are recorded,
the latest first. -/
structure State (env : Env) (Thread : Type) where
  manager : RuleManager
  pending : Thread → Option (Request env)
  begun : List (Request env)
  flagged : List (Request env)

inductive Action (env : Env) (Thread : Type) where
  | swapRules (t : Thread) (r : Request env)
  | setFlag (t : Thread)

variable {Thread : Type} [DecidableEq Thread]

/-- The locked half of an update. -/
def swapRules (t : Thread) (r : Request env) (s : State env Thread) : Option (State env Thread) :=
  match s.pending t with
  | some _ => none
  | none => some {
      manager := { s.manager with rules := r.rules }
      pending := Function.update s.pending t (some r)
      begun := r :: s.begun
      flagged := s.flagged }

def setFlag (t : Thread) (s : State env Thread) : Option (State env Thread) :=
  match s.pending t with
  | none => none
  | some r => some {
      manager := s.manager.setEnabled r.enabled
      pending := Function.update s.pending t none
      begun := s.begun
      flagged := r :: s.flagged }

def step (s : State env Thread) : Action env Thread → Option (State env Thread)
  | .swapRules t r => swapRules t r s
  | .setFlag t => setFlag t s

def start (m : RuleManager) : State env Thread := ⟨m, fun _ => none, [], []⟩

/-- All requests begun are finished. -/
def Finished (s : State env Thread) : Prop := ∀ t, s.pending t = none

/-- The requests handled one after another in some order lead to the same rules and flag. -/
def Serializable (m : RuleManager) (s : State env Thread) : Prop :=
  ∃ order : List (Request env), order.Perm s.begun ∧ serial m order = s.manager

/-- Some request carries both the rules that were swapped in last and the flag that was
written last. -/
def Together (s : State env Thread) : Prop :=
  ∀ a, s.begun.head? = some a → ∀ b, s.flagged.head? = some b →
    ∃ r ∈ s.begun, r.rules = a.rules ∧ r.enabled = b.enabled

/-- The two halves taken together are the handler's. -/
theorem update_uninterrupted {s : State env Thread} {t : Thread} (r : Request env)
    (hidle : s.pending t = none) :
    run step s [.swapRules t r, .setFlag t] = some {
      manager := execute s.manager r
      pending := s.pending
      begun := r :: s.begun
      flagged := r :: s.flagged } := by
  have hpending : Function.update s.pending t none = s.pending := by
    rw [← hidle, Function.update_eq_self]
  simp [run, step, swapRules, setFlag, hidle, execute_eq, RuleManager.setEnabled, hpending]

/-! ### The invariant -/

/-- The manager's halves are those of the latest requests. -/
structure Inv (m : RuleManager) (s : State env Thread) : Prop where
  rules : s.manager.rules = (s.begun.head?.map Request.rules).getD m.rules
  enabled : s.manager.enabled = (s.flagged.head?.map Request.enabled).getD m.enabled
  flagged : ∀ r ∈ s.flagged, r ∈ s.begun
  pending : ∀ t r, s.pending t = some r → r ∈ s.begun
  unflagged : s.flagged = [] → ∀ r ∈ s.begun, ∃ t, s.pending t = some r

omit [DecidableEq Thread] in
theorem start_inv (m : RuleManager) : Inv m (start m : State env Thread) where
  rules := rfl
  enabled := rfl
  flagged := fun _ h => h
  pending := by
    intro t r h
    cases h
  unflagged := by
    intro _ r h
    cases h

theorem step_cases {s next : State env Thread} {a : Action env Thread}
    (h : step s a = some next) :
    (∃ t r, a = .swapRules t r ∧ s.pending t = none ∧
      next = ⟨{ s.manager with rules := r.rules }, Function.update s.pending t (some r),
        r :: s.begun, s.flagged⟩) ∨
    (∃ t r, a = .setFlag t ∧ s.pending t = some r ∧
      next = ⟨s.manager.setEnabled r.enabled, Function.update s.pending t none,
        s.begun, r :: s.flagged⟩) := by
  cases a with
  | swapRules t r =>
    simp only [step, swapRules] at h
    cases hpending : s.pending t with
    | some _ =>
      rw [hpending] at h
      cases h
    | none =>
      rw [hpending] at h
      exact Or.inl ⟨t, r, rfl, hpending, (Option.some.inj h).symm⟩
  | setFlag t =>
    simp only [step, setFlag] at h
    cases hpending : s.pending t with
    | none =>
      rw [hpending] at h
      cases h
    | some r =>
      rw [hpending] at h
      exact Or.inr ⟨t, r, rfl, hpending, (Option.some.inj h).symm⟩

theorem step_inv {m : RuleManager} {s next : State env Thread} {a : Action env Thread}
    (inv : Inv m s) (h : step s a = some next) : Inv m next := by
  rcases step_cases h with ⟨t, r, rfl, hidle, rfl⟩ | ⟨t, r, rfl, hpending, rfl⟩
  · refine ⟨rfl, inv.enabled, fun q hq => List.mem_cons_of_mem _ (inv.flagged q hq),
      fun u q hu => ?_, fun hnone q hq => ?_⟩
    · by_cases hut : u = t
      · subst hut
        have hsame : r = q := by simpa using hu
        exact hsame ▸ List.mem_cons_self
      · have hq : s.pending u = some q := by simpa [hut] using hu
        exact List.mem_cons_of_mem _ (inv.pending u q hq)
    · rcases List.mem_cons.mp hq with rfl | hq
      · exact ⟨t, Function.update_self ..⟩
      · obtain ⟨u, hu⟩ := inv.unflagged hnone q hq
        have hut : u ≠ t := by
          rintro rfl
          rw [hidle] at hu
          cases hu
        exact ⟨u, (Function.update_of_ne hut ..).trans hu⟩
  · refine ⟨inv.rules, rfl, List.forall_mem_cons.mpr ⟨inv.pending t r hpending, inv.flagged⟩,
      fun u q hu => ?_, fun hnone => ?_⟩
    · by_cases hut : u = t
      · subst hut
        simp at hu
      · have hq : s.pending u = some q := by simpa [hut] using hu
        exact inv.pending u q hq
    · cases hnone

/-! ### Serial orders -/

theorem manager_eq_iff {m m' : RuleManager} :
    m = m' ↔ m.rules = m'.rules ∧ m.enabled = m'.enabled := by
  rcases m with ⟨rules, enabled⟩
  rcases m' with ⟨rules', enabled'⟩
  simp

omit [DecidableEq Thread] in
/-- Once a request was begun, only which one is executed last counts. -/
theorem serializable_iff {m : RuleManager} {s : State env Thread} (hbegun : s.begun ≠ []) :
    Serializable m s ↔
      ∃ r ∈ s.begun, r.rules = s.manager.rules ∧ r.enabled = s.manager.enabled := by
  constructor
  · rintro ⟨order, hperm, hserial⟩
    rcases List.eq_nil_or_concat' order with rfl | ⟨earlier, r, rfl⟩
    · exact absurd hperm.nil_eq.symm hbegun
    · rw [serial_append_singleton, manager_eq_iff] at hserial
      exact ⟨r, hperm.subset (by simp), hserial⟩
  · rintro ⟨r, hr, hrules⟩
    obtain ⟨earlier, later, hsplit⟩ := List.append_of_mem hr
    refine ⟨earlier ++ later ++ [r], ?_, ?_⟩
    · rw [hsplit, List.append_assoc]
      exact (List.perm_append_singleton r later).append_left earlier
    · rw [serial_append_singleton, manager_eq_iff]
      exact hrules

/-- What all threads together have left is the result of a serial order exactly when the
last rules and the last flag belong together. -/
theorem final_serializable_iff {m : RuleManager} {actions : List (Action env Thread)}
    {s : State env Thread} (hrun : run step (start m) actions = some s) (hdone : Finished s) :
    Serializable m s ↔ Together s := by
  have inv : Inv m s := run_preserves step_inv hrun (start_inv m)
  cases hbegun : s.begun with
  | nil =>
    have hflagged : s.flagged = [] := List.eq_nil_iff_forall_not_mem.mpr fun r hr => by
      have hmem := inv.flagged r hr
      rw [hbegun] at hmem
      cases hmem
    have hmanager : m = s.manager := manager_eq_iff.mpr
      ⟨by rw [inv.rules, hbegun]; rfl, by rw [inv.enabled, hflagged]; rfl⟩
    refine iff_of_true ⟨[], by rw [hbegun], hmanager⟩ fun a ha => ?_
    rw [hbegun] at ha
    cases ha
  | cons a earlier =>
    cases hflagged : s.flagged with
    | nil =>
      obtain ⟨t, ht⟩ := inv.unflagged hflagged a (hbegun ▸ List.mem_cons_self)
      rw [hdone t] at ht
      cases ht
    | cons b before =>
      have hrules : s.manager.rules = a.rules := by rw [inv.rules, hbegun]; rfl
      have henabled : s.manager.enabled = b.enabled := by rw [inv.enabled, hflagged]; rfl
      rw [serializable_iff (by rw [hbegun]; exact List.cons_ne_nil _ _), hrules, henabled,
        Together, hbegun, hflagged]
      simp

/-! ### Two threads -/

def bareEnv : Env := ⟨Text.ofTable [] "", zeros, []⟩

/-- Switch on, with no rules. -/
def openUp : Request bareEnv where
  fields := [("data", .array []), ("enabled", .number 1), ("opt", .number 2)]
  rules := []
  enabled := true
  opt := by decide +kernel
  data := ⟨[], rfl, rfl⟩
  flag := by decide +kernel

/-- Switch off, with one rule in which nothing is set. -/
def closeDown : Request bareEnv where
  fields := [("data", .array [.object []]), ("enabled", .number 0), ("opt", .number 2)]
  rules := [ruleOf zeros []]
  enabled := false
  opt := by decide +kernel
  data := ⟨[.object []], rfl, rfl⟩
  flag := by decide +kernel

def inTurn : List (Action bareEnv Bool) :=
  [.swapRules false openUp, .setFlag false, .swapRules true closeDown, .setFlag true]

theorem inTurn_serializable : ∃ s, run step (start ⟨[], false⟩) inTurn = some s ∧
    (Serializable ⟨[], false⟩ s ↔ Together s) := by
  obtain ⟨s, hs, hdone⟩ : ∃ s, run step (start ⟨[], false⟩) inTurn = some s ∧ Finished s :=
    ⟨_, rfl, by intro t; cases t <;> rfl⟩
  exact ⟨s, hs, final_serializable_iff hs hdone⟩

def overlapping : List (Action bareEnv Bool) :=
  [.swapRules false openUp, .swapRules true closeDown, .setFlag true, .setFlag false]

/-- The rules of the second request are left with the flag of the first. -/
theorem overlapping_not_serializable : ∃ s,
    run step (start ⟨[], false⟩) overlapping = some s ∧ Finished s ∧
    s.manager = ⟨closeDown.rules, openUp.enabled⟩ ∧ ¬ Serializable ⟨[], false⟩ s := by
  refine ⟨_, rfl, by intro t; cases t <;> rfl, rfl, fun hserial => ?_⟩
  obtain ⟨r, hr, hrules, henabled⟩ := (serializable_iff (List.cons_ne_nil _ _)).mp hserial
  rcases List.mem_cons.mp hr with rfl | hr
  · cases henabled
  · rw [List.mem_singleton.mp hr] at hrules
    cases hrules

end ConcurrentUpdates
