import ApplicationLayerFirewall.TransitionRuns
import Mathlib.Logic.Function.Basic

/-!
# The table of connection threads

The table is indexed by descriptors. A thread closes its descriptor before it
detaches its handle, so the descriptor can come back while the slot is in use;
and it runs before its handle is stored, so it can look for the handle too
early. Either mistake ends the process. The actions of the acceptor and of the
threads come in any order here; threads are numbered as they are started. That a
thread's function, which returns an integer, comes to its end behind `detach`
without a return is undefined in the language, and is left out: it ends here.
-/

namespace ThreadTable

open TransitionRuns

/-! ### Acceptor and threads -/

inductive Acceptor where
  | listening
  | accepted (fd : Nat)
  | holding (fd : Nat) (t : Nat)
  deriving DecidableEq

/-- A thread that fails to send a response returns at once: it neither closes its
descriptor nor detaches its handle. -/
inductive Phase where
  | unborn
  | serving (fd : Nat)
  | failed (fd : Nat)
  | closed (fd : Nat)
  | detached
  deriving DecidableEq

/-- The open descriptor that belongs to a thread. -/
def Phase.uses : Phase → Option Nat
  | .serving fd | .failed fd => some fd
  | _ => none

/-- The slot that a thread's handle is meant for, until it is detached. -/
def Phase.slot : Phase → Option Nat
  | .serving fd | .failed fd | .closed fd => some fd
  | _ => none

/-- A slot without a thread is empty or not joinable. -/
structure State where
  acceptor : Acceptor
  opened : List Nat
  next : Nat
  phase : Nat → Phase
  slots : Nat → Option Nat
  ended : Bool

inductive Action where
  | accept (fd : Nat)
  | startThread
  | store
  | fail (t : Nat)
  | closeFd (t : Nat)
  | detach (t : Nat)

def State.enter (s : State) (t : Nat) (p : Phase) : State :=
  { s with phase := Function.update s.phase t p }

/-- The system returns a descriptor that is not open. -/
def accept (fd : Nat) (s : State) : Option State :=
  match s.acceptor with
  | .listening =>
    if fd ∈ s.opened then none
    else some { s with acceptor := .accepted fd, opened := fd :: s.opened }
  | _ => none

def startThread (s : State) : Option State :=
  match s.acceptor with
  | .accepted fd =>
    some { s.enter s.next (.serving fd) with
      acceptor := .holding fd s.next
      next := s.next + 1 }
  | _ => none

/-- `m_threads[_newFd] = std::thread(...)` ends the process over a joinable thread. -/
def store (s : State) : Option State :=
  match s.acceptor with
  | .holding fd t =>
    match s.slots fd with
    | some _ => some { s with ended := true }
    | none => some { s with
        acceptor := .listening
        slots := Function.update s.slots fd (some t) }
  | _ => none

def fail (t : Nat) (s : State) : Option State :=
  match s.phase t with
  | .serving fd => some (s.enter t (.failed fd))
  | _ => none

def closeFd (t : Nat) (s : State) : Option State :=
  match s.phase t with
  | .serving fd => some { s.enter t (.closed fd) with
      opened := s.opened.filter (fun other => other ≠ fd) }
  | _ => none

/-- `m_threads[fd].detach()` throws for a slot that is not joinable, and otherwise
detaches the thread that the slot holds, whichever that is. -/
def detach (t : Nat) (s : State) : Option State :=
  match s.phase t with
  | .closed fd =>
    match s.slots fd with
    | none => some { s with ended := true }
    | some _ => some { s.enter t .detached with slots := Function.update s.slots fd none }
  | _ => none

def step (s : State) (a : Action) : Option State :=
  if s.ended then none else
  match a with
  | .accept fd => accept fd s
  | .startThread => startThread s
  | .store => store s
  | .fail t => fail t s
  | .closeFd t => closeFd t s
  | .detach t => detach t s

def start : State := ⟨.listening, [], 0, fun _ => .unborn, fun _ => none, false⟩

/-- The acceptor stores into a slot that holds no joinable thread, and a thread detaches
its own. -/
def Safe (s : State) : Action → Prop
  | .store => ∀ fd t, s.acceptor = .holding fd t → s.slots fd = none
  | .detach t => ∀ fd, s.phase t = .closed fd → s.slots fd = some t
  | _ => True

/-- At a store no other thread of the descriptor is between its close and its detach, and
a thread detaches only after the acceptor has stored its handle. -/
def Meets (s : State) : Action → Prop
  | .store => ∀ fd t, s.acceptor = .holding fd t → ∀ u, u ≠ t → s.phase u ≠ .closed fd
  | .detach t => ∀ fd, s.phase t = .closed fd → s.acceptor ≠ .holding fd t
  | _ => True

/-! ### The invariant -/

/-- A slot holds the thread that still needs it, unless the acceptor has yet to store it. -/
structure Inv (s : State) : Prop where
  slots : ∀ fd u, s.slots fd = some u ↔ (s.phase u).slot = some fd ∧ s.acceptor ≠ .holding fd u
  opened : ∀ u fd, (s.phase u).uses = some fd → fd ∈ s.opened
  usesOnce : ∀ u v fd, (s.phase u).uses = some fd → (s.phase v).uses = some fd → u = v
  accepted : ∀ fd, s.acceptor = .accepted fd →
    fd ∈ s.opened ∧ ∀ u, (s.phase u).uses ≠ some fd
  holding : ∀ fd t, s.acceptor = .holding fd t →
    (s.phase t).slot = some fd ∧ ∀ u, (s.phase u).uses = some fd → u = t
  unborn : ∀ u, s.next ≤ u → s.phase u = .unborn

theorem start_inv : Inv start where
  slots := by simp [start, Phase.slot]
  opened := by simp [start, Phase.uses]
  usesOnce := by simp [start, Phase.uses]
  accepted := by simp [start]
  holding := by simp [start]
  unborn := fun _ _ => rfl

/-- A descriptor whose handle is still needed is in use or closed. -/
theorem Phase.slot_cases {p : Phase} {fd : Nat} (h : p.slot = some fd) :
    p.uses = some fd ∨ p = .closed fd := by
  cases p <;> simp_all [Phase.slot, Phase.uses]

/-- The two conditions agree as long as the slots are in order. -/
theorem safe_iff_meets {s : State} (inv : Inv s) (a : Action) : Safe s a ↔ Meets s a := by
  cases a with
  | store =>
    constructor
    · intro hsafe fd t hholding u hut hclosed
      have hslot : s.slots fd = some u := (inv.slots fd u).mpr
        ⟨by rw [hclosed]; rfl, by rw [hholding]; simp [Ne.symm hut]⟩
      rw [hsafe fd t hholding] at hslot
      cases hslot
    · intro hmeets fd t hholding
      refine Option.eq_none_iff_forall_ne_some.mpr fun u hslot => ?_
      obtain ⟨hu, hother⟩ := (inv.slots fd u).mp hslot
      have hut : u ≠ t := by
        rintro rfl
        exact hother hholding
      rcases Phase.slot_cases hu with huses | hclosed
      · exact hut ((inv.holding fd t hholding).2 u huses)
      · exact hmeets fd t hholding u hut hclosed
  | detach t =>
    refine forall_congr' fun fd => forall_congr' fun hclosed => ?_
    rw [inv.slots fd t]
    exact and_iff_right (by rw [hclosed]; rfl)
  | _ => exact Iff.rfl

/-! ### Steps -/

/-- What an action does, and when it can be taken. -/
inductive Steps (s : State) : Action → State → Prop where
  | accept {fd : Nat} : s.acceptor = .listening → fd ∉ s.opened →
      Steps s (.accept fd) { s with acceptor := .accepted fd, opened := fd :: s.opened }
  | startThread {fd : Nat} : s.acceptor = .accepted fd →
      Steps s .startThread { s.enter s.next (.serving fd) with
        acceptor := .holding fd s.next
        next := s.next + 1 }
  | store {fd t : Nat} : s.acceptor = .holding fd t → s.slots fd = none →
      Steps s .store { s with
        acceptor := .listening
        slots := Function.update s.slots fd (some t) }
  | storeOver {fd t u : Nat} : s.acceptor = .holding fd t → s.slots fd = some u →
      Steps s .store { s with ended := true }
  | fail {t fd : Nat} : s.phase t = .serving fd → Steps s (.fail t) (s.enter t (.failed fd))
  | closeFd {t fd : Nat} : s.phase t = .serving fd →
      Steps s (.closeFd t) { s.enter t (.closed fd) with
        opened := s.opened.filter (fun other => other ≠ fd) }
  | detach {t fd u : Nat} : s.phase t = .closed fd → s.slots fd = some u →
      Steps s (.detach t) { s.enter t .detached with slots := Function.update s.slots fd none }
  | detachNone {t fd : Nat} : s.phase t = .closed fd → s.slots fd = none →
      Steps s (.detach t) { s with ended := true }

theorem steps_of_step {s next : State} {a : Action} (h : step s a = some next) :
    Steps s a next := by
  rw [step.eq_def] at h
  split_ifs at h
  cases a with
  | accept fd =>
    simp only [ThreadTable.accept] at h
    split at h
    · split_ifs at h
      cases h
      exact .accept ‹_› ‹_›
    · cases h
  | startThread =>
    simp only [ThreadTable.startThread] at h
    split at h <;> cases h
    exact .startThread ‹_›
  | store =>
    simp only [ThreadTable.store] at h
    split at h
    · split at h <;> cases h
      · exact .storeOver ‹_› ‹_›
      · exact .store ‹_› ‹_›
    · cases h
  | fail t =>
    simp only [ThreadTable.fail] at h
    split at h <;> cases h
    exact .fail ‹_›
  | closeFd t =>
    simp only [ThreadTable.closeFd] at h
    split at h <;> cases h
    exact .closeFd ‹_›
  | detach t =>
    simp only [ThreadTable.detach] at h
    split at h
    · split at h <;> cases h
      · exact .detachNone ‹_› ‹_›
      · exact .detach ‹_› ‹_›
    · cases h

section
variable {s : State} {t fd : Nat}

theorem enter_phase (s : State) (t : Nat) (p : Phase) (u : Nat) :
    (s.enter t p).phase u = if u = t then p else s.phase u := Function.update_apply ..

theorem uses_enter {p : Phase} (h : p.uses = (s.phase t).uses) (u : Nat) :
    ((s.enter t p).phase u).uses = (s.phase u).uses := by
  rw [enter_phase]
  split_ifs with hu
  · rw [hu, h]
  · rfl

theorem slot_enter {p : Phase} (h : p.slot = (s.phase t).slot) (u : Nat) :
    ((s.enter t p).phase u).slot = (s.phase u).slot := by
  rw [enter_phase]
  split_ifs with hu
  · rw [hu, h]
  · rfl

theorem Inv.accept (inv : Inv s) (hlistening : s.acceptor = .listening) (hfd : fd ∉ s.opened) :
    Inv { s with acceptor := .accepted fd, opened := fd :: s.opened } where
  slots := by
    intro other u
    simp [inv.slots other u, hlistening]
  opened := fun u other h => List.mem_cons_of_mem _ (inv.opened u other h)
  usesOnce := inv.usesOnce
  accepted := by
    intro other h
    cases h
    exact ⟨List.mem_cons_self, fun u hu => hfd (inv.opened u fd hu)⟩
  holding := nofun
  unborn := inv.unborn

theorem Inv.startThread (inv : Inv s) (haccepted : s.acceptor = .accepted fd) :
    Inv { s.enter s.next (.serving fd) with
      acceptor := .holding fd s.next
      next := s.next + 1 } := by
  obtain ⟨hopen, hunused⟩ := inv.accepted fd haccepted
  have hunborn : s.phase s.next = .unborn := inv.unborn s.next (Nat.le_refl _)
  have huses : ∀ u other, ((s.enter s.next (.serving fd)).phase u).uses = some other →
      (u = s.next ∧ other = fd) ∨ (u ≠ s.next ∧ (s.phase u).uses = some other) := by
    intro u other hu
    rw [enter_phase] at hu
    split_ifs at hu with hnew
    · exact Or.inl ⟨hnew, (Option.some.inj hu).symm⟩
    · exact Or.inr ⟨hnew, hu⟩
  exact {
    slots := by
      intro other u
      by_cases hu : u = s.next
      · subst hu
        simp [inv.slots other s.next, State.enter, hunborn, Phase.slot]
      · simp [inv.slots other u, State.enter, hu, Ne.symm hu, haccepted]
    opened := by
      intro u other hu
      rcases huses u other hu with ⟨_, rfl⟩ | ⟨_, hu⟩
      · exact hopen
      · exact inv.opened u other hu
    usesOnce := by
      intro u v other hu hv
      rcases huses u other hu with ⟨rfl, rfl⟩ | ⟨_, hu⟩
      · rcases huses v _ hv with ⟨hv, _⟩ | ⟨_, hv⟩
        · exact hv.symm
        · exact absurd hv (hunused v)
      · rcases huses v other hv with ⟨_, hfd⟩ | ⟨_, hv⟩
        · exact absurd (hfd ▸ hu) (hunused u)
        · exact inv.usesOnce u v other hu hv
    accepted := nofun
    holding := by
      intro other u h
      cases h
      refine ⟨by simp [State.enter, Phase.slot], fun u hu => ?_⟩
      rcases huses u _ hu with ⟨hu, _⟩ | ⟨_, hu⟩
      · exact hu
      · exact absurd hu (hunused u)
    unborn := by
      intro u hu
      have hne : u ≠ s.next := Nat.ne_of_gt hu
      simpa [State.enter, hne] using inv.unborn u (Nat.le_of_succ_le hu) }

theorem Inv.store (inv : Inv s) (hholding : s.acceptor = .holding fd t)
    (hempty : s.slots fd = none) :
    Inv { s with acceptor := .listening, slots := Function.update s.slots fd (some t) } where
  slots := by
    intro other u
    obtain ⟨hslot, _⟩ := inv.holding fd t hholding
    by_cases hother : other = fd
    · subst hother
      constructor
      · intro h
        have hut : t = u := by simpa using h
        subst hut
        exact ⟨hslot, nofun⟩
      · rintro ⟨hu, _⟩
        by_cases hut : u = t
        · simp [hut]
        · have hin := (inv.slots other u).mpr ⟨hu, by rw [hholding]; simp [Ne.symm hut]⟩
          rw [hempty] at hin
          cases hin
    · have hneither : s.acceptor ≠ .holding other u := by simp [hholding, Ne.symm hother]
      simp [hother, inv.slots other u, hneither]
  opened := inv.opened
  usesOnce := inv.usesOnce
  accepted := nofun
  holding := nofun
  unborn := inv.unborn

/-- The threads to come are not concerned by what one that was started does. -/
theorem Inv.unborn_enter (inv : Inv s) {p : Phase} (hborn : s.phase t ≠ .unborn) (u : Nat)
    (hu : s.next ≤ u) : (s.enter t p).phase u = .unborn := by
  have hut : u ≠ t := by
    rintro rfl
    exact hborn (inv.unborn u hu)
  rw [enter_phase, if_neg hut]
  exact inv.unborn u hu

theorem Inv.fail (inv : Inv s) (hserving : s.phase t = .serving fd) :
    Inv (s.enter t (.failed fd)) := by
  have huses : ∀ u, ((s.enter t (.failed fd)).phase u).uses = (s.phase u).uses :=
    uses_enter (by rw [hserving]; rfl)
  have hslot : ∀ u, ((s.enter t (.failed fd)).phase u).slot = (s.phase u).slot :=
    slot_enter (by rw [hserving]; rfl)
  refine ⟨fun other u => ?_, fun u other => ?_, fun u v other => ?_, fun other h => ?_,
    fun other u h => ?_, inv.unborn_enter (by simp [hserving])⟩
  · rw [hslot u]
    exact inv.slots other u
  · rw [huses u]
    exact inv.opened u other
  · rw [huses u, huses v]
    exact inv.usesOnce u v other
  · simp only [huses]
    exact inv.accepted other h
  · simp only [huses, hslot]
    exact inv.holding other u h

theorem Inv.closeFd (inv : Inv s) (hserving : s.phase t = .serving fd) :
    Inv { s.enter t (.closed fd) with
      opened := s.opened.filter (fun other => other ≠ fd) } := by
  have hfd : (s.phase t).uses = some fd := by rw [hserving]; rfl
  have huses : ∀ u other, ((s.enter t (.closed fd)).phase u).uses = some other →
      (s.phase u).uses = some other ∧ other ≠ fd := by
    intro u other hu
    rw [enter_phase] at hu
    split_ifs at hu with hut
    · cases hu
    · refine ⟨hu, ?_⟩
      rintro rfl
      exact hut (inv.usesOnce u t other hu hfd)
  have hslot : ∀ u, ((s.enter t (.closed fd)).phase u).slot = (s.phase u).slot :=
    slot_enter (by rw [hserving]; rfl)
  refine ⟨fun other u => ?_, fun u other hu => ?_, fun u v other hu hv => ?_, fun other h => ?_,
    fun other u h => ?_, inv.unborn_enter (by simp [hserving])⟩
  · exact (hslot u).symm ▸ inv.slots other u
  · obtain ⟨hbefore, hne⟩ := huses u other hu
    exact List.mem_filter.mpr ⟨inv.opened u other hbefore, decide_eq_true hne⟩
  · exact inv.usesOnce u v other (huses u other hu).1 (huses v other hv).1
  · obtain ⟨hopen, hunused⟩ := inv.accepted other h
    refine ⟨List.mem_filter.mpr ⟨hopen, decide_eq_true ?_⟩, fun u hu => ?_⟩
    · rintro rfl
      exact hunused t hfd
    · exact hunused u (huses u other hu).1
  · obtain ⟨hheld, honly⟩ := inv.holding other u h
    exact ⟨(hslot u).trans hheld, fun v hv => honly v (huses v other hv).1⟩

theorem Inv.detach (inv : Inv s) (hclosed : s.phase t = .closed fd)
    (hown : s.slots fd = some t) :
    Inv { s.enter t .detached with slots := Function.update s.slots fd none } := by
  have hstored : s.acceptor ≠ .holding fd t := ((inv.slots fd t).mp hown).2
  have huses : ∀ u, ((s.enter t .detached).phase u).uses = (s.phase u).uses :=
    uses_enter (by rw [hclosed]; rfl)
  refine ⟨fun other u => ?_, fun u other hu => ?_, fun u v other hu hv => ?_, fun other h => ?_,
    fun other u h => ?_, inv.unborn_enter (by simp [hclosed])⟩
  · by_cases hut : u = t
    · subst hut
      by_cases hother : other = fd
      · simp [State.enter, Phase.slot, hother]
      · simp [State.enter, Phase.slot, hother, inv.slots other u, hclosed, Ne.symm hother]
    · by_cases hother : other = fd
      · subst hother
        have hno : ¬ ((s.phase u).slot = some other ∧ s.acceptor ≠ .holding other u) := by
          rw [← inv.slots other u, hown]
          simp [Ne.symm hut]
        simpa [State.enter, hut] using hno
      · simp [State.enter, hut, hother, inv.slots other u]
  · exact inv.opened u other ((huses u).symm.trans hu)
  · exact inv.usesOnce u v other ((huses u).symm.trans hu) ((huses v).symm.trans hv)
  · obtain ⟨hopen, hunused⟩ := inv.accepted other h
    exact ⟨hopen, fun u hu => hunused u ((huses u).symm.trans hu)⟩
  · obtain ⟨hheld, honly⟩ := inv.holding other u h
    refine ⟨?_, fun v hv => honly v ((huses v).symm.trans hv)⟩
    have hut : u ≠ t := by
      rintro rfl
      rw [hclosed] at hheld
      cases hheld
      exact hstored h
    simpa [State.enter, hut] using hheld

end

/-- A safe step keeps the slots in order. -/
theorem step_inv {s next : State} {a : Action} (inv : Inv s) (hsafe : Safe s a)
    (h : step s a = some next) : Inv next := by
  cases steps_of_step h with
  | accept hlistening hfd => exact inv.accept hlistening hfd
  | startThread haccepted => exact inv.startThread haccepted
  | store hholding hempty => exact inv.store hholding hempty
  | storeOver hholding hslot =>
    rw [hsafe _ _ hholding] at hslot
    cases hslot
  | fail hserving => exact inv.fail hserving
  | closeFd hserving => exact inv.closeFd hserving
  | detach hclosed _ => exact inv.detach hclosed (hsafe _ hclosed)
  | detachNone hclosed hempty =>
    rw [hsafe _ hclosed] at hempty
    cases hempty

theorem step_running {s next : State} {a : Action} (inv : Inv s ∧ s.ended = false)
    (hsafe : Safe s a) (h : step s a = some next) : Inv next ∧ next.ended = false := by
  refine ⟨step_inv inv.1 hsafe h, ?_⟩
  cases steps_of_step h with
  | storeOver hholding hslot =>
    rw [hsafe _ _ hholding] at hslot
    cases hslot
  | detachNone hclosed hempty =>
    rw [hsafe _ hclosed] at hempty
    cases hempty
  | _ => exact inv.2

/-! ### Runs -/

/-- A table that is used safely does not end the process. -/
theorem run_running {actions : List Action} {final : State}
    (hrun : run step start actions = some final) (hsafe : Throughout step Safe start actions) :
    final.ended = false :=
  (throughout_preserves step_running hrun hsafe ⟨start_inv, rfl⟩).2

/-- In a run of acceptor and threads the table is used safely throughout exactly when no
descriptor comes back too early and no thread is done too early. -/
theorem run_safe_iff {actions : List Action} {final : State}
    (hrun : run step start actions = some final) :
    Throughout step Safe start actions ↔ Throughout step Meets start actions :=
  throughout_congr (fun inv _ => safe_iff_meets inv _) step_inv hrun start_inv

/-! ### A client that leaves quickly -/

/-- Two connections in turn, on the same descriptor. -/
def inTurn : List Action :=
  [.accept 5, .startThread, .store, .closeFd 0, .detach 0, .accept 5, .startThread, .store]

theorem inTurn_safe : ∃ s, run step start inTurn = some s ∧
    (Throughout step Safe start inTurn ↔ Throughout step Meets start inTurn) :=
  ⟨_, rfl, run_safe_iff rfl⟩

/-- The descriptor is taken again before the first thread has detached its handle. -/
def reused : List Action :=
  [.accept 5, .startThread, .store, .closeFd 0, .accept 5, .startThread, .store]

/-- The thread is done before its handle is stored. -/
def hasty : List Action := [.accept 5, .startThread, .closeFd 0, .detach 0]

theorem reused_and_hasty_end_the_process :
    (run step start reused).map State.ended = some true ∧
    (run step start hasty).map State.ended = some true ∧
    ¬ Throughout step Safe start reused ∧ ¬ Throughout step Safe start hasty := by
  have hreused : reused = [.accept 5, .startThread, .store, .closeFd 0, .accept 5, .startThread] ++
      [.store] := rfl
  have hhasty : hasty = [.accept 5, .startThread, .closeFd 0] ++ [.detach 0] := rfl
  refine ⟨rfl, rfl, fun hsafe => ?_, fun hsafe => ?_⟩
  · rw [hreused] at hsafe
    cases hsafe.at rfl 5 1 rfl
  · rw [hhasty] at hsafe
    cases hsafe.at rfl 5 rfl

end ThreadTable
