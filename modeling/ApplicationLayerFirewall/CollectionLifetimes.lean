import ApplicationLayerFirewall.RuleVerdict
import ApplicationLayerFirewall.TransitionRuns
import Mathlib.Logic.Function.Basic

/-!
# Lifetimes of rule collections

An update deletes the installed collection before it installs its own, and it
does so under the lock that a judgement holds while it visits the rules. A query
of the rules takes no lock: it may be visiting a collection when an update
deletes it, or fetch one that was deleted and not yet replaced. Collections have
identities here, and every visit of a rule is an action of its own.
-/

namespace CollectionLifetimes

open RuleMatching RuleVerdict TransitionRuns

/-! ### Threads -/

/-- What a thread is doing, with the collection it concerns and the rules still to be
visited. -/
inductive Phase where
  | idle
  | judgeLocked
  | judging (c : Nat) (left : RuleCollection)
  | querying (c : Nat) (left : RuleCollection)
  | built (c : Nat)
  | updateLocked (c : Nat)
  | oldDeleted (c : Nat)
  | newInstalled

/-- Whether the thread holds the lock. -/
def Phase.holds : Phase → Bool
  | .judgeLocked | .judging _ _ | .updateLocked _ | .oldDeleted _ | .newInstalled => true
  | _ => false

/-- The collection that the thread is in the middle of traversing. -/
def Phase.traversed : Phase → Option Nat
  | .judging c _ | .querying c _ => some c
  | _ => none

/-- The collection that the thread has built and not yet installed. -/
def Phase.owned : Phase → Option Nat
  | .built c | .updateLocked c | .oldDeleted c => some c
  | _ => none

/-- Collections below `next` have been built. -/
structure State (Thread : Type) where
  next : Nat
  content : Nat → RuleCollection
  installed : Nat
  deleted : List Nat
  lock : Option Thread
  phase : Thread → Phase

inductive Action (Thread : Type) where
  | judgeLock (t : Thread)
  | judgeStart (t : Thread)
  | judgeVisit (t : Thread)
  | judgeUnlock (t : Thread)
  | queryFetch (t : Thread)
  | queryVisit (t : Thread)
  | queryEnd (t : Thread)
  | build (t : Thread) (rules : RuleCollection)
  | updateLock (t : Thread)
  | deleteOld (t : Thread)
  | installNew (t : Thread)
  | updateUnlock (t : Thread)

variable {Thread : Type} [DecidableEq Thread]

def State.enter (s : State Thread) (t : Thread) (p : Phase) : State Thread :=
  { s with phase := Function.update s.phase t p }

/-- `lockRules` blocks while another thread holds the lock. -/
def State.lockRules (s : State Thread) (t : Thread) (p : Phase) : Option (State Thread) :=
  match s.lock with
  | none => some { s.enter t p with lock := some t }
  | some _ => none

def State.unlockRules (s : State Thread) (t : Thread) : State Thread :=
  { s.enter t .idle with lock := none }

def step (s : State Thread) : Action Thread → Option (State Thread)
  | .judgeLock t =>
    match s.phase t with
    | .idle => s.lockRules t .judgeLocked
    | _ => none
  | .judgeStart t =>
    match s.phase t with
    | .judgeLocked => some (s.enter t (.judging s.installed (s.content s.installed)))
    | _ => none
  | .judgeVisit t =>
    match s.phase t with
    | .judging c (_ :: left) => some (s.enter t (.judging c left))
    | _ => none
  | .judgeUnlock t =>
    match s.phase t with
    | .judging _ [] => some (s.unlockRules t)
    | _ => none
  | .queryFetch t =>
    match s.phase t with
    | .idle => some (s.enter t (.querying s.installed (s.content s.installed)))
    | _ => none
  | .queryVisit t =>
    match s.phase t with
    | .querying c (_ :: left) => some (s.enter t (.querying c left))
    | _ => none
  | .queryEnd t =>
    match s.phase t with
    | .querying _ [] => some (s.enter t .idle)
    | _ => none
  | .build t rules =>
    match s.phase t with
    | .idle => some { s.enter t (.built s.next) with
        next := s.next + 1
        content := Function.update s.content s.next rules }
    | _ => none
  | .updateLock t =>
    match s.phase t with
    | .built c => s.lockRules t (.updateLocked c)
    | _ => none
  | .deleteOld t =>
    match s.phase t with
    | .updateLocked c => some { s.enter t (.oldDeleted c) with
        deleted := s.installed :: s.deleted }
    | _ => none
  | .installNew t =>
    match s.phase t with
    | .oldDeleted c => some { s.enter t .newInstalled with installed := c }
    | _ => none
  | .updateUnlock t =>
    match s.phase t with
    | .newInstalled => some (s.unlockRules t)
    | _ => none

def start (rules : RuleCollection) : State Thread :=
  ⟨1, fun _ => rules, 0, [], none, fun _ => .idle⟩

/-- No thread is in the middle of traversing a collection that has been deleted. -/
def Sound (s : State Thread) : Prop :=
  ∀ t c, (s.phase t).traversed = some c → c ∉ s.deleted

/-- A fetch finds a collection that is not deleted, and a deletion finds no query
visiting the installed collection. -/
def Meets (s : State Thread) : Action Thread → Prop
  | .queryFetch _ => s.installed ∉ s.deleted
  | .deleteOld _ => ∀ u left, s.phase u ≠ .querying s.installed left
  | _ => True

/-- What an action does, and when it can be taken. -/
inductive Steps (s : State Thread) : Action Thread → State Thread → Prop where
  | judgeLock {t : Thread} : s.phase t = .idle → s.lock = none →
      Steps s (.judgeLock t) { s.enter t .judgeLocked with lock := some t }
  | judgeStart {t : Thread} : s.phase t = .judgeLocked →
      Steps s (.judgeStart t) (s.enter t (.judging s.installed (s.content s.installed)))
  | judgeVisit {t : Thread} {c : Nat} {r : Rule} {left : RuleCollection} :
      s.phase t = .judging c (r :: left) → Steps s (.judgeVisit t) (s.enter t (.judging c left))
  | judgeUnlock {t : Thread} {c : Nat} : s.phase t = .judging c [] →
      Steps s (.judgeUnlock t) (s.unlockRules t)
  | queryFetch {t : Thread} : s.phase t = .idle →
      Steps s (.queryFetch t) (s.enter t (.querying s.installed (s.content s.installed)))
  | queryVisit {t : Thread} {c : Nat} {r : Rule} {left : RuleCollection} :
      s.phase t = .querying c (r :: left) →
      Steps s (.queryVisit t) (s.enter t (.querying c left))
  | queryEnd {t : Thread} {c : Nat} : s.phase t = .querying c [] →
      Steps s (.queryEnd t) (s.enter t .idle)
  | build {t : Thread} (rules : RuleCollection) : s.phase t = .idle →
      Steps s (.build t rules) { s.enter t (.built s.next) with
        next := s.next + 1
        content := Function.update s.content s.next rules }
  | updateLock {t : Thread} {c : Nat} : s.phase t = .built c → s.lock = none →
      Steps s (.updateLock t) { s.enter t (.updateLocked c) with lock := some t }
  | deleteOld {t : Thread} {c : Nat} : s.phase t = .updateLocked c →
      Steps s (.deleteOld t) { s.enter t (.oldDeleted c) with
        deleted := s.installed :: s.deleted }
  | installNew {t : Thread} {c : Nat} : s.phase t = .oldDeleted c →
      Steps s (.installNew t) { s.enter t .newInstalled with installed := c }
  | updateUnlock {t : Thread} : s.phase t = .newInstalled →
      Steps s (.updateUnlock t) (s.unlockRules t)

theorem lockRules_eq_some {s next : State Thread} {t : Thread} {p : Phase}
    (h : s.lockRules t p = some next) :
    s.lock = none ∧ { s.enter t p with lock := some t } = next := by
  rw [State.lockRules] at h
  split at h <;> cases h
  exact ⟨‹_›, rfl⟩

theorem steps_of_step {s next : State Thread} {a : Action Thread} (h : step s a = some next) :
    Steps s a next := by
  cases a with
  | judgeLock t =>
    simp only [step] at h
    split at h
    · obtain ⟨hfree, rfl⟩ := lockRules_eq_some h
      exact .judgeLock ‹_› hfree
    · cases h
  | judgeStart t =>
    simp only [step] at h
    split at h <;> cases h
    exact .judgeStart ‹_›
  | judgeVisit t =>
    simp only [step] at h
    split at h <;> cases h
    exact .judgeVisit ‹_›
  | judgeUnlock t =>
    simp only [step] at h
    split at h <;> cases h
    exact .judgeUnlock ‹_›
  | queryFetch t =>
    simp only [step] at h
    split at h <;> cases h
    exact .queryFetch ‹_›
  | queryVisit t =>
    simp only [step] at h
    split at h <;> cases h
    exact .queryVisit ‹_›
  | queryEnd t =>
    simp only [step] at h
    split at h <;> cases h
    exact .queryEnd ‹_›
  | build t rules =>
    simp only [step] at h
    split at h <;> cases h
    exact .build rules ‹_›
  | updateLock t =>
    simp only [step] at h
    split at h
    · obtain ⟨hfree, rfl⟩ := lockRules_eq_some h
      exact .updateLock ‹_› hfree
    · cases h
  | deleteOld t =>
    simp only [step] at h
    split at h <;> cases h
    exact .deleteOld ‹_›
  | installNew t =>
    simp only [step] at h
    split at h <;> cases h
    exact .installNew ‹_›
  | updateUnlock t =>
    simp only [step] at h
    split at h <;> cases h
    exact .updateUnlock ‹_›

/-! ### The invariant -/

/-- The lock excludes its users from each other, and a collection is deleted only once
it has been installed. -/
structure Inv (s : State Thread) : Prop where
  lock : ∀ t, (s.phase t).holds = true ↔ s.lock = some t
  judging : ∀ t c left, s.phase t = .judging c left → c = s.installed
  installed : s.installed ∈ s.deleted → ∃ t c, s.phase t = .oldDeleted c
  owned : ∀ t c, (s.phase t).owned = some c → c < s.next ∧ c ≠ s.installed ∧ c ∉ s.deleted
  ownedOnce : ∀ t u c, (s.phase t).owned = some c → (s.phase u).owned = some c → t = u
  installedOld : s.installed < s.next
  deletedOld : ∀ c ∈ s.deleted, c < s.next

omit [DecidableEq Thread] in
theorem start_inv (rules : RuleCollection) : Inv (start rules : State Thread) where
  lock := by simp [start, Phase.holds]
  judging := by simp [start]
  installed := by simp [start]
  owned := by simp [start, Phase.owned]
  ownedOnce := by simp [start, Phase.owned]
  installedOld := Nat.zero_lt_one
  deletedOld := by simp [start]

omit [DecidableEq Thread] in
/-- At most one thread holds the lock. -/
theorem Inv.holder {s : State Thread} (inv : Inv s) {t u : Thread}
    (ht : (s.phase t).holds = true) (hu : (s.phase u).holds = true) : u = t :=
  Option.some.inj (((inv.lock u).mp hu).symm.trans ((inv.lock t).mp ht))

omit [DecidableEq Thread] in
/-- While a thread that is not replacing it holds the lock, the installed collection is there. -/
theorem Inv.installed_of_holds {s : State Thread} (inv : Inv s) {t : Thread}
    (ht : (s.phase t).holds = true) (hother : ∀ c, s.phase t ≠ .oldDeleted c) :
    s.installed ∉ s.deleted := by
  intro hdeleted
  obtain ⟨u, c, hu⟩ := inv.installed hdeleted
  have hut : u = t := inv.holder ht (by rw [hu]; rfl)
  exact hother c (hut ▸ hu)

/-! ### Steps keep the invariant -/

section
variable {s : State Thread} {t : Thread} {p : Phase}

theorem phase_enter (s : State Thread) (t : Thread) (p : Phase) (u : Thread) :
    (u = t ∧ (s.enter t p).phase u = p) ∨ (u ≠ t ∧ (s.enter t p).phase u = s.phase u) := by
  by_cases hu : u = t
  · subst hu
    exact Or.inl ⟨rfl, Function.update_self ..⟩
  · exact Or.inr ⟨hu, Function.update_of_ne hu ..⟩

theorem owned_enter {u : Thread} {c : Nat} (h : ((s.enter t p).phase u).owned = some c) :
    (u = t ∧ p.owned = some c) ∨ (u ≠ t ∧ (s.phase u).owned = some c) := by
  rcases phase_enter s t p u with ⟨hu, hphase⟩ | ⟨hu, hphase⟩
  · exact Or.inl ⟨hu, hphase ▸ h⟩
  · exact Or.inr ⟨hu, hphase ▸ h⟩

theorem Inv.lock_same (inv : Inv s) (h : p.holds = (s.phase t).holds) (u : Thread) :
    ((s.enter t p).phase u).holds = true ↔ s.lock = some u := by
  rcases phase_enter s t p u with ⟨rfl, hphase⟩ | ⟨_, hphase⟩
  · rw [hphase, h]
    exact inv.lock u
  · rw [hphase]
    exact inv.lock u

theorem Inv.lock_acquire (inv : Inv s) (hfree : s.lock = none) (h : p.holds = true)
    (u : Thread) : ((s.enter t p).phase u).holds = true ↔ some t = some u := by
  rcases phase_enter s t p u with ⟨rfl, hphase⟩ | ⟨hu, hphase⟩
  · rw [hphase]
    exact iff_of_true h rfl
  · rw [hphase, inv.lock u, hfree]
    exact iff_of_false nofun fun hsame => hu (Option.some.inj hsame).symm

theorem Inv.lock_release (inv : Inv s) (ht : (s.phase t).holds = true) (h : p.holds = false)
    (u : Thread) : ((s.enter t p).phase u).holds = true ↔ none = some u := by
  rcases phase_enter s t p u with ⟨rfl, hphase⟩ | ⟨hu, hphase⟩
  · rw [hphase, h]
    exact iff_of_false nofun nofun
  · rw [hphase]
    exact iff_of_false (fun hholds => hu (inv.holder ht hholds)) nofun

theorem Inv.judging_enter (inv : Inv s) (h : ∀ c left, p = .judging c left → c = s.installed)
    (u : Thread) (c : Nat) (left : RuleCollection)
    (hu : (s.enter t p).phase u = .judging c left) : c = s.installed := by
  rcases phase_enter s t p u with ⟨_, hphase⟩ | ⟨_, hphase⟩
  · exact h c left (hphase.symm.trans hu)
  · exact inv.judging u c left (hphase.symm.trans hu)

/-- The thread that replaces the installed collection is another one, and goes on. -/
theorem Inv.installed_enter (inv : Inv s) (hkept : ∀ c, s.phase t ≠ .oldDeleted c)
    (h : s.installed ∈ s.deleted) : ∃ u c, (s.enter t p).phase u = .oldDeleted c := by
  obtain ⟨u, c, hu⟩ := inv.installed h
  rcases phase_enter s t p u with ⟨rfl, _⟩ | ⟨_, hphase⟩
  · exact absurd hu (hkept c)
  · exact ⟨u, c, hphase.trans hu⟩

theorem Inv.ownedOnce_enter (inv : Inv s)
    (h : ∀ c, p.owned = some c → ∀ u, (s.phase u).owned = some c → u = t) (u v : Thread) (c : Nat)
    (hu : ((s.enter t p).phase u).owned = some c) (hv : ((s.enter t p).phase v).owned = some c) :
    u = v := by
  rcases owned_enter hu with ⟨hut, hp⟩ | ⟨_, hu⟩
  · rcases owned_enter hv with ⟨hvt, _⟩ | ⟨_, hv⟩
    · exact hut.trans hvt.symm
    · exact hut.trans (h c hp v hv).symm
  · rcases owned_enter hv with ⟨hvt, hp⟩ | ⟨_, hv⟩
    · exact (h c hp u hu).trans hvt.symm
    · exact inv.ownedOnce u v c hu hv

/-- A thread goes on without touching the collections. -/
theorem Inv.enter {l : Option Thread} (inv : Inv s)
    (hlock : ∀ u, ((s.enter t p).phase u).holds = true ↔ l = some u)
    (hjudging : ∀ c left, p = .judging c left → c = s.installed)
    (howned : ∀ c, p.owned = some c → (s.phase t).owned = some c)
    (hkept : ∀ c, s.phase t ≠ .oldDeleted c) : Inv { s.enter t p with lock := l } where
  lock := hlock
  judging := inv.judging_enter hjudging
  installed := inv.installed_enter hkept
  owned := by
    intro u c hu
    rcases owned_enter hu with ⟨_, hp⟩ | ⟨_, hu⟩
    · exact inv.owned t c (howned c hp)
    · exact inv.owned u c hu
  ownedOnce := inv.ownedOnce_enter fun c hp u hu => inv.ownedOnce u t c hu (howned c hp)
  installedOld := inv.installedOld
  deletedOld := inv.deletedOld

/-- A new collection is unknown to all other threads. -/
theorem Inv.build (inv : Inv s) (hidle : s.phase t = .idle) (rules : RuleCollection) :
    Inv { s.enter t (.built s.next) with
      next := s.next + 1
      content := Function.update s.content s.next rules } where
  lock := inv.lock_same (by rw [hidle]; rfl)
  judging := inv.judging_enter nofun
  installed := inv.installed_enter (by simp [hidle])
  owned := by
    intro u c hu
    rcases owned_enter hu with ⟨_, hp⟩ | ⟨_, hu⟩
    · cases hp
      exact ⟨Nat.lt_succ_self _, Nat.ne_of_gt inv.installedOld,
        fun hmem => Nat.lt_irrefl _ (inv.deletedOld _ hmem)⟩
    · obtain ⟨hlt, hne, hthere⟩ := inv.owned u c hu
      exact ⟨Nat.lt_succ_of_lt hlt, hne, hthere⟩
  ownedOnce := by
    refine inv.ownedOnce_enter fun c hp u hu => ?_
    cases hp
    exact absurd (inv.owned u _ hu).1 (Nat.lt_irrefl _)
  installedOld := Nat.lt_succ_of_lt inv.installedOld
  deletedOld := fun c hc => Nat.lt_succ_of_lt (inv.deletedOld c hc)

/-- The collection that an update deletes is no other update's new one. -/
theorem Inv.deleteOld {c : Nat} (inv : Inv s) (hphase : s.phase t = .updateLocked c) :
    Inv { s.enter t (.oldDeleted c) with deleted := s.installed :: s.deleted } := by
  have howned : (s.phase t).owned = some c := by rw [hphase]; rfl
  exact {
    lock := inv.lock_same (by rw [hphase]; rfl)
    judging := inv.judging_enter nofun
    installed := fun _ => ⟨t, c, Function.update_self ..⟩
    owned := by
      intro u d hu
      have hbefore : (s.phase u).owned = some d := by
        rcases owned_enter hu with ⟨rfl, hp⟩ | ⟨_, hu⟩
        · cases hp
          exact howned
        · exact hu
      obtain ⟨hlt, hne, hthere⟩ := inv.owned u d hbefore
      exact ⟨hlt, hne, List.not_mem_cons_of_ne_of_not_mem hne hthere⟩
    ownedOnce := by
      refine inv.ownedOnce_enter fun d hp u hu => ?_
      cases hp
      exact inv.ownedOnce u t c hu howned
    installedOld := inv.installedOld
    deletedOld := List.forall_mem_cons.mpr ⟨inv.installedOld, inv.deletedOld⟩ }

/-- The new collection is there, and no judgement is still in the old one. -/
theorem Inv.installNew {c : Nat} (inv : Inv s) (hphase : s.phase t = .oldDeleted c) :
    Inv { s.enter t .newInstalled with installed := c } := by
  have howned : (s.phase t).owned = some c := by rw [hphase]; rfl
  have hholds : (s.phase t).holds = true := by rw [hphase]; rfl
  obtain ⟨hlt, _, hthere⟩ := inv.owned t c howned
  exact {
    lock := inv.lock_same (by rw [hphase]; rfl)
    judging := by
      intro u d left hu
      rcases phase_enter s t .newInstalled u with ⟨_, hsame⟩ | ⟨hut, hsame⟩
      · cases hsame.symm.trans hu
      · have hjudging : s.phase u = .judging d left := hsame.symm.trans hu
        exact absurd (inv.holder hholds (by rw [hjudging]; rfl)) hut
    installed := fun hdeleted => absurd hdeleted hthere
    owned := by
      intro u d hu
      rcases owned_enter hu with ⟨_, hp⟩ | ⟨hut, hother⟩
      · cases hp
      · obtain ⟨hlt', _, hthere'⟩ := inv.owned u d hother
        refine ⟨hlt', ?_, hthere'⟩
        rintro rfl
        exact hut (inv.ownedOnce u t d hother howned)
    ownedOnce := inv.ownedOnce_enter nofun
    installedOld := hlt
    deletedOld := inv.deletedOld }

end

theorem step_inv {s next : State Thread} {a : Action Thread} (inv : Inv s)
    (h : step s a = some next) : Inv next := by
  cases steps_of_step h with
  | judgeLock hidle hfree =>
    exact inv.enter (inv.lock_acquire hfree rfl) (by simp) (by simp [Phase.owned]) (by simp [hidle])
  | judgeStart hlocked =>
    exact inv.enter (inv.lock_same (by rw [hlocked]; rfl)) (by simp) (by simp [Phase.owned])
      (by simp [hlocked])
  | judgeVisit hjudging =>
    have hc := inv.judging _ _ _ hjudging
    exact inv.enter (inv.lock_same (by rw [hjudging]; rfl)) (by simp [hc]) (by simp [Phase.owned])
      (by simp [hjudging])
  | judgeUnlock hjudging =>
    exact inv.enter (inv.lock_release (by rw [hjudging]; rfl) rfl) (by simp) (by simp [Phase.owned])
      (by simp [hjudging])
  | queryFetch hidle =>
    exact inv.enter (inv.lock_same (by rw [hidle]; rfl)) (by simp) (by simp [Phase.owned])
      (by simp [hidle])
  | queryVisit hquerying =>
    exact inv.enter (inv.lock_same (by rw [hquerying]; rfl)) (by simp) (by simp [Phase.owned])
      (by simp [hquerying])
  | queryEnd hquerying =>
    exact inv.enter (inv.lock_same (by rw [hquerying]; rfl)) (by simp) (by simp [Phase.owned])
      (by simp [hquerying])
  | build rules hidle => exact inv.build hidle rules
  | updateLock hbuilt hfree =>
    exact inv.enter (inv.lock_acquire hfree rfl) (by simp) (by simp [Phase.owned, hbuilt])
      (by simp [hbuilt])
  | deleteOld hlocked => exact inv.deleteOld hlocked
  | installNew hdeleted => exact inv.installNew hdeleted
  | updateUnlock hinstalled =>
    exact inv.enter (inv.lock_release (by rw [hinstalled]; rfl) rfl) (by simp)
      (by simp [Phase.owned]) (by simp [hinstalled])

/-! ### What is traversed -/

/-- Without a deletion only what the thread traverses next matters. -/
theorem sound_enter_iff {s next : State Thread} {t : Thread} {p : Phase} (h : Sound s)
    (hphase : next.phase = (s.enter t p).phase) (hdeleted : next.deleted = s.deleted) :
    Sound next ↔ ∀ c, p.traversed = some c → c ∉ s.deleted := by
  rw [Sound, hphase, hdeleted]
  constructor
  · intro hnext c hc
    refine hnext t c ?_
    simpa [State.enter] using hc
  · intro hp u c hu
    rcases phase_enter s t p u with ⟨_, hsame⟩ | ⟨_, hsame⟩
    · exact hp c (hsame ▸ hu)
    · exact h u c (hsame ▸ hu)

/-- The updating thread holds the lock, so only queries can be visiting what it deletes. -/
theorem sound_deleteOld_iff {s : State Thread} {t : Thread} {c : Nat} (inv : Inv s)
    (h : Sound s) (hlocked : s.phase t = .updateLocked c) :
    Sound { s.enter t (.oldDeleted c) with deleted := s.installed :: s.deleted } ↔
      ∀ u left, s.phase u ≠ .querying s.installed left := by
  have hholds : (s.phase t).holds = true := by rw [hlocked]; rfl
  constructor
  · intro hnext u left hu
    have hut : u ≠ t := by
      rintro rfl
      rw [hlocked] at hu
      cases hu
    have hsame : (s.enter t (.oldDeleted c)).phase u = .querying s.installed left :=
      (Function.update_of_ne hut ..).trans hu
    exact hnext u s.installed (congrArg Phase.traversed hsame) List.mem_cons_self
  · intro hnone u d hu hmem
    rcases phase_enter s t (.oldDeleted c) u with ⟨_, hsame⟩ | ⟨hut, hsame⟩
    · cases (congrArg Phase.traversed hsame).symm.trans hu
    · have hd : (s.phase u).traversed = some d := (congrArg Phase.traversed hsame).symm.trans hu
      rcases List.mem_cons.mp hmem with rfl | hmem
      · cases hphase : s.phase u with
        | judging e left => exact hut (inv.holder hholds (by rw [hphase]; rfl))
        | querying e left =>
          rw [hphase] at hd
          cases hd
          exact hnone u left hphase
        | _ =>
          rw [hphase] at hd
          cases hd
      · exact h u d hd hmem

/-- A step leads to a sound state exactly when it meets the condition. -/
theorem step_sound_iff {s next : State Thread} {a : Action Thread} (inv : Inv s) (hgood : Sound s)
    (h : step s a = some next) : Sound next ↔ Meets s a := by
  cases steps_of_step h with
  | judgeStart hlocked =>
    refine iff_of_true ((sound_enter_iff hgood rfl rfl).mpr fun c hc => ?_) trivial
    cases hc
    exact inv.installed_of_holds (by rw [hlocked]; rfl) (by simp [hlocked])
  | judgeVisit hjudging =>
    refine iff_of_true ((sound_enter_iff hgood rfl rfl).mpr fun c hc => ?_) trivial
    cases hc
    exact hgood _ _ (congrArg Phase.traversed hjudging)
  | queryVisit hquerying =>
    refine iff_of_true ((sound_enter_iff hgood rfl rfl).mpr fun c hc => ?_) trivial
    cases hc
    exact hgood _ _ (congrArg Phase.traversed hquerying)
  | queryFetch hidle =>
    rw [sound_enter_iff hgood rfl rfl]
    constructor
    · intro hfetched
      exact hfetched s.installed rfl
    · intro hthere c hc
      cases hc
      exact hthere
  | deleteOld hlocked => exact sound_deleteOld_iff inv hgood hlocked
  | _ => exact iff_of_true ((sound_enter_iff hgood rfl rfl).mpr nofun) trivial

/-- In a run of any number of threads, no state has a thread in a deleted collection if and
only if fetches and deletions never meet each other. -/
theorem run_sound_iff {rules : RuleCollection} {actions : List (Action Thread)}
    {final : State Thread} (hrun : run step (start rules) actions = some final) :
    Always step Sound (start rules) actions ↔ Throughout step Meets (start rules) actions := by
  have hstart : Sound (start rules : State Thread) := nofun
  exact always_iff_throughout step_inv step_sound_iff hrun (start_inv rules) hstart

/-- The lock does its work for the packets: no judgement is ever in a deleted collection,
whatever the queries do. -/
theorem run_judging_sound {rules : RuleCollection} {actions : List (Action Thread)}
    {final : State Thread} (hrun : run step (start rules) actions = some final) {t : Thread}
    {c : Nat} {left : RuleCollection} (hphase : final.phase t = .judging c left) :
    c ∉ final.deleted := by
  have inv : Inv final := run_preserves step_inv hrun (start_inv rules)
  rw [inv.judging t c left hphase]
  exact inv.installed_of_holds (by rw [hphase]; rfl) (by simp [hphase])

/-! ### A query during an update -/

def oneRule : RuleCollection := [⟨0, 0, 0, 0, 0xffffffff, 0, 0, 0⟩]

/-- A query, then an update, then a judgement. -/
def inTurn : List (Action Bool) :=
  [.queryFetch false, .queryVisit false, .queryEnd false, .build true [], .updateLock true,
    .deleteOld true, .installNew true, .updateUnlock true, .judgeLock false, .judgeStart false,
    .judgeUnlock false]

theorem inTurn_sound : ∃ s, run step (start oneRule) inTurn = some s ∧
    (Always step Sound (start oneRule) inTurn ↔ Throughout step Meets (start oneRule) inTurn) :=
  ⟨_, rfl, run_sound_iff rfl⟩

/-- The update deletes the collection that the query is visiting. -/
def deletedWhileVisited : List (Action Bool) :=
  [.queryFetch false, .build true [], .updateLock true, .deleteOld true]

/-- The query fetches the collection after its deletion. -/
def fetchedAfterDeletion : List (Action Bool) :=
  [.build true [], .updateLock true, .deleteOld true, .queryFetch false]

theorem query_in_deleted_collection :
    (∃ s, run step (start oneRule) deletedWhileVisited = some s ∧ ¬ Sound s) ∧
    (∃ s, run step (start oneRule) fetchedAfterDeletion = some s ∧ ¬ Sound s) :=
  ⟨⟨_, rfl, fun hsound => hsound false 0 rfl (by decide)⟩,
    ⟨_, rfl, fun hsound => hsound false 0 rfl (by decide)⟩⟩

end CollectionLifetimes
