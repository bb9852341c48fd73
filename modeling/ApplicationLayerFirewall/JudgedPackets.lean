import ApplicationLayerFirewall.ReadingInstants
import ApplicationLayerFirewall.RequestHandler
import ApplicationLayerFirewall.TransitionRuns

/-!
# Judging a packet while the configuration changes

The rules are swapped and checked under the lock of the rule manager, the flag is
written and read outside it. So a judgement may combine the flag of one
configuration with the rules of a later one. The combination shows only if the
later configuration is switched off: its rules are then applied although no one
ever asked for them to be.
-/

namespace JudgedPackets

open PacketReading RuleVerdict RuleJson RequestHandler TransitionRuns

/-! ### Packet thread and connection thread -/

/-- A packet, the clock readings that its check takes, and the number of updates
finished when the flag was read. -/
structure Judging where
  pe : PacketExtractor
  clock : Clock
  first : Nat

/-- A verdict, with the number of updates begun when it was reached. -/
structure Judgement where
  judging : Judging
  last : Nat
  verdict : Bool

/-- `begun` updates have swapped the rules, `finished` of them have set the flag too. -/
structure State where
  manager : RuleManager
  begun : Nat
  finished : Nat
  judging : Option Judging
  judged : List Judgement

inductive Action where
  | swapRules
  | setFlag
  | readFlag (pe : PacketExtractor) (clock : Clock)
  | checkRules

/-- `config k` is what the `k`-th update asks for, `config 0` what was there before. -/
abbrev Configurations := Nat → RuleManager

def swapRules (config : Configurations) (s : State) : Option State :=
  if s.begun = s.finished then
    some { s with
      manager := { s.manager with rules := (config (s.begun + 1)).rules }
      begun := s.begun + 1 }
  else none

def setFlag (config : Configurations) (s : State) : Option State :=
  if s.begun = s.finished then none
  else some { s with
    manager := s.manager.setEnabled (config s.begun).enabled
    finished := s.begun }

/-- The first half of `Judge::judge`; with the flag off it is the whole. -/
def readFlag (pe : PacketExtractor) (clock : Clock) (s : State) : Option State :=
  match s.judging with
  | some _ => none
  | none =>
    if s.manager.isEnabled then some { s with judging := some ⟨pe, clock, s.finished⟩ }
    else some { s with judged := ⟨⟨pe, clock, s.finished⟩, s.begun, true⟩ :: s.judged }

/-- The second half, under the lock. -/
def checkRules (s : State) : Option State :=
  match s.judging with
  | none => none
  | some j =>
    some { s with
      judging := none
      judged := ⟨j, s.begun, (check j.clock s.manager.getRules j.pe 0).1⟩ :: s.judged }

def step (config : Configurations) (s : State) : Action → Option State
  | .swapRules => swapRules config s
  | .setFlag => setFlag config s
  | .readFlag pe clock => readFlag pe clock s
  | .checkRules => checkRules s

def start (config : Configurations) : State := ⟨config 0, 0, 0, none, []⟩

/-! ### The halves together -/

/-- The two halves of an update are what the handler does with a request that
carries both fields. -/
theorem update_uninterrupted {config : Configurations} {s : State} {env : Env} {st : Server}
    {o : PicoJson.Fields} {arr : List PicoJson.Value} {rules : RuleCollection} {enabled : Bool}
    (hidle : s.begun = s.finished)
    (hdata : dataOf o = some arr) (hrules : rulesOf env.undef arr = some rules)
    (hflag : enabledOf o = some enabled) (hconfig : config (s.begun + 1) = ⟨rules, enabled⟩) :
    updateRules env st (.object o) = (.ok success, { st with manager := ⟨rules, enabled⟩ }) ∧
    run (step config) s [.swapRules, .setFlag] =
      some { s with
        manager := ⟨rules, enabled⟩
        begun := s.begun + 1
        finished := s.begun + 1 } := by
  have hupdated := updated_both hdata hrules hflag st.manager
  have hopen : s.begun + 1 ≠ s.finished := by omega
  constructor
  · rw [updateRules_object, hupdated]
  · simp only [run, step, swapRules, if_pos hidle, Option.bind_some, setFlag, if_neg hopen,
      hconfig, RuleManager.setEnabled]

/-- The two halves of a judgement are `Judge::judge`. -/
theorem judgement_uninterrupted {config : Configurations} {s : State} (pe : PacketExtractor)
    (clock : Clock) (hidle : s.judging = none) :
    (s.manager.isEnabled = false → run (step config) s [.readFlag pe clock] =
      some { s with judged := ⟨⟨pe, clock, s.finished⟩, s.begun,
        (judge clock s.manager.isEnabled s.manager.getRules pe 0).1⟩ :: s.judged }) ∧
    (s.manager.isEnabled = true → run (step config) s [.readFlag pe clock, .checkRules] =
      some { s with judged := ⟨⟨pe, clock, s.finished⟩, s.begun,
        (judge clock s.manager.isEnabled s.manager.getRules pe 0).1⟩ :: s.judged }) := by
  constructor
  · intro hoff
    simp [run, step, readFlag, hidle, hoff, judge]
  · intro hon
    simp [run, step, readFlag, checkRules, hidle, hon, judge]

/-! ### One configuration -/

def verdictUnder (config : Configurations) (j : Judging) (k : Nat) : Bool :=
  (judge j.clock (config k).enabled (config k).rules j.pe 0).1

/-- The verdict is the one under a configuration of the time of the judgement. -/
def OneConfiguration (config : Configurations) (j : Judgement) : Prop :=
  ∃ k, j.judging.first ≤ k ∧ k ≤ j.last ∧ j.verdict = verdictUnder config j.judging k

/-- The configuration whose rules are checked is switched on, or its rules accept the
packet, or an earlier configuration refuses it too. -/
def Settled (config : Configurations) (j : Judging) (last : Nat) : Prop :=
  (config last).enabled = true ∨ (check j.clock (config last).rules j.pe 0).1 = true ∨
    ∃ k, j.first ≤ k ∧ k < last ∧ verdictUnder config j k = false

/-- Only a check can go wrong. -/
def Meets (config : Configurations) (s : State) : Action → Prop
  | .checkRules => ∀ j, s.judging = some j → Settled config j s.begun
  | _ => True

/-- A verdict from the flag at the beginning of a judgement and the rules at its end. -/
structure Combined (config : Configurations) (j : Judgement) : Prop where
  order : j.judging.first ≤ j.last
  verdict : j.verdict = (judge j.judging.clock (config j.judging.first).enabled
    (config j.last).rules j.judging.pe 0).1

/-- The rules are those of the last update begun and the flag that of the last one
finished. -/
structure Inv (config : Configurations) (s : State) : Prop where
  rules : s.manager.rules = (config s.begun).rules
  enabled : s.manager.enabled = (config s.finished).enabled
  order : s.finished ≤ s.begun
  judging : ∀ j, s.judging = some j → j.first ≤ s.finished ∧ (config j.first).enabled = true
  judged : ∀ j ∈ s.judged, Combined config j

theorem start_inv (config : Configurations) : Inv config (start config) where
  rules := rfl
  enabled := rfl
  order := Nat.le_refl 0
  judging := by
    intro j hj
    cases hj
  judged := by
    intro j hj
    cases hj

/-- What an action does, and when it can be taken. -/
theorem step_cases {config : Configurations} {s next : State} {a : Action}
    (h : step config s a = some next) :
    (a = .swapRules ∧ s.begun = s.finished ∧
      next = { s with
        manager := { s.manager with rules := (config (s.begun + 1)).rules }
        begun := s.begun + 1 }) ∨
    (a = .setFlag ∧
      next = { s with
        manager := s.manager.setEnabled (config s.begun).enabled
        finished := s.begun }) ∨
    (∃ pe clock, a = .readFlag pe clock ∧ s.manager.enabled = true ∧
      next = { s with judging := some ⟨pe, clock, s.finished⟩ }) ∨
    (∃ pe clock, a = .readFlag pe clock ∧ s.manager.enabled = false ∧
      next = { s with judged := ⟨⟨pe, clock, s.finished⟩, s.begun, true⟩ :: s.judged }) ∨
    (∃ j, a = .checkRules ∧ s.judging = some j ∧
      next = { s with
        judging := none
        judged := ⟨j, s.begun, (check j.clock s.manager.rules j.pe 0).1⟩ :: s.judged }) := by
  cases a with
  | swapRules =>
    simp only [step, swapRules] at h
    split_ifs at h with hidle
    exact Or.inl ⟨rfl, hidle, (Option.some.inj h).symm⟩
  | setFlag =>
    simp only [step, setFlag] at h
    split_ifs at h
    exact Or.inr (Or.inl ⟨rfl, (Option.some.inj h).symm⟩)
  | readFlag pe clock =>
    simp only [step, readFlag] at h
    cases hjudging : s.judging with
    | some j =>
      rw [hjudging] at h
      cases h
    | none =>
      rw [hjudging] at h
      by_cases hflag : s.manager.isEnabled = true
      · rw [if_pos hflag] at h
        exact Or.inr (Or.inr (Or.inl ⟨pe, clock, rfl, hflag, (Option.some.inj h).symm⟩))
      · rw [if_neg hflag] at h
        have hoff : s.manager.enabled = false := Bool.eq_false_iff.mpr hflag
        have hnext := (Option.some.inj h).symm
        exact Or.inr (Or.inr (Or.inr (Or.inl ⟨pe, clock, rfl, hoff, hnext⟩)))
  | checkRules =>
    simp only [step, checkRules] at h
    cases hjudging : s.judging with
    | none =>
      rw [hjudging] at h
      cases h
    | some j =>
      rw [hjudging] at h
      exact Or.inr (Or.inr (Or.inr (Or.inr ⟨j, rfl, rfl, (Option.some.inj h).symm⟩)))

theorem step_inv {config : Configurations} {s next : State} {a : Action} (inv : Inv config s)
    (h : step config s a = some next) : Inv config next := by
  rcases step_cases h with ⟨rfl, hidle, rfl⟩ | ⟨rfl, rfl⟩ | ⟨pe, clock, rfl, hon, rfl⟩ |
    ⟨pe, clock, rfl, hoff, rfl⟩ | ⟨j, rfl, hj, rfl⟩
  · exact ⟨rfl, inv.enabled, Nat.le_succ_of_le inv.order, inv.judging, inv.judged⟩
  · refine ⟨inv.rules, rfl, Nat.le_refl s.begun, fun j hj => ?_, inv.judged⟩
    obtain ⟨hfirst, hflag⟩ := inv.judging j hj
    exact ⟨Nat.le_trans hfirst inv.order, hflag⟩
  · refine ⟨inv.rules, inv.enabled, inv.order, fun j hj => ?_, inv.judged⟩
    have hnew : ⟨pe, clock, s.finished⟩ = j := Option.some.inj hj
    subst hnew
    exact ⟨Nat.le_refl s.finished, inv.enabled ▸ hon⟩
  · refine ⟨inv.rules, inv.enabled, inv.order, inv.judging, ?_⟩
    have hconfig : (config s.finished).enabled = false := inv.enabled ▸ hoff
    refine List.forall_mem_cons.mpr ⟨⟨inv.order, ?_⟩, inv.judged⟩
    simp [judge, hconfig]
  · obtain ⟨hfirst, hflag⟩ := inv.judging j hj
    refine ⟨inv.rules, inv.enabled, inv.order, fun i hi => ?_, ?_⟩
    · cases hi
    · refine List.forall_mem_cons.mpr ⟨⟨Nat.le_trans hfirst inv.order, ?_⟩, inv.judged⟩
      simp [judge, hflag, inv.rules]

/-- In every run a verdict combines one configuration's flag with the rules of the same
or a later one. -/
theorem run_combined {config : Configurations} {actions : List Action} {s : State}
    (hrun : run (step config) (start config) actions = some s) :
    ∀ j ∈ s.judged, Combined config j :=
  (run_preserves step_inv hrun (start_inv config)).judged

/-! ### Verdicts -/

theorem verdictUnder_of_enabled {config : Configurations} {k : Nat} (j : Judging)
    (h : (config k).enabled = true) :
    verdictUnder config j k = (check j.clock (config k).rules j.pe 0).1 := by
  simp [verdictUnder, judge, h]

theorem verdictUnder_of_disabled {config : Configurations} {k : Nat} (j : Judging)
    (h : (config k).enabled = false) : verdictUnder config j k = true := by
  simp [verdictUnder, judge, h]

/-- A packet that the rules accept is accepted with the flag on or off. -/
theorem verdictUnder_of_accepted {config : Configurations} {k : Nat} {j : Judging}
    (h : (check j.clock (config k).rules j.pe 0).1 = true) : verdictUnder config j k = true := by
  cases hflag : (config k).enabled with
  | false => exact verdictUnder_of_disabled j hflag
  | true => exact (verdictUnder_of_enabled j hflag).trans h

/-- The verdict of a check is that of one configuration exactly when it is settled. -/
theorem checked_iff_settled {config : Configurations} {s : State} {j : Judging}
    (inv : Inv config s) (hj : s.judging = some j) :
    OneConfiguration config ⟨j, s.begun, (check j.clock s.manager.rules j.pe 0).1⟩ ↔
      Settled config j s.begun := by
  have hfirst : j.first ≤ s.begun := Nat.le_trans (inv.judging j hj).1 inv.order
  rw [inv.rules]
  constructor
  · rintro ⟨k, hlo, hhi, hverdict⟩
    change (check j.clock (config s.begun).rules j.pe 0).1 = verdictUnder config j k at hverdict
    cases hcheck : (check j.clock (config s.begun).rules j.pe 0).1 with
    | true => exact Or.inr (Or.inl hcheck)
    | false =>
      rw [hcheck] at hverdict
      rcases Nat.lt_or_eq_of_le hhi with hlt | rfl
      · exact Or.inr (Or.inr ⟨k, hlo, hlt, hverdict.symm⟩)
      · -- a configuration that is switched off refuses nothing
        refine Or.inl (Bool.eq_false_or_eq_true _ |>.resolve_right fun hoff => ?_)
        rw [verdictUnder_of_disabled j hoff] at hverdict
        cases hverdict
  · intro hsettled
    cases hcheck : (check j.clock (config s.begun).rules j.pe 0).1 with
    | true => exact ⟨s.begun, hfirst, Nat.le_refl _, (verdictUnder_of_accepted hcheck).symm⟩
    | false =>
      rcases hsettled with hon | haccept | ⟨k, hlo, hlt, hrefuse⟩
      · exact ⟨s.begun, hfirst, Nat.le_refl _,
          ((verdictUnder_of_enabled j hon).trans hcheck).symm⟩
      · rw [hcheck] at haccept
        cases haccept
      · exact ⟨k, hlo, Nat.le_of_lt hlt, hrefuse.symm⟩

/-- The verdict without a check is that of the last update finished. -/
theorem unchecked_oneConfiguration {config : Configurations} {s : State} (inv : Inv config s)
    (hoff : s.manager.enabled = false) (pe : PacketExtractor) (clock : Clock) :
    OneConfiguration config ⟨⟨pe, clock, s.finished⟩, s.begun, true⟩ := by
  have hconfig : (config s.finished).enabled = false := inv.enabled ▸ hoff
  exact ⟨s.finished, Nat.le_refl _, inv.order, (verdictUnder_of_disabled _ hconfig).symm⟩

/-! ### Runs -/

def AllOneConfiguration (config : Configurations) (s : State) : Prop :=
  ∀ j ∈ s.judged, OneConfiguration config j

/-- A step adds no mixed verdict exactly when it meets the condition. -/
theorem step_allOneConfiguration_iff {config : Configurations} {s next : State} {a : Action}
    (inv : Inv config s) (h : step config s a = some next) :
    AllOneConfiguration config next ↔ AllOneConfiguration config s ∧ Meets config s a := by
  rcases step_cases h with ⟨rfl, hidle, rfl⟩ | ⟨rfl, rfl⟩ | ⟨pe, clock, rfl, hon, rfl⟩ |
    ⟨pe, clock, rfl, hoff, rfl⟩ | ⟨j, rfl, hj, rfl⟩
  · exact (and_iff_left trivial).symm
  · exact (and_iff_left trivial).symm
  · exact (and_iff_left trivial).symm
  · have hnew := unchecked_oneConfiguration inv hoff pe clock
    constructor
    · intro hall
      exact ⟨(List.forall_mem_cons.mp hall).2, trivial⟩
    · rintro ⟨hall, _⟩
      exact List.forall_mem_cons.mpr ⟨hnew, hall⟩
  · have hnew := checked_iff_settled inv hj
    constructor
    · intro hall
      obtain ⟨hfirst, hrest⟩ := List.forall_mem_cons.mp hall
      refine ⟨hrest, fun i hi => ?_⟩
      have hsame : j = i := Option.some.inj (hj.symm.trans hi)
      exact hsame ▸ hnew.mp hfirst
    · rintro ⟨hall, hmeets⟩
      exact List.forall_mem_cons.mpr ⟨hnew.mpr (hmeets j hj), hall⟩

/-- In a run of the two threads all packets are judged under one configuration each
exactly when every check of the run is settled. -/
theorem run_allOneConfiguration_iff {config : Configurations} {actions : List Action} {s : State}
    (hrun : run (step config) (start config) actions = some s) :
    AllOneConfiguration config s ↔
      Throughout (step config) (Meets config) (start config) actions := by
  have hstart : AllOneConfiguration config (start config) := fun _ h => (List.not_mem_nil h).elim
  rw [run_iff_throughout step_inv step_allOneConfiguration_iff hrun (start_inv config)]
  exact and_iff_right hstart

/-! ### A packet during an update -/

/-- An open firewall with no rules, then one that is switched off and holds a rule
against everything. -/
def replaced : Configurations
  | 0 => ⟨[], true⟩
  | _ => ⟨[⟨0, 0, 0, 0, 0xffffffff, 0, 0, 0⟩], false⟩

def dnsExtractor : PacketExtractor := ⟨ByteOrder.Memory.ofBytes ReadingInstants.dnsPacket⟩

def midnight : Clock := ⟨fun _ => 0, ReadingInstants.utc⟩

def undisturbed : List Action :=
  [.readFlag dnsExtractor midnight, .checkRules, .swapRules, .setFlag,
    .readFlag dnsExtractor midnight]

theorem undisturbed_oneConfiguration :
    ∃ s, run (step replaced) (start replaced) undisturbed = some s ∧
      (AllOneConfiguration replaced s ↔
        Throughout (step replaced) (Meets replaced) (start replaced) undisturbed) :=
  ⟨_, rfl, run_allOneConfiguration_iff rfl⟩

/-- The rules of the new configuration are applied although it is switched off. -/
theorem refused_by_no_configuration :
    ∃ s, run (step replaced) (start replaced)
        [.readFlag dnsExtractor midnight, .swapRules, .checkRules] = some s ∧
      s.judged.map Judgement.verdict = [false] ∧
      (∀ k, verdictUnder replaced ⟨dnsExtractor, midnight, 0⟩ k = true) ∧
      ¬ AllOneConfiguration replaced s := by
  have haccepts : ∀ k, verdictUnder replaced ⟨dnsExtractor, midnight, 0⟩ k = true := by
    intro k
    cases k with
    | zero => decide +kernel
    | succ k => exact verdictUnder_of_disabled _ rfl
  have hrefuses : (check midnight (replaced 1).rules dnsExtractor 0).1 = false := by
    decide +kernel
  refine ⟨_, rfl, congrArg (fun verdict => [verdict]) hrefuses, haccepts, fun hall => ?_⟩
  obtain ⟨k, _, _, hverdict⟩ := hall _ List.mem_cons_self
  exact absurd (hrefuses.symm.trans (hverdict.trans (haccepts k))) Bool.false_ne_true

end JudgedPackets
