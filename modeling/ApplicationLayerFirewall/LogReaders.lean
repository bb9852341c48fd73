import ApplicationLayerFirewall.LogBuffer
import ApplicationLayerFirewall.RequestHandler
import Mathlib.Logic.Function.Basic

/-!
# Reading the log from several clients

The handler object serves all connections, and its cursor `xp` is therefore
shared by all clients: a query of one client moves the cursor for the others.
The cursor is also moved before the text is copied, so a text logged in between
is answered twice. Clients and the logging thread act in any order here; the
assignments to `np` and `xp` and the copy of the text are one action each.
-/

namespace LogReaders

open PicoJson RuleJson RequestHandler LogBuffer TransitionRuns

/-! ### Clients and log -/

/-- What a client's thread has done of its current request. -/
inductive Phase where
  | fresh
  | cleaning
  | idle
  | queried (np : Nat)
  | moved (np : Nat)
  deriving DecidableEq

/-- `text` is all that was ever logged, and `upTo c` its length when the last answer
to `c` was copied. -/
structure State (Client : Type) where
  log : Log
  text : List Char
  xp : Nat
  phase : Client → Phase
  answers : Client → List (List Char)
  upTo : Client → Nat

inductive Action (Client : Type) where
  | append (more : List Char)
  | cleanMove (c : Client)
  | cleanCopy (c : Client)
  | readCursor (c : Client)
  | moveCursor (c : Client)
  | copyLog (c : Client)

variable {Client : Type} [DecidableEq Client]

/-- Texts are logged only before the buffer is full, and a formatted text has no NUL. -/
def append (more : List Char) (s : State Client) : Option (State Client) :=
  if s.log.sp + more.length < sizeofLogbuff ∧ '\x00' ∉ more then
    some { s with log := logOrig s.log more, text := s.text ++ more }
  else none

/-- A request goes on, with the cursor where it is or moved. -/
def State.enter (s : State Client) (c : Client) (p : Phase) (xp : Nat) : State Client :=
  { s with phase := Function.update s.phase c p, xp := xp }

@[simp] theorem State.enter_phase_self (s : State Client) (c : Client) (p : Phase) (xp : Nat) :
    (s.enter c p xp).phase c = p := Function.update_self ..

/-- The client is sent a copy and waits for nothing more. -/
def State.answer (s : State Client) (c : Client) (copy : List Char) : State Client :=
  { s with
    phase := Function.update s.phase c .idle
    answers := Function.update s.answers c (s.answers c ++ [copy])
    upTo := Function.update s.upTo c s.text.length }

/-- `std::string` from an offset of the buffer. -/
def State.copyFrom (s : State Client) (c : Client) (np : Nat) : Option (State Client) :=
  (stringAt s.log.bytes sizeofLogbuff np).map (s.answer c)

/-- `OPT_QUERY_CLEAN_LOG`, which a client sends once. -/
def cleanMove (c : Client) (s : State Client) : Option (State Client) :=
  match s.phase c with
  | .fresh => some (s.enter c .cleaning s.log.sp)
  | _ => none

def cleanCopy (c : Client) (s : State Client) : Option (State Client) :=
  match s.phase c with
  | .cleaning => s.copyFrom c 0
  | _ => none

/-- `OPT_QUERY_LOG`. -/
def readCursor (c : Client) (s : State Client) : Option (State Client) :=
  match s.phase c with
  | .idle => some (s.enter c (.queried s.xp) s.xp)
  | _ => none

def moveCursor (c : Client) (s : State Client) : Option (State Client) :=
  match s.phase c with
  | .queried np => some (s.enter c (.moved np) s.log.sp)
  | _ => none

def copyLog (c : Client) (s : State Client) : Option (State Client) :=
  match s.phase c with
  | .moved np => s.copyFrom c np
  | _ => none

def step (s : State Client) : Action Client → Option (State Client)
  | .append more => append more s
  | .cleanMove c => cleanMove c s
  | .cleanCopy c => cleanCopy c s
  | .readCursor c => readCursor c s
  | .moveCursor c => moveCursor c s
  | .copyLog c => copyLog c s

def start : State Client :=
  ⟨logInit zeroed, [], 0, fun _ => .fresh, fun _ => [], fun _ => 0⟩

/-- Every client has been sent the text up to its last answer, each byte once. -/
def ExactlyOnce (s : State Client) : Prop :=
  ∀ c, (s.answers c).flatten = s.text.take (s.upTo c)

/-- Only a copy of the increment can go wrong: it has to begin where the client's last
answer ended. -/
def Meets (s : State Client) : Action Client → Prop
  | .copyLog c => ∀ np, s.phase c = .moved np → np = s.upTo c
  | _ => True

/-! ### The invariant -/

/-- A cursor in use points into the text. -/
def Phase.Within (n : Nat) : Phase → Prop
  | .queried np => np ≤ n
  | .moved np => np ≤ n
  | _ => True

theorem Phase.Within.mono {p : Phase} {n m : Nat} (h : p.Within n) (hle : n ≤ m) : p.Within m := by
  cases p with
  | queried np => exact Nat.le_trans h hle
  | moved np => exact Nat.le_trans h hle
  | _ => trivial

/-- The buffer holds the text, all positions lie in it, and nothing is answered before
the first copy. -/
structure Inv (s : State Client) : Prop where
  holds : Holds s.log s.text
  fits : s.text.length < sizeofLogbuff
  noNul : '\x00' ∉ s.text
  cursor : s.xp ≤ s.text.length
  phase : ∀ c, (s.phase c).Within s.text.length
  upTo : ∀ c, s.upTo c ≤ s.text.length
  unanswered : ∀ c, s.phase c = .fresh ∨ s.phase c = .cleaning → s.answers c = []

omit [DecidableEq Client] in
theorem start_inv : Inv (start : State Client) where
  holds := zeroed_holds
  fits := (by decide : 0 < sizeofLogbuff)
  noNul := List.not_mem_nil
  cursor := Nat.le_refl 0
  phase := fun _ => trivial
  upTo := fun _ => Nat.le_refl 0
  unanswered := fun _ _ => rfl

omit [DecidableEq Client] in
theorem Inv.within {s : State Client} (inv : Inv s) {c : Client} {p : Phase}
    (h : s.phase c = p) : p.Within s.text.length :=
  h ▸ inv.phase c

/-- A copy from a position in the text is the text from there on. -/
theorem Inv.copyFrom {s : State Client} (inv : Inv s) (c : Client) {np : Nat}
    (hnp : np ≤ s.text.length) : s.copyFrom c np = some (s.answer c (s.text.drop np)) := by
  have hcopy : stringAt s.log.bytes sizeofLogbuff np = some (s.text.drop np) :=
    stringAt_drop inv.holds inv.noNul hnp inv.fits
  rw [State.copyFrom, hcopy, Option.map_some]

/-- What an action does, and when it can be taken. -/
theorem step_cases {s next : State Client} {a : Action Client} (inv : Inv s)
    (h : step s a = some next) :
    (∃ more, a = .append more ∧ s.log.sp + more.length < sizeofLogbuff ∧ '\x00' ∉ more ∧
      next = { s with log := logOrig s.log more, text := s.text ++ more }) ∨
    (∃ c, a = .cleanMove c ∧ s.phase c = .fresh ∧
      next = s.enter c .cleaning s.text.length) ∨
    (∃ c, a = .cleanCopy c ∧ s.phase c = .cleaning ∧ next = s.answer c s.text) ∨
    (∃ c, a = .readCursor c ∧ s.phase c = .idle ∧ next = s.enter c (.queried s.xp) s.xp) ∨
    (∃ c np, a = .moveCursor c ∧ s.phase c = .queried np ∧
      next = s.enter c (.moved np) s.text.length) ∨
    (∃ c np, a = .copyLog c ∧ s.phase c = .moved np ∧
      next = s.answer c (s.text.drop np)) := by
  have hsp := inv.holds.position
  cases a with
  | append more =>
    simp only [step, append] at h
    split_ifs at h with hroom
    exact Or.inl ⟨more, rfl, hroom.1, hroom.2, (Option.some.inj h).symm⟩
  | cleanMove c =>
    simp only [step, cleanMove] at h
    split at h <;> cases h
    exact Or.inr (Or.inl ⟨c, rfl, ‹_›, by rw [hsp]⟩)
  | cleanCopy c =>
    simp only [step, cleanCopy, inv.copyFrom c (Nat.zero_le _)] at h
    split at h <;> cases h
    exact Or.inr (Or.inr (Or.inl ⟨c, rfl, ‹_›, rfl⟩))
  | readCursor c =>
    simp only [step, readCursor] at h
    split at h <;> cases h
    exact Or.inr (Or.inr (Or.inr (Or.inl ⟨c, rfl, ‹_›, rfl⟩)))
  | moveCursor c =>
    simp only [step, moveCursor] at h
    split at h <;> cases h
    exact Or.inr (Or.inr (Or.inr (Or.inr (Or.inl ⟨c, _, rfl, ‹_›, by rw [hsp]⟩))))
  | copyLog c =>
    simp only [step, copyLog] at h
    split at h
    · rename_i np hphase
      have hnp : np ≤ s.text.length := inv.within hphase
      rw [inv.copyFrom c hnp] at h
      exact Or.inr (Or.inr (Or.inr (Or.inr (Or.inr
        ⟨c, np, rfl, hphase, (Option.some.inj h).symm⟩))))
    · cases h

theorem Inv.enter {s : State Client} (inv : Inv s) (c : Client) {p : Phase} {x : Nat}
    (hp : p.Within s.text.length) (hx : x ≤ s.text.length)
    (hearly : p = .fresh ∨ p = .cleaning → s.answers c = []) :
    Inv (s.enter c p x) := by
  refine ⟨inv.holds, inv.fits, inv.noNul, hx, fun d => ?_, inv.upTo, fun d hd => ?_⟩
  · by_cases hdc : d = c
    · subst hdc
      simpa [State.enter] using hp
    · simpa [State.enter, hdc] using inv.phase d
  · by_cases hdc : d = c
    · subst hdc
      exact hearly (by simpa [State.enter] using hd)
    · exact inv.unanswered d (by simpa [State.enter, hdc] using hd)

theorem Inv.answer {s : State Client} (inv : Inv s) (c : Client) (copy : List Char) :
    Inv (s.answer c copy) := by
  refine ⟨inv.holds, inv.fits, inv.noNul, inv.cursor, fun d => ?_, fun d => ?_, fun d hd => ?_⟩
  · by_cases hdc : d = c
    · subst hdc
      simp [State.answer, Phase.Within]
    · simpa [State.answer, hdc] using inv.phase d
  · by_cases hdc : d = c
    · subst hdc
      simp [State.answer]
    · simpa [State.answer, hdc] using inv.upTo d
  · by_cases hdc : d = c
    · subst hdc
      simp [State.answer] at hd
    · simp only [State.answer, Function.update_of_ne hdc] at hd ⊢
      exact inv.unanswered d hd

omit [DecidableEq Client] in
theorem Inv.append {s : State Client} (inv : Inv s) {more : List Char}
    (hroom : s.log.sp + more.length < sizeofLogbuff) (hnul : '\x00' ∉ more) :
    Inv { s with log := logOrig s.log more, text := s.text ++ more } := by
  have hlength : (s.text ++ more).length = s.text.length + more.length := List.length_append
  have hle : s.text.length ≤ (s.text ++ more).length := hlength ▸ Nat.le_add_right _ _
  refine ⟨logOrig_holds inv.holds inv.fits more, ?_, ?_, Nat.le_trans inv.cursor hle,
    fun c => (inv.phase c).mono hle, fun c => Nat.le_trans (inv.upTo c) hle, inv.unanswered⟩
  · exact hlength.trans_lt (inv.holds.position ▸ hroom)
  · simpa using ⟨inv.noNul, hnul⟩

theorem step_inv {s next : State Client} {a : Action Client} (inv : Inv s)
    (h : step s a = some next) : Inv next := by
  rcases step_cases inv h with ⟨more, rfl, hroom, hnul, rfl⟩ | ⟨c, rfl, hfresh, rfl⟩ |
    ⟨c, rfl, _, rfl⟩ | ⟨c, rfl, _, rfl⟩ | ⟨c, np, rfl, hphase, rfl⟩ | ⟨c, np, rfl, _, rfl⟩
  · exact inv.append hroom hnul
  · exact inv.enter c trivial (Nat.le_refl _) fun _ => inv.unanswered c (Or.inl hfresh)
  · exact inv.answer c s.text
  · refine inv.enter c inv.cursor inv.cursor fun hearly => ?_
    rcases hearly with hearly | hearly <;> cases hearly
  · have hnp : np ≤ s.text.length := inv.within hphase
    refine inv.enter c hnp (Nat.le_refl _) fun hearly => ?_
    rcases hearly with hearly | hearly <;> cases hearly
  · exact inv.answer c (s.text.drop np)

/-! ### The steps together -/

/-- Taken together, the steps of a query are what the handler does with it. -/
theorem query_uninterrupted {s : State Client} (inv : Inv s) {c : Client}
    (hidle : s.phase c = .idle) {env : Env} {st : Server} {v : Value}
    (hopt : getInteger32 env.undef v "opt" (-1) = .ok optQueryLog) (hlog : st.log = s.text)
    (hxp : st.xp = s.xp) :
    run step s [.readCursor c, .moveCursor c, .copyLog c] =
      some { s.answer c (s.text.drop s.xp) with xp := s.text.length } ∧
    handleValue env st v =
      (.ok (env.text.serialize (.string (String.ofList (s.text.drop s.xp)))),
        { st with xp := s.text.length }) := by
  constructor
  · have hread : step s (.readCursor c) = some (s.enter c (.queried s.xp) s.xp) := by
      simp only [step, readCursor, hidle]
    have hmove : step (s.enter c (.queried s.xp) s.xp) (.moveCursor c) =
        some (s.enter c (.moved s.xp) s.text.length) := by
      simp [step, moveCursor, State.enter, inv.holds.position]
    have hinv : Inv (s.enter c (.moved s.xp) s.text.length) :=
      inv.enter c inv.cursor (Nat.le_refl _) (by rintro (h | h) <;> cases h)
    have hcopy : step (s.enter c (.moved s.xp) s.text.length) (.copyLog c) =
        some { s.answer c (s.text.drop s.xp) with xp := s.text.length } := by
      have hanswer := hinv.copyFrom c inv.cursor
      simp only [step, copyLog, State.enter_phase_self, hanswer]
      simp [State.answer, State.enter]
    simp only [run, hread, hmove, hcopy, Option.bind_some]
  · have hother : optQueryLog ≠ optQueryRules ∧ optQueryLog ≠ optQueryStatus ∧
        optQueryLog ≠ optUpdateRules ∧ optQueryLog ≠ optQueryCleanLog := by decide
    obtain ⟨hrules, hstatus, hupdate, hclean⟩ := hother
    simp only [handleValue, hopt, if_neg hrules, if_neg hstatus, if_neg hupdate, if_neg hclean,
      if_true, hlog, hxp]

theorem clean_uninterrupted {s : State Client} (inv : Inv s) {c : Client}
    (hfresh : s.phase c = .fresh) {env : Env} {st : Server} {v : Value}
    (hopt : getInteger32 env.undef v "opt" (-1) = .ok optQueryCleanLog) (hlog : st.log = s.text) :
    run step s [.cleanMove c, .cleanCopy c] =
      some { s.answer c s.text with xp := s.text.length } ∧
    handleValue env st v =
      (.ok (env.text.serialize (.string (String.ofList s.text))),
        { st with xp := s.text.length }) := by
  constructor
  · have hmove : step s (.cleanMove c) =
        some (s.enter c .cleaning s.text.length) := by
      simp only [step, cleanMove, hfresh, inv.holds.position]
    have hinv : Inv (s.enter c .cleaning s.text.length) :=
      inv.enter c trivial (Nat.le_refl _) fun _ => inv.unanswered c (Or.inl hfresh)
    have hcopy : step (s.enter c .cleaning s.text.length) (.cleanCopy c) =
        some { s.answer c s.text with xp := s.text.length } := by
      have hanswer := hinv.copyFrom c (Nat.zero_le _)
      simp only [step, cleanCopy, State.enter_phase_self, hanswer]
      simp [State.answer, State.enter]
    simp only [run, hmove, hcopy, Option.bind_some]
  · have hother : optQueryCleanLog ≠ optQueryRules ∧ optQueryCleanLog ≠ optQueryStatus ∧
        optQueryCleanLog ≠ optUpdateRules := by decide
    obtain ⟨hrules, hstatus, hupdate⟩ := hother
    simp only [handleValue, hopt, if_neg hrules, if_neg hstatus, if_neg hupdate, if_true, hlog]

/-! ### What the clients have been sent -/

/-- Only the answered client is concerned. -/
theorem answer_exactlyOnce_iff {s : State Client} (h : ExactlyOnce s) (c : Client)
    (copy : List Char) :
    ExactlyOnce (s.answer c copy) ↔ s.text.take (s.upTo c) ++ copy = s.text := by
  constructor
  · intro hnext
    have hc := hnext c
    simpa [State.answer, h c] using hc
  · intro hcopy d
    by_cases hdc : d = c
    · subst hdc
      simpa [State.answer, h d] using hcopy
    · simpa [State.answer, hdc] using h d

/-- Two parts of a text are the whole exactly when they meet. -/
theorem take_append_drop_eq_iff {text : List Char} {u np : Nat} (hu : u ≤ text.length)
    (hnp : np ≤ text.length) : text.take u ++ text.drop np = text ↔ np = u := by
  constructor
  · intro h
    have hlength := congrArg List.length h
    rw [List.length_append, List.length_take_of_le hu, List.length_drop] at hlength
    omega
  · rintro rfl
    exact List.take_append_drop np text

/-- A step sends everything exactly once if and only if it meets the condition. -/
theorem step_exactlyOnce_iff {s next : State Client} {a : Action Client} (inv : Inv s)
    (hgood : ExactlyOnce s) (h : step s a = some next) : ExactlyOnce next ↔ Meets s a := by
  rcases step_cases inv h with ⟨more, rfl, _, _, rfl⟩ | ⟨c, rfl, _, rfl⟩ | ⟨c, rfl, hphase, rfl⟩ |
    ⟨c, rfl, _, rfl⟩ | ⟨c, np, rfl, _, rfl⟩ | ⟨c, np, rfl, hphase, rfl⟩
  · refine iff_of_true (fun c => ?_) trivial
    rw [List.take_append_of_le_length (inv.upTo c)]
    exact hgood c
  · exact iff_of_true hgood trivial
  · refine iff_of_true ((answer_exactlyOnce_iff hgood c s.text).mpr ?_) trivial
    rw [← hgood c, inv.unanswered c (Or.inr hphase), List.flatten_nil, List.nil_append]
  · exact iff_of_true hgood trivial
  · exact iff_of_true hgood trivial
  · have hnp : np ≤ s.text.length := inv.within hphase
    rw [answer_exactlyOnce_iff hgood, take_append_drop_eq_iff (inv.upTo c) hnp]
    constructor
    · rintro rfl np' hphase'
      rw [hphase] at hphase'
      cases hphase'
      rfl
    · intro hmeets
      exact hmeets np hphase

/-- In a run of any number of clients, every client has been sent the log exactly once in
every state if and only if each increment begins where the client's last answer ended. -/
theorem run_exactlyOnce_iff {actions : List (Action Client)} {final : State Client}
    (hrun : run step start actions = some final) :
    Always step ExactlyOnce start actions ↔ Throughout step Meets start actions := by
  have hstart : ExactlyOnce (start : State Client) := fun _ => rfl
  exact always_iff_throughout step_inv step_exactlyOnce_iff hrun start_inv hstart

/-! ### Two readers -/

/-- Two clients fetch the log, a text is logged, and both ask for the increment. -/
def twoReaders : List (Action Bool) :=
  [.cleanMove false, .cleanCopy false, .cleanMove true, .cleanCopy true, .append ['!'],
    .readCursor true, .moveCursor true, .copyLog true,
    .readCursor false, .moveCursor false, .copyLog false]

/-- A single client, with a text logged between the cursor's move and the copy. -/
def overtaken : List (Action Bool) :=
  [.cleanMove false, .cleanCopy false, .readCursor false, .moveCursor false, .append ['!'],
    .copyLog false, .readCursor false, .moveCursor false, .copyLog false]

def alone : List (Action Bool) :=
  [.append ['!'], .cleanMove false, .cleanCopy false, .append ['?'],
    .readCursor false, .moveCursor false, .copyLog false]

theorem alone_exactlyOnce : ∃ s, run step start alone = some s ∧
    (Always step ExactlyOnce start alone ↔ Throughout step Meets start alone) := by
  obtain ⟨s, hs⟩ := Option.isSome_iff_exists.mp
    (by decide +kernel : (run step start alone).isSome = true)
  exact ⟨s, hs, run_exactlyOnce_iff hs⟩

/-- The text is lost to one of the two readers, and sent twice to the single one. -/
theorem lost_and_repeated :
    (run step start twoReaders).map (fun s => (s.text, s.upTo false, s.answers false)) =
      some (['!'], 1, [[], []]) ∧
    (run step start overtaken).map (fun s => (s.text, s.upTo false, s.answers false)) =
      some (['!'], 1, [[], ['!'], ['!']]) ∧
    ¬ Always step ExactlyOnce start twoReaders ∧ ¬ Always step ExactlyOnce start overtaken := by
  have hlost : (run step start twoReaders).map
      (fun s => (s.text, s.upTo false, s.answers false)) = some (['!'], 1, [[], []]) := by
    decide +kernel
  have hrepeated : (run step start overtaken).map
      (fun s => (s.text, s.upTo false, s.answers false)) =
        some (['!'], 1, [[], ['!'], ['!']]) := by
    decide +kernel
  refine ⟨hlost, hrepeated, fun hall => ?_, fun hall => ?_⟩
  · obtain ⟨s, hs, hsent⟩ := Option.map_eq_some_iff.mp hlost
    obtain ⟨htext, hupTo, hanswers⟩ : s.text = ['!'] ∧ s.upTo false = 1 ∧
        s.answers false = [[], []] := by simpa using hsent
    have honce := hall twoReaders (List.prefix_refl _) s hs false
    rw [htext, hupTo, hanswers] at honce
    cases honce
  · obtain ⟨s, hs, hsent⟩ := Option.map_eq_some_iff.mp hrepeated
    obtain ⟨htext, hupTo, hanswers⟩ : s.text = ['!'] ∧ s.upTo false = 1 ∧
        s.answers false = [[], ['!'], ['!']] := by simpa using hsent
    have honce := hall overtaken (List.prefix_refl _) s hs false
    rw [htext, hupTo, hanswers] at honce
    cases honce

end LogReaders
