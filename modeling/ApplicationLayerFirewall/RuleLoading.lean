import ApplicationLayerFirewall.RuleJson
import Mathlib.Data.List.Forall2

/-!
# Loading a rule set

Both loads fill a collection of their own, with one local rule for all elements,
and only then replace the installed one. An exception can end them at any
element. Here the local rule, the new collection and the manager are one state,
which an exception leaves as it is at that moment.
-/

namespace RuleLoading

open PicoJson RuleMatching RuleVerdict RuleJson

/-! ### The two load functions -/

/-- `*this`, the collection `*_rules`, and the local variable `_rule` of its parser. -/
structure Loading where
  manager : RuleManager
  built : RuleCollection
  rule : Rule

abbrev Loaded := Except Exception Int × Loading

/-- The loop that both overloads of `RuleCollection::ParseFromJson` have. -/
def parseLoop (undef : Undefined) : List Value → Loading → Loaded
  | [], s => (.ok 0, s)
  | it :: rest, s =>
    match Rule.parseFromJson undef s.rule it with
    | .error e => (.error e, s)
    | .ok (_, rule) => parseLoop undef rest { s with rule := rule, built := s.built ++ [rule] }

/-- `v->get<picojson::array>()` and the loop. -/
def parseArray (undef : Undefined) (v : Value) (s : Loading) : Loaded :=
  match v.getArray with
  | .error e => (.error e, s)
  | .ok arr => parseLoop undef arr s

/-- The overload for a value. -/
def parseValue (undef : Undefined) (v : Value) (s : Loading) : Loaded :=
  parseArray undef v { s with rule := undef.rule }

/-- The overload for a text. -/
def parseText (text : Text) (undef : Undefined) (t : String) (s : Loading) : Loaded :=
  let s := { s with built := [] }
  match text.parse t with
  | .thrown e => (.error e, s)
  | .syntaxError _ => (.ok (-1), s)
  | .value v => parseArray undef v { s with rule := undef.rule }

/-- A manager about to load; the local rule is not initialised. -/
def begin (undef : Undefined) (m : RuleManager) : Loading := ⟨m, [], undef.rule⟩

/-- Under the lock, the new collection takes the place of the old one. -/
def Loading.swap (s : Loading) : Loading :=
  { s with manager := { s.manager with rules := s.built } }

/-- What follows the parse in both functions. -/
def finish : Loaded → Loaded
  | (.error e, s) => (.error e, s)
  | (.ok ret, s) => if ret < 0 then (.ok (-1), s) else (.ok 0, s.swap)

def loadConfigFromJson (undef : Undefined) (m : RuleManager) (v : Value) : Loaded :=
  finish (parseValue undef v (begin undef m))

def loadConfigFromBuffer (text : Text) (undef : Undefined) (m : RuleManager) (t : String) :
    Loaded :=
  finish (parseText text undef t (begin undef m))

/-! ### What becomes of the elements -/

/-- Each rule is what `Rule::ParseFromJson` makes of its element, whatever the rule object
held before. -/
def Elementwise (undef : Undefined) (arr : List Value) (rules : RuleCollection) : Prop :=
  List.Forall₂ (fun v r => ∀ fresh, Rule.parseFromJson undef fresh v = .ok (0, r)) arr rules

theorem elementwise_of_rulesOf {undef : Undefined} {arr : List Value} {rules : RuleCollection}
    (h : rulesOf undef arr = some rules) : Elementwise undef arr rules := by
  induction arr generalizing rules with
  | nil =>
    cases h
    exact .nil
  | cons v rest ih =>
    cases v with
    | object o =>
      simp only [rulesOf, Option.map_eq_some_iff] at h
      obtain ⟨later, hlater, rfl⟩ := h
      exact .cons (fun fresh => parseFromJson_object undef fresh o) (ih hlater)
    | _ => cases h

/-- The loop appends the rules of all elements, or ends at the first that is no object,
and leaves the manager alone. -/
theorem parseLoop_cases (undef : Undefined) (arr : List Value) (s : Loading) :
    (∃ rules, rulesOf undef arr = some rules ∧ ∃ rule, parseLoop undef arr s =
      (.ok 0, { s with built := s.built ++ rules, rule := rule })) ∨
    (rulesOf undef arr = none ∧ ∃ later,
      parseLoop undef arr s = (.error .runtimeError, later) ∧ later.manager = s.manager) := by
  induction arr generalizing s with
  | nil => exact Or.inl ⟨[], rfl, s.rule, by rw [parseLoop, List.append_nil]⟩
  | cons v rest ih =>
    cases hobject : v.isObject with
    | false =>
      refine Or.inr ⟨(rulesOf_eq_none_iff undef _).mpr ⟨v, List.mem_cons_self, hobject⟩,
        s, ?_, rfl⟩
      rw [parseLoop, parseFromJson_throws undef s.rule hobject]
    | true =>
      obtain ⟨o, rfl⟩ : ∃ o, v = .object o := by
        cases v with
        | object o => exact ⟨o, rfl⟩
        | _ => cases hobject
      have hstep : parseLoop undef (.object o :: rest) s = parseLoop undef rest
          { s with rule := ruleOf undef o, built := s.built ++ [ruleOf undef o] } := by
        rw [parseLoop, parseFromJson_object]
      rw [hstep, rulesOf]
      rcases ih { s with rule := ruleOf undef o, built := s.built ++ [ruleOf undef o] } with
        ⟨rules, hrules, rule, hloop⟩ | ⟨hnone, later, hloop, hmanager⟩
      · refine Or.inl ⟨ruleOf undef o :: rules, by rw [hrules]; rfl, rule, ?_⟩
        rw [hloop, List.append_assoc, List.singleton_append]
      · exact Or.inr ⟨by rw [hnone]; rfl, later, hloop, hmanager⟩

/-! ### What a load leaves -/

/-- An array of objects. -/
def Loadable (v : Value) : Prop := ∃ arr, v = .array arr ∧ ∀ element ∈ arr, element.isObject = true

/-- The load returns 0, and the installed rules are those of the elements. -/
structure Installs (undef : Undefined) (m : RuleManager) (v : Value) (loaded : Loaded) : Prop where
  returned : loaded.1 = .ok 0
  installed : ∃ arr rules, v = .array arr ∧ Elementwise undef arr rules ∧
    loaded.2.manager = { m with rules := rules }

/-- The load throws or returns a negative number, and the manager is as before. -/
structure Refuses (m : RuleManager) (loaded : Loaded) : Prop where
  failed : (∃ e, loaded.1 = .error e) ∨ ∃ ret, loaded.1 = .ok ret ∧ ret < 0
  unchanged : loaded.2.manager = m

theorem refuses_of_error {m : RuleManager} {e : Exception} {s : Loading} (h : s.manager = m) :
    Refuses m (.error e, s) :=
  ⟨Or.inl ⟨e, rfl⟩, h⟩

theorem rulesOf_isSome_iff (undef : Undefined) (arr : List Value) :
    (∃ rules, rulesOf undef arr = some rules) ↔ ∀ element ∈ arr, element.isObject = true := by
  have hnone := rulesOf_eq_none_iff undef arr
  constructor
  · rintro ⟨rules, hrules⟩ element hmem
    by_contra hother
    rw [Bool.not_eq_true] at hother
    rw [hnone.mpr ⟨element, hmem, hother⟩] at hrules
    cases hrules
  · intro hall
    refine Option.ne_none_iff_exists'.mp fun h => ?_
    obtain ⟨element, hmem, hother⟩ := hnone.mp h
    rw [hall element hmem] at hother
    cases hother

/-- An array installs the rules of its elements, or ends in an exception. -/
theorem loadConfigFromJson_cases (undef : Undefined) (arr : List Value) (m : RuleManager) :
    (∃ rules rule, rulesOf undef arr = some rules ∧ loadConfigFromJson undef m (.array arr) =
      (.ok 0, ⟨{ m with rules := rules }, rules, rule⟩)) ∨
    (rulesOf undef arr = none ∧ ∃ later,
      loadConfigFromJson undef m (.array arr) = (.error .runtimeError, later) ∧
        later.manager = m) := by
  have hload : loadConfigFromJson undef m (.array arr) =
      finish (parseLoop undef arr (begin undef m)) := rfl
  rw [hload]
  rcases parseLoop_cases undef arr (begin undef m) with
    ⟨rules, hrules, rule, hloop⟩ | ⟨hnone, later, hloop, hmanager⟩
  · exact Or.inl ⟨rules, rule, hrules, congrArg finish hloop⟩
  · exact Or.inr ⟨hnone, later, congrArg finish hloop, hmanager⟩

theorem loadConfigFromJson_installs {undef : Undefined} {v : Value} (h : Loadable v)
    (m : RuleManager) : Installs undef m v (loadConfigFromJson undef m v) := by
  obtain ⟨arr, rfl, hobjects⟩ := h
  obtain ⟨rules, hrules⟩ := (rulesOf_isSome_iff undef arr).mpr hobjects
  rcases loadConfigFromJson_cases undef arr m with ⟨built, rule, hbuilt, hload⟩ | ⟨hnone, _⟩
  · rw [hload]
    exact ⟨rfl, arr, built, rfl, elementwise_of_rulesOf hbuilt, rfl⟩
  · rw [hrules] at hnone
    cases hnone

theorem loadConfigFromJson_refuses {undef : Undefined} {v : Value} (h : ¬ Loadable v)
    (m : RuleManager) : Refuses m (loadConfigFromJson undef m v) := by
  cases v with
  | array arr =>
    have hnone : ¬ ∃ rules, rulesOf undef arr = some rules := fun hsome =>
      h ⟨arr, rfl, (rulesOf_isSome_iff undef arr).mp hsome⟩
    rcases loadConfigFromJson_cases undef arr m with
      ⟨rules, _, hrules, _⟩ | ⟨_, later, hload, hmanager⟩
    · exact absurd ⟨rules, hrules⟩ hnone
    · rw [hload]
      exact refuses_of_error hmanager
  | _ => exact refuses_of_error rfl

/-- A text that is JSON is loaded like its value. -/
theorem loadConfigFromBuffer_value {text : Text} {t : String} {v : Value}
    (h : text.parse t = .value v) (undef : Undefined) (m : RuleManager) :
    loadConfigFromBuffer text undef m t = loadConfigFromJson undef m v := by
  rw [loadConfigFromBuffer, loadConfigFromJson, parseText, parseValue, h]
  rfl

theorem loadConfigFromBuffer_refuses {text : Text} {t : String}
    (h : ∀ v, text.parse t ≠ .value v) (undef : Undefined) (m : RuleManager) :
    Refuses m (loadConfigFromBuffer text undef m t) := by
  rw [loadConfigFromBuffer, parseText]
  cases hparse : text.parse t with
  | thrown e => exact refuses_of_error rfl
  | syntaxError err => exact ⟨Or.inr ⟨-1, rfl, by decide⟩, rfl⟩
  | value v => exact absurd hparse (h v)

/-- A load installs the rules of all elements or none, and a text that is JSON is loaded
like its value. -/
theorem load_all_or_nothing (text : Text) (undef : Undefined) (m : RuleManager) :
    (∀ v, (Loadable v ∧ Installs undef m v (loadConfigFromJson undef m v)) ∨
      (¬ Loadable v ∧ Refuses m (loadConfigFromJson undef m v))) ∧
    (∀ t v, text.parse t = .value v →
      loadConfigFromBuffer text undef m t = loadConfigFromJson undef m v) ∧
    (∀ t, (∀ v, text.parse t ≠ .value v) → Refuses m (loadConfigFromBuffer text undef m t)) := by
  refine ⟨fun v => ?_, fun t v h => loadConfigFromBuffer_value h undef m,
    fun t h => loadConfigFromBuffer_refuses h undef m⟩
  by_cases hloadable : Loadable v
  · exact Or.inl ⟨hloadable, loadConfigFromJson_installs hloadable m⟩
  · exact Or.inr ⟨hloadable, loadConfigFromJson_refuses hloadable m⟩

/-- One object, and a number behind it. -/
def halfLoadable : Value := .array [.object [("protocol", .string "icmp.ICMP_REDIRECT")], .number 1]

def halfLoadableText : String := "[\x7b\"protocol\":\"icmp.ICMP_REDIRECT\"\x7d,1]"

theorem halfLoadable_from_text :
    loadConfigFromBuffer (.ofTable [(halfLoadableText, .value halfLoadable)] "[]") zeros
        ⟨[zeroRule], true⟩ halfLoadableText =
      loadConfigFromJson zeros ⟨[zeroRule], true⟩ halfLoadable := by
  have hparse : (Text.ofTable [(halfLoadableText, .value halfLoadable)] "[]").parse
      halfLoadableText = .value halfLoadable := Text.ofTable_parse_self ..
  exact (load_all_or_nothing _ zeros ⟨[zeroRule], true⟩).2.1 halfLoadableText halfLoadable hparse

/-! ### The loads as the request handler sees them -/

/-- What is left when the exception is all that the caller gets. -/
def seen : Loaded → Except Exception (Int × RuleManager)
  | (.error e, _) => .error e
  | (.ok ret, s) => .ok (ret, s.manager)

theorem loadConfigFromJson_seen (undef : Undefined) (m : RuleManager) (v : Value) :
    m.loadConfigFromJson undef v = seen (loadConfigFromJson undef m v) := by
  cases v with
  | array arr =>
    rw [RuleManager.loadConfigFromJson_array]
    rcases loadConfigFromJson_cases undef arr m with
      ⟨rules, rule, hrules, hload⟩ | ⟨hnone, later, hload, _⟩
    · rw [hload, hrules]
      rfl
    · rw [hload, hnone]
      rfl
  | _ => rfl

theorem loadConfigFromBuffer_seen (text : Text) (undef : Undefined) (m : RuleManager)
    (t : String) : m.loadConfigFromBuffer text undef t =
      seen (loadConfigFromBuffer text undef m t) := by
  cases hparse : text.parse t with
  | value v =>
    rw [loadConfigFromBuffer_value hparse, ← loadConfigFromJson_seen,
      RuleManager.loadConfigFromBuffer, RuleManager.loadConfigFromJson]
    simp only [RuleCollection.parseFromText, hparse]
  | thrown e =>
    rw [RuleManager.loadConfigFromBuffer, loadConfigFromBuffer, parseText]
    simp only [RuleCollection.parseFromText, hparse]
    rfl
  | syntaxError err =>
    rw [RuleManager.loadConfigFromBuffer, loadConfigFromBuffer, parseText]
    simp only [RuleCollection.parseFromText, hparse]
    rfl

end RuleLoading
