import ApplicationLayerFirewall.RuleJson

/-!
# The request handler of the filter server

`CHandler::handle` answers one request. An exception that it lets through ends
the process, so a result is the response or the exception, next to the state
that is left. Which bodies throw depends on the body alone; what an update does
to rules and flag is stated in `updated`.
-/

namespace RequestHandler

open PicoJson RuleMatching RuleVerdict RuleJson

/-! ### State -/

/-- Libraries, undefined conversions, and the text that the warning about a bad
request adds to the log. -/
structure Env where
  text : Text
  undef : Undefined
  warning : List Char

/-- The rule manager, the log text up to `p_sp`, and the handler's position `xp` in it. -/
structure Server where
  manager : RuleManager
  log : List Char
  xp : Nat

def Server.logText (st : Server) (t : List Char) : Server := { st with log := st.log ++ t }

@[simp] theorem Server.logText_manager (st : Server) (t : List Char) :
    (st.logText t).manager = st.manager := rfl

abbrev Handled := Except Exception String × Server

/-! ### CHandler::handle -/

def optQueryRules : Int32 := 1
def optUpdateRules : Int32 := 2
def optQueryLog : Int32 := 3
def optQueryStatus : Int32 := 4
def optQueryCleanLog : Int32 := 5

def badBody : String := "\x7b\"error_code\":2,\"error_msg\":\"bad body\"\x7d"
def unknownOpt : String := "\x7b\"error_code\":3,\"error_msg\":\"unknown opt\"\x7d"
def rulesParseError : String := "\x7b\"error_code\":5,\"error_msg\":\"rules parse error\"\x7d"
def success : String := "\x7b\"error_code\":0\x7d"
def statusEnabled : String := "\x7b\"error_code\":0,\"enabled\":1\x7d"
def statusDisabled : String := "\x7b\"error_code\":0,\"enabled\":0\x7d"

/-- `v.contains(key) && v.get(key).is<T>()`. -/
def containsKind (v : Value) (key : String) (kind : Value → Bool) : Except Exception Bool := do
  if ← v.contains key then return kind (← v.get key)
  return false

/-- The part of an update that concerns `data`. -/
def updateData (env : Env) (m : RuleManager) (v : Value) :
    Except Exception (Int × RuleManager) := do
  if ← containsKind v "data" Value.isArray then
    return ← m.loadConfigFromJson env.undef (← v.get "data")
  return (0, m)

/-- The part of an update that concerns `enabled`. -/
def updateEnabled (m : RuleManager) (v : Value) : Except Exception RuleManager := do
  if ← containsKind v "enabled" Value.isNumber then
    return m.setEnabled (decide (0 < (← (← v.get "enabled").getNumber)))
  return m

def updateRules (env : Env) (st : Server) (v : Value) : Handled :=
  match updateData env st.manager v with
  | .error e => (.error e, st)
  | .ok (ret, m) =>
    if ret < 0 then (.ok rulesParseError, { st with manager := m })
    else match updateEnabled m v with
      | .error e => (.error e, { st with manager := m })
      | .ok m => (.ok success, { st with manager := m })

def handleValue (env : Env) (st : Server) (v : Value) : Handled :=
  match getInteger32 env.undef v "opt" (-1) with
  | .error e => (.error e, st)
  | .ok opt =>
    if opt = optQueryRules then
      (.ok (RuleCollection.toJsonText env.text st.manager.getRules), st)
    else if opt = optQueryStatus then
      (.ok (if st.manager.isEnabled then statusEnabled else statusDisabled), st)
    else if opt = optUpdateRules then updateRules env st v
    else if opt = optQueryCleanLog then
      (.ok (env.text.serialize (.string (String.ofList st.log))), { st with xp := st.log.length })
    else if opt = optQueryLog then
      (.ok (env.text.serialize (.string (String.ofList (st.log.drop st.xp)))),
        { st with xp := st.log.length })
    else (.ok unknownOpt, st)

/-- The body is parsed up to its first NUL. -/
def handle (env : Env) (st : Server) (buff : List Char) : Handled :=
  match env.text.parse (String.ofList (cString buff)) with
  | .thrown e => (.error e, st)
  | .syntaxError _ => (.ok badBody, st.logText env.warning)
  | .value v => handleValue env st v

/-! ### Requests that are objects -/

/-- The `opt` of an object. -/
def optOf (env : Env) (o : Fields) : Int32 :=
  match o.lookup "opt" with
  | some (.number d) => toInt32 env.undef.conversions d
  | _ => -1

theorem toInt32_opts (undef : Conversions) :
    toInt32 undef 1 = optQueryRules ∧ toInt32 undef 2 = optUpdateRules := by
  constructor
  · rw [toInt32, if_pos (by norm_num)]
    decide +kernel
  · rw [toInt32, if_pos (by norm_num)]
    decide +kernel

theorem optOf_query (env : Env) {o : Fields} (h : o.lookup "opt" = some (.number 1)) :
    optOf env o = optQueryRules := by
  rw [optOf, h]
  exact (toInt32_opts env.undef.conversions).1

theorem optOf_update (env : Env) {o : Fields} (h : o.lookup "opt" = some (.number 2)) :
    optOf env o = optUpdateRules := by
  rw [optOf, h]
  exact (toInt32_opts env.undef.conversions).2

theorem getInteger32_object (undef : Undefined) (o : Fields) (key : String) (default : Int32) :
    getInteger32 undef (.object o) key default =
      .ok (match o.lookup key with
        | some (.number d) => toInt32 undef.conversions d
        | _ => default) := by
  cases h : o.lookup key with
  | none => simp [getInteger32, Value.contains, h, bind, Except.bind, pure, Except.pure]
  | some w =>
    cases w <;>
      simp [getInteger32, Value.contains, Value.get, Value.isNumber, Value.getNumber, h, bind,
        Except.bind, pure, Except.pure]

/-- Anything but an object throws when `opt` is looked up. -/
theorem getInteger32_throws (undef : Undefined) {v : Value} (h : v.isObject = false)
    (key : String) (default : Int32) :
    getInteger32 undef v key default = .error .runtimeError := by
  cases v <;> first | rfl | cases h

/-- The elements of `data`, when it is an array. -/
def dataOf (o : Fields) : Option (List Value) :=
  match o.lookup "data" with
  | some (.array arr) => some arr
  | _ => none

theorem dataOf_eq_some_iff (o : Fields) (arr : List Value) :
    dataOf o = some arr ↔ o.lookup "data" = some (.array arr) := by
  rw [dataOf]
  cases o.lookup "data" with
  | none => simp
  | some v => cases v <;> simp

/-- The flag that `enabled` asks for, when it is a number. -/
def enabledOf (o : Fields) : Option Bool :=
  match o.lookup "enabled" with
  | some (.number d) => some (decide (0 < d))
  | _ => none

theorem containsKind_object (o : Fields) (key : String) (kind : Value → Bool) :
    containsKind (.object o) key kind = .ok ((o.lookup key).any kind) := by
  cases h : o.lookup key <;>
    simp [containsKind, Value.contains, Value.get, h, bind, Except.bind, pure, Except.pure]

theorem updateData_object (env : Env) (m : RuleManager) (o : Fields) :
    updateData env m (.object o) =
      match dataOf o with
      | some arr => m.loadConfigFromJson env.undef (.array arr)
      | none => .ok (0, m) := by
  rw [dataOf, updateData, containsKind_object]
  cases h : o.lookup "data" with
  | none => rfl
  | some w =>
    cases w with
    | array arr =>
      simp only [Value.get, h, bind, Except.bind, Option.any_some, Value.isArray, if_true,
        Option.getD_some]
    | _ => rfl

/-- The manager with its flag set as an object asks. -/
def withEnabled (m : RuleManager) (o : Fields) : RuleManager :=
  match enabledOf o with
  | some flag => m.setEnabled flag
  | none => m

theorem updateEnabled_object (m : RuleManager) (o : Fields) :
    updateEnabled m (.object o) = .ok (withEnabled m o) := by
  rw [withEnabled, enabledOf, updateEnabled, containsKind_object]
  cases h : o.lookup "enabled" with
  | none => rfl
  | some w =>
    cases w with
    | number d => simp [Value.get, Value.getNumber, h, bind, Except.bind, pure, Except.pure,
        Value.isNumber]
    | _ => rfl

/-- The manager after an update; there is none if a rule of `data` is no object. -/
def updated (env : Env) (m : RuleManager) (o : Fields) : Option RuleManager :=
  match dataOf o with
  | some arr =>
    (rulesOf env.undef arr).map (fun rules => withEnabled { m with rules := rules } o)
  | none => some (withEnabled m o)

/-- An update that carries both fields leaves nothing of the manager before it. -/
theorem updated_both {env : Env} {o : Fields} {arr : List Value} {rules : RuleCollection}
    {enabled : Bool} (hdata : dataOf o = some arr) (hrules : rulesOf env.undef arr = some rules)
    (hflag : enabledOf o = some enabled) (m : RuleManager) :
    updated env m o = some ⟨rules, enabled⟩ := by
  simp only [updated, hdata, hrules, withEnabled, hflag, RuleManager.setEnabled, Option.map_some]

theorem updateRules_object (env : Env) (st : Server) (o : Fields) :
    updateRules env st (.object o) =
      match updated env st.manager o with
      | some m => (.ok success, { st with manager := m })
      | none => (.error .runtimeError, st) := by
  rw [updateRules, updateData_object, updated]
  cases dataOf o with
  | none =>
    simp only [updateEnabled_object]
    rfl
  | some arr =>
    simp only [RuleManager.loadConfigFromJson_array]
    cases rulesOf env.undef arr with
    | none => rfl
    | some rules =>
      simp only [updateEnabled_object]
      rfl

/-! ### What a request does -/

/-- The bodies on which an exception leaves the handler. -/
def Throws (env : Env) (buff : List Char) : Prop :=
  match env.text.parse (String.ofList (cString buff)) with
  | .thrown _ => True
  | .syntaxError _ => False
  | .value (.object o) => optOf env o = optUpdateRules ∧
      ∃ arr, dataOf o = some arr ∧ ∃ v ∈ arr, v.isObject = false
  | .value _ => True

/-- The manager after a request. -/
def managerAfter (env : Env) (m : RuleManager) (buff : List Char) : RuleManager :=
  match env.text.parse (String.ofList (cString buff)) with
  | .value (.object o) =>
    if optOf env o = optUpdateRules then (updated env m o).getD m else m
  | _ => m

theorem updated_eq_none_iff (env : Env) (m : RuleManager) (o : Fields) :
    updated env m o = none ↔ ∃ arr, dataOf o = some arr ∧ ∃ v ∈ arr, v.isObject = false := by
  rw [updated]
  cases hdata : dataOf o with
  | none => simp
  | some arr =>
    simp only [Option.map_eq_none_iff, rulesOf_eq_none_iff, Option.some.injEq, exists_eq_left']

/-- The outcome for an object, update or not. -/
theorem handleValue_object (env : Env) (st : Server) (o : Fields) :
    ((∃ e, (handleValue env st (.object o)).1 = .error e) ↔
      optOf env o = optUpdateRules ∧ updated env st.manager o = none) ∧
    (handleValue env st (.object o)).2.manager =
      if optOf env o = optUpdateRules then (updated env st.manager o).getD st.manager
      else st.manager := by
  have hopt : getInteger32 env.undef (.object o) "opt" (-1) = .ok (optOf env o) :=
    getInteger32_object env.undef o "opt" (-1)
  rw [handleValue, hopt]
  by_cases hupdate : optOf env o = optUpdateRules
  · have hfirst : ¬ optUpdateRules = optQueryRules := by decide
    have hsecond : ¬ optUpdateRules = optQueryStatus := by decide
    simp only [hupdate, if_neg hfirst, if_neg hsecond, if_true, updateRules_object]
    cases updated env st.manager o <;> simp
  · simp only [if_neg hupdate]
    split_ifs <;> simp [hupdate]

theorem handleValue_query {env : Env} {o : Fields} (hopt : optOf env o = optQueryRules)
    (st : Server) : handleValue env st (.object o) =
      (.ok (RuleCollection.toJsonText env.text st.manager.getRules), st) := by
  have hinteger : getInteger32 env.undef (.object o) "opt" (-1) = .ok (optOf env o) :=
    getInteger32_object env.undef o "opt" (-1)
  rw [handleValue, hinteger]
  exact if_pos hopt

theorem handleValue_update {env : Env} {o : Fields} (hopt : optOf env o = optUpdateRules)
    (st : Server) : handleValue env st (.object o) = updateRules env st (.object o) := by
  have hinteger : getInteger32 env.undef (.object o) "opt" (-1) = .ok (optOf env o) :=
    getInteger32_object env.undef o "opt" (-1)
  have hfirst : ¬ optUpdateRules = optQueryRules := by decide
  have hsecond : ¬ optUpdateRules = optQueryStatus := by decide
  simp only [handleValue, hinteger, hopt, if_neg hfirst, if_neg hsecond, if_true]

theorem handleValue_not_object (env : Env) (st : Server) {v : Value} (h : v.isObject = false) :
    handleValue env st v = (.error .runtimeError, st) := by
  rw [handleValue, getInteger32_throws env.undef h]

/-- Whether an exception leaves the handler depends on the body alone. -/
theorem handle_throws_iff (env : Env) (st : Server) (buff : List Char) :
    (∃ e, (handle env st buff).1 = .error e) ↔ Throws env buff := by
  rw [handle, Throws]
  cases env.text.parse (String.ofList (cString buff)) with
  | thrown e => simp
  | syntaxError err => simp
  | value v =>
    cases v with
    | object o =>
      simp only [(handleValue_object env st o).1, updated_eq_none_iff]
    | _ => exact iff_of_true ⟨_, congrArg Prod.fst (handleValue_not_object env st rfl)⟩ trivial

/-- Rules and flag after a request depend on rules, flag and body alone. -/
theorem handle_manager (env : Env) (st : Server) (buff : List Char) :
    (handle env st buff).2.manager = managerAfter env st.manager buff := by
  rw [handle, managerAfter]
  cases env.text.parse (String.ofList (cString buff)) with
  | thrown e => rfl
  | syntaxError err => rfl
  | value v =>
    cases v with
    | object o => exact (handleValue_object env st o).2
    | _ => rfl

/-- The two ways a request can end. -/
theorem handle_cases (env : Env) (st : Server) (buff : List Char) :
    (Throws env buff ∧ ∃ e st', handle env st buff = (.error e, st')) ∨
    (¬ Throws env buff ∧ ∃ rsp st', handle env st buff = (.ok rsp, st') ∧
      st'.manager = managerAfter env st.manager buff) := by
  have hthrows := handle_throws_iff env st buff
  have hmanager := handle_manager env st buff
  rcases h : handle env st buff with ⟨result, st'⟩
  rw [h] at hthrows hmanager
  cases result with
  | error e => exact Or.inl ⟨hthrows.mp ⟨e, rfl⟩, e, st', rfl⟩
  | ok rsp =>
    refine Or.inr ⟨fun h => ?_, rsp, st', rfl, hmanager⟩
    obtain ⟨e, he⟩ := hthrows.mpr h
    cases he

end RequestHandler
