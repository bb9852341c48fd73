import ApplicationLayerFirewall.RequestHandler

/-!
# What a successful update means

An update answers success unless a rule of `data` is no object. A field of the
wrong kind is passed over without a word, so the answer says nothing about it:
the rules or the flag are then what they were before.
-/

namespace UpdateAnswers

open PicoJson RuleVerdict RuleJson RequestHandler

/-- The flag that a value asks for. -/
def flagOf : Value → Option Bool
  | .number d => some (decide (0 < d))
  | .boolean b => some b
  | _ => none

/-- The rules are the parse of `data`, and the flag is the value of `enabled`, as far as the
request has these fields. -/
structure Applied (env : Env) (o : Fields) (m : RuleManager) : Prop where
  data : ∀ v, o.lookup "data" = some v →
    RuleCollection.parseFromJson env.undef [] v = .ok (0, m.rules)
  enabled : ∀ v, o.lookup "enabled" = some v → flagOf v = some m.enabled

/-- Success is answered only if the update was applied, and without success rules and flag
are as before. -/
structure Truthful (env : Env) (o : Fields) (before : RuleManager) (handled : Handled) : Prop where
  acknowledged : handled.1 = .ok success → Applied env o handled.2.manager
  refused : handled.1 ≠ .ok success → handled.2.manager = before

/-- No field is passed over, or a flag only that is as before. -/
structure Honoured (o : Fields) (m : RuleManager) : Prop where
  data : ∀ v, o.lookup "data" = some v → v.isArray = true
  enabled : ∀ v, o.lookup "enabled" = some v → v.isNumber = true ∨ v = .boolean m.enabled

/-- Some element of `data` is no object. -/
def Unparsable (o : Fields) : Prop :=
  ∃ arr, o.lookup "data" = some (.array arr) ∧ ∃ v ∈ arr, v.isObject = false

/-! ### The two fields -/

section
variable {env : Env} {m after : RuleManager} {o : Fields}

theorem withEnabled_rules (m : RuleManager) (o : Fields) : (withEnabled m o).rules = m.rules := by
  rw [withEnabled]
  cases enabledOf o <;> rfl

theorem withEnabled_enabled (m : RuleManager) (o : Fields) :
    (withEnabled m o).enabled = (enabledOf o).getD m.enabled := by
  rw [withEnabled]
  cases enabledOf o <;> rfl

/-- The rules are the parse of `data` unless `data` is of another kind. -/
theorem data_applied_iff (h : updated env m o = some after) :
    (∀ v, o.lookup "data" = some v →
      RuleCollection.parseFromJson env.undef [] v = .ok (0, after.rules)) ↔
    ∀ v, o.lookup "data" = some v → v.isArray = true := by
  refine forall₂_congr fun v hv => ?_
  cases v with
  | array arr =>
    have hdata : dataOf o = some arr := (dataOf_eq_some_iff o arr).mpr hv
    simp only [updated, hdata, Option.map_eq_some_iff] at h
    obtain ⟨rules, hrules, rfl⟩ := h
    refine iff_of_true ?_ rfl
    rw [parseFromJson_array, hrules, withEnabled_rules]
    rfl
  | _ =>
    rw [parseFromJson_not_array env.undef [] rfl]
    refine iff_of_false (fun hresult => ?_) Bool.false_ne_true
    cases hresult

theorem updated_enabled (h : updated env m o = some after) :
    after.enabled = (enabledOf o).getD m.enabled := by
  rw [updated] at h
  cases hdata : dataOf o with
  | none =>
    simp only [hdata, Option.some.injEq] at h
    rw [← h, withEnabled_enabled]
  | some arr =>
    simp only [hdata, Option.map_eq_some_iff] at h
    obtain ⟨rules, _, rfl⟩ := h
    exact withEnabled_enabled _ o

/-- The flag is the value of `enabled` unless it is of another kind; a Boolean is passed
over too, but may be what the flag was. -/
theorem enabled_applied_iff (h : updated env m o = some after) :
    (∀ v, o.lookup "enabled" = some v → flagOf v = some after.enabled) ↔
    ∀ v, o.lookup "enabled" = some v → v.isNumber = true ∨ v = .boolean m.enabled := by
  rw [updated_enabled h]
  refine forall₂_congr fun v hv => ?_
  rw [enabledOf, hv]
  cases v <;> simp [flagOf, Value.isNumber]

theorem applied_iff_honoured (h : updated env m o = some after) :
    Applied env o after ↔ Honoured o m := by
  have hdata := data_applied_iff h
  have henabled := enabled_applied_iff h
  exact ⟨fun applied => ⟨hdata.mp applied.data, henabled.mp applied.enabled⟩,
    fun honoured => ⟨hdata.mpr honoured.data, henabled.mpr honoured.enabled⟩⟩

end

/-! ### The answer -/

theorem handle_update {env : Env} {buff : List Char} {o : Fields}
    (hparse : env.text.parse (String.ofList (cString buff)) = .value (.object o))
    (hopt : optOf env o = optUpdateRules) (st : Server) :
    handle env st buff =
      match updated env st.manager o with
      | some m => (.ok success, { st with manager := m })
      | none => (.error .runtimeError, st) := by
  rw [handle, hparse]
  exact (handleValue_update hopt st).trans (updateRules_object env st o)

/-- The answer to an update can be believed exactly when no field is passed over, unless the
update throws. -/
theorem handle_truthful_iff {env : Env} {buff : List Char} {o : Fields}
    (hparse : env.text.parse (String.ofList (cString buff)) = .value (.object o))
    (hopt : optOf env o = optUpdateRules) (st : Server) :
    Truthful env o st.manager (handle env st buff) ↔ Unparsable o ∨ Honoured o st.manager := by
  have hnone : updated env st.manager o = none ↔ Unparsable o := by
    simp only [updated_eq_none_iff, dataOf_eq_some_iff, Unparsable]
  rw [handle_update hparse hopt]
  cases hupdated : updated env st.manager o with
  | none => exact iff_of_true ⟨nofun, fun _ => rfl⟩ (Or.inl (hnone.mp hupdated))
  | some after =>
    have hparsable : ¬ Unparsable o := by
      rw [← hnone, hupdated]
      exact nofun
    rw [or_iff_right hparsable, ← applied_iff_honoured hupdated]
    exact ⟨fun truthful => truthful.acknowledged rfl,
      fun applied => ⟨fun _ => applied, fun hother => absurd rfl hother⟩⟩

/-! ### Two administrators -/

/-- A server without rules that is switched off. -/
def idleServer : Server := ⟨⟨[], false⟩, [], 0⟩

def switchOn : Fields := [("enabled", .number 1), ("opt", .number 2)]

def switchOnText : String := "\x7b\"enabled\":1,\"opt\":2\x7d"

/-- The flag as a Boolean, and a single rule where a list is meant. -/
def ignored : Fields :=
  [("data", .object [("protocol", .string "tcp")]), ("enabled", .boolean true), ("opt", .number 2)]

def ignoredText : String :=
  "\x7b\"data\":\x7b\"protocol\":\"tcp\"\x7d,\"enabled\":true,\"opt\":2\x7d"

def adminEnv : Env :=
  ⟨Text.ofTable [(switchOnText, .value (.object switchOn)),
    (ignoredText, .value (.object ignored))] "", zeros, []⟩

theorem switchOn_truthful_iff :
    Truthful adminEnv switchOn idleServer.manager
        (handle adminEnv idleServer switchOnText.toList) ↔
      Unparsable switchOn ∨ Honoured switchOn idleServer.manager := by
  have hparse : adminEnv.text.parse (String.ofList (cString switchOnText.toList)) =
      .value (.object switchOn) := by
    rw [ofList_cString (by decide +kernel)]
    exact Text.ofTable_parse_self ..
  have hopt : optOf adminEnv switchOn = optUpdateRules := optOf_update adminEnv rfl
  exact handle_truthful_iff hparse hopt idleServer

/-- Success is answered, and the firewall is still off and without rules. -/
theorem ignored_acknowledged :
    handle adminEnv idleServer ignoredText.toList = (.ok success, idleServer) ∧
    ¬ Truthful adminEnv ignored idleServer.manager
      (handle adminEnv idleServer ignoredText.toList) := by
  have hother : ignoredText ≠ switchOnText := by decide +kernel
  have hparse : adminEnv.text.parse (String.ofList (cString ignoredText.toList)) =
      .value (.object ignored) := by
    rw [ofList_cString (by decide +kernel), adminEnv, Text.ofTable_parse_of_ne hother]
    exact Text.ofTable_parse_self ..
  have hopt : optOf adminEnv ignored = optUpdateRules := optOf_update adminEnv rfl
  have hhandle : handle adminEnv idleServer ignoredText.toList = (.ok success, idleServer) :=
    handle_update hparse hopt idleServer
  refine ⟨hhandle, fun truthful => ?_⟩
  rw [hhandle] at truthful
  have hflag := (truthful.acknowledged rfl).enabled (.boolean true) rfl
  cases hflag

end UpdateAnswers
