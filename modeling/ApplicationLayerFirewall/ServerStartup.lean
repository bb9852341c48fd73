import ApplicationLayerFirewall.FirewallRuns
import ApplicationLayerFirewall.JsonRemains

/-!
# How the server starts

`main` reads a configuration, loads the rule file it names and switches the
firewall on. A configuration that cannot be parsed is reported and used as far
as it was read. The rule file may be missing, but not broken. Rules that one
process exports are a rule file for the next one.
-/

namespace ServerStartup

open ByteOrder ConnectionLoop ExportReload FirewallRuns InetAddress JsonAcceptance JsonDocuments
open JsonErrors JsonNumerals JsonOverflows JsonParser JsonPrinter JsonRemains JsonRequests
open JsonRoundTrip JsonTexts JsonTokens PacketReading PicoJson RequestHandler RuleJson RuleMatching
open RuleMeaning RuleVerdict TransitionRuns

/-! ### ConfigAdapter -/

/-- The texts of the files that can be opened. -/
abbrev Files := String → Option String

def configPath : String := "./config.json"

/-- The constructor: `m_json` after the parse, also when it failed. A file that cannot be
opened reads as empty. -/
def configAdapter (files : Files) : Except Exception Value :=
  let text := (files configPath).getD ""
  match parseText text with
  | .thrown e => .error e
  | _ => .ok (textLeft text)

/-- The template `getConfig<T>` for a kind of value and `T()`. -/
def getConfig {α : Type} (is : Value → Bool) (get : Value → Except Exception α) (default : α)
    (config : Value) (key : String) : Except Exception α := do
  let v ← config.get key
  if is v then get v else return default

def getConfigString : Value → String → Except Exception String :=
  getConfig Value.isString Value.getString ""

def getConfigDouble : Value → String → Except Exception ℚ :=
  getConfig Value.isNumber Value.getNumber 0

/-- The conversion of a port, which the language defines for what truncates to 16 bits. -/
def toUInt16 (undef : ℚ → UInt16) (d : ℚ) : UInt16 :=
  if -1 < d ∧ d < 65536 then UInt16.ofNat (truncate d).toNat else undef d

/-! ### main -/

/-- What the listening thread and the filter start with. Whether the address can be bound
shows only there. -/
structure Serving where
  ip : String
  port : UInt16
  manager : RuleManager

/-- `main` comes to start the listening thread and the filter, or returns, or an exception
that nobody catches ends it. -/
inductive Startup where
  | serving (s : Serving)
  | returned (code : Int)
  | terminated

/-- `RuleManager::init`, where no rules stand for the null pointer. -/
def init (rules : Option RuleCollection) : RuleManager := ⟨rules.getD [], true⟩

/-- The rule file of `main` and the call of `init`. A text that does not parse makes `main`
return; the result of the load is not looked at. -/
def loadRules (undef : Undefined) (files : Files) (path : String) :
    Except Exception (Option RuleManager) :=
  match files path with
  | none => .ok (some (init none))
  | some text =>
    match parseText text with
    | .thrown e => .error e
    | .syntaxError _ => .ok none
    | .value v =>
      match RuleManager.loadConfigFromJson undef ⟨[], false⟩ v with
      | .error e => .error e
      | .ok (_, m) => .ok (some (init (some m.rules)))

/-- `main` once the configuration is there. -/
def startOn (undef : Undefined) (undefPort : ℚ → UInt16) (files : Files) (config : Value) :
    Except Exception Startup := do
  let ip ← getConfigString config "ip"
  let port ← getConfigDouble config "port"
  let path ← getConfigString config "rules_path"
  match ← loadRules undef files path with
  | some m => return .serving ⟨ip, toUInt16 undefPort port, m⟩
  | none => return .returned 1

def outcome : Except Exception Startup → Startup
  | .ok s => s
  | .error _ => .terminated

def startup (undef : Undefined) (undefPort : ℚ → UInt16) (files : Files) : Startup :=
  outcome (configAdapter files >>= startOn undef undefPort files)

variable {undef : Undefined} {undefPort : ℚ → UInt16} {files : Files}

/-! ### Settings -/

/-- A setting of the wrong kind is one that is missing. -/
def stringSetting (o : Fields) (key : String) : String := stringField o key ""

def doubleSetting (o : Fields) (key : String) : ℚ :=
  match o.lookup key with
  | some (.number d) => d
  | _ => 0

theorem getConfigString_object (o : Fields) (key : String) :
    getConfigString (.object o) key = .ok (stringSetting o key) := by
  cases h : o.lookup key with
  | none => simp [getConfigString, getConfig, stringSetting, stringField, Value.get, h, bind,
      Except.bind, pure, Except.pure, Value.isString]
  | some v => cases v <;> simp [getConfigString, getConfig, stringSetting, stringField, Value.get,
      h, bind, Except.bind, pure, Except.pure, Value.isString, Value.getString]

theorem getConfigDouble_object (o : Fields) (key : String) :
    getConfigDouble (.object o) key = .ok (doubleSetting o key) := by
  cases h : o.lookup key with
  | none => simp [getConfigDouble, getConfig, doubleSetting, Value.get, h, bind, Except.bind, pure,
      Except.pure, Value.isNumber]
  | some v => cases v <;> simp [getConfigDouble, getConfig, doubleSetting, Value.get, h, bind,
      Except.bind, pure, Except.pure, Value.isNumber, Value.getNumber]

theorem startOn_throws {config : Value} (h : config.isObject = false) :
    startOn undef undefPort files config = .error .runtimeError := by
  cases config <;> first | rfl | cases h

/-- Over a configuration that is an object the rule file alone decides. -/
theorem startOn_object (o : Fields) :
    startOn undef undefPort files (.object o) =
      (loadRules undef files (stringSetting o "rules_path")).map fun
        | some m => .serving ⟨stringSetting o "ip", toUInt16 undefPort (doubleSetting o "port"), m⟩
        | none => .returned 1 := by
  simp only [startOn, getConfigString_object, getConfigDouble_object, bind, Except.bind]
  rcases loadRules undef files (stringSetting o "rules_path") with e | _ | m <;> rfl

/-! ### Rule files -/

/-- A rule file that a process starts with, and the rules in it. -/
inductive RuleFile (undef : Undefined) (files : Files) (path : String) : RuleCollection → Prop
  | missing (h : files path = none) : RuleFile undef files path []
  | array {text : String} {objects : List Fields} (h : files path = some text)
      (hparse : parseText text = .value (.array (objects.map Value.object))) :
      RuleFile undef files path (objects.map (ruleOf undef))

theorem objects_of_rulesOf {arr : List Value} {rules : RuleCollection}
    (h : rulesOf undef arr = some rules) :
    ∃ objects : List Fields, arr = objects.map Value.object ∧
      rules = objects.map (ruleOf undef) := by
  induction arr generalizing rules with
  | nil =>
    cases h
    exact ⟨[], rfl, rfl⟩
  | cons v rest ih =>
    cases v with
    | object o =>
      simp only [rulesOf, Option.map_eq_some_iff] at h
      obtain ⟨later, hlater, rfl⟩ := h
      obtain ⟨objects, rfl, rfl⟩ := ih hlater
      exact ⟨o :: objects, rfl, rfl⟩
    | _ => cases h

theorem loadRules_eq_iff (path : String) (m : RuleManager) :
    loadRules undef files path = .ok (some m) ↔
      RuleFile undef files path m.rules ∧ m.enabled = true := by
  constructor
  · intro h
    rw [loadRules] at h
    cases hfile : files path with
    | none =>
      simp only [hfile, Except.ok.injEq, Option.some.injEq] at h
      subst h
      exact ⟨.missing hfile, rfl⟩
    | some text =>
      cases hparse : parseText text with
      | thrown e => simp [hfile, hparse] at h
      | syntaxError err => simp [hfile, hparse] at h
      | value v =>
        cases v with
        | array arr =>
          simp only [hfile, hparse, RuleManager.loadConfigFromJson_array] at h
          cases hrules : rulesOf undef arr with
          | none => simp [hrules] at h
          | some rules =>
            simp only [hrules, Except.ok.injEq, Option.some.injEq] at h
            subst h
            obtain ⟨objects, rfl, rfl⟩ := objects_of_rulesOf hrules
            exact ⟨.array hfile hparse, rfl⟩
        | _ => simp [hfile, hparse, RuleManager.loadConfigFromJson,
            RuleCollection.parseFromJson, Value.getArray, bind, Except.bind] at h
  · rintro ⟨hrules, henabled⟩
    obtain ⟨rules, enabled⟩ := m
    subst henabled
    cases hrules with
    | missing hfile => simp only [loadRules, hfile, init, Option.getD_none]
    | array hfile hparse =>
      simp only [loadRules, hfile, hparse, RuleManager.loadConfigFromJson_array,
        rulesOf_map_object, init, Option.getD_some]

/-! ### Configurations -/

/-- The configuration is used as it was read, unless a numeral in it ended the reading. -/
theorem startup_cases (files : Files) :
    (TextOverflows ((files configPath).getD "").toList ∧
      startup undef undefPort files = .terminated) ∨
    (¬ TextOverflows ((files configPath).getD "").toList ∧
      startup undef undefPort files =
        outcome (startOn undef undefPort files (textLeft ((files configPath).getD "")))) := by
  have hthrown := parseText_thrown_iff ((files configPath).getD "")
  rw [startup, configAdapter]
  cases hparse : parseText ((files configPath).getD "") with
  | thrown e => exact Or.inl ⟨((hthrown e).mp hparse).2, rfl⟩
  | syntaxError err =>
    refine Or.inr ⟨fun hover => ?_, rfl⟩
    cases hparse.symm.trans ((hthrown .overflowError).mpr ⟨rfl, hover⟩)
  | value v =>
    refine Or.inr ⟨fun hover => ?_, rfl⟩
    cases hparse.symm.trans ((hthrown .overflowError).mpr ⟨rfl, hover⟩)

theorem outcome_startOn_object (o : Fields) (s : Serving) :
    outcome (startOn undef undefPort files (.object o)) = .serving s ↔
      s.ip = stringSetting o "ip" ∧ s.port = toUInt16 undefPort (doubleSetting o "port") ∧
        loadRules undef files (stringSetting o "rules_path") = .ok (some s.manager) := by
  rw [startOn_object]
  obtain ⟨ip, port, manager⟩ := s
  rcases loadRules undef files (stringSetting o "rules_path") with e | _ | m
  · simp [outcome, Except.map]
  · simp [outcome, Except.map]
  · simp only [outcome, Except.map, Startup.serving.injEq, Serving.mk.injEq, Except.ok.injEq,
      Option.some.injEq]
    exact ⟨fun h => ⟨h.1.symm, h.2.1.symm, h.2.2⟩, fun h => ⟨h.1.symm, h.2.1.symm, h.2.2⟩⟩

theorem isObject_iff {v : Value} : v.isObject = true ↔ ∃ o, v = .object o := by
  cases v <;> simp [Value.isObject]

/-- The path of the rule file in what was read of a configuration. -/
def rulesPath : Value → String
  | .object o => stringSetting o "rules_path"
  | _ => ""

/-- `main` comes to start the listening thread and the filter exactly when its configuration
starts with a brace, well formed or not, no numeral beyond the doubles ends the reading, and
the rule file it names is missing or an array of objects. -/
theorem startup_serves_iff (files : Files) :
    (∃ s, startup undef undefPort files = .serving s) ↔
      ∃ text, files configPath = some text ∧ (trimmed text.toList).head? = some '\x7b' ∧
        ¬ TextOverflows text.toList ∧
        ∃ rules, RuleFile undef files (rulesPath (textLeft text)) rules := by
  constructor
  · rintro ⟨s, hs⟩
    rcases startup_cases files with ⟨-, hstop⟩ | ⟨hrange, hstart⟩
    · rw [hstop] at hs
      cases hs
    · rw [hstart] at hs
      cases hleft : textLeft ((files configPath).getD "") with
      | object o =>
        have hhead := (textLeft_isObject_iff _).mp (isObject_iff.mpr ⟨o, hleft⟩)
        cases hfile : files configPath with
        | none => simp [hfile, trimmed] at hhead
        | some text =>
          rw [hfile, Option.getD_some] at hleft hhead hrange
          rw [hfile, Option.getD_some, hleft, outcome_startOn_object, loadRules_eq_iff] at hs
          refine ⟨text, rfl, hhead, hrange, s.manager.rules, ?_⟩
          rw [hleft]
          exact hs.2.2.1
      | _ =>
        rw [hleft, startOn_throws rfl] at hs
        cases hs
  · rintro ⟨text, hfile, hhead, hrange, rules, hrules⟩
    obtain ⟨o, hleft⟩ := isObject_iff.mp ((textLeft_isObject_iff text).mpr hhead)
    rw [hleft] at hrules
    have hload := (loadRules_eq_iff (rulesPath (.object o)) ⟨rules, true⟩).mpr ⟨hrules, rfl⟩
    rcases startup_cases files with ⟨hover, -⟩ | ⟨-, hstart⟩
    · rw [hfile] at hover
      exact absurd hover hrange
    · rw [hfile, Option.getD_some, hleft] at hstart
      exact ⟨_, hstart.trans ((outcome_startOn_object o ⟨_, _, ⟨rules, true⟩⟩).mpr
        ⟨rfl, rfl, hload⟩)⟩

/-- A configuration that breaks off is a syntax error, and is used up to the break: `main`
goes on with an object that has, under every name but that of the broken member, what
stood before the break. -/
theorem startup_cut {w t cut lost : List Char} {ms : Fields} (hw : Blank w)
    (ht : PicoMembers t ms) (hsplit : t = cut ++ lost) (hlost : lost ≠ []) {files : Files}
    (hconfig : files configPath = some (String.ofList (w ++ '\x7b' :: cut))) :
    (TextOverflows (w ++ '\x7b' :: cut) ∧ startup undef undefPort files = .terminated) ∨
    (∃ err, parseText (String.ofList (w ++ '\x7b' :: cut)) = .syntaxError err) ∧
      ∃ before m o, BreaksAt cut ms before m ∧
        (∀ key, key ≠ m.1 → o.lookup key = before.reverse.lookup key) ∧
        startup undef undefPort files = outcome (startOn undef undefPort files (.object o)) := by
  rcases startup_cases files with ⟨hover, hstop⟩ | ⟨hrange, hstart⟩
  · rw [hconfig, Option.getD_some, String.toList_ofList] at hover
    exact Or.inl ⟨hover, hstop⟩
  · rw [hconfig, Option.getD_some] at hrange hstart
    have hwhole : w ++ '\x7b' :: t = (w ++ '\x7b' :: cut) ++ lost := by
      rw [hsplit, List.append_assoc, List.cons_append]
    have hno := parseText_truncated hw (Spells.object ht) rfl hwhole hlost
    refine Or.inr ⟨syntaxError_of_no_value hno hrange, ?_⟩
    obtain ⟨before, m, hbreaks, hleft | ⟨v, hleft⟩⟩ := textLeft_cut hw ht hsplit hlost
    · refine ⟨before, m, _, hbreaks, fun key _ => ?_, hleft ▸ hstart⟩
      exact SortedMaps.lookup_ofAssignments before key
    · refine ⟨before, m, _, hbreaks, fun key hkey => ?_, hleft ▸ hstart⟩
      rw [SortedMaps.lookup_assign, if_neg hkey, SortedMaps.lookup_ofAssignments]

def settings : Fields := [("ip", .string "::"), ("rules_path", .string "rules.json")]

theorem settings_members : Members (Spelling Numeral.Standard)
    (serializeFields none true settings ++ ['\x7d']) settings :=
  spells_fields _ _ (by simp [WellFormed.string])

def brokenFiles : Files := fun path =>
  if path = configPath then some "\x7b\"ip\":\"::\",\"rules_pa" else none

/-- The address is read, and the name of the rule file is lost. -/
theorem brokenConfig_started :
    (∃ err, parseText (String.ofList ([] ++ '\x7b' :: "\"ip\":\"::\",\"rules_pa".toList)) =
        .syntaxError err) ∧
      ∃ before m o, BreaksAt "\"ip\":\"::\",\"rules_pa".toList settings before m ∧
        (∀ key, key ≠ m.1 → o.lookup key = before.reverse.lookup key) ∧
        startup zeros (fun _ => 0) brokenFiles =
          outcome (startOn zeros (fun _ => 0) brokenFiles (.object o)) := by
  have hmembers : PicoMembers (serializeFields none true settings ++ ['\x7d']) settings :=
    members_mono (fun _ _ hs => hs.mono fun _ hn => accepted_of_standard hn) settings_members
  have hsplit : serializeFields none true settings ++ ['\x7d'] =
      "\"ip\":\"::\",\"rules_pa".toList ++ "th\":\"rules.json\"\x7d".toList := rfl
  have hdigits : ∀ c ∈ [] ++ '\x7b' :: "\"ip\":\"::\",\"rules_pa".toList, ¬ IsDigit c :=
    List.forall_iff_forall_mem.mp (by decide)
  have hconfig : brokenFiles configPath =
      some (String.ofList ([] ++ '\x7b' :: "\"ip\":\"::\",\"rules_pa".toList)) := rfl
  rcases startup_cut blank_nil hmembers hsplit (by decide) hconfig with ⟨hover, -⟩ | hused
  · exact absurd hover (not_textOverflows_of_no_digit hdigits)
  · exact hused

/-! ### From one process to the next -/

end ServerStartup
