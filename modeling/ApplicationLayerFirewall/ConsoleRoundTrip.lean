import ApplicationLayerFirewall.ExportReload
import ApplicationLayerFirewall.RequestHandler
import ApplicationLayerFirewall.RuleOrder

/-!
# Rules through the web console

The console page knows two lists. It files every rule that is not black under
the white ones, and it sends back fewer fields than it was given. A collection
that is fetched and applied again without an edit therefore comes back with all
masks and ICMP types open and with its monitor rules turned white. When that
changes no verdict is stated for every collection.
-/

namespace ConsoleRoundTrip

open ByteOrder InetAddress PacketReading RuleMatching AccessPolicy RuleVerdict PicoJson RuleJson
open ExportReload RequestHandler RuleOrder

/-! ### The page -/

/-- `JSON.parse`, `JSON.stringify` and `parseInt` of the browser. What `parseInt` makes of
anything but a whole number is left open; it is given as it is stringified, so
that not-a-number is null. -/
structure Browser where
  parse : String → Option Value
  stringify : Value → String
  parseInt : Option Value → Value

/-- Whole numbers are converted to digits and back as long as they print without exponent. -/
def Browser.parseInteger (browser : Browser) : Option Value → Value
  | some (.number d) =>
    if d.den = 1 ∧ |d| < 1000000000000000000000 then .number d
    else browser.parseInt (some (.number d))
  | v => browser.parseInt v

/-- Assignment to a property. -/
def assign (e : Fields) (key : String) (v : Value) : Fields :=
  (key, v) :: e.filter (fun field => field.1 ≠ key)

/-- A property as part of an object literal; one without value is not stringified. -/
def property (key : String) : Option Value → Fields
  | some v => [(key, v)]
  | none => []

structure Page where
  blackList : List Fields
  whiteList : List Fields

/-- The two assignments at the head of the callback of `forEach`. Without a mask the time
becomes undefined, as if it had no value. -/
def marked (e : Fields) : Fields :=
  let e := assign e "status" (.string "on")
  property "time" (e.lookup "timepass") ++ e.filter (fun field => field.1 ≠ "time")

/-- `e.type === 0`. -/
def typeIsZero (e : Fields) : Bool :=
  match e.lookup "type" with
  | some (.number d) => d = 0
  | _ => false

def syncRule (page : Page) (e : Fields) : Page :=
  let e := marked e
  if typeIsZero e then { page with blackList := page.blackList ++ [e] }
  else { page with whiteList := page.whiteList ++ [e] }

def syncRuleList (list : List Fields) : Page := list.foldl syncRule ⟨[], []⟩

/-- `e.status === 'on'`. -/
def isOn (e : Fields) : Bool :=
  match e.lookup "status" with
  | some (.string s) => s = "on"
  | _ => false

def transformer (browser : Browser) (e : Fields) : Fields :=
  property "target_ip" (e.lookup "target_ip") ++
  property "src_ip" (e.lookup "src_ip") ++
  [("target_port", browser.parseInteger (e.lookup "target_port")),
    ("src_port", browser.parseInteger (e.lookup "src_port")),
    ("timepass", browser.parseInteger (e.lookup "timepass"))] ++
  property "protocol" (e.lookup "protocol")

/-- One of the two halves of `uploadRuleList`. -/
def upload (browser : Browser) (list : List Fields) (type : ℚ) : List Value :=
  ((list.filter isOn).map (transformer browser)).map
    (fun e => .object (assign e "type" (.number type)))

def uploadRuleList (browser : Browser) (page : Page) : List Value :=
  upload browser page.blackList 0 ++ upload browser page.whiteList 1

/-- The bodies of the two requests. `request_` adds the token. -/
def queryRequest (token : String) : Value :=
  .object [("opt", .number 1), ("token", .string token)]

def updateRequest (runState : Bool) (data : List Value) (token : String) : Value :=
  .object [("opt", .number 2), ("enabled", .number (if runState then 1 else 0)),
    ("data", .array data), ("token", .string token)]

/-- The answer to a query, when it is an array of objects. -/
def objectsOf : List Value → Option (List Fields)
  | [] => some []
  | .object o :: rest => (objectsOf rest).map (o :: ·)
  | _ :: _ => none

def listOf : Value → Option (List Fields)
  | .array arr => objectsOf arr
  | _ => none

/-! ### Fetched and applied again -/

def send (env : Env) (browser : Browser) (st : Server) (request : Value) : Handled :=
  handle env st (browser.stringify request).toList

/-- The page is filled from the server and uploads what it shows. -/
def reapply (env : Env) (browser : Browser) (st : Server) (runState : Bool) (token : String) :
    Option Server :=
  match send env browser st (queryRequest token) with
  | (.error _, _) => none
  | (.ok rsp, st) =>
    match (browser.parse rsp).bind listOf with
    | none => none
    | some list =>
      let data := uploadRuleList browser (syncRuleList list)
      match send env browser st (updateRequest runState data token) with
      | (.error _, _) => none
      | (.ok _, st) => some st

/-- The server reads a request as the browser wrote it. -/
def Understood (env : Env) (browser : Browser) (request : Value) : Prop :=
  env.text.parse (String.ofList (cString (browser.stringify request).toList)) = .value request

theorem send_understood {env : Env} {browser : Browser} {request : Value}
    (h : Understood env browser request) (st : Server) :
    send env browser st request = handleValue env st request := by
  rw [send, handle, h]

/-! ### What the page shows and sends -/

theorem syncRuleList_eq (list : List Fields) : syncRuleList list =
    ⟨(list.map marked).filter typeIsZero, (list.map marked).filter (fun e => !typeIsZero e)⟩ := by
  have hloop : ∀ page : Page, list.foldl syncRule page =
      ⟨page.blackList ++ (list.map marked).filter typeIsZero,
        page.whiteList ++ (list.map marked).filter (fun e => !typeIsZero e)⟩ := by
    induction list with
    | nil => simp
    | cons e rest ih =>
      intro page
      rw [List.foldl_cons, ih]
      by_cases hzero : typeIsZero (marked e) = true
      · simp [syncRule, hzero]
      · simp [syncRule, hzero]
  rw [syncRuleList, hloop]
  rfl

theorem objectsOf_exported (rules : RuleCollection) :
    objectsOf (rules.map Rule.toJson) = some (rules.map exportedFields) := by
  induction rules with
  | nil => rfl
  | cons r rest ih =>
    rw [List.map_cons, toJson_eq, objectsOf, ih]
    rfl

/-- The object that the page sends for a rule. -/
def sentFields (r : Rule) (type : ℚ) : Fields :=
  [("type", .number type),
    ("target_ip", .string (String.ofList (inetNtoa r.destIp))),
    ("src_ip", .string (String.ofList (inetNtoa r.srcIp))),
    ("target_port", .number ((ntohs r.destPort).toNat : ℚ)),
    ("src_port", .number ((ntohs r.srcPort).toNat : ℚ)),
    ("timepass", .number (r.timePass.toNat : ℚ)),
    ("protocol", .string (protocolText r))]

theorem parseInteger_natCast (browser : Browser) {n : Nat} (h : n < 2 ^ 32) :
    browser.parseInteger (some (.number (n : ℚ))) = .number (n : ℚ) := by
  have hlt : (n : ℚ) < 1000000000000000000000 := by
    have hcast : (n : ℚ) < 2 ^ 32 := by exact_mod_cast h
    exact hcast.trans (by norm_num)
  have hnonneg : (0 : ℚ) ≤ n := Nat.cast_nonneg n
  rw [Browser.parseInteger, if_pos ⟨Rat.den_natCast .., by rwa [abs_of_nonneg hnonneg]⟩]

theorem transformer_marked (browser : Browser) (r : Rule) (type : ℚ) :
    assign (transformer browser (marked (exportedFields r))) "type" (.number type) =
      sentFields r type := by
  have htarget := parseInteger_natCast browser
    (Nat.lt_trans (ntohs r.destPort).toNat_lt (by decide))
  have hsource := parseInteger_natCast browser
    (Nat.lt_trans (ntohs r.srcPort).toNat_lt (by decide))
  have hmask := parseInteger_natCast browser r.timePass.toNat_lt
  have hfields : transformer browser (marked (exportedFields r)) =
      [("target_ip", .string (String.ofList (inetNtoa r.destIp))),
        ("src_ip", .string (String.ofList (inetNtoa r.srcIp))),
        ("target_port", browser.parseInteger (some (.number ((ntohs r.destPort).toNat : ℚ)))),
        ("src_port", browser.parseInteger (some (.number ((ntohs r.srcPort).toNat : ℚ)))),
        ("timepass", browser.parseInteger (some (.number (r.timePass.toNat : ℚ)))),
        ("protocol", .string (protocolText r))] := rfl
  rw [hfields, htarget, hsource, hmask]
  rfl

theorem typeIsZero_marked (r : Rule) :
    typeIsZero (marked (exportedFields r)) = decide (r.type = typeBlackList) := by
  have htype : typeIsZero (marked (exportedFields r)) = decide ((r.type.toNat : ℚ) = 0) := rfl
  rw [htype, decide_eq_decide, Nat.cast_eq_zero, typeBlackList, ← UInt8.toNat_inj]
  rfl

theorem isOn_marked (r : Rule) : isOn (marked (exportedFields r)) = true := by rfl

def isBlack (r : Rule) : Bool := r.type = typeBlackList

/-- What the page shows of a collection, with its own fields. -/
theorem syncRuleList_exported (rules : RuleCollection) :
    syncRuleList (rules.map exportedFields) =
      ⟨(rules.filter isBlack).map (fun r => marked (exportedFields r)),
        (rules.filter (fun r => !isBlack r)).map (fun r => marked (exportedFields r))⟩ := by
  have htype : (fun r => typeIsZero (marked (exportedFields r))) = isBlack :=
    funext typeIsZero_marked
  rw [syncRuleList_eq, List.map_map, List.filter_map, List.filter_map]
  simp only [Function.comp_def, typeIsZero_marked]
  rfl

theorem upload_marked (browser : Browser) (rules : RuleCollection) (type : ℚ) :
    upload browser (rules.map fun r => marked (exportedFields r)) type =
      (rules.map fun r => sentFields r type).map Value.object := by
  have hall : (rules.map fun r => marked (exportedFields r)).filter isOn =
      rules.map fun r => marked (exportedFields r) := by
    refine List.filter_eq_self.mpr fun e he => ?_
    obtain ⟨r, _, rfl⟩ := List.mem_map.mp he
    exact isOn_marked r
  rw [upload, hall, List.map_map, List.map_map, List.map_map]
  exact List.map_congr_left fun r _ => congrArg Value.object (transformer_marked browser r type)

/-! ### What the server makes of it -/

/-- A rule with mask and ICMP type opened, and its protocol if it has no name, filed under
a list. -/
def filed (type : UInt8) (r : Rule) : Rule := { reloaded r with type := type }

/-- The collection after the round trip. -/
def reapplied (rules : RuleCollection) : RuleCollection :=
  (rules.filter isBlack).map (filed typeBlackList) ++
    (rules.filter (fun r => !isBlack r)).map (filed typeWhiteList)

theorem ruleOf_sentFields (undef : Undefined) (r : Rule) (type : UInt8) :
    ruleOf undef (sentFields r (type.toNat : ℚ)) = filed type r :=
  ruleOf_printed rfl rfl rfl rfl rfl rfl rfl

/-- What the page uploads without an edit. -/
def uploaded (rules : RuleCollection) : List Fields :=
  (rules.filter isBlack).map (fun r => sentFields r (typeBlackList.toNat : ℚ)) ++
    (rules.filter (fun r => !isBlack r)).map (fun r => sentFields r (typeWhiteList.toNat : ℚ))

theorem uploadRuleList_exported (browser : Browser) (rules : RuleCollection) :
    uploadRuleList browser (syncRuleList (rules.map exportedFields)) =
      (uploaded rules).map Value.object := by
  have hblack : (0 : ℚ) = (typeBlackList.toNat : ℚ) := by simp [typeBlackList]
  have hwhite : (1 : ℚ) = (typeWhiteList.toNat : ℚ) := by simp [typeWhiteList]
  rw [syncRuleList_exported, uploadRuleList, upload_marked, upload_marked, uploaded,
    List.map_append, hblack, hwhite]

theorem rulesOf_uploaded (undef : Undefined) (rules : RuleCollection) :
    rulesOf undef ((uploaded rules).map Value.object) = some (reapplied rules) := by
  rw [rulesOf_map_object, uploaded, reapplied, List.map_append, List.map_map, List.map_map]
  simp only [Function.comp_def, ruleOf_sentFields]

theorem queryRequest_fields (env : Env) (token : String) :
    ∃ o, queryRequest token = .object o ∧ optOf env o = optQueryRules :=
  ⟨_, rfl, optOf_query env rfl⟩

/-- The fields of an update request as the handler reads them. -/
theorem updateRequest_fields (env : Env) (runState : Bool) (data : List Value) (token : String) :
    ∃ o, updateRequest runState data token = .object o ∧ optOf env o = optUpdateRules ∧
      dataOf o = some data ∧ enabledOf o = some runState := by
  refine ⟨_, rfl, optOf_update env rfl, rfl, ?_⟩
  have hflag : decide (0 < (if runState then (1 : ℚ) else 0)) = runState := by
    cases runState <;> simp
  exact congrArg some hflag

/-- Fetched and applied again, a collection becomes this one, and the flag what the page shows. -/
theorem reapply_eq {env : Env} {browser : Browser} {st : Server} {runState : Bool}
    {token : String} (hquery : Understood env browser (queryRequest token))
    (hanswer : browser.parse (RuleCollection.toJsonText env.text st.manager.rules) =
      some (RuleCollection.toJson st.manager.rules))
    (hupdate : Understood env browser
      (updateRequest runState ((uploaded st.manager.rules).map Value.object) token)) :
    reapply env browser st runState token =
      some { st with manager := ⟨reapplied st.manager.rules, runState⟩ } := by
  have hfetched : send env browser st (queryRequest token) =
      (.ok (RuleCollection.toJsonText env.text st.manager.rules), st) := by
    obtain ⟨o, ho, hopt⟩ := queryRequest_fields env token
    rw [send_understood hquery, ho, handleValue_query hopt]
    rfl
  have hlist : (browser.parse (RuleCollection.toJsonText env.text st.manager.rules)).bind listOf =
      some (st.manager.rules.map exportedFields) := by
    rw [hanswer]
    exact objectsOf_exported st.manager.rules
  have happlied : send env browser st
      (updateRequest runState ((uploaded st.manager.rules).map Value.object) token) =
        (.ok success, { st with manager := ⟨reapplied st.manager.rules, runState⟩ }) := by
    obtain ⟨o, ho, hopt, hdata, hflag⟩ := updateRequest_fields env runState
      ((uploaded st.manager.rules).map Value.object) token
    rw [send_understood hupdate, ho, handleValue_update hopt, updateRules_object,
      updated_both hdata (rulesOf_uploaded env.undef st.manager.rules) hflag]
  simp only [reapply, hfetched, hlist, uploadRuleList_exported, happlied]

/-! ### Verdicts -/

/-- The two collections give the same verdict on every packet at every time. -/
def SameVerdicts (localtime : TimeT → Tm) (rules others : RuleCollection) : Prop :=
  ∀ now pe, Accepts localtime now rules pe ↔ Accepts localtime now others pe

def whites (rules : RuleCollection) : Nat := rules.countP (fun r => r.type = typeWhiteList)

/-- A rule with protocol, ICMP type and mask opened as far as the round trip does. -/
def Opened (localtime : TimeT → Tm) (r : Rule) (now : TimeT) (packet : Memory) : Prop :=
  (reloaded r).Matches (localtime now) packet

/-- All rules are black or white; where only an opened black rule matches, an opened rule
that is not black does so too; and no opened rule that is not black matches what
the collection refuses. -/
structure Untouched (localtime : TimeT → Tm) (rules : RuleCollection) : Prop where
  types : ∀ r ∈ rules, r.type = typeBlackList ∨ r.type = typeWhiteList
  covered : ∀ now packet, (∃ r ∈ rules, r.type = typeBlackList ∧ Opened localtime r now packet) →
    (¬ ∃ r ∈ rules, r.type = typeBlackList ∧ r.Matches (localtime now) packet) →
    ∃ r ∈ rules, r.type ≠ typeBlackList ∧ Opened localtime r now packet
  refused : ∀ now packet,
    (∃ r ∈ rules, r.type = typeBlackList ∧ r.Matches (localtime now) packet) →
    (¬ ∃ r ∈ rules, r.type = typeWhiteList ∧ r.Matches (localtime now) packet) →
    ¬ ∃ r ∈ rules, r.type ≠ typeBlackList ∧ Opened localtime r now packet

/-- Opening lets a rule match more. -/
theorem reloaded_general (r : Rule) : General (reloaded r) r where
  protocol := by
    by_cases hnamed :
      r.protocol = ipprotoIcmp ∨ r.protocol = ipprotoUdp ∨ r.protocol = ipprotoTcp
    · exact Or.inr (if_pos hnamed)
    · exact Or.inl (if_neg hnamed)
  srcIp := Or.inr rfl
  destIp := Or.inr rfl
  srcPort := Or.inr rfl
  destPort := Or.inr rfl
  subProtocol := Or.inl rfl
  timePass := by
    have hall : (0xffffffff : UInt32) &&& r.timePass = r.timePass := by
      rw [← UInt32.toBitVec_inj, UInt32.toBitVec_and]
      exact BitVec.allOnes_and
    exact hall

theorem filed_matches_iff (type : UInt8) (r : Rule) (now : Tm) (packet : Memory) :
    (filed type r).Matches now packet ↔ (reloaded r).Matches now packet := by
  have hthere : General (filed type r) (reloaded r) :=
    ⟨Or.inr rfl, Or.inr rfl, Or.inr rfl, Or.inr rfl, Or.inr rfl, Or.inr rfl, UInt32.and_self⟩
  have hback : General (reloaded r) (filed type r) :=
    ⟨Or.inr rfl, Or.inr rfl, Or.inr rfl, Or.inr rfl, Or.inr rfl, Or.inr rfl, UInt32.and_self⟩
  exact ⟨hback.matches, hthere.matches⟩

/-- The round trip files every rule under the list the page shows it in. -/
theorem mem_reapplied {rules : RuleCollection} {s : Rule} : s ∈ reapplied rules ↔
    (∃ r ∈ rules, r.type = typeBlackList ∧ filed typeBlackList r = s) ∨
    (∃ r ∈ rules, r.type ≠ typeBlackList ∧ filed typeWhiteList r = s) := by
  simp only [reapplied, List.mem_append, List.mem_map, List.mem_filter, isBlack, and_assoc,
    Bool.not_eq_true', decide_eq_true_eq, decide_eq_false_iff_not, ne_eq]

theorem reapplied_black_iff (localtime : TimeT → Tm) (rules : RuleCollection) (now : TimeT)
    (packet : Memory) : packet ∈ (policyAt (localtime now) (reapplied rules)).black ↔
      ∃ r ∈ rules, r.type = typeBlackList ∧ Opened localtime r now packet := by
  rw [mem_policyAt_black]
  constructor
  · rintro ⟨s, hs, htype, hmatch⟩
    rcases mem_reapplied.mp hs with ⟨r, hr, hblack, rfl⟩ | ⟨r, hr, _, rfl⟩
    · exact ⟨r, hr, hblack, (filed_matches_iff _ r _ _).mp hmatch⟩
    · cases htype
  · rintro ⟨r, hr, hblack, hopened⟩
    exact ⟨filed typeBlackList r, mem_reapplied.mpr (Or.inl ⟨r, hr, hblack, rfl⟩), rfl,
      (filed_matches_iff _ r _ _).mpr hopened⟩

theorem reapplied_white_iff (localtime : TimeT → Tm) (rules : RuleCollection) (now : TimeT)
    (packet : Memory) : packet ∈ (policyAt (localtime now) (reapplied rules)).white ↔
      ∃ r ∈ rules, r.type ≠ typeBlackList ∧ Opened localtime r now packet := by
  rw [mem_policyAt_white]
  constructor
  · rintro ⟨s, hs, htype, hmatch⟩
    rcases mem_reapplied.mp hs with ⟨r, hr, _, rfl⟩ | ⟨r, hr, hother, rfl⟩
    · cases htype
    · exact ⟨r, hr, hother, (filed_matches_iff _ r _ _).mp hmatch⟩
  · rintro ⟨r, hr, hother, hopened⟩
    exact ⟨filed typeWhiteList r, mem_reapplied.mpr (Or.inr ⟨r, hr, hother, rfl⟩), rfl,
      (filed_matches_iff _ r _ _).mpr hopened⟩

/-- The verdicts stay the same exactly under the last two conditions. -/
theorem sameVerdicts_iff (localtime : TimeT → Tm) (rules : RuleCollection) :
    SameVerdicts localtime rules (reapplied rules) ↔ ∀ now,
      (∀ packet, (∃ r ∈ rules, r.type = typeBlackList ∧ Opened localtime r now packet) →
        (¬ ∃ r ∈ rules, r.type = typeBlackList ∧ r.Matches (localtime now) packet) →
        ∃ r ∈ rules, r.type ≠ typeBlackList ∧ Opened localtime r now packet) ∧
      (∀ packet, (∃ r ∈ rules, r.type = typeBlackList ∧ r.Matches (localtime now) packet) →
        (¬ ∃ r ∈ rules, r.type = typeWhiteList ∧ r.Matches (localtime now) packet) →
        ¬ ∃ r ∈ rules, r.type ≠ typeBlackList ∧ Opened localtime r now packet) := by
  refine forall_congr' fun now => ?_
  have hwhite : (policyAt (localtime now) rules).white ⊆
      (policyAt (localtime now) (reapplied rules)).white := by
    intro packet hpacket
    obtain ⟨r, hr, htype, hmatch⟩ := (mem_policyAt_white _ _ _).mp hpacket
    have hother : r.type ≠ typeBlackList := by
      rw [htype]
      decide
    exact (reapplied_white_iff localtime rules now packet).mpr
      ⟨r, hr, hother, (reloaded_general r).matches hmatch⟩
  have hblack : (policyAt (localtime now) rules).black ⊆
      (policyAt (localtime now) (reapplied rules)).black := by
    intro packet hpacket
    obtain ⟨r, hr, htype, hmatch⟩ := (mem_policyAt_black _ _ _).mp hpacket
    exact (reapplied_black_iff localtime rules now packet).mpr
      ⟨r, hr, htype, (reloaded_general r).matches hmatch⟩
  have hpolicies := Policy.permitted_eq_iff hwhite hblack
  simp only [reapplied_black_iff, reapplied_white_iff] at hpolicies
  simp only [mem_policyAt_black, mem_policyAt_white] at hpolicies
  rw [← hpolicies]
  constructor
  · intro hsame packet
    have hpacket := hsame ⟨packet⟩
    rwa [Accepts, Accepts, check_iff_policyAt, check_iff_policyAt] at hpacket
  · intro hsame pe
    rw [Accepts, Accepts, check_iff_policyAt, check_iff_policyAt]
    exact hsame pe.mPData

theorem whites_reapplied (rules : RuleCollection) :
    whites (reapplied rules) = rules.countP (fun r => !isBlack r) := by
  have hnone : ((rules.filter isBlack).map (filed typeBlackList)).countP
      (fun r => r.type = typeWhiteList) = 0 := by
    refine List.countP_eq_zero.mpr fun s hs => ?_
    obtain ⟨r, _, rfl⟩ := List.mem_map.mp hs
    have hother : typeBlackList ≠ typeWhiteList := by decide
    exact fun hwhite => absurd (of_decide_eq_true hwhite) hother
  have hall : ((rules.filter (fun r => !isBlack r)).map (filed typeWhiteList)).countP
      (fun r => r.type = typeWhiteList) = rules.countP (fun r => !isBlack r) := by
    rw [List.countP_eq_length.mpr, List.length_map, List.countP_eq_length_filter]
    intro s hs
    obtain ⟨r, _, rfl⟩ := List.mem_map.mp hs
    rfl
  rw [whites, reapplied, List.countP_append, hnone, hall, Nat.zero_add]

/-- Neither black nor white. -/
def isOther (r : Rule) : Bool := r.type ≠ typeBlackList && r.type ≠ typeWhiteList

theorem countP_not_black (rules : RuleCollection) :
    rules.countP (fun r => !isBlack r) = whites rules + rules.countP isOther := by
  induction rules with
  | nil => rfl
  | cons r rest ih =>
    have hcount : (if !isBlack r then 1 else 0) =
        (if r.type = typeWhiteList then 1 else 0) + (if isOther r then 1 else 0) := by
      by_cases hblack : r.type = 0
      · simp [isBlack, isOther, typeBlackList, typeWhiteList, hblack]
      · by_cases hwhite : r.type = 1
        · simp [isBlack, isOther, typeBlackList, typeWhiteList, hwhite]
        · simp [isBlack, isOther, typeBlackList, typeWhiteList, hblack, hwhite]
    simp only [whites, List.countP_cons, decide_eq_true_eq] at ih ⊢
    omega

/-- No rule has become white exactly when all rules that are not black were white. -/
theorem whites_reapplied_le_iff (rules : RuleCollection) :
    whites (reapplied rules) ≤ whites rules ↔
      ∀ r ∈ rules, r.type = typeBlackList ∨ r.type = typeWhiteList := by
  have hnone : whites (reapplied rules) ≤ whites rules ↔ rules.countP isOther = 0 := by
    rw [whites_reapplied, countP_not_black]
    omega
  rw [hnone, List.countP_eq_zero]
  refine forall₂_congr fun r _ => ?_
  simp [isOther, or_iff_not_imp_left]

/-- The console changes nothing exactly for collections that are untouched. -/
theorem reapply_unchanged_iff {env : Env} {browser : Browser} {st : Server} {runState : Bool}
    {token : String} (hquery : Understood env browser (queryRequest token))
    (hanswer : browser.parse (RuleCollection.toJsonText env.text st.manager.rules) =
      some (RuleCollection.toJson st.manager.rules))
    (hupdate : Understood env browser
      (updateRequest runState ((uploaded st.manager.rules).map Value.object) token))
    (localtime : TimeT → Tm) :
    (∃ after, reapply env browser st runState token = some after ∧
      SameVerdicts localtime st.manager.rules after.manager.rules ∧
      whites after.manager.rules ≤ whites st.manager.rules) ↔
        Untouched localtime st.manager.rules := by
  rw [reapply_eq hquery hanswer hupdate]
  simp only [Option.some.injEq, exists_eq_left', sameVerdicts_iff, whites_reapplied_le_iff]
  constructor
  · rintro ⟨hsame, htypes⟩
    exact ⟨htypes, fun now => (hsame now).1, fun now => (hsame now).2⟩
  · intro untouched
    exact ⟨fun now => ⟨untouched.covered now, untouched.refused now⟩, untouched.types⟩

/-- Black and white rules without mask, ICMP type or nameless protocol come back as they were. -/
theorem untouched_of_plain (localtime : TimeT → Tm) {rules : RuleCollection}
    (htypes : ∀ r ∈ rules, r.type = typeBlackList ∨ r.type = typeWhiteList)
    (hplain : ∀ r ∈ rules, reloaded r = r) : Untouched localtime rules where
  types := htypes
  covered := by
    rintro now packet ⟨r, hr, htype, hopened⟩ hnone
    rw [Opened, hplain r hr] at hopened
    exact absurd ⟨r, hr, htype, hopened⟩ hnone
  refused := by
    rintro now packet _ hnone ⟨r, hr, hother, hopened⟩
    rw [Opened, hplain r hr] at hopened
    exact hnone ⟨r, hr, (htypes r hr).resolve_left hother, hopened⟩

/-! ### A white rule and a monitor rule -/

def queryText : String := "\x7b\"opt\":1,\"token\":\"t\"\x7d"

/-- A console that writes the two requests as given, and a server that reads them. -/
def consoleEnv (rules : RuleCollection) (printed updateText : String) : Env :=
  ⟨Text.ofTable [(queryText, .value (queryRequest "t")),
    (updateText, .value (updateRequest true ((uploaded rules).map Value.object) "t"))] printed,
    zeros, []⟩

def consoleBrowser (rules : RuleCollection) (updateText : String) : Browser where
  parse := fun _ => some (RuleCollection.toJson rules)
  stringify := fun
    | .object (("opt", .number d) :: _) => if d = 1 then queryText else updateText
    | _ => ""
  parseInt := fun _ => .null

theorem not_mem_append {s t : String} (hs : '\x00' ∉ s.toList) (ht : '\x00' ∉ t.toList) :
    '\x00' ∉ (s ++ t).toList := by
  rw [String.toList_append, List.mem_append]
  exact not_or_intro hs ht

theorem consoleEnv_query (rules : RuleCollection) (printed updateText : String) :
    Understood (consoleEnv rules printed updateText) (consoleBrowser rules updateText)
      (queryRequest "t") := by
  have hwritten : (consoleBrowser rules updateText).stringify (queryRequest "t") = queryText := by
    simp [consoleBrowser, queryRequest]
  have hread : String.ofList (cString queryText.toList) = queryText :=
    ofList_cString (by decide +kernel)
  rw [Understood, hwritten, hread]
  exact Text.ofTable_parse_self ..

theorem consoleEnv_update (rules : RuleCollection) (printed : String) {updateText : String}
    (hother : updateText ≠ queryText) (hnul : '\x00' ∉ updateText.toList) :
    Understood (consoleEnv rules printed updateText) (consoleBrowser rules updateText)
      (updateRequest true ((uploaded rules).map Value.object) "t") := by
  have hwritten : (consoleBrowser rules updateText).stringify
      (updateRequest true ((uploaded rules).map Value.object) "t") = updateText := by
    simp [consoleBrowser, updateRequest]
  rw [Understood, hwritten, ofList_cString hnul, consoleEnv, Text.ofTable_parse_of_ne hother]
  exact Text.ofTable_parse_self ..

def httpsRule : Rule := ⟨ntohs 443, 0, 0, 0, 0xffffffff, 1, 6, 0⟩

def httpsUpdate : String :=
  "\x7b\"opt\":2,\"enabled\":1,\"data\":[\x7b\"target_ip\":\"0.0.0.0\",\"src_ip\":\"0.0.0.0\"," ++
    "\"target_port\":443,\"src_port\":0,\"timepass\":4294967295,\"protocol\":\"tcp\"," ++
    "\"type\":1\x7d],\"token\":\"t\"\x7d"

def httpsServer : Server := ⟨⟨[httpsRule], true⟩, [], 0⟩

theorem https_reapply_iff :
    (∃ after, reapply (consoleEnv [httpsRule] httpsExport httpsUpdate)
        (consoleBrowser [httpsRule] httpsUpdate) httpsServer true "t" = some after ∧
      SameVerdicts ReadingInstants.utc httpsServer.manager.rules after.manager.rules ∧
      whites after.manager.rules ≤ whites httpsServer.manager.rules) ↔
        Untouched ReadingInstants.utc httpsServer.manager.rules := by
  have hother : httpsUpdate ≠ queryText := by decide +kernel
  have hnul : '\x00' ∉ httpsUpdate.toList := by
    refine not_mem_append (not_mem_append ?_ ?_) ?_
    all_goals decide +kernel
  have hquery := consoleEnv_query [httpsRule] httpsExport httpsUpdate
  have hupdate := consoleEnv_update [httpsRule] httpsExport hother hnul
  have hanswer : (consoleBrowser [httpsRule] httpsUpdate).parse
      (RuleCollection.toJsonText (consoleEnv [httpsRule] httpsExport httpsUpdate).text
        httpsServer.manager.rules) = some (RuleCollection.toJson httpsServer.manager.rules) := rfl
  exact reapply_unchanged_iff hquery hanswer hupdate ReadingInstants.utc

/-- Everything is refused, and everything is monitored. -/
def monitored : RuleCollection :=
  [⟨0, 0, 0, 0, 0xffffffff, 0, 0, 0⟩, ⟨0, 0, 0, 0, 0xffffffff, 2, 0, 0⟩]

def monitoredExport : String :=
  "[\x7b\"protocol\":\"unknown\",\"src_ip\":\"0.0.0.0\",\"src_port\":0," ++
    "\"target_ip\":\"0.0.0.0\",\"target_port\":0,\"timepass\":4294967295,\"type\":0\x7d," ++
    "\x7b\"protocol\":\"unknown\",\"src_ip\":\"0.0.0.0\",\"src_port\":0," ++
    "\"target_ip\":\"0.0.0.0\",\"target_port\":0,\"timepass\":4294967295,\"type\":2\x7d]"

def monitoredUpdate : String :=
  "\x7b\"opt\":2,\"enabled\":1,\"data\":[\x7b\"target_ip\":\"0.0.0.0\",\"src_ip\":\"0.0.0.0\"," ++
    "\"target_port\":0,\"src_port\":0,\"timepass\":4294967295,\"protocol\":\"unknown\"," ++
    "\"type\":0\x7d,\x7b\"target_ip\":\"0.0.0.0\",\"src_ip\":\"0.0.0.0\"," ++
    "\"target_port\":0,\"src_port\":0,\"timepass\":4294967295,\"protocol\":\"unknown\"," ++
    "\"type\":1\x7d],\"token\":\"t\"\x7d"

def dnsExtractor : PacketExtractor := ⟨Memory.ofBytes ReadingInstants.dnsPacket⟩

/-- The monitor rule becomes a white one, and what was refused is accepted. -/
theorem monitor_becomes_white :
    reapply (consoleEnv monitored monitoredExport monitoredUpdate)
        (consoleBrowser monitored monitoredUpdate) ⟨⟨monitored, true⟩, [], 0⟩ true "t" =
      some ⟨⟨reapplied monitored, true⟩, [], 0⟩ ∧
    whites monitored = 0 ∧ whites (reapplied monitored) = 1 ∧
    ¬ Accepts ReadingInstants.utc 0 monitored dnsExtractor ∧
    Accepts ReadingInstants.utc 0 (reapplied monitored) dnsExtractor ∧
    ¬ SameVerdicts ReadingInstants.utc monitored (reapplied monitored) := by
  have hrefuses : ¬ (check (Clock.fixed ReadingInstants.utc 0) monitored dnsExtractor 0).1 =
      true := by
    decide +kernel
  have haccepts : (check (Clock.fixed ReadingInstants.utc 0) (reapplied monitored)
      dnsExtractor 0).1 = true := by
    decide +kernel
  refine ⟨?_, by decide, by decide, hrefuses, haccepts, fun hsame => ?_⟩
  · have hnul : '\x00' ∉ monitoredUpdate.toList := by
      refine not_mem_append (not_mem_append (not_mem_append (not_mem_append ?_ ?_) ?_) ?_) ?_
      all_goals decide +kernel
    exact reapply_eq (consoleEnv_query _ _ _) rfl
      (consoleEnv_update _ _ (by decide +kernel) hnul)
  · exact hrefuses ((hsame 0 dnsExtractor).mpr haccepts)

end ConsoleRoundTrip
