import ApplicationLayerFirewall.RequestHandler

/-!
# The HTTP proxy and the token

The proxy checks the token of a POST and then forwards the body all the same: an
error document is written, but nothing returns. The server does not look at the
token. So a request without it is harmless only if the server happens to do
nothing on its body. An empty body is not: nothing reaches the server, and the
proxy, which serves one request at a time, waits for an answer for ever.
-/

namespace ProxyRequests

open PicoJson RuleMatching RuleVerdict RuleJson RequestHandler

/-! ### The proxy -/

/-- What the proxy can ask of `json.loads`: a value, or an exception. -/
abbrev Loads := List Char → Option Value

inductive Request where
  | get (path : String)
  | post (body : List Char)

def simpleToken : String := "abc"

/-- 0 for the right token, 3 for another one, 2 for any exception. -/
def jsonCheck (loads : Loads) (jsonStr : List Char) : Nat :=
  match loads jsonStr with
  | some (.object data) =>
    match data.lookup "token" with
    | some (.string clientToken) => if clientToken = simpleToken then 0 else 3
    | some _ => 3
    | none => 2
  | _ => 2

/-- What a request makes the proxy write by itself, and what it sends on. -/
structure Handling where
  written : List String
  forwarded : Option (List Char)

def errorDocument (code : Nat) : String := "\x7b\"error_code\":" ++ toString code ++ "\x7d"

def configQuery : List Char := "\x7b\"opt\":1\x7d".toList

def doGet (html path : String) : Handling :=
  if path = "/config" then ⟨[], some configQuery⟩ else ⟨[html], none⟩

/-- Neither error returns. -/
def doPost (loads : Loads) (body : List Char) : Handling :=
  let missing := if body = [] then [errorDocument 1] else []
  let errorCode := jsonCheck loads body
  let refused := if 0 < errorCode then [errorDocument errorCode] else []
  ⟨missing ++ refused, some body⟩

def doRequest (loads : Loads) (html : String) : Request → Handling
  | .get path => doGet html path
  | .post body => doPost loads body

/-! ### Proxy and server -/

/-- The server, unless its process has ended, and whether the proxy waits for an
answer that never comes. -/
structure System where
  server : Option Server
  waiting : Bool

/-- One body sent to the server on a connection of its own. Connecting to an ended
process fails and concerns this request only. -/
def forward (env : Env) (s : System) (body : List Char) : System :=
  match s.server with
  | none => s
  | some st =>
    if body = [] then { s with waiting := true }
    else match handle env st body with
      | (.ok _, st) => { s with server := some st }
      | (.error _, _) => { s with server := none }

def serve (env : Env) (loads : Loads) (html : String) (s : System) (r : Request) : System :=
  if s.waiting then s
  else match (doRequest loads html r).forwarded with
    | none => s
    | some body => forward env s body

def serveAll (env : Env) (loads : Loads) (html : String) (s : System) (rs : List Request) :
    System :=
  rs.foldl (serve env loads html) s

/-- A POST whose body is an object with the right token. -/
def tokened (loads : Loads) : Request → Bool
  | .get _ => false
  | .post body => jsonCheck loads body = 0

/-- The rules and the flag, if there still is a server. -/
def System.manager (s : System) : Option RuleManager := s.server.map Server.manager

/-! ### Bodies that do nothing -/

/-- An update that asks for what is there. -/
def Restates (env : Env) (m : RuleManager) (o : Fields) : Prop :=
  (∀ arr, dataOf o = some arr → rulesOf env.undef arr = some m.rules) ∧
  (∀ flag, enabledOf o = some flag → flag = m.enabled)

/-- The body is invalid, or an object that is no update, or an update that asks
for what is there. -/
def Idle (env : Env) (m : RuleManager) (body : List Char) : Prop :=
  match env.text.parse (String.ofList (cString body)) with
  | .thrown _ => False
  | .syntaxError _ => True
  | .value (.object o) => optOf env o = optUpdateRules → Restates env m o
  | .value _ => False

theorem withEnabled_eq_iff (m : RuleManager) (rules : RuleCollection) (o : Fields) :
    withEnabled { m with rules := rules } o = m ↔
      rules = m.rules ∧ ∀ flag, enabledOf o = some flag → flag = m.enabled := by
  obtain ⟨installed, enabled⟩ := m
  rw [withEnabled]
  cases enabledOf o with
  | none => simp
  | some flag => simp [RuleManager.setEnabled]

theorem updated_eq_self_iff (env : Env) (m : RuleManager) (o : Fields) :
    updated env m o = some m ↔ Restates env m o := by
  rw [updated, Restates]
  cases dataOf o with
  | none =>
    have h := withEnabled_eq_iff m m.rules o
    simpa using h
  | some arr =>
    cases hrules : rulesOf env.undef arr with
    | none => simp [hrules]
    | some rules =>
      have h := withEnabled_eq_iff m rules o
      simpa [hrules] using h

/-- A body is idle exactly when the handler neither throws on it nor changes
rules or flag. -/
theorem idle_iff (env : Env) (m : RuleManager) (body : List Char) :
    Idle env m body ↔ ¬ Throws env body ∧ managerAfter env m body = m := by
  rw [Idle, Throws, managerAfter]
  cases env.text.parse (String.ofList (cString body)) with
  | thrown e => simp
  | syntaxError err => simp
  | value v =>
    cases v with
    | object o =>
      have hself := updated_eq_self_iff env m o
      have hnone := updated_eq_none_iff env m o
      by_cases hopt : optOf env o = optUpdateRules
      · simp only [hopt, true_and, if_true, forall_const, ← hnone, ← hself]
        cases hupdated : updated env m o <;> simp
      · simp [hopt]
    | _ => simp

/-! ### Requests without the token -/

/-- A request that leaves the server alone: it has no body of its own, or one that
reaches the server and is idle there. -/
def Harmless (env : Env) (s : System) : Request → Prop
  | .get _ => True
  | .post body => ∀ m, s.manager = some m → body ≠ [] ∧ Idle env m body

/-- Every request has the token or is harmless in the state that it meets. -/
def AllHarmless (env : Env) (loads : Loads) (html : String) : System → List Request → Prop
  | _, [] => True
  | s, r :: rest =>
    (tokened loads r = true ∨ Harmless env s r) ∧
      AllHarmless env loads html (serve env loads html s r) rest

/-- Two systems with the same rules and flag, of which neither or both wait. -/
structure Same (s t : System) : Prop where
  manager : s.manager = t.manager
  waiting : s.waiting = t.waiting

theorem forward_same {env : Env} {s t : System} (h : Same s t) (body : List Char) :
    Same (forward env s body) (forward env t body) := by
  obtain ⟨server, waiting⟩ := s
  obtain ⟨server', waiting'⟩ := t
  obtain ⟨hmanager, hwaiting⟩ := h
  cases server with
  | none =>
    cases server' with
    | none => exact ⟨rfl, hwaiting⟩
    | some st' => cases hmanager
  | some st =>
    cases server' with
    | none => cases hmanager
    | some st' =>
      have hst : st.manager = st'.manager := Option.some.inj hmanager
      by_cases hbody : body = []
      · simp only [forward, if_pos hbody]
        exact ⟨hmanager, rfl⟩
      · simp only [forward, if_neg hbody]
        rcases handle_cases env st body with ⟨hthrows, e, next, heq⟩ | ⟨hok, rsp, next, heq, hnext⟩
        · rcases handle_cases env st' body with ⟨_, e', next', heq'⟩ | ⟨hok', _⟩
          · rw [heq, heq']
            exact ⟨rfl, hwaiting⟩
          · exact False.elim (hok' hthrows)
        · rcases handle_cases env st' body with ⟨hthrows', _⟩ | ⟨_, rsp', next', heq', hnext'⟩
          · exact False.elim (hok hthrows')
          · rw [heq, heq']
            refine ⟨?_, hwaiting⟩
            change some next.manager = some next'.manager
            rw [hnext, hnext', hst]

theorem serve_same {env : Env} {loads : Loads} {html : String} {s t : System} (h : Same s t)
    (r : Request) : Same (serve env loads html s r) (serve env loads html t r) := by
  simp only [serve, h.waiting]
  split_ifs
  · exact h
  · cases (doRequest loads html r).forwarded with
    | none => exact h
    | some body => exact forward_same h body

/-- A body that reaches the server leaves it as it was exactly when it is idle. -/
theorem forward_idle_iff {env : Env} {s : System} {m : RuleManager} (hm : s.manager = some m)
    {body : List Char} (hbody : body ≠ []) :
    Same (forward env s body) s ↔ Idle env m body := by
  obtain ⟨server, waiting⟩ := s
  cases server with
  | none => cases hm
  | some st =>
    have hst : st.manager = m := Option.some.inj hm
    rw [idle_iff]
    simp only [forward, if_neg hbody]
    rcases handle_cases env st body with ⟨hthrows, e, next, heq⟩ | ⟨hok, rsp, next, heq, hnext⟩
    · rw [heq]
      constructor
      · intro hsame
        cases hsame.manager
      · rintro ⟨hnot, _⟩
        exact False.elim (hnot hthrows)
    · rw [heq]
      constructor
      · intro hsame
        have hmanager : next.manager = st.manager := Option.some.inj hsame.manager
        exact ⟨hok, by rw [← hst, ← hnext, hmanager]⟩
      · rintro ⟨_, hsame⟩
        refine ⟨?_, rfl⟩
        change some next.manager = some st.manager
        rw [hnext, hst, hsame]

theorem cString_configQuery : cString configQuery = configQuery := by decide

/-- The query for the rules is no update. -/
theorem configQuery_idle {env : Env}
    (query : env.text.parse (String.ofList configQuery) = .value (.object [("opt", .number 1)]))
    (m : RuleManager) : Idle env m configQuery := by
  have hopt : optOf env [("opt", .number 1)] ≠ optUpdateRules := by
    rw [optOf_query env rfl]
    decide
  rw [Idle, cString_configQuery, query]
  exact fun hupdate => absurd hupdate hopt

theorem serve_harmless {env : Env} {loads : Loads} {html : String}
    (query : env.text.parse (String.ofList configQuery) = .value (.object [("opt", .number 1)]))
    {s : System} {r : Request} (h : Harmless env s r) : Same (serve env loads html s r) s := by
  have hself : Same s s := ⟨rfl, rfl⟩
  rw [serve]
  split_ifs
  · exact hself
  · cases hforward : (doRequest loads html r).forwarded with
    | none => exact hself
    | some body =>
      cases hmanager : s.manager with
      | none =>
        have hdown : s.server = none := Option.map_eq_none_iff.mp hmanager
        simp only [forward, hdown]
        exact hself
      | some m =>
        cases r with
        | get path =>
          have hquery : body = configQuery := by
            simp only [doRequest, doGet] at hforward
            split_ifs at hforward
            exact (Option.some.inj hforward).symm
          have hbody : body ≠ [] := by
            rw [hquery]
            decide
          exact (forward_idle_iff hmanager hbody).mpr (hquery ▸ configQuery_idle query m)
        | post sent =>
          have hsent : body = sent := (Option.some.inj hforward).symm
          obtain ⟨hbody, hidle⟩ := h m hmanager
          exact (forward_idle_iff hmanager (hsent ▸ hbody)).mpr (hsent ▸ hidle)

/-- Over a run in which every request without the token is harmless where it
arrives, those requests could as well not have been sent. -/
theorem serveAll_tokened {env : Env} {loads : Loads} {html : String}
    (query : env.text.parse (String.ofList configQuery) = .value (.object [("opt", .number 1)]))
    {s : System} {rs : List Request} (h : AllHarmless env loads html s rs) :
    (serveAll env loads html s rs).manager =
      (serveAll env loads html s (rs.filter (tokened loads))).manager := by
  have hrun : ∀ (rs : List Request) (s t : System), Same s t → AllHarmless env loads html s rs →
      Same (serveAll env loads html s rs)
        (serveAll env loads html t (rs.filter (tokened loads))) := by
    intro rs
    induction rs with
    | nil => exact fun s t hsame _ => hsame
    | cons r rest ih =>
      rintro s t hsame ⟨hfirst, hrest⟩
      by_cases htoken : tokened loads r = true
      · rw [List.filter_cons_of_pos htoken]
        exact ih _ _ (serve_same hsame r) hrest
      · rw [List.filter_cons_of_neg htoken]
        have hback : Same (serve env loads html s r) s :=
          serve_harmless query (hfirst.resolve_left htoken)
        exact ih _ _ ⟨hback.manager.trans hsame.manager, hback.waiting.trans hsame.waiting⟩ hrest
  exact (hrun rs s s ⟨rfl, rfl⟩ h).manager

/-! ### With the token and without -/

def switchOff : String := "\x7b\"opt\":2,\"enabled\":0\x7d"

def tokenSwitchOff : String := "\x7b\"token\":\"abc\",\"opt\":2,\"enabled\":0\x7d"

/-- Three valid texts with their values. -/
def knownTexts : List (String × Value) :=
  [(String.ofList configQuery, .object [("opt", .number 1)]),
    (switchOff, .object [("opt", .number 2), ("enabled", .number 0)]),
    (tokenSwitchOff, .object [("token", .string "abc"), ("opt", .number 2),
      ("enabled", .number 0)])]

/-- The libraries on these texts, on texts that are not JSON, and on no rules. -/
def sampleEnv : Env where
  text := .ofTable (knownTexts.map (fun (s, v) => (s, .value v))) "[]"
  undef := zeros
  warning := "Bad request from socket\n\n".toList

def sampleLoads : Loads := fun body => knownTexts.lookup (String.ofList body)

def switchedOn : System := ⟨some ⟨⟨[], true⟩, [], 0⟩, false⟩

def mixedRequests : List Request :=
  [.get "/config", .post "hello".toList, .post tokenSwitchOff.toList, .get "/"]

theorem mixedRequests_tokened :
    (serveAll sampleEnv sampleLoads "" switchedOn mixedRequests).manager =
      (serveAll sampleEnv sampleLoads "" switchedOn
        (mixedRequests.filter (tokened sampleLoads))).manager :=
  serveAll_tokened rfl
    ⟨Or.inr trivial, Or.inr (fun _ _ => ⟨by decide, trivial⟩), Or.inl (by decide +kernel),
      Or.inr trivial, trivial⟩

/-- Anyone can switch the firewall off. -/
theorem switchOff_without_token :
    tokened sampleLoads (.post switchOff.toList) = false ∧
    (serveAll sampleEnv sampleLoads "" switchedOn [.post switchOff.toList]).manager =
      some ⟨[], false⟩ ∧
    (serveAll sampleEnv sampleLoads "" switchedOn
      ([Request.post switchOff.toList].filter (tokened sampleLoads))).manager =
      some ⟨[], true⟩ := by
  refine ⟨by decide +kernel, by decide +kernel, by decide +kernel⟩

end ProxyRequests
