import ApplicationLayerFirewall.RequestHandler

/-!
# Requests that the server survives

The handler answers a syntax error, an unknown `opt` and an ill-typed field, but
it takes for granted that a body is an object and that the elements of `data`
are. An exception that leaves it ends the process with all its connections, so
one such request is the last one served.
-/

namespace SurvivedRequests

open PicoJson RuleJson RequestHandler

/-! ### One request -/

/-- Every access that the handler makes finds the kind of value it expects. -/
def Accessible (env : Env) : Value → Prop
  | .object o => optOf env o = optUpdateRules →
      ∀ arr, o.lookup "data" = some (.array arr) → ∀ v ∈ arr, v.isObject = true
  | _ => False

/-- The text is no JSON at all, or a value that the handler can access. -/
def Survivable (env : Env) (buff : List Char) : Prop :=
  match env.text.parse (String.ofList (cString buff)) with
  | .thrown _ => False
  | .syntaxError _ => True
  | .value v => Accessible env v

theorem not_throws_iff_survivable (env : Env) (buff : List Char) :
    ¬ Throws env buff ↔ Survivable env buff := by
  rw [Throws, Survivable]
  cases env.text.parse (String.ofList (cString buff)) with
  | thrown e => simp
  | syntaxError err => simp
  | value v =>
    cases v with
    | object o =>
      simp only [Accessible, dataOf_eq_some_iff, not_and, not_exists, Bool.not_eq_false]
    | _ => simp [Accessible]

/-- A response is returned exactly to the bodies that are survivable, whatever the
server's state. -/
theorem handle_returns_iff (env : Env) (st : Server) (buff : List Char) :
    (∃ rsp, (handle env st buff).1 = .ok rsp) ↔ Survivable env buff := by
  rw [← not_throws_iff_survivable]
  rcases handle_cases env st buff with ⟨hthrows, e, st', h⟩ | ⟨hreturns, rsp, st', h, _⟩
  · rw [h]
    exact iff_of_false (fun ⟨_, hrsp⟩ => by cases hrsp) (not_not_intro hthrows)
  · rw [h]
    exact iff_of_true ⟨rsp, rfl⟩ hreturns

/-! ### Requests one after another -/

/-- The server after the requests, unless one of them ends the process. -/
def handleAll (env : Env) : Server → List (List Char) → Option Server
  | st, [] => some st
  | st, buff :: rest =>
    match handle env st buff with
    | (.error _, _) => none
    | (.ok _, st) => handleAll env st rest

/-- The server is there after the requests exactly when each of them is survivable. -/
theorem handleAll_isSome_iff (env : Env) (st : Server) (bodies : List (List Char)) :
    (handleAll env st bodies).isSome ↔ ∀ buff ∈ bodies, Survivable env buff := by
  induction bodies generalizing st with
  | nil => simp [handleAll]
  | cons buff rest ih =>
    have hfirst := handle_returns_iff env st buff
    rw [handleAll, List.forall_mem_cons, ← hfirst]
    rcases handle env st buff with ⟨_ | rsp, next⟩
    · simp
    · simp [ih next]

/-! ### Three bodies -/

/-- An array, an update whose data hold a number, and a number beyond all doubles. -/
def threeBodies : List (String × ParseResult) :=
  [("[]", .value (.array [])),
    ("\x7b\"opt\":2,\"data\":[1]\x7d",
      .value (.object [("data", .array [.number 1]), ("opt", .number 2)])),
    ("1e999", .thrown .overflowError)]

def threeEnv : Env := ⟨Text.ofTable threeBodies "", zeros, []⟩

/-- None of the three is answered. -/
theorem threeBodies_end_the_process :
    (∀ entry ∈ threeBodies, ∃ e,
      (handle threeEnv ⟨⟨[], true⟩, [], 0⟩ entry.1.toList).1 = .error e) ∧
    ¬ ∀ (env : Env) (st : Server) (buff : List Char), ∃ rsp,
      (handle env st buff).1 = .ok rsp := by
  have harray : (handle threeEnv ⟨⟨[], true⟩, [], 0⟩ "[]".toList).1 = .error .runtimeError := by
    rfl
  refine ⟨?_, fun hall => ?_⟩
  · simp only [threeBodies, List.forall_mem_cons]
    exact ⟨⟨_, harray⟩, ⟨.runtimeError, by decide +kernel⟩, ⟨.overflowError, by rfl⟩,
      fun _ h => (List.not_mem_nil h).elim⟩
  · obtain ⟨rsp, hrsp⟩ := hall threeEnv ⟨⟨[], true⟩, [], 0⟩ "[]".toList
    rw [harray] at hrsp
    cases hrsp

end SurvivedRequests
