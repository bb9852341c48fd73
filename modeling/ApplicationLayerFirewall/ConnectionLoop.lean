import ApplicationLayerFirewall.RequestHandler

/-!
# One connection in raw mode

The connection loop hands every `recv` result to the handler as if it were one
request. The stream itself carries no boundaries, so requests are recognised
only if the network happens to deliver each of them alone. What the handler
does with a part of a request, or with several at once, is not pursued here:
once a result is no request, the list of results is not the list of requests.
-/

namespace ConnectionLoop

open PicoJson RuleMatching RuleVerdict RuleJson RequestHandler

/-! ### The loop -/

/-- `sizeof(_pBuff)`, and the most that one `recv` returns. -/
def buffSize : Nat := 2048

/-- How a connection can end: the peer closes it, an exception of the handler ends
the process, or the terminating zero of a full buffer is written past its end. -/
inductive Ending where
  | closed (st : Server)
  | terminated
  | undefined

/-- The bodies that `handle` was invoked with, the responses sent, and the end. -/
structure Served where
  invoked : List (List Char)
  responses : List String
  ending : Ending

/-- An empty response is not sent. -/
def sent (rsp : String) (later : List String) : List String :=
  if rsp = "" then later else rsp :: later

def Served.after (later : Served) (body : List Char) (rsp : String) : Served :=
  ⟨body :: later.invoked, sent rsp later.responses, later.ending⟩

/-- The raw branch of `startListening`, over the results of `recvRaw`. -/
def rawLoop (env : Env) : Server → List (List Char) → Served
  | st, [] => ⟨[], [], .closed st⟩
  | st, buff :: results =>
    if buff.length = buffSize then ⟨[buff], [], .undefined⟩
    else match handle env st buff with
      | (.error _, _) => ⟨[buff], [], .terminated⟩
      | (.ok rsp, st) => (rawLoop env st results).after buff rsp

/-! ### What the sender means -/

/-- The requests handled one by one, each in a buffer of its own. -/
def oneByOne (env : Env) : Server → List (List Char) → List String × Ending
  | st, [] => ([], .closed st)
  | st, request :: requests =>
    match handle env st request with
    | (.error _, _) => ([], .terminated)
    | (.ok rsp, st) =>
      let later := oneByOne env st requests
      (sent rsp later.1, later.2)

/-- A division of the stream of requests into `recv` results. -/
structure Division (requests results : List (List Char)) : Prop where
  stream : results.flatten = requests.flatten
  sizes : ∀ buff ∈ results, 0 < buff.length ∧ buff.length ≤ buffSize

/-- The loop has handled the requests that were sent, and as if one by one. -/
structure AsSent (env : Env) (st : Server) (requests results : List (List Char)) : Prop where
  invoked : (rawLoop env st results).invoked = requests
  responses : (rawLoop env st results).responses = (oneByOne env st requests).1
  ending : (rawLoop env st results).ending = (oneByOne env st requests).2

theorem oneByOne_defined (env : Env) (st : Server) (requests : List (List Char)) :
    (oneByOne env st requests).2 ≠ .undefined := by
  induction requests generalizing st with
  | nil => exact Ending.noConfusion
  | cons request requests ih =>
    rw [oneByOne]
    rcases handle env st request with ⟨_ | rsp, next⟩
    · exact Ending.noConfusion
    · exact ih next

/-! ### Which results are handled -/

/-- The handler sees a prefix of the results. -/
theorem rawLoop_initial (env : Env) (st : Server) (results : List (List Char)) :
    (rawLoop env st results).invoked <+: results := by
  induction results generalizing st with
  | nil => exact List.prefix_refl []
  | cons buff results ih =>
    have hone : [buff] <+: buff :: results := ⟨results, rfl⟩
    rw [rawLoop]
    by_cases hfull : buff.length = buffSize
    · rw [if_pos hfull]
      exact hone
    · rw [if_neg hfull]
      rcases handle env st buff with ⟨_ | rsp, next⟩
      · exact hone
      · exact List.cons_prefix_cons.mpr ⟨rfl, ih next⟩

/-- If all results are handled, none fills the buffer and none before the last throws. -/
theorem rawLoop_invoked_all {env : Env} {st : Server} {results : List (List Char)}
    (hall : (rawLoop env st results).invoked = results)
    (hdefined : (rawLoop env st results).ending ≠ .undefined) :
    (∀ buff ∈ results, buff.length ≠ buffSize) ∧ ∀ buff ∈ results.dropLast, ¬ Throws env buff := by
  induction results generalizing st with
  | nil => exact ⟨fun _ h => (List.not_mem_nil h).elim, fun _ h => (List.not_mem_nil h).elim⟩
  | cons buff results ih =>
    rw [rawLoop] at hall hdefined
    by_cases hfull : buff.length = buffSize
    · rw [if_pos hfull] at hdefined
      exact False.elim (hdefined rfl)
    · rw [if_neg hfull] at hall hdefined
      rcases handle_cases env st buff with ⟨hthrows, e, next, heq⟩ | ⟨hok, rsp, next, heq, _⟩
      · -- the exception is the end, so nothing may follow
        rw [heq] at hall
        have hlast : results = [] := (List.cons.inj hall).2.symm
        subst hlast
        exact ⟨fun c hc => List.mem_singleton.mp hc ▸ hfull, fun _ h => (List.not_mem_nil h).elim⟩
      · rw [heq] at hall hdefined
        obtain ⟨hrest, hquiet⟩ := ih (List.cons.inj hall).2 hdefined
        refine ⟨List.forall_mem_cons.mpr ⟨hfull, hrest⟩, fun c hc => ?_⟩
        rcases results with _ | ⟨second, results⟩
        · exact (List.not_mem_nil hc).elim
        · rcases List.mem_cons.mp hc with rfl | hc
          · exact hok
          · exact hquiet c hc

/-- Results that do not stop the loop are handled like requests. -/
theorem rawLoop_asSent {env : Env} {results : List (List Char)}
    (hroom : ∀ buff ∈ results, buff.length ≠ buffSize)
    (hquiet : ∀ buff ∈ results.dropLast, ¬ Throws env buff) (st : Server) :
    AsSent env st results results := by
  induction results generalizing st with
  | nil => exact ⟨rfl, rfl, rfl⟩
  | cons buff results ih =>
    obtain ⟨hfirst, hrest⟩ := List.forall_mem_cons.mp hroom
    have hstep : rawLoop env st (buff :: results) =
        match handle env st buff with
        | (.error _, _) => ⟨[buff], [], .terminated⟩
        | (.ok rsp, st) => (rawLoop env st results).after buff rsp := by
      rw [rawLoop, if_neg hfirst]
    rcases handle_cases env st buff with ⟨hthrows, e, next, heq⟩ | ⟨hok, rsp, next, heq, _⟩
    · rw [heq] at hstep
      rcases results with _ | ⟨second, results⟩
      · constructor <;> simp only [hstep, oneByOne, heq]
      · exact False.elim (hquiet buff List.mem_cons_self hthrows)
    · rw [heq] at hstep
      have hlater : AsSent env next results results := by
        refine ih hrest (fun c hc => hquiet c ?_) next
        rcases results with _ | ⟨second, results⟩
        · exact (List.not_mem_nil hc).elim
        · exact List.mem_cons_of_mem buff hc
      constructor
      · rw [hstep]
        exact congrArg (buff :: ·) hlater.invoked
      · simp only [hstep, oneByOne, heq, Served.after, hlater.responses]
      · simp only [hstep, oneByOne, heq, Served.after, hlater.ending]

/-! ### Divisions -/

/-- Results that carry all bytes of the stream are all the results. -/
theorem Division.eq_of_initial {requests results : List (List Char)}
    (division : Division requests results) (hinitial : requests <+: results) :
    requests = results := by
  obtain ⟨rest, rfl⟩ := hinitial
  have hbytes : rest.flatten = [] := by
    have hstream := division.stream
    rw [List.flatten_append] at hstream
    exact List.append_right_eq_self.mp hstream
  rcases rest with _ | ⟨buff, rest⟩
  · exact (List.append_nil requests).symm
  · have hsize := (division.sizes buff (by simp)).1
    have hempty : buff = [] := (List.append_eq_nil_iff.mp hbytes).1
    rw [hempty] at hsize
    exact absurd hsize (Nat.lt_irrefl 0)

/-- The requests are handled as they were sent exactly when each of them is a result
of its own, none fills the buffer, and none before the last makes the handler throw. -/
theorem asSent_iff {env : Env} {requests results : List (List Char)}
    (division : Division requests results) (st : Server) :
    AsSent env st requests results ↔
      results = requests ∧ (∀ request ∈ requests, request.length < buffSize) ∧
        ∀ request ∈ requests.dropLast, ¬ Throws env request := by
  constructor
  · intro h
    have hinitial : requests <+: results := h.invoked ▸ rawLoop_initial env st results
    have hsame := division.eq_of_initial hinitial
    subst hsame
    have hdefined : (rawLoop env st requests).ending ≠ .undefined :=
      h.ending ▸ oneByOne_defined env st requests
    obtain ⟨hroom, hquiet⟩ := rawLoop_invoked_all h.invoked hdefined
    refine ⟨rfl, fun request hrequest => ?_, hquiet⟩
    exact Nat.lt_of_le_of_ne (division.sizes request hrequest).2 (hroom request hrequest)
  · rintro ⟨rfl, hroom, hquiet⟩
    exact rawLoop_asSent (fun buff hbuff => Nat.ne_of_lt (hroom buff hbuff)) hquiet st

/-! ### One request whole and in two parts -/

def statusQuery : String := "\x7b\"opt\":4\x7d"

def switchOff : String := "\x7b\"opt\":2,\"enabled\":0\x7d"

def firstPart : String := "\x7b\"opt\":2,"

def secondPart : String := "\"enabled\":0\x7d"

/-- The library on these texts; it stops reading after the first value. -/
def sampleEnv : Env where
  text := .ofTable
    [(statusQuery, .value (.object [("opt", .number 4)])),
      (switchOff, .value (.object [("opt", .number 2), ("enabled", .number 0)])),
      (secondPart, .value (.string "enabled"))] "[]"
  undef := zeros
  warning := "Bad request from socket\n\n".toList

def switchedOn : Server := ⟨⟨[], true⟩, [], 0⟩

theorem whole_requests_asSent_iff :
    AsSent sampleEnv switchedOn [statusQuery.toList, switchOff.toList]
        [statusQuery.toList, switchOff.toList] ↔
      [statusQuery.toList, switchOff.toList] = [statusQuery.toList, switchOff.toList] ∧
        (∀ request ∈ [statusQuery.toList, switchOff.toList], request.length < buffSize) ∧
        ∀ request ∈ [statusQuery.toList, switchOff.toList].dropLast, ¬ Throws sampleEnv request :=
  asSent_iff ⟨rfl, by decide +kernel⟩ switchedOn

/-- A request to switch off that arrives in two parts ends the server process. -/
theorem request_in_two_parts :
    Division [switchOff.toList] [firstPart.toList, secondPart.toList] ∧
    (rawLoop sampleEnv switchedOn [firstPart.toList, secondPart.toList]).invoked =
      [firstPart.toList, secondPart.toList] ∧
    (rawLoop sampleEnv switchedOn [firstPart.toList, secondPart.toList]).responses = [badBody] ∧
    ¬ AsSent sampleEnv switchedOn [switchOff.toList] [firstPart.toList, secondPart.toList] := by
  have hdivision : Division [switchOff.toList] [firstPart.toList, secondPart.toList] :=
    ⟨by decide +kernel, by decide +kernel⟩
  have hinvoked : (rawLoop sampleEnv switchedOn [firstPart.toList, secondPart.toList]).invoked =
      [firstPart.toList, secondPart.toList] := by decide +kernel
  refine ⟨hdivision, hinvoked, by decide +kernel, fun h => ?_⟩
  have hone := h.invoked
  rw [hinvoked] at hone
  exact absurd (congrArg List.length hone) (by decide)

end ConnectionLoop
