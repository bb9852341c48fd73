import ApplicationLayerFirewall.ProxyRequests

/-!
# What the HTTP proxy answers

The proxy calls `recv` once for the server's response and writes what came to the
HTTP client. A response that TCP divides, or that is longer than the limit of the
call, is cut; there is no second call. An error document of the proxy's own does
not end the request, so the server's response is written behind it. Where nothing
comes, the proxy waits until the connection ends, and then writes nothing more.
-/

namespace ProxyAnswers

open PicoJson RuleMatching RuleVerdict RuleJson RequestHandler ProxyRequests

/-! ### One call of `recv` -/

def postLimit : Nat := 80960

def getLimit : Nat := 8096

/-- A response as successive calls of `recv` would return it. -/
structure Pieces (limit : Nat) (r : List Char) (parts : List (List Char)) : Prop where
  whole : parts.flatten = r
  sizes : ∀ part ∈ parts, 0 < part.length ∧ part.length ≤ limit

/-- The body of the HTTP response, and whether the handler has returned. -/
structure Answer where
  body : List Char
  finished : Bool

/-- The response comes in parts, behind which the connection stays open or has been closed.
`recv` returns the first part, or nothing at the end of the stream, or waits. The server
answers nothing to no bytes. -/
def answer (handling : Handling) (parts : List (List Char)) (closed : Bool) : Answer :=
  let written := handling.written.flatMap String.toList
  match handling.forwarded with
  | none => ⟨written, true⟩
  | some [] => ⟨written, closed⟩
  | some (_ :: _) =>
    match parts.head? with
    | none => ⟨written, closed⟩
    | some part => ⟨written ++ part, true⟩

/-- The handler has returned and written this document only. -/
structure Answered (a : Answer) (document : List Char) : Prop where
  finished : a.finished = true
  body : a.body = document
  nonempty : document ≠ []

/-- The document that a POST is to be answered with. -/
def postDocument (loads : Loads) (body r : List Char) : List Char :=
  if body = [] then (errorDocument 1).toList
  else if 0 < jsonCheck loads body then (errorDocument (jsonCheck loads body)).toList
  else r

/-- The exported rule list. -/
def exported (env : Env) (rules : RuleCollection) : List Char :=
  (RuleCollection.toJsonText env.text rules).toList

/-! ### The first piece -/

section
variable {limit : Nat} {r : List Char} {parts : List (List Char)}

theorem Pieces.first_whole_iff (h : Pieces limit r parts) :
    parts.head? = some r ↔ parts.length = 1 := by
  cases parts with
  | nil => simp
  | cons part later =>
    have hwhole : part ++ later.flatten = r := h.whole
    cases later with
    | nil =>
      have hsame : part = r := by simpa using hwhole
      simp [hsame]
    | cons second rest =>
      have hsecond : 0 < second.length :=
        (h.sizes second (List.mem_cons_of_mem _ List.mem_cons_self)).1
      have hlonger : part.length < r.length := by
        rw [← hwhole, List.flatten_cons, List.length_append, List.length_append]
        omega
      refine iff_of_false (fun hhead => ?_) (by simp)
      have hsame : part = r := Option.some.inj hhead
      rw [hsame] at hlonger
      exact Nat.lt_irrefl _ hlonger

/-- What comes in one piece is not longer than the limit. -/
theorem Pieces.length_le (h : Pieces limit r parts) (hone : parts.length = 1) :
    r.length ≤ limit := by
  have hhead : parts.head? = some r := h.first_whole_iff.mpr hone
  exact (h.sizes r (List.mem_of_mem_head? hhead)).2

/-- The first piece of a response is written behind what the proxy wrote itself, and at the
end of the stream nothing is. -/
theorem answered_forwarded_iff {body : List Char} (hbody : body ≠ []) (written : List String)
    (parts : List (List Char)) (closed : Bool) (document : List Char) :
    Answered (answer ⟨written, some body⟩ parts closed) document ↔
      (written.flatMap String.toList ++ parts.head?.getD [] = document ∧ document ≠ []) ∧
        (parts = [] → closed = true) := by
  cases body with
  | nil => exact absurd rfl hbody
  | cons c rest =>
    cases parts with
    | nil =>
      constructor
      · intro h
        exact ⟨⟨(List.append_nil _).trans h.body, h.nonempty⟩, fun _ => h.finished⟩
      · rintro ⟨⟨hwritten, hnonempty⟩, hclosed⟩
        exact ⟨hclosed rfl, (List.append_nil _).symm.trans hwritten, hnonempty⟩
    | cons part later =>
      constructor
      · intro h
        exact ⟨⟨h.body, h.nonempty⟩, fun hnil => absurd hnil (List.cons_ne_nil _ _)⟩
      · rintro ⟨⟨hwritten, hnonempty⟩, -⟩
        exact ⟨rfl, hwritten, hnonempty⟩

/-- A response is answered whole, and not with nothing, exactly when it is one piece. -/
theorem Pieces.forward_answered_iff (h : Pieces limit r parts) (closed : Bool) {body : List Char}
    (hbody : body ≠ []) : Answered (answer ⟨[], some body⟩ parts closed) r ↔ parts.length = 1 := by
  rw [answered_forwarded_iff hbody, ← h.first_whole_iff]
  cases parts with
  | nil =>
    have hempty : r = [] := h.whole.symm
    simp [hempty]
  | cons part later =>
    have hpart : part ≠ [] := List.ne_nil_of_length_pos (h.sizes part List.mem_cons_self).1
    simp only [List.flatMap_nil, List.nil_append, List.head?_cons, Option.getD_some,
      Option.some.injEq, reduceCtorEq, false_imp_iff, and_true]
    exact ⟨fun hwhole => hwhole.1, fun hwhole => ⟨hwhole, hwhole ▸ hpart⟩⟩

end

/-! ### Which requests are answered -/

theorem length_errorDocument_pos (code : Nat) : 0 < (errorDocument code).toList.length := by
  simp [errorDocument]

/-- After an empty body there are two error documents, and behind that of a refused body
stands the server's response, if there is one. -/
theorem post_answered_iff {r : List Char} {parts : List (List Char)}
    (h : Pieces postLimit r parts) (closed : Bool) {loads : Loads} (hempty : loads [] = none)
    (body : List Char) :
    Answered (answer (doPost loads body) parts closed) (postDocument loads body r) ↔
      body ≠ [] ∧ (jsonCheck loads body = 0 ∧ parts.length = 1 ∨
        0 < jsonCheck loads body ∧ parts = [] ∧ closed = true) := by
  by_cases hbody : body = []
  · subst hbody
    have hcheck : jsonCheck loads [] = 2 := by rw [jsonCheck, hempty]
    refine iff_of_false (fun hanswered => ?_) (fun hcond => hcond.1 rfl)
    have htwo : (answer (doPost loads []) parts closed).body =
        (errorDocument 1).toList ++ (errorDocument 2).toList := by
      simp [answer, doPost, hcheck]
    have hlength := congrArg List.length (htwo.symm.trans hanswered.body)
    have hsecond := length_errorDocument_pos 2
    rw [postDocument, if_pos rfl, List.length_append] at hlength
    omega
  · by_cases hcheck : 0 < jsonCheck loads body
    · have hpos := length_errorDocument_pos (jsonCheck loads body)
      rw [doPost, answered_forwarded_iff hbody, postDocument, if_neg hbody, if_neg hbody,
        if_pos hcheck, if_pos hcheck]
      cases parts with
      | nil => simp [hbody, hcheck, Nat.ne_of_gt hcheck, List.ne_nil_of_length_pos hpos]
      | cons part later =>
        -- the response stands behind the error document
        have hpart := (h.sizes part List.mem_cons_self).1
        refine iff_of_false (fun hanswered => ?_) (fun hcond => ?_)
        · have hlength := congrArg List.length hanswered.1.1
          simp only [List.nil_append, List.flatMap_singleton, List.head?_cons, Option.getD_some,
            List.length_append] at hlength
          omega
        · rcases hcond.2 with ⟨hzero, -⟩ | ⟨-, hnil, -⟩
          · omega
          · cases hnil
    · have hzero : jsonCheck loads body = 0 := Nat.eq_zero_of_not_pos hcheck
      have hforwarded : doPost loads body = ⟨[], some body⟩ := by
        rw [doPost, if_neg hbody, if_neg hcheck, List.append_nil]
      rw [hforwarded, postDocument, if_neg hbody, if_neg hcheck,
        h.forward_answered_iff closed hbody]
      simp [hbody, hzero]

theorem get_answered_iff {r : List Char} {parts : List (List Char)} (h : Pieces getLimit r parts)
    (closed : Bool) (html : String) :
    Answered (answer (doGet html "/config") parts closed) r ↔ parts.length = 1 := by
  have hquery : configQuery ≠ [] := by decide
  rw [doGet, if_pos rfl, h.forward_answered_iff closed hquery]

/-- The page asks for the rules, and the server's response is the export. -/
theorem handle_configQuery {env : Env}
    (query : env.text.parse (String.ofList configQuery) = .value (.object [("opt", .number 1)]))
    (st : Server) : handle env st configQuery =
      (.ok (RuleCollection.toJsonText env.text st.manager.getRules), st) := by
  rw [handle, cString_configQuery, query]
  exact handleValue_query (optOf_query env rfl) st

/-- A rule list whose export is longer than the limit of the one `recv` is never answered
whole. -/
theorem long_export_cut {env : Env} {rules : RuleCollection} {parts : List (List Char)}
    (h : Pieces getLimit (exported env rules) parts)
    (hlong : getLimit < (exported env rules).length) (closed : Bool) (html : String) :
    ¬ Answered (answer (doGet html "/config") parts closed) (exported env rules) := by
  rw [get_answered_iff h]
  exact fun hone => Nat.not_le_of_lt hlong (h.length_le hone)

/-- A POST with the token and a query for the rules are answered with the one document
exactly when the response comes in one piece, and a refused POST when the connection ends
without a response. -/
theorem answered_iff {env : Env} {rules : RuleCollection} {r : List Char}
    {parts exportParts : List (List Char)} (h : Pieces postLimit r parts)
    (hexport : Pieces getLimit (exported env rules) exportParts) (closed : Bool) {loads : Loads}
    (hempty : loads [] = none) (html : String) (body : List Char) :
    (Answered (answer (doRequest loads html (.post body)) parts closed)
        (postDocument loads body r) ↔
      body ≠ [] ∧ (jsonCheck loads body = 0 ∧ parts.length = 1 ∨
        0 < jsonCheck loads body ∧ parts = [] ∧ closed = true)) ∧
    (Answered (answer (doRequest loads html (.get "/config")) exportParts closed)
        (exported env rules) ↔
      exportParts.length = 1) :=
  ⟨post_answered_iff h closed hempty body, get_answered_iff hexport closed html⟩

theorem tokenSwitchOff_answered :
    Answered (answer (doRequest sampleLoads "" (.post tokenSwitchOff.toList)) [success.toList]
      false) (postDocument sampleLoads tokenSwitchOff.toList success.toList) ∧
    Answered (answer (doRequest sampleLoads "" (.get "/config")) ["[]".toList] false)
      (exported sampleEnv []) ∧
    Answered (answer (doRequest sampleLoads "" (.post "[]".toList)) [] true)
      (postDocument sampleLoads "[]".toList []) := by
  have hpost : Pieces postLimit success.toList [success.toList] := ⟨rfl, by decide⟩
  have hexport : Pieces getLimit (exported sampleEnv []) ["[]".toList] := ⟨rfl, by decide⟩
  have hnothing : Pieces postLimit [] [] := ⟨rfl, by decide⟩
  have hempty : sampleLoads [] = none := rfl
  have hanswered := answered_iff hpost hexport false hempty "" tokenSwitchOff.toList
  have hended := answered_iff hnothing hexport true hempty "" "[]".toList
  exact ⟨hanswered.1.mpr ⟨by decide, Or.inl ⟨by decide +kernel, rfl⟩⟩, hanswered.2.mpr rfl,
    hended.1.mpr ⟨by decide, Or.inr ⟨by decide +kernel, rfl, rfl⟩⟩⟩

/-- A refused body gets two documents, and an export in two pieces is cut. -/
theorem refused_twice :
    Pieces postLimit badBody.toList [badBody.toList] ∧
    (answer (doRequest sampleLoads "" (.post "hello".toList)) [badBody.toList] false).body =
      (errorDocument 2).toList ++ badBody.toList ∧
    ¬ Answered (answer (doRequest sampleLoads "" (.post "hello".toList)) [badBody.toList] false)
      (postDocument sampleLoads "hello".toList badBody.toList) ∧
    Pieces getLimit (exported sampleEnv []) ["[".toList, "]".toList] ∧
    ¬ Answered (answer (doRequest sampleLoads "" (.get "/config")) ["[".toList, "]".toList] false)
      (exported sampleEnv []) := by
  refine ⟨⟨rfl, by decide⟩, by decide +kernel, fun hanswered => ?_, ⟨rfl, by decide⟩,
    fun hanswered => ?_⟩
  · have hbody := hanswered.body
    revert hbody
    decide +kernel
  · have hbody := hanswered.body
    revert hbody
    decide +kernel

end ProxyAnswers
