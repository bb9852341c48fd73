import ApplicationLayerFirewall.ConsoleRules
import ApplicationLayerFirewall.ProxyAnswers

/-!
# From the console to the packets

The page asks and uploads through the proxy and goes on being edited meanwhile.
Its requests are served in any order, their answers arrive in any order, and
packets and the requests of others come in between. Whatever happens, packets
are judged as the tables showed when the upload was made that was served last.
-/

namespace ConsoleRuns

open ByteOrder ConnectionLoop ConsolePage ConsoleRoundTrip ConsoleRules ExportReload FirewallRuns
open JsonDocuments JsonPrinter JsonRequests JsonRoundTrip PacketReading PicoJson ProxyAnswers
open ProxyRequests RequestHandler RuleJson RuleMatching RuleMeaning RuleVerdict TransitionRuns

/-! ### Page, proxy and firewall -/

/-- The callbacks that wait for an answer. -/
inductive Query where
  | rules
  | status
  | update

structure Console where
  browser : Browser
  loads : Loads
  token : String

namespace Console

def body (c : Console) (request : Value) : List Char := (c.browser.stringify request).toList

/-- A query with its number. `request_` adds the token. -/
def ask (c : Console) (opt : Nat) : Value :=
  .object [("opt", .number opt), ("token", .string c.token)]

/-- The bodies that the page sends: its two queries, and uploads of well-formed rows. -/
inductive Sends (c : Console) : List Char → Prop
  | ask {opt : Nat} (hopt : opt = 1 ∨ opt = 4) : Sends c (c.body (c.ask opt))
  | upload {s : Scope} {specs : List KeptSpec} (hshows : PageShows s specs) :
      Sends c (c.body (uploadBody c.browser c.token s))

/-- What the page asks when it is loaded, unless it has to ask for the token. -/
def queries (c : Console) : List (Option Query × List Char) :=
  if c.token = "" then []
  else [(some .rules, c.body (c.ask 1)), (some .status, c.body (c.ask 4))]

/-- The body of the proxy's answer, when the first `recv` gets all that it can take. -/
def answerText (c : Console) (body : List Char) (rsp : String) : List Char :=
  (answer (doPost c.loads body) [rsp.toList.take postLimit] false).body

/-- The callbacks. An answer that cannot be read reaches none of them. -/
def arrived (c : Console) (s : Scope) (query : Query) (text : List Char) : Scope :=
  match query, c.browser.parse (String.ofList text) with
  | .rules, some v =>
    match listOf v with
    | some list => rulesArrived s list
    | none => s
  | .status, some v => statusArrived s v
  | _, _ => s

end Console

/-- The requests under way, with the callback if somebody still waits for the answer, and
the answers under way. -/
structure World where
  scope : Scope
  requests : List (Option Query × List Char)
  replies : List (Query × List Char)
  firewall : FirewallRuns.State

inductive Action where
  | load
  | page (a : Act)
  | upload
  | serve (index : Nat)
  | deliver (index : Nat)
  | outside (a : FirewallRuns.Action)

/-- Proxy and server take a request. -/
def serve (c : Console) (env : Env) (head : List Char) (w : World) (index : Nat)
    (request : Option Query × List Char) : Option World :=
  match (handle env w.firewall.server request.2).1,
      FirewallRuns.step env head w.firewall (.request request.2) with
  | .ok rsp, some firewall =>
    some { w with
      requests := w.requests.eraseIdx index
      replies := w.replies ++
        (request.1.map fun query => (query, c.answerText request.2 rsp)).toList
      firewall := firewall }
  | _, _ => none

/-- Loading the page again forgets what the old one waited for. A body that the server would
receive in parts is left out. -/
def step (c : Console) (env : Env) (head : List Char) (w : World) : Action → Option World
  | .load => some { w with
      scope := initialScope
      requests := w.requests.map (fun request => (none, request.2)) ++ c.queries
      replies := [] }
  | .page a => (act w.scope a).map ({ w with scope := · })
  | .upload => some { w with
      requests := w.requests ++ [(some .update, c.body (uploadBody c.browser c.token w.scope))] }
  | .serve index =>
    match w.requests[index]? with
    | none => none
    | some request =>
      if buffSize ≤ request.2.length then none else serve c env head w index request
  | .deliver index =>
    match w.replies[index]? with
    | none => none
    | some reply => some { w with
        scope := c.arrived w.scope reply.1 reply.2
        replies := w.replies.eraseIdx index }
  | .outside a => (FirewallRuns.step env head w.firewall a).map ({ w with firewall := · })

/-! ### What was meant -/

inductive Purpose where
  | rules
  | status
  | update (intent : Intent)

def Purpose.query : Purpose → Query
  | .rules => .rules
  | .status => .status
  | .update _ => .update

def Purpose.said : Purpose → Said
  | .update intent => .update (some intent.specs) (some intent.enabled)
  | _ => .query

structure Order where
  waiting : Bool
  purpose : Purpose

/-- What an answer says, unless it is garbled on its way. -/
inductive Reply where
  | rules (specs : List KeptSpec)
  | status (on : Bool)
  | done
  | garbled

def Purpose.reply (m : Model) : Purpose → Reply
  | .rules => .rules m.intent.specs
  | .status => .status m.intent.enabled
  | .update _ => .done

/-- What is known of the page, and what is under way. -/
structure Desk where
  model : Model
  orders : List Order
  replies : List Reply
  shown : Option (List KeptSpec)
  radio : Option Bool

inductive Told where
  | load (token : Bool)
  | page (a : Act)
  | upload (intent : Intent)
  | serve (index : Nat) (whole : Bool)
  | deliver (index : Nat)
  | outside (said : Said)

open Classical in
/-- What an answer tells about the page where it arrives. -/
noncomputable def Desk.learn (d : Desk) : Reply → Desk
  | .rules specs =>
    { d with shown := if ∀ spec ∈ specs, Plain spec then some (arranged specs) else none }
  | .status on => { d with radio := some on }
  | .done => d
  | .garbled => { d with shown := none, radio := none }

noncomputable def Desk.next (d : Desk) : Told → Desk
  | .load token => { d with
      orders := d.orders.map (fun order => { order with waiting := false }) ++
        if token then [⟨true, .rules⟩, ⟨true, .status⟩] else []
      replies := []
      shown := none
      radio := some false }
  | .page (.radio on) => { d with radio := some on }
  | .page _ => { d with shown := none }
  | .upload intent => { d with orders := d.orders ++ [⟨true, .update intent⟩] }
  | .serve index whole =>
    match d.orders[index]? with
    | none => d
    | some order => { d with
        model := d.model.next order.purpose.said
        orders := d.orders.eraseIdx index
        replies := d.replies ++
          if order.waiting then [if whole then order.purpose.reply d.model else .garbled] else [] }
  | .deliver index =>
    match d.replies[index]? with
    | none => d
    | some reply => { d.learn reply with replies := d.replies.eraseIdx index }
  | .outside said => { d with model := d.model.next said }

/-- The fields that the server reads for a purpose. -/
def Asks (undef : Undefined) (env : Env) (o : Fields) : Purpose → Prop
  | .rules => optOf env o = optQueryRules
  | .status => optOf env o = optQueryStatus
  | .update intent => optOf env o = optUpdateRules ∧ enabledOf o = some intent.enabled ∧
      ∃ objects : List Fields, dataOf o = some (objects.map Value.object) ∧
        List.Forall₂ (Stands undef) (objects.map (ruleOf undef)) intent.specs

structure Carries (c : Console) (undef : Undefined) (env : Env)
    (request : Option Query × List Char) (order : Order) : Prop where
  waiting : request.1 = if order.waiting then some order.purpose.query else none
  fits : request.2.length < buffSize
  sent : c.Sends request.2
  text : ∃ o, RequestText request.2 o ∧ Asks undef env o order.purpose

inductive Brings (undef : Undefined) : Query × List Char → Reply → Prop
  | rules {rules : RuleCollection} {specs : List KeptSpec}
      (h : List.Forall₂ (Stands undef) rules specs) :
      Brings undef (.rules, (RuleCollection.toJsonText picoText rules).toList) (.rules specs)
  | status (on : Bool) : Brings undef (.status, (statusText on).toList) (.status on)
  | done (text : List Char) : Brings undef (.update, text) .done
  | garbled (reply : Query × List Char) : Brings undef reply .garbled

/-- The world is in the state that was meant. -/
structure Follows (c : Console) (undef : Undefined) (warning head before : List Char) (w : World)
    (d : Desk) : Prop where
  firewall : Agrees undef warning head before w.firewall d.model
  requests : List.Forall₂ (Carries c undef (serverEnv undef warning)) w.requests d.orders
  replies : List.Forall₂ (Brings undef) w.replies d.replies
  shown : ∀ specs ∈ d.shown, PageShows w.scope specs
  radio : ∀ on ∈ d.radio, w.scope.runState = on

section
variable {c : Console} {undef : Undefined} {warning head before : List Char}

variable {w : World} {d : Desk}

end

/-! ### An upload -/

end ConsoleRuns
