import ApplicationLayerFirewall.JsonRequests
import ApplicationLayerFirewall.LogBuffer
import ApplicationLayerFirewall.RuleMeaning
import ApplicationLayerFirewall.TransitionRuns

/-!
# The firewall against what was asked of it

Request texts and packets reach the program as bytes, in any order. Whoever
sends them has rules with a meaning in mind and a flag, and expects a journal of
what was refused. Texts, matching and log of the program are taken together
here: over every run its verdicts and its log are those of the intent, as long as
the log fits into its buffer.
-/

namespace FirewallRuns

open AccessPolicy ByteOrder ConnectionLoop InetAddress JsonDocuments JsonRequests PacketReading
open PicoJson RequestHandler RuleJson RuleMatching RuleMeaning RuleVerdict TransitionRuns

/-! ### The program -/

/-- The line about a refused packet, behind a head with date, time and place. -/
def blockedText (head : List Char) (pe : PacketExtractor) : List Char :=
  head ++ ("blocked packet [".toList ++ (getProtocolString pe.getProtocol).toList ++
    "] ".toList ++ inetNtoa pe.getSrcIp ++ " -> ".toList ++ inetNtoa pe.getDestIp ++ ['\n'])

/-- `Judge::judge` with its log line. -/
def judgeLogged (head : List Char) (clock : Clock) (st : Server) (pe : PacketExtractor) :
    Bool × Server :=
  let ret := (judge clock st.manager.isEnabled st.manager.getRules pe 0).1
  if ret then (true, st) else (false, st.logText (blockedText head pe))

structure State where
  server : Server
  verdicts : List Bool

/-- One result of `recvRaw`, or one packet and the readings of the clock while it is judged. -/
inductive Action where
  | request (buff : List Char)
  | packet (packet : Memory) (clock : Clock)

/-- The log and the NUL behind it are in `logbuff`. -/
def State.inBuffer (s : State) : Option State :=
  if s.server.log.length < LogBuffer.sizeofLogbuff then some s else none

/-- There is no next state when an exception ends the process, a full receive buffer
overflows or the log leaves its buffer. -/
def step (env : Env) (head : List Char) (s : State) : Action → Option State
  | .request buff =>
    if buff.length = buffSize then none
    else match handle env s.server buff with
      | (.error _, _) => none
      | (.ok _, server) => State.inBuffer { s with server := server }
  | .packet packet clock =>
    let (ret, server) := judgeLogged head clock s.server ⟨packet⟩
    State.inBuffer ⟨server, s.verdicts ++ [ret]⟩

/-! ### The intent -/

/-- A rule other than one for echo replies, whose type the parser loses. -/
abbrev KeptSpec := {spec : RuleSpec // spec.protocol ≠ some (.icmpNamed echoReply)}

def listEffect (spec : RuleSpec) : Effect :=
  match spec.type with
  | none => .black
  | some t => if t.val = 0 then .black else if t.val = 1 then .white else .none

structure Intent where
  enabled : Bool
  specs : List KeptSpec

def Intent.policy (intent : Intent) : Policy Memory :=
  ofRules (fun spec : KeptSpec => listEffect spec.val)
    (fun spec packet => Constraints spec.val packet) intent.specs

/-- A firewall that is switched off permits everything. -/
def Intent.Permits (intent : Intent) (payload : List UInt8) : Prop :=
  intent.enabled = true → Memory.ofBytes payload ∈ intent.policy.permitted

inductive Entry where
  | badRequest
  | blocked (payload : List UInt8)

/-- An entry as it is logged. Protocol and addresses stand at fixed places of the payload. -/
def Entry.text (warning head : List Char) : Entry → List Char
  | .badRequest => warning
  | .blocked payload =>
    let byte := Memory.ofBytes payload
    head ++ ("blocked packet [".toList ++ (getProtocolString (byte 9)).toList ++ "] ".toList ++
      dottedQuad (byte 12) (byte 13) (byte 14) (byte 15) ++ " -> ".toList ++
      dottedQuad (byte 16) (byte 17) (byte 18) (byte 19) ++ ['\n'])

/-- What is asked for, and what has come of it. -/
structure Model where
  intent : Intent
  verdicts : List Bool
  journal : List Entry

inductive Said where
  | update (specs : Option (List KeptSpec)) (enabled : Option Bool)
  | query
  | unreadable
  | packet (payload : List UInt8)

open Classical in
noncomputable def Model.next (m : Model) : Said → Model
  | .update specs enabled =>
    { m with intent := ⟨enabled.getD m.intent.enabled, specs.getD m.intent.specs⟩ }
  | .query => m
  | .unreadable => { m with journal := m.journal ++ [.badRequest] }
  | .packet payload =>
    if m.intent.Permits payload then { m with verdicts := m.verdicts ++ [true] }
    else { m with
      verdicts := m.verdicts ++ [false]
      journal := m.journal ++ [.blocked payload] }

/-- Behind what the log held before there is room for the whole journal. -/
def Model.Fits (warning head before : List Char) (m : Model) : Prop :=
  (before ++ m.journal.flatMap (Entry.text warning head)).length < LogBuffer.sizeofLogbuff

variable {undef : Undefined} {warning head : List Char}

/-- The rule is the parser's for an object that states the specification. -/
def Stands (undef : Undefined) (r : Rule) (spec : KeptSpec) : Prop :=
  ∃ o, States o spec.val ∧ r = ruleOf undef o

/-- Program and intent agree, the log since it held `before` included. -/
structure Agrees (undef : Undefined) (warning head before : List Char) (s : State) (m : Model) :
    Prop where
  enabled : s.server.manager.enabled = m.intent.enabled
  rules : List.Forall₂ (Stands undef) s.server.manager.rules m.intent.specs
  verdicts : s.verdicts = m.verdicts
  log : s.server.log = before ++ m.journal.flatMap (Entry.text warning head)

section
variable {before : List Char} {s : State} {m : Model}

theorem Agrees.inBuffer (h : Agrees undef warning head before s m)
    (hfits : m.Fits warning head before) : s.inBuffer = some s := by
  rw [Model.Fits, ← h.log] at hfits
  rw [State.inBuffer, if_pos hfits]

end

end FirewallRuns
