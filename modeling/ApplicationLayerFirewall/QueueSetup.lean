import ApplicationLayerFirewall.QueryDispatch

/-!
# From nfq_open to the receive loop

Four requests are sent one after another, and each waits for its answer. A packet
that comes first fails the request as long as its queue is not registered, and is
judged afterwards. The setup is compared with a protocol of answers and packets.
-/

namespace QueueSetup

open ByteOrder PacketReading Netlink QueuedPackets NetlinkWriting ReceiveLoop QueryDispatch

/-! ### NetFilterServiceProvider::start up to the loop -/

/-- The requests that `start` sends one after another. -/
inductive Phase where
  | unbind
  | bind
  | create
  | setMode
  deriving DecidableEq

/-- What `start` returns when a request fails. -/
def failureCode : Phase → Int
  | .unbind => -2
  | .bind => -3
  | .create => -4
  | .setMode => -5

/-- Queue 0 is registered when the kernel has acknowledged it. -/
def queuesIn : Phase → List UInt16
  | .setMode => [0]
  | _ => []

/-- What `start` finds: the library, the socket for each request, the sequence number. -/
structure Host where
  opens : Bool
  sends : Phase → Bool
  seq : UInt32

inductive Setup where
  | running (verdicts : List Verdict) (rest : List Arrival)
  | returned (verdicts : List Verdict) (code : Int)
  | waiting (verdicts : List Verdict)
  | undefined

def Setup.after (verdicts : List Verdict) : Setup → Setup
  | .running later rest => .running (verdicts ++ later) rest
  | .returned later code => .returned (verdicts ++ later) code
  | .waiting later => .waiting (verdicts ++ later)
  | .undefined => .undefined

def query (host : Host) (p : Phase) (arrivals : List Arrival) : Caught :=
  if host.sends p then nfnlCatch host.seq (queuesIn p) arrivals else .done [] (-1) arrivals

def setupFrom (host : Host) : List Phase → List Arrival → Setup
  | [], arrivals => .running [] arrivals
  | p :: later, arrivals =>
    match query host p arrivals with
    | .waiting verdicts => .waiting verdicts
    | .undefined => .undefined
    | .done verdicts ret rest =>
      if ret < 0 then .returned verdicts (failureCode p)
      else (setupFrom host later rest).after verdicts

def phases : List Phase := [.unbind, .bind, .create, .setMode]

def setup (host : Host) (arrivals : List Arrival) : Setup :=
  if host.opens then setupFrom host phases arrivals else .returned [] (-1)

/-! ### The handshake as a protocol -/

/-- What the program hears: an answer, a packet with the verdicts it is given, or nothing,
and whether it should listen again. -/
inductive Event where
  | answer (ok : Bool)
  | packet (verdicts : List Verdict)
  | interrupted
  | failed
  deriving DecidableEq

/-- What may arrive: answers, packets whose size is a multiple of four and at most that of the
buffer, and receives that fail. Other datagrams are left out. -/
inductive Carries : Arrival → Event → Prop
  | answer {d : Datagram} {judge : PacketExtractor → Bool} {a : Answer}
      (h : d.buf.Holds 0 a.bytes) (hlen : d.len.toNat = a.bytes.length) :
      Carries ⟨.datagram d, judge⟩ (.answer (a.error = 0))
  | packet {d : Datagram} {judge : PacketExtractor → Bool} {q : QueuedPacket} (hq : Readable q)
      (haligned : q.size % 4 = 0) (h : d.buf.Holds 0 q.bytes) (hlen : d.len.toNat = q.size) :
      Carries ⟨.datagram d, judge⟩ (.packet (q.verdicts judge d.buf))
  | interrupted {judge : PacketExtractor → Bool} : Carries ⟨.interrupted, judge⟩ .interrupted
  | failed {judge : PacketExtractor → Bool} : Carries ⟨.failed, judge⟩ .failed

/-- How the setup ends, and what the program has not heard yet. -/
inductive Outcome where
  | running (verdicts : List Verdict) (rest : List Event)
  | returned (verdicts : List Verdict) (code : Int)
  | waiting (verdicts : List Verdict)

def Outcome.after (verdicts : List Verdict) : Outcome → Outcome
  | .running later rest => .running (verdicts ++ later) rest
  | .returned later code => .returned (verdicts ++ later) code
  | .waiting later => .waiting (verdicts ++ later)

/-- The setup has ended as the protocol says. -/
inductive Follows : Setup → Outcome → Prop
  | running {verdicts : List Verdict} {rest : List Arrival} {events : List Event}
      (h : List.Forall₂ Carries rest events) : Follows (.running verdicts rest)
        (.running verdicts events)
  | returned {verdicts : List Verdict} {code : Int} :
      Follows (.returned verdicts code) (.returned verdicts code)
  | waiting {verdicts : List Verdict} : Follows (.waiting verdicts) (.waiting verdicts)

theorem Follows.after {s : Setup} {o : Outcome} (h : Follows s o) (verdicts : List Verdict) :
    Follows (s.after verdicts) (o.after verdicts) := by
  cases h with
  | running hrest => exact .running hrest
  | returned => exact .returned
  | waiting => exact .waiting

theorem Setup.after_nil (s : Setup) : s.after [] = s := by cases s <;> rfl

def Event.verdicts : Event → List Verdict
  | .packet verdicts => verdicts
  | _ => []

theorem query_suffix {host : Host} {p : Phase} {arrivals rest : List Arrival}
    {verdicts : List Verdict} {ret : Int} (h : query host p arrivals = .done verdicts ret rest) :
    rest <:+ arrivals := by
  rw [query] at h
  split_ifs at h
  · exact nfnlCatch_suffix h
  · cases h
    exact List.suffix_refl _

def Setup.verdicts : Setup → List Verdict
  | .running verdicts _ => verdicts
  | .returned verdicts _ => verdicts
  | .waiting verdicts => verdicts
  | .undefined => []

theorem query_unregistered (host : Host) {p : Phase} (hp : p ≠ .setMode)
    (arrivals : List Arrival) : (query host p arrivals).verdicts = [] := by
  have hnone : queuesIn p = [] := by
    cases p <;> first | rfl | exact absurd rfl hp
  rw [query, hnone]
  split_ifs
  · exact nfnlCatch_unregistered host.seq arrivals
  · rfl

/-- A phase without a queue judges nothing. -/
theorem setupFrom_cons_unregistered (host : Host) {p : Phase} (hp : p ≠ .setMode)
    (later : List Phase) (arrivals : List Arrival) :
    (setupFrom host (p :: later) arrivals).verdicts = [] ∨
      ∃ rest, rest <:+ arrivals ∧
        setupFrom host (p :: later) arrivals = setupFrom host later rest := by
  have hquery := query_unregistered host hp arrivals
  rw [setupFrom]
  cases hcaught : query host p arrivals with
  | waiting verdicts =>
      rw [hcaught] at hquery
      exact Or.inl hquery
  | undefined => exact Or.inl rfl
  | done verdicts ret rest =>
      rw [hcaught] at hquery
      have hnone : verdicts = [] := hquery
      subst hnone
      simp only [Setup.after_nil]
      split_ifs
      · exact Or.inl rfl
      · exact Or.inr ⟨rest, query_suffix hcaught, rfl⟩

/-- Whatever arrives, and in whatever bytes: the setup judges nothing, or all that it judges
arrives in the last phase, when the queue is registered. A setup without a meaning, because
of an attribute of type 0, counts as judging nothing. -/
theorem setup_judges_registered (host : Host) (arrivals : List Arrival) :
    (setup host arrivals).verdicts = [] ∨
      ∃ rest, rest <:+ arrivals ∧ setup host arrivals = setupFrom host [.setMode] rest := by
  rw [setup, phases]
  split_ifs
  · rcases setupFrom_cons_unregistered host (by decide : Phase.unbind ≠ .setMode)
      [.bind, .create, .setMode] arrivals with hempty | ⟨first, hfirst, hnext⟩
    · exact Or.inl hempty
    rcases setupFrom_cons_unregistered host (by decide : Phase.bind ≠ .setMode)
      [.create, .setMode] first with hempty | ⟨second, hsecond, hnext'⟩
    · exact Or.inl ((congrArg Setup.verdicts hnext).trans hempty)
    rcases setupFrom_cons_unregistered host (by decide : Phase.create ≠ .setMode)
      [.setMode] second with hempty | ⟨third, hthird, hnext''⟩
    · exact Or.inl ((congrArg Setup.verdicts (hnext.trans hnext')).trans hempty)
    exact Or.inr ⟨third, hthird.trans (hsecond.trans hfirst), hnext.trans (hnext'.trans hnext'')⟩
  · exact Or.inl rfl

end QueueSetup
