import ApplicationLayerFirewall.ConnectionLoop
import ApplicationLayerFirewall.FramedMessages
import ApplicationLayerFirewall.ProxyRequests
import ApplicationLayerFirewall.TransitionRuns

/-!
# A connection thread

The thread announces the connection, takes turns of receiving, handling and
sending in raw or in framed mode, and releases the connection behind the loop. A
failing send in raw mode returns from inside the loop and skips the release; in
framed mode it is not even noticed. The buffer has 2048 bytes, which raw mode
fills to the last one before the handler puts a zero behind it, and which framed
mode does not compare with the announced size. Past the first write behind the
buffer nothing is claimed. Whether the table still has the thread's handle when
it is detached is pursued elsewhere. Behind it the thread's function, which
returns an integer, ends without a return; what the language leaves open there
is left out.
-/

namespace ConnectionThread

open ByteOrder RequestHandler ProxyRequests TransitionRuns
open ConnectionLoop (buffSize)
open FramedMessages (headSize received toNat_ofNat toInt32_pos_iff toInt32_nonneg_iff)

/-! ### Receiving -/

/-- What meets one call of `recv`: an error, or data; no data is the end of the stream. -/
abbrev Arrival := Option (List UInt8)

/-- At most `size` bytes are returned. -/
def recvRaw (size : Nat) (arrival : Arrival) : Arrival := arrival.map (List.take size)

inductive Mode where
  | raw
  | framed
  deriving DecidableEq

/-- What one turn of the loop meets: the header (in framed mode) over what the stack held
in `_head`, the text, and the result of `send`, if there is something to send. -/
structure Turn where
  head : Arrival
  stale : Memory
  body : Arrival
  sent : Int

/-- A turn in raw mode, in which nothing fails. -/
def rawTurn (data : List UInt8) : Turn := ⟨none, fun _ => 0, some data, 0⟩

/-- `_size`, and the buffer with the number of bytes that `recv` wrote to it. -/
structure Filled where
  size : Int32
  count : Nat
  buff : Memory

/-- The cast of a length to `int`. -/
def intOf (n : Nat) : Int32 := (UInt32.ofNat n).toInt32

/-- The condition of the raw loop. -/
def receiveRaw (turn : Turn) (buff : Memory) : Filled :=
  match recvRaw buffSize turn.body with
  | none => ⟨-1, 0, buff⟩
  | some data => ⟨intOf data.length, data.length, received buff data⟩

/-- `_head.size` after a header, of which a part may be missing. -/
def announced (stale : Memory) (head : List UInt8) : UInt32 :=
  load32 (received stale (head.take headSize)) 4

def getString (turn : Turn) (buff : Memory) : Filled :=
  match turn.head with
  | none => ⟨-1, 0, buff⟩
  | some head =>
    let size := announced turn.stale head
    match recvRaw size.toNat turn.body with
    | none => ⟨-2, 0, buff⟩
    | some data =>
      ⟨if 0 ≤ intOf data.length then size.toInt32 else -2, data.length, received buff data⟩

def Mode.receive : Mode → Turn → Memory → Filled
  | .raw => receiveRaw
  | .framed => getString

/-- The bytes in front of the zero that the handler writes. -/
def text (buff : Memory) (size : Nat) : List Char :=
  (List.range size).map (fun i => Char.ofNat (buff i).toNat)

/-! ### The thread -/

inductive Call where
  | onNewConnection
  | onLostConnection
  | closeFd
  | detach
  deriving DecidableEq

/-- The thread has returned behind the loop or from inside it, an exception of the handler
has ended the process, or a write behind the buffer has left nothing defined. -/
inductive Phase where
  | serving
  | released
  | failed
  | terminated
  | undefined
  deriving DecidableEq

/-- Consecutive indexes of `_pBuff`, written at once. -/
structure Span where
  start : Nat
  count : Nat

structure Thread where
  phase : Phase
  server : Server
  buff : Memory
  written : List Span
  calls : List Call

def start (st : Server) (buff : Memory) : Thread :=
  ⟨.serving, st, buff, [], [.onNewConnection]⟩

/-- Behind the loop. -/
def Thread.release (t : Thread) : Thread :=
  { t with
    phase := .released
    calls := t.calls ++ [.onLostConnection, .closeFd, .detach] }

/-- An empty response is not sent; `putString` is not asked how it went. -/
def afterResponse (mode : Mode) (turn : Turn) (rsp : String) : Phase :=
  if mode = .raw ∧ rsp ≠ "" ∧ turn.sent < 0 then .failed else .serving

/-- The body of the loop. -/
def Thread.exchange (env : Env) (mode : Mode) (turn : Turn) (size : Nat) (t : Thread) : Thread :=
  let buff : Memory := fun i => if i = size then 0 else t.buff i
  let t : Thread := { t with
    buff := buff
    written := t.written ++ [⟨size, 1⟩] }
  if buffSize ≤ size then { t with phase := .undefined }
  else match handle env t.server (text buff size) with
    | (.error _, st) => { t with server := st, phase := .terminated }
    | (.ok rsp, st) => { t with server := st, phase := afterResponse mode turn rsp }

def Thread.fill (filled : Filled) (t : Thread) : Thread :=
  { t with
    buff := filled.buff
    written := t.written ++ [⟨0, filled.count⟩] }

/-- One turn of the loop, and what follows if it is the last. -/
def Thread.after (env : Env) (mode : Mode) (turn : Turn) (t : Thread) : Thread :=
  let filled := mode.receive turn t.buff
  if buffSize < filled.count then { t.fill filled with phase := .undefined }
  else if 0 < filled.size then (t.fill filled).exchange env mode turn filled.size.toUInt32.toNat
  else (t.fill filled).release

def step (env : Env) (mode : Mode) (t : Thread) (turn : Turn) : Option Thread :=
  if t.phase = .serving then some (t.after env mode turn) else none

def Span.Inside (span : Span) : Prop :=
  ∀ i, span.start ≤ i → i < span.start + span.count → i < buffSize

/-- Every index written so far is one of the buffer's. -/
def WritesInside (t : Thread) : Prop := ∀ span ∈ t.written, span.Inside

/-- The connection is announced once, and of a thread that has ended released once. -/
structure Released (t : Thread) : Prop where
  announced : t.calls.count .onNewConnection = 1
  ended : t.phase ≠ .serving → t.calls.count .onLostConnection = 1 ∧
    t.calls.count .closeFd = 1 ∧ t.calls.count .detach = 1

/-! ### Turns that fit -/

/-- The buffer is not filled. An announced size that it does not hold is harmless only if
the header or the text is not received, or if the size is negative as an `int` and
little enough comes. -/
def Fits : Mode → Turn → Prop
  | .raw, turn => ∀ data ∈ turn.body, data.length < buffSize
  | .framed, turn => ∀ head ∈ turn.head, ∀ data ∈ turn.body,
      (announced turn.stale head).toNat < buffSize ∨
        2 ^ 31 ≤ (announced turn.stale head).toNat ∧ data.length ≤ buffSize

/-- What `recv` and the handler's zero write stays inside the buffer. -/
def Filled.Inside (filled : Filled) : Prop :=
  filled.count ≤ buffSize ∧ (0 < filled.size → filled.size.toUInt32.toNat < buffSize)

theorem Filled.inside_of_size {size : Int32} (h : ¬ 0 < size) (buff : Memory) :
    Filled.Inside ⟨size, 0, buff⟩ :=
  ⟨Nat.zero_le _, fun hpos => absurd hpos h⟩

theorem receiveRaw_inside_iff (turn : Turn) (buff : Memory) :
    (receiveRaw turn buff).Inside ↔ Fits .raw turn := by
  rw [receiveRaw, Fits]
  cases turn.body with
  | none =>
    exact iff_of_true (Filled.inside_of_size (by decide) buff) (fun data h => nomatch h)
  | some data =>
    have hlength : (data.take buffSize).length = min buffSize data.length := List.length_take
    have hbuff : buffSize = 2048 := rfl
    simp only [recvRaw, Option.map_some, Filled.Inside, intOf, UInt32.toUInt32_toInt32, hlength,
      toInt32_pos_iff, Option.mem_def, Option.some.injEq, forall_eq']
    rw [toNat_ofNat (by omega)]
    omega

theorem getString_inside_iff (turn : Turn) (buff : Memory) :
    (getString turn buff).Inside ↔ Fits .framed turn := by
  rw [getString, Fits]
  cases turn.head with
  | none =>
    exact iff_of_true (Filled.inside_of_size (by decide) buff) (fun head h => nomatch h)
  | some head =>
    cases turn.body with
    | none =>
      exact iff_of_true (Filled.inside_of_size (by decide) buff) (fun head _ data h => nomatch h)
    | some data =>
      simp only [recvRaw, Option.map_some, Option.mem_def, Option.some.injEq, forall_eq',
        Filled.Inside]
      generalize announced turn.stale head = size
      have hlength : (data.take size.toNat).length = min size.toNat data.length := List.length_take
      have hbuff : buffSize = 2048 := rfl
      rw [hlength]
      by_cases hsmall : size.toNat < 2 ^ 31
      · -- the cast of the count keeps its sign
        have hnonneg : 0 ≤ intOf (min size.toNat data.length) := by
          rw [intOf, toInt32_nonneg_iff, toNat_ofNat (by omega)]
          omega
        rw [if_pos hnonneg, toInt32_pos_iff, UInt32.toUInt32_toInt32]
        omega
      · have hneg : ¬ 0 < (if 0 ≤ intOf (min size.toNat data.length) then size.toInt32
            else -2) := by
          split_ifs
          · rw [toInt32_pos_iff]
            omega
          · decide
        constructor
        · rintro ⟨hcount, _⟩
          omega
        · intro hfits
          exact ⟨by omega, fun hpos => absurd hpos hneg⟩

theorem receive_inside_iff (mode : Mode) (turn : Turn) (buff : Memory) :
    (mode.receive turn buff).Inside ↔ Fits mode turn := by
  cases mode with
  | raw => exact receiveRaw_inside_iff turn buff
  | framed => exact getString_inside_iff turn buff

/-! ### Writes -/

theorem inside_received_iff (count : Nat) : Span.Inside ⟨0, count⟩ ↔ count ≤ buffSize := by
  constructor
  · intro h
    by_contra hmore
    exact Nat.lt_irrefl _ (h buffSize (Nat.zero_le _) (by simpa using hmore))
  · intro hcount i _ hi
    have hlt : i < count := by simpa using hi
    omega

theorem inside_zero_iff (size : Nat) : Span.Inside ⟨size, 1⟩ ↔ size < buffSize := by
  constructor
  · intro h
    exact h size (Nat.le_refl _) (Nat.lt_succ_self _)
  · intro hsize i _ hi
    have hle : i ≤ size := Nat.le_of_lt_succ hi
    omega

section
variable {env : Env} {mode : Mode} {turn : Turn} {t next : Thread} {size : Nat}

theorem step_eq_some_iff :
    step env mode t turn = some next ↔ t.phase = .serving ∧ t.after env mode turn = next := by
  rw [step]
  split_ifs with h
  · simp [h]
  · simp [h]

theorem exchange_written :
    (t.exchange env mode turn size).written = t.written ++ [⟨size, 1⟩] := by
  rw [Thread.exchange]
  split_ifs
  · rfl
  · split <;> rfl

theorem exchange_calls : (t.exchange env mode turn size).calls = t.calls := by
  rw [Thread.exchange]
  split_ifs
  · rfl
  · split <;> rfl

/-- What `recv` wrote is too long, or is handled, or is the last. -/
theorem after_cases (env : Env) (mode : Mode) (turn : Turn) (t : Thread) :
    (buffSize < (mode.receive turn t.buff).count ∧
      t.after env mode turn = { t.fill (mode.receive turn t.buff) with phase := .undefined }) ∨
    ((mode.receive turn t.buff).count ≤ buffSize ∧ 0 < (mode.receive turn t.buff).size ∧
      t.after env mode turn = (t.fill (mode.receive turn t.buff)).exchange env mode turn
        (mode.receive turn t.buff).size.toUInt32.toNat) ∨
    ((mode.receive turn t.buff).count ≤ buffSize ∧ ¬ 0 < (mode.receive turn t.buff).size ∧
      t.after env mode turn = (t.fill (mode.receive turn t.buff)).release) := by
  rw [Thread.after]
  by_cases hcount : buffSize < (mode.receive turn t.buff).count
  · exact Or.inl ⟨hcount, if_pos hcount⟩
  · have hroom := Nat.le_of_not_lt hcount
    simp only [if_neg hcount]
    by_cases hsize : 0 < (mode.receive turn t.buff).size
    · exact Or.inr (Or.inl ⟨hroom, hsize, if_pos hsize⟩)
    · exact Or.inr (Or.inr ⟨hroom, hsize, if_neg hsize⟩)

theorem fill_inside_iff (filled : Filled) :
    WritesInside (t.fill filled) ↔ WritesInside t ∧ filled.count ≤ buffSize := by
  simp only [WritesInside, Thread.fill, List.forall_mem_append, List.forall_mem_singleton,
    inside_received_iff]

theorem exchange_inside_iff :
    WritesInside (t.exchange env mode turn size) ↔ WritesInside t ∧ size < buffSize := by
  simp only [WritesInside, exchange_written, List.forall_mem_append, List.forall_mem_singleton,
    inside_zero_iff]

/-- A turn writes inside the buffer exactly when it fits. -/
theorem after_inside_iff :
    WritesInside (t.after env mode turn) ↔ WritesInside t ∧ Fits mode turn := by
  have hfill : WritesInside (t.fill (mode.receive turn t.buff)) ↔
      WritesInside t ∧ (mode.receive turn t.buff).count ≤ buffSize := fill_inside_iff _
  rw [← receive_inside_iff mode turn t.buff, Filled.Inside]
  rcases after_cases env mode turn t with ⟨hcount, heq⟩ | ⟨hcount, hsize, heq⟩ |
    ⟨hcount, hsize, heq⟩
  · have hover : ¬ (mode.receive turn t.buff).count ≤ buffSize := Nat.not_le_of_lt hcount
    rw [heq]
    exact hfill.trans (and_congr_right fun _ => by simp [hover])
  · rw [heq, exchange_inside_iff, hfill, and_assoc]
    exact and_congr_right fun _ => by simp [hsize]
  · rw [heq]
    exact hfill.trans (and_congr_right fun _ => by simp [hsize])

/-- A run writes inside the buffer exactly when all its turns fit. -/
theorem run_inside_iff {st : Server} {buff : Memory} {turns : List Turn} {final : Thread}
    (hrun : run (step env mode) (start st buff) turns = some final) :
    WritesInside final ↔ ∀ turn ∈ turns, Fits mode turn := by
  have hstart : WritesInside (start st buff) := fun span h => (List.not_mem_nil h).elim
  have hkept : ∀ {s : Thread} {turn : Turn} {next : Thread}, True →
      step env mode s turn = some next → (WritesInside next ↔ WritesInside s ∧ Fits mode turn) := by
    intro s turn next _ hstep
    obtain ⟨_, rfl⟩ := step_eq_some_iff.mp hstep
    exact after_inside_iff
  rw [run_iff_throughout (fun _ _ => trivial) hkept hrun trivial, and_iff_right hstart]
  exact throughout_const_iff hrun

/-- A thread of a server without rules, before anything came. -/
def idle : Thread := start ⟨⟨[], true⟩, [], 0⟩ (fun _ => 0)

/-- The page's query in bytes. -/
def queryBytes : List UInt8 := configQuery.map (fun c => UInt8.ofNat c.toNat)

theorem query_inside :
    ∃ final, run (step sampleEnv .raw) idle [rawTurn queryBytes, rawTurn []] = some final ∧
      WritesInside final := by
  have hsome : (run (step sampleEnv .raw) idle [rawTurn queryBytes, rawTurn []]).isSome = true := by
    decide +kernel
  have hrun := (Option.some_get hsome).symm
  refine ⟨_, hrun, (run_inside_iff hrun).mpr ?_⟩
  refine List.forall_mem_cons.mpr ⟨fun data h => ?_, List.forall_mem_singleton.mpr fun data h => ?_⟩
  · cases h
    decide
  · cases h
    decide

/-- A client that sends 2048 bytes at once, or announces so many, has the zero written
behind the buffer. -/
theorem full_outside :
    (∃ final, run (step sampleEnv .raw) idle [rawTurn (List.replicate 2048 32)] = some final ∧
      ¬ WritesInside final) ∧
    ∃ final, run (step sampleEnv .framed) idle
        [⟨some (FramedMessages.head 2048), fun _ => 0, some queryBytes, 0⟩] = some final ∧
      ¬ WritesInside final := by
  constructor
  · refine ⟨_, rfl, fun hinside => ?_⟩
    have hfits := (after_inside_iff.mp hinside).2 (List.replicate 2048 32) rfl
    rw [List.length_replicate] at hfits
    exact Nat.lt_irrefl _ hfits
  · refine ⟨_, rfl, fun hinside => ?_⟩
    have hfits := (after_inside_iff.mp hinside).2 (FramedMessages.head 2048) rfl queryBytes rfl
    revert hfits
    decide

/-! ### Release -/

/-- The string that the handler finds in the buffer. -/
def message (mode : Mode) (turn : Turn) (buff : Memory) : List Char :=
  text (mode.receive turn buff).buff (mode.receive turn buff).size.toUInt32.toNat

/-- The handler returns something to send. -/
def Responds (env : Env) (st : Server) (body : List Char) : Prop :=
  ∃ rsp st', handle env st body = (.ok rsp, st') ∧ rsp ≠ ""

/-- The handler returns, and in raw mode its response is sent. -/
def Answered (env : Env) (mode : Mode) (turn : Turn) (st : Server) (body : List Char) : Prop :=
  ¬ Throws env body ∧ (mode = .raw → Responds env st body → 0 ≤ turn.sent)

/-- The turn fits, and what it hands over, if anything, is answered. -/
def Meets (env : Env) (mode : Mode) (t : Thread) (turn : Turn) : Prop :=
  Fits mode turn ∧ (0 < (mode.receive turn t.buff).size →
    Answered env mode turn t.server (message mode turn t.buff))

theorem text_zero (buff : Memory) (size : Nat) :
    text (fun i => if i = size then 0 else buff i) size = text buff size := by
  refine List.map_congr_left fun i hi => ?_
  have hne : i ≠ size := Nat.ne_of_lt (List.mem_range.mp hi)
  simp only [if_neg hne]

theorem afterResponse_serving_iff (rsp : String) :
    afterResponse mode turn rsp = .serving ↔ (mode = .raw → rsp ≠ "" → 0 ≤ turn.sent) := by
  rw [afterResponse]
  split_ifs with h
  · obtain ⟨hmode, hrsp, hsent⟩ := h
    exact iff_of_false (by decide) (fun hall => absurd (hall hmode hrsp) (Int.not_le.mpr hsent))
  · refine iff_of_true rfl (fun hmode hrsp => ?_)
    exact Int.not_lt.mp fun hsent => h ⟨hmode, hrsp, hsent⟩

/-- The body of the loop leads back to its head exactly when the message fits and is
answered. -/
theorem exchange_serving_iff :
    (t.exchange env mode turn size).phase = .serving ↔
      size < buffSize ∧ Answered env mode turn t.server (text t.buff size) := by
  rw [Thread.exchange, text_zero]
  by_cases hsize : buffSize ≤ size
  · simp only [if_pos hsize]
    exact iff_of_false Phase.noConfusion (fun h => Nat.not_lt_of_le hsize h.1)
  · have hlt : size < buffSize := Nat.lt_of_not_le hsize
    simp only [if_neg hsize, hlt, true_and, Answered, Responds]
    rcases handle_cases env t.server (text t.buff size) with
      ⟨hthrows, e, st', heq⟩ | ⟨hok, rsp, st', heq, _⟩
    · rw [heq]
      exact iff_of_false Phase.noConfusion (fun h => h.1 hthrows)
    · have hresponds : (∃ other next, handle env t.server (text t.buff size) =
          (.ok other, next) ∧ other ≠ "") ↔ rsp ≠ "" := by
        rw [heq]
        constructor
        · rintro ⟨other, next, hother, hne⟩
          cases hother
          exact hne
        · intro hne
          exact ⟨rsp, st', rfl, hne⟩
      rw [hresponds, heq]
      exact (afterResponse_serving_iff rsp).trans (and_iff_right hok).symm

/-- As long as the thread serves, only the announcement has been made. -/
def Inv (t : Thread) : Prop := t.phase = .serving → t.calls = [.onNewConnection]

theorem released_of_announced (h : t.calls = [.onNewConnection]) :
    Released t ↔ t.phase = .serving := by
  constructor
  · intro hreleased
    by_contra hended
    have hlost := (hreleased.ended hended).1
    rw [h] at hlost
    revert hlost
    decide
  · intro hserving
    exact ⟨by rw [h]; decide, fun hended => absurd hserving hended⟩

theorem released_release (h : t.calls = [.onNewConnection]) : Released t.release := by
  have hcalls : t.release.calls = [.onNewConnection, .onLostConnection, .closeFd, .detach] := by
    rw [Thread.release, h]
    rfl
  refine ⟨?_, fun _ => ⟨?_, ?_, ?_⟩⟩ <;> rw [hcalls] <;> decide

theorem after_inv (h : t.calls = [.onNewConnection]) : Inv (t.after env mode turn) := by
  intro hserving
  rcases after_cases env mode turn t with ⟨_, heq⟩ | ⟨_, _, heq⟩ | ⟨_, _, heq⟩
  · rw [heq] at hserving
    cases hserving
  · rw [heq, exchange_calls]
    exact h
  · rw [heq] at hserving
    cases hserving

/-- A turn of a serving thread leaves it serving or released exactly when it meets the
condition. -/
theorem after_released_iff (h : t.calls = [.onNewConnection]) :
    Released (t.after env mode turn) ↔ Meets env mode t turn := by
  rw [Meets, ← receive_inside_iff mode turn t.buff, Filled.Inside]
  have hcalls : (t.fill (mode.receive turn t.buff)).calls = [.onNewConnection] := h
  rcases after_cases env mode turn t with ⟨hcount, heq⟩ | ⟨hcount, hsize, heq⟩ |
    ⟨hcount, hsize, heq⟩
  · have hover : ({ t.fill (mode.receive turn t.buff) with phase := .undefined } : Thread).calls =
        [.onNewConnection] := h
    rw [heq, released_of_announced hover]
    exact iff_of_false Phase.noConfusion (fun hmeets => Nat.not_lt_of_le hmeets.1.1 hcount)
  · rw [heq, released_of_announced (exchange_calls.trans hcalls), exchange_serving_iff]
    simp only [hcount, hsize, true_and, forall_const]
    rfl
  · rw [heq]
    exact iff_of_true (released_release hcalls)
      ⟨⟨hcount, fun hpos => absurd hpos hsize⟩, fun hpos => absurd hpos hsize⟩

/-- In a run every connection is released exactly when all its turns meet the condition. -/
theorem run_released_iff {st : Server} {buff : Memory} {turns : List Turn} {final : Thread}
    (hrun : run (step env mode) (start st buff) turns = some final) :
    Released final ↔ Throughout (step env mode) (Meets env mode) (start st buff) turns := by
  have hstart : Released (start st buff) := (released_of_announced rfl).mpr rfl
  have hpreserved : ∀ {s : Thread} {turn : Turn} {next : Thread}, Inv s →
      step env mode s turn = some next → Inv next := by
    intro s turn next hinv hstep
    obtain ⟨hserving, rfl⟩ := step_eq_some_iff.mp hstep
    exact after_inv (hinv hserving)
  have hkept : ∀ {s : Thread} {turn : Turn} {next : Thread}, Inv s →
      step env mode s turn = some next → (Released next ↔ Released s ∧ Meets env mode s turn) := by
    intro s turn next hinv hstep
    obtain ⟨hserving, rfl⟩ := step_eq_some_iff.mp hstep
    have hcalls := hinv hserving
    have hreleased : Released s := (released_of_announced hcalls).mpr hserving
    rw [after_released_iff hcalls]
    exact (and_iff_right hreleased).symm
  rw [run_iff_throughout hpreserved hkept hrun (fun _ => rfl)]
  exact and_iff_right hstart

theorem query_released :
    ∃ final, run (step sampleEnv .raw) idle [rawTurn queryBytes, rawTurn []] = some final ∧
      final.phase = .released ∧ Released final := by
  have hended : (run (step sampleEnv .raw) idle [rawTurn queryBytes, rawTurn []]).map
      Thread.phase = some .released := by decide +kernel
  obtain ⟨final, hrun, hphase⟩ := Option.map_eq_some_iff.mp hended
  have hmessage : message .raw (rawTurn queryBytes) idle.buff = configQuery := by decide +kernel
  have hquiet : ¬ Throws sampleEnv configQuery :=
    ((idle_iff sampleEnv ⟨[], true⟩ configQuery).mp (configQuery_idle rfl _)).1
  have hfirst : Meets sampleEnv .raw idle (rawTurn queryBytes) := by
    refine ⟨fun data h => ?_, fun _ => ⟨hmessage ▸ hquiet, fun _ _ => Int.le_refl 0⟩⟩
    cases h
    decide
  have hlast : ∀ t, Meets sampleEnv .raw t (rawTurn []) := by
    intro t
    have hsize : (Mode.receive .raw (rawTurn []) t.buff).size = 0 := rfl
    refine ⟨fun data h => ?_, fun hpos => absurd hpos (by rw [hsize]; decide)⟩
    cases h
    decide
  exact ⟨final, hrun, hphase, (run_released_iff hrun).mpr
    ⟨hfirst, fun next _ => ⟨hlast next, fun _ _ => trivial⟩⟩⟩

/-- A client that hangs up before its answer leaves the connection open. -/
theorem failedSend_kept :
    ∃ final, run (step sampleEnv .raw) idle [{ rawTurn queryBytes with sent := -1 }] = some final ∧
      final.phase = .failed ∧ final.calls = [.onNewConnection] ∧ ¬ Released final := by
  have hphase : (idle.after sampleEnv .raw { rawTurn queryBytes with sent := -1 }).phase =
      .failed := by decide +kernel
  have hcalls : (idle.after sampleEnv .raw { rawTurn queryBytes with sent := -1 }).calls =
      [.onNewConnection] := by decide +kernel
  refine ⟨_, rfl, hphase, hcalls, fun hreleased => ?_⟩
  have hserving := (released_of_announced hcalls).mp hreleased
  rw [hphase] at hserving
  cases hserving

end

/-! ### The loops of the other modules -/

def chars (data : List UInt8) : List Char := data.map (fun b => Char.ofNat b.toNat)

theorem text_received (buff : Memory) (data : List UInt8) :
    text (received buff data) data.length = chars data := by
  refine List.ext_getElem (by simp [text, chars]) fun i _ hi => ?_
  have hlt : i < data.length := by simpa [chars] using hi
  simp [text, chars, FramedMessages.received_apply buff hlt]

theorem intOf_toNat {n : Nat} (h : n ≤ buffSize) : (intOf n).toUInt32.toNat = n := by
  have hbuff : buffSize = 2048 := rfl
  rw [intOf, UInt32.toUInt32_toInt32, toNat_ofNat (by omega)]

theorem intOf_pos_iff {n : Nat} (h : n ≤ buffSize) : 0 < intOf n ↔ 0 < n := by
  have hbuff : buffSize = 2048 := rfl
  exact FramedMessages.toInt32_ofNat_pos_iff (by omega)

theorem receive_rawTurn {data : List UInt8} (h : data.length ≤ buffSize) (buff : Memory) :
    Mode.receive .raw (rawTurn data) buff =
      ⟨intOf data.length, data.length, received buff data⟩ := by
  have htake : data.take buffSize = data := List.take_of_length_le h
  change receiveRaw (rawTurn data) buff = _
  simp only [receiveRaw, rawTurn, recvRaw, Option.map_some, htake]

/-- How a thread has ended, in the words of the raw loop. -/
def EndsAs (t : Thread) : ConnectionLoop.Ending → Prop
  | .closed st => t.phase = .released ∧ t.server = st
  | .terminated => t.phase = .terminated
  | .undefined => t.phase = .undefined

section
variable {env : Env} {t : Thread}

theorem after_rawTurn_nil : t.after env .raw (rawTurn []) =
    (t.fill ⟨intOf 0, 0, received t.buff []⟩).release := by
  have hempty : ([] : List UInt8).length ≤ buffSize := Nat.zero_le _
  have hroom : ¬ buffSize < 0 := Nat.not_lt_zero _
  have hlast : ¬ 0 < intOf 0 := by decide
  simp only [Thread.after, receive_rawTurn hempty, List.length_nil, if_neg hroom, if_neg hlast]

theorem after_rawTurn {data : List UInt8} (hpos : 0 < data.length)
    (hlength : data.length ≤ buffSize) : t.after env .raw (rawTurn data) =
      (t.fill ⟨intOf data.length, data.length, received t.buff data⟩).exchange env .raw
        (rawTurn data) data.length := by
  have hroom : ¬ buffSize < data.length := Nat.not_lt_of_le hlength
  have hsize : 0 < intOf data.length := (intOf_pos_iff hlength).mpr hpos
  simp only [Thread.after, receive_rawTurn hlength, if_neg hroom, if_pos hsize,
    intOf_toNat hlength]

/-- The text that came is handed over as the raw loop does it. -/
theorem after_rawTurn_phase {data : List UInt8} (hpos : 0 < data.length)
    (hlength : data.length < buffSize) :
    (∃ e st, handle env t.server (chars data) = (.error e, st) ∧
      (t.after env .raw (rawTurn data)).phase = .terminated) ∨
    (∃ rsp st, handle env t.server (chars data) = (.ok rsp, st) ∧
      (t.after env .raw (rawTurn data)).phase = .serving ∧
      (t.after env .raw (rawTurn data)).server = st) := by
  have hsize : ¬ buffSize ≤ data.length := Nat.not_le_of_lt hlength
  rw [after_rawTurn hpos (Nat.le_of_lt hlength)]
  simp only [Thread.exchange, Thread.fill, text_zero, text_received, if_neg hsize]
  rcases handle env t.server (chars data) with ⟨e | rsp, st⟩
  · exact Or.inl ⟨e, st, rfl, rfl⟩
  · exact Or.inr ⟨rsp, st, rfl, (afterResponse_serving_iff rsp).mpr (fun _ _ => Int.le_refl 0), rfl⟩

/-- A thread whose sends succeed ends as the raw loop does, once the stream has ended or before. -/
theorem run_rawLoop (results : List (List UInt8))
    (hsizes : ∀ data ∈ results, 0 < data.length ∧ data.length ≤ buffSize)
    (ht : t.phase = .serving) :
    ∃ before, before <+: results.map rawTurn ++ [rawTurn []] ∧
      ∃ final, run (step env .raw) t before = some final ∧
        EndsAs final (ConnectionLoop.rawLoop env t.server (results.map chars)).ending := by
  induction results generalizing t with
  | nil =>
    refine ⟨[rawTurn []], List.prefix_refl _, t.after env .raw (rawTurn []), ?_, ?_⟩
    · exact run_cons_eq_some_iff.mpr ⟨_, step_eq_some_iff.mpr ⟨ht, rfl⟩, rfl⟩
    · rw [after_rawTurn_nil]
      exact ⟨rfl, rfl⟩
  | cons data results ih =>
    obtain ⟨⟨hpos, hlength⟩, hrest⟩ := List.forall_mem_cons.mp hsizes
    have hstep : step env .raw t (rawTurn data) = some (t.after env .raw (rawTurn data)) :=
      step_eq_some_iff.mpr ⟨ht, rfl⟩
    have hchars : (chars data).length = data.length := List.length_map _
    have hone : [rawTurn data] <+: (data :: results).map rawTurn ++ [rawTurn []] :=
      ⟨results.map rawTurn ++ [rawTurn []], rfl⟩
    rw [List.map_cons, List.map_cons, ConnectionLoop.rawLoop, hchars]
    by_cases hfull : data.length = buffSize
    · -- the zero does not fit
      rw [if_pos hfull]
      refine ⟨[rawTurn data], hone, _, run_cons_eq_some_iff.mpr ⟨_, hstep, rfl⟩, ?_⟩
      rw [after_rawTurn hpos hlength, Thread.exchange, if_pos (Nat.le_of_eq hfull.symm)]
      rfl
    · rw [if_neg hfull]
      have hlt : data.length < buffSize := Nat.lt_of_le_of_ne hlength hfull
      rcases after_rawTurn_phase hpos hlt with
        ⟨e, st, heq, hphase⟩ | ⟨rsp, st, heq, hphase, hserver⟩
      · rw [heq]
        exact ⟨[rawTurn data], hone, _, run_cons_eq_some_iff.mpr ⟨_, hstep, rfl⟩, hphase⟩
      · rw [heq]
        obtain ⟨before, hbefore, final, hrun, hends⟩ := ih hrest hphase
        refine ⟨rawTurn data :: before, List.cons_prefix_cons.mpr ⟨rfl, hbefore⟩, final,
          run_cons_eq_some_iff.mpr ⟨_, hstep, hrun⟩, ?_⟩
        rw [hserver] at hends
        exact hends

end

/-- A turn of the framed loop on what is outstanding, in which nothing fails. -/
def framedTurn (turn : FramedMessages.Turn) (outstanding : List UInt8) : Turn :=
  ⟨some (outstanding.take turn.headLimit), turn.stale,
    some ((outstanding.drop (min turn.headLimit headSize)).take turn.bodyLimit), 0⟩

/-- Without errors `getString` is that of the framed loop. -/
theorem getString_framedTurn (turn : FramedMessages.Turn) (conn : FramedMessages.Conn)
    (hfew : conn.outstanding.length < 2 ^ 31) :
    (getString (framedTurn turn conn.outstanding) conn.buff).size =
      (FramedMessages.getString turn conn).1 ∧
    (getString (framedTurn turn conn.outstanding) conn.buff).buff =
      (FramedMessages.getString turn conn).2.buff := by
  have hsize : announced turn.stale (conn.outstanding.take turn.headLimit) =
      turn.size conn.outstanding := by
    rw [announced, FramedMessages.Turn.size, List.take_take, Nat.min_comm]
  have hrest : (conn.outstanding.drop (min turn.headLimit headSize)).length < 2 ^ 31 := by
    rw [List.length_drop]
    omega
  have hnonneg : ∀ n, 0 ≤ intOf
      ((conn.outstanding.drop (min turn.headLimit headSize)).take n).length := by
    intro n
    rw [intOf, toInt32_nonneg_iff, List.length_take, toNat_ofNat (by omega)]
    omega
  simp only [getString, framedTurn, FramedMessages.getString, recvRaw, Option.map_some, hsize,
    List.take_take, if_pos (hnonneg _), true_and]
  rw [Nat.min_comm]

end ConnectionThread
