import ApplicationLayerFirewall.TransitionRuns
import Mathlib.Algebra.Ring.Nat
import Mathlib.Data.List.GetD

/-!
# The log buffer

`LOG_ORIG` prints each text behind the last one and starts again at the
beginning only once the position is beyond a threshold. The threshold is larger
than the buffer, so the position leaves the buffer long before it is put back.
Until then the bytes are the texts one after another, which is how the request
handler sees the log.
-/

namespace LogBuffer

open TransitionRuns

/-! ### LOG_ORIG -/

/-- `sizeof(logbuff)`. -/
def sizeofLogbuff : Nat := 10240000

/-- The offset beyond which `p_sp` is put back to `logbuff`. -/
def threshold : Nat := 90000000

/-- The bytes from `logbuff` on, those behind its end included, and the offset of `p_sp`. -/
structure Log where
  bytes : Nat → Char
  sp : Nat

/-- The program's static data. -/
def zeroed : Log := ⟨fun _ => '\x00', 0⟩

def logInit (log : Log) : Log := { log with sp := 0 }

/-- A text and its terminating NUL are written at an offset. -/
def sprintf (bytes : Nat → Char) (p : Nat) (text : List Char) : Nat → Char :=
  fun i => if p ≤ i ∧ i ≤ p + text.length then text.getD (i - p) '\x00' else bytes i

/-- Where the next text goes. -/
def Log.target (log : Log) : Nat := if threshold < log.sp then 0 else log.sp

def logOrig (log : Log) (text : List Char) : Log :=
  ⟨sprintf log.bytes log.target text, log.target + text.length⟩

/-- `LOG_INFO` and its siblings make three calls of `LOG_ORIG`. -/
def logInfo (header text : List Char) : List (List Char) := [header, text, ['\n']]

def step (log : Log) (text : List Char) : Option Log := some (logOrig log text)

theorem step_eq (log : Log) (text : List Char) : step log text = some (logOrig log text) := rfl

/-- All bytes that a call writes lie in the buffer, and so does the position it leaves. -/
structure Inside (log : Log) (text : List Char) : Prop where
  bytes : ∀ i, log.target ≤ i → i ≤ log.target + text.length → i < sizeofLogbuff
  position : (logOrig log text).sp < sizeofLogbuff

/-- No other byte changes. -/
theorem sprintf_of_outside (bytes : Nat → Char) {p i : Nat} {text : List Char}
    (h : i < p ∨ p + text.length < i) : sprintf bytes p text i = bytes i := by
  rw [sprintf, if_neg]
  omega

/-! ### Runs -/

/-- The bytes of all texts, the NULs between them not counted. -/
def total (texts : List (List Char)) : Nat := (texts.map List.length).sum

theorem total_cons (text : List Char) (texts : List (List Char)) :
    total (text :: texts) = text.length + total texts := by
  simp [total]

/-- In the buffer the position is never put back. -/
theorem target_of_inside {log : Log} (h : log.sp < sizeofLogbuff) : log.target = log.sp := by
  have hsize : sizeofLogbuff ≤ threshold := by decide
  rw [Log.target, if_neg]
  omega

theorem inside_iff {log : Log} (h : log.sp < sizeofLogbuff) (text : List Char) :
    Inside log text ↔ log.sp + text.length < sizeofLogbuff := by
  have htarget := target_of_inside h
  constructor
  · intro hinside
    exact htarget ▸ hinside.position
  · intro hlt
    refine ⟨fun i _ hi => ?_, ?_⟩
    · rw [htarget] at hi
      exact Nat.lt_of_le_of_lt hi hlt
    · rw [logOrig, htarget]
      exact hlt

/-- From a position in the buffer, a run stays inside exactly when all its texts fit
behind that position. -/
theorem throughout_inside_iff {log : Log} (h : log.sp < sizeofLogbuff)
    (texts : List (List Char)) :
    Throughout step Inside log texts ↔ log.sp + total texts < sizeofLogbuff := by
  induction texts generalizing log with
  | nil => exact iff_of_true trivial h
  | cons text texts ih =>
    have hsp : (logOrig log text).sp = log.sp + text.length := by
      rw [logOrig, target_of_inside h]
    rw [throughout_cons_iff (step_eq log text), inside_iff h, total_cons, ← Nat.add_assoc]
    constructor
    · rintro ⟨hlt, hrest⟩
      have hfit := (ih (hsp.trans_lt hlt)).mp hrest
      rwa [hsp] at hfit
    · intro hfit
      have hlt : log.sp + text.length < sizeofLogbuff :=
        Nat.lt_of_le_of_lt (Nat.le_add_right _ _) hfit
      refine ⟨hlt, (ih (hsp.trans_lt hlt)).mpr ?_⟩
      rwa [hsp]

/-- After `LOG_INIT` the log stays in its buffer as long as the texts of the whole run
fit into it together. -/
theorem logInit_inside_iff (log : Log) (texts : List (List Char)) :
    Throughout step Inside (logInit log) texts ↔ total texts < sizeofLogbuff := by
  have hstart : (logInit log).sp < sizeofLogbuff := (by decide : 0 < sizeofLogbuff)
  rw [throughout_inside_iff hstart, logInit, Nat.zero_add]

theorem length_le_total_lines (lines : List (List Char × List Char)) :
    lines.length ≤ total (lines.flatMap fun line => logInfo line.1 line.2) := by
  induction lines with
  | nil => exact Nat.zero_le _
  | cons line lines ih =>
    rw [List.flatMap_cons, logInfo, List.cons_append, List.cons_append, List.cons_append,
      List.nil_append, total_cons, total_cons, total_cons, List.length_cons]
    have hnewline : ['\n'].length = 1 := rfl
    omega

/-- Each line takes at least one byte, so no run of lines can go on for ever. -/
theorem lines_bounded (log : Log) (lines : List (List Char × List Char))
    (h : Throughout step Inside (logInit log)
      (lines.flatMap fun line => logInfo line.1 line.2)) :
    lines.length < sizeofLogbuff :=
  Nat.lt_of_le_of_lt (length_le_total_lines lines) ((logInit_inside_iff log _).mp h)

/-- Ten thousand texts of a thousand bytes, and a few more, fill the buffer. -/
def thousands : List (List Char) := List.replicate 10240 (List.replicate 1000 '-')

theorem thousands_leave_the_buffer :
    (∀ text ∈ thousands, text.length ≤ 1023) ∧
    ¬ Throughout step Inside (logInit zeroed) thousands := by
  have hstart : (logInit zeroed).sp < sizeofLogbuff := (by decide : 0 < sizeofLogbuff)
  have htotal : total thousands = sizeofLogbuff := by
    rw [total, thousands, List.map_replicate, List.length_replicate, List.sum_replicate_nat]
    rfl
  constructor
  · intro text htext
    rw [List.eq_of_mem_replicate htext, List.length_replicate]
    decide
  · rw [throughout_inside_iff hstart, htotal]
    exact Nat.not_lt.mpr (Nat.le_add_left _ _)

/-! ### What readers of the buffer find -/

/-- The buffer holds a text and the NUL behind it. -/
structure Holds (log : Log) (text : List Char) : Prop where
  position : log.sp = text.length
  bytes : ∀ i, i ≤ text.length → log.bytes i = text.getD i '\x00'

/-- `std::string(p)`, when a NUL comes within the given number of bytes. -/
def stringAt (bytes : Nat → Char) : Nat → Nat → Option (List Char)
  | 0, _ => none
  | limit + 1, p =>
    if bytes p = '\x00' then some [] else (stringAt bytes limit (p + 1)).map (bytes p :: ·)

theorem zeroed_holds : Holds (logInit zeroed) [] :=
  ⟨rfl, fun _ _ => rfl⟩

theorem logOrig_holds {log : Log} {text : List Char} (h : Holds log text)
    (hsize : text.length < sizeofLogbuff) (more : List Char) :
    Holds (logOrig log more) (text ++ more) := by
  have htarget : log.target = text.length :=
    (target_of_inside (h.position.trans_lt hsize)).trans h.position
  constructor
  · rw [logOrig, htarget, List.length_append]
  · intro i hi
    rw [List.length_append] at hi
    have hbytes : (logOrig log more).bytes = sprintf log.bytes text.length more := by
      rw [logOrig, htarget]
    rw [hbytes]
    rcases Nat.lt_or_ge i text.length with hlt | hge
    · rw [sprintf_of_outside log.bytes (Or.inl hlt), h.bytes i (Nat.le_of_lt hlt),
        List.getD_append _ _ _ _ hlt]
    · rw [List.getD_append_right _ _ _ _ hge]
      exact if_pos ⟨hge, hi⟩

/-- While the texts fit, the buffer holds them one after another. -/
theorem run_holds {texts : List (List Char)} {log final : Log} {text : List Char}
    (h : Holds log text) (hfit : text.length + total texts < sizeofLogbuff)
    (hrun : run step log texts = some final) : Holds final (text ++ texts.flatten) := by
  induction texts generalizing log text with
  | nil =>
    rw [← Option.some.inj hrun, List.flatten_nil, List.append_nil]
    exact h
  | cons more texts ih =>
    obtain ⟨next, hstep, hrest⟩ := run_cons_eq_some_iff.mp hrun
    have hnext : logOrig log more = next := Option.some.inj hstep
    subst hnext
    rw [total_cons] at hfit
    have hholds := logOrig_holds h (by omega) more
    rw [List.flatten_cons, ← List.append_assoc]
    exact ih hholds (by rw [List.length_append]; omega) hrest

theorem stringAt_eq {bytes : Nat → Char} {s : List Char} {p limit : Nat}
    (h : ∀ i, i ≤ s.length → bytes (p + i) = s.getD i '\x00') (hnul : '\x00' ∉ s)
    (hlimit : s.length < limit) : stringAt bytes limit p = some s := by
  induction s generalizing p limit with
  | nil =>
    obtain ⟨limit, rfl⟩ := Nat.exists_eq_succ_of_ne_zero (Nat.ne_of_gt hlimit)
    have hend : bytes p = '\x00' := h 0 (Nat.le_refl 0)
    rw [stringAt, if_pos hend]
  | cons c s ih =>
    obtain ⟨limit, rfl⟩ := Nat.exists_eq_succ_of_ne_zero (Nat.ne_of_gt (Nat.zero_lt_of_lt hlimit))
    obtain ⟨hc, hs⟩ := not_or.mp (mt List.mem_cons.mpr hnul)
    have hfirst : bytes p = c := h 0 (Nat.zero_le _)
    have htail : ∀ i, i ≤ s.length → bytes (p + 1 + i) = s.getD i '\x00' := by
      intro i hi
      rw [Nat.add_right_comm]
      exact h (i + 1) (Nat.succ_le_succ hi)
    have hrest : stringAt bytes limit (p + 1) = some s :=
      ih htail hs (Nat.lt_of_succ_lt_succ hlimit)
    rw [stringAt, hfirst, if_neg (Ne.symm hc), hrest, Option.map_some]

/-- The copy from a position on is the rest of the text. -/
theorem stringAt_drop {log : Log} {text : List Char} (h : Holds log text)
    (hnul : '\x00' ∉ text) {np limit : Nat} (hnp : np ≤ text.length)
    (hlimit : text.length < limit) : stringAt log.bytes limit np = some (text.drop np) := by
  refine stringAt_eq (fun i hi => ?_) (fun hmem => hnul (List.mem_of_mem_drop hmem)) ?_
  · rw [List.length_drop] at hi
    rw [h.bytes (np + i) (by omega), List.getD_eq_getElem?_getD, List.getD_eq_getElem?_getD,
      List.getElem?_drop]
  · rw [List.length_drop]
    omega

end LogBuffer
