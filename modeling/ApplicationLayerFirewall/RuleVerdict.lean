import ApplicationLayerFirewall.AccessPolicy
import ApplicationLayerFirewall.RuleMatching

/-!
# The verdict of a rule collection

`RuleCollection::check` walks the rules once and latches one flag for each
list type. Its verdict is the verdict of an abstract policy: at a fixed instant
the policy of the rules themselves, and under a running clock the policy of the
rules paired with the reading that was next when the loop reached them.
-/

namespace RuleVerdict

open ByteOrder PacketReading RuleMatching AccessPolicy

abbrev RuleCollection := List Rule

structure Flags where
  black : Bool
  white : Bool
  monitor : Bool
  deriving DecidableEq

/-- One iteration of the loop: a latched flag keeps its rule from being checked. -/
def checkStep (clock : Clock) (pe : PacketExtractor) (flags : Flags) (n : Nat) (r : Rule) :
    Flags × Nat :=
  if r.type = typeBlackList then
    if flags.black then (flags, n)
    else ({ flags with black := (r.check clock pe n).1 }, (r.check clock pe n).2)
  else if r.type = typeWhiteList then
    if flags.white then (flags, n)
    else ({ flags with white := (r.check clock pe n).1 }, (r.check clock pe n).2)
  else if r.type = typeMonitorList then
    if flags.monitor then (flags, n)
    else ({ flags with monitor := (r.check clock pe n).1 }, (r.check clock pe n).2)
  else (flags, n)

def checkLoop (clock : Clock) (pe : PacketExtractor) :
    RuleCollection → Flags → Nat → Flags × Nat
  | [], flags, n => (flags, n)
  | r :: rest, flags, n =>
    let next := checkStep clock pe flags n r
    checkLoop clock pe rest next.1 next.2

def noFlags : Flags := ⟨false, false, false⟩

/-- The verdict, with the number of clock readings taken so far. -/
def check (clock : Clock) (rules : RuleCollection) (pe : PacketExtractor) (n : Nat) :
    Bool × Nat :=
  let final := checkLoop clock pe rules noFlags n
  (final.1.white || !final.1.black, final.2)

/-- `Judge::judge` without its log line. A disabled manager accepts everything. -/
def judge (clock : Clock) (enabled : Bool) (rules : RuleCollection) (pe : PacketExtractor)
    (n : Nat) : Bool × Nat :=
  if enabled = false then (true, n) else check clock rules pe n

/-! ### Rules paired with the reading they meet -/

/-- The loop's rules, each with the number of the reading next in line then. -/
def reached (clock : Clock) (pe : PacketExtractor) :
    RuleCollection → Flags → Nat → List (Rule × Nat)
  | [], _, _ => []
  | r :: rest, flags, n =>
    let next := checkStep clock pe flags n r
    (r, n) :: reached clock pe rest next.1 next.2

def effect (r : Rule) : Effect :=
  if r.type = typeBlackList then .black
  else if r.type = typeWhiteList then .white
  else .none

theorem effect_eq_black_iff (r : Rule) : effect r = .black ↔ r.type = typeBlackList := by
  unfold effect
  split_ifs with hb hw <;> simp [hb]

theorem effect_eq_white_iff (r : Rule) : effect r = .white ↔ r.type = typeWhiteList := by
  unfold effect
  split_ifs with hb hw
  · simp [hb, typeBlackList, typeWhiteList]
  · simp [hw]
  · simp [hw]

/-- The policy of a rule collection at one instant. -/
def policyAt (now : Tm) (rules : RuleCollection) : Policy Memory :=
  ofRules effect (fun r packet => r.Matches now packet) rules

/-- The policy in which every rule is tested at its own reading. -/
def policyOfReadings (clock : Clock) (timed : List (Rule × Nat)) : Policy Memory :=
  ofRules (fun timedRule => effect timedRule.1)
    (fun timedRule packet => timedRule.1.Matches (clock.getTime timedRule.2) packet) timed

theorem mem_black_timed_cons (clock : Clock) (r : Rule) (n : Nat) (timed : List (Rule × Nat))
    (packet : Memory) : packet ∈ (policyOfReadings clock ((r, n) :: timed)).black ↔
      (effect r = .black ∧ r.Matches (clock.getTime n) packet) ∨
        packet ∈ (policyOfReadings clock timed).black :=
  mem_black_cons

theorem mem_white_timed_cons (clock : Clock) (r : Rule) (n : Nat) (timed : List (Rule × Nat))
    (packet : Memory) : packet ∈ (policyOfReadings clock ((r, n) :: timed)).white ↔
      (effect r = .white ∧ r.Matches (clock.getTime n) packet) ∨
        packet ∈ (policyOfReadings clock timed).white :=
  mem_white_cons

theorem checkStep_black (clock : Clock) (pe : PacketExtractor) (flags : Flags) (n : Nat)
    (r : Rule) : (checkStep clock pe flags n r).1.black = true ↔
      flags.black = true ∨
        (effect r = .black ∧ r.Matches (clock.getTime n) pe.mPData) := by
  rw [effect_eq_black_iff, ← Rule.check_fst, checkStep]
  split_ifs <;> simp_all [typeBlackList, typeWhiteList, typeMonitorList]

theorem checkStep_white (clock : Clock) (pe : PacketExtractor) (flags : Flags) (n : Nat)
    (r : Rule) : (checkStep clock pe flags n r).1.white = true ↔
      flags.white = true ∨
        (effect r = .white ∧ r.Matches (clock.getTime n) pe.mPData) := by
  rw [effect_eq_white_iff, ← Rule.check_fst, checkStep]
  split_ifs <;> simp_all [typeBlackList, typeWhiteList, typeMonitorList]

theorem checkLoop_black (clock : Clock) (pe : PacketExtractor) (rules : RuleCollection)
    (flags : Flags) (n : Nat) : (checkLoop clock pe rules flags n).1.black = true ↔
      flags.black = true ∨
        pe.mPData ∈ (policyOfReadings clock (reached clock pe rules flags n)).black := by
  induction rules generalizing flags n with
  | nil => simp [checkLoop, reached, policyOfReadings]
  | cons r rest ih =>
    rw [checkLoop, ih, checkStep_black, reached, mem_black_timed_cons, or_assoc]

theorem checkLoop_white (clock : Clock) (pe : PacketExtractor) (rules : RuleCollection)
    (flags : Flags) (n : Nat) : (checkLoop clock pe rules flags n).1.white = true ↔
      flags.white = true ∨
        pe.mPData ∈ (policyOfReadings clock (reached clock pe rules flags n)).white := by
  induction rules generalizing flags n with
  | nil => simp [checkLoop, reached, policyOfReadings]
  | cons r rest ih =>
    rw [checkLoop, ih, checkStep_white, reached, mem_white_timed_cons, or_assoc]

/-- Under any clock the verdict is that of the rules at their own readings. -/
theorem check_iff_readings (clock : Clock) (rules : RuleCollection) (pe : PacketExtractor)
    (n : Nat) : (check clock rules pe n).1 = true ↔
      pe.mPData ∈ (policyOfReadings clock (reached clock pe rules noFlags n)).permitted := by
  have hwhite := checkLoop_white clock pe rules noFlags n
  have hblack := checkLoop_black clock pe rules noFlags n
  have hstart : (noFlags.white = true) = False ∧ (noFlags.black = true) = False := by
    simp [noFlags]
  rw [hstart.1, false_or] at hwhite
  rw [hstart.2, false_or] at hblack
  rw [Policy.mem_permitted, ← hwhite, ← hblack]
  simp [check]

theorem reached_map_fst (clock : Clock) (pe : PacketExtractor) (rules : RuleCollection)
    (flags : Flags) (n : Nat) : (reached clock pe rules flags n).map Prod.fst = rules := by
  induction rules generalizing flags n with
  | nil => rfl
  | cons r rest ih => rw [reached, List.map_cons, ih]

/-- When all readings show one instant, pairing rules with readings adds nothing. -/
theorem policyOfReadings_fixed {clock : Clock} {now : Tm} (still : ∀ n, clock.getTime n = now)
    (timed : List (Rule × Nat)) :
    policyOfReadings clock timed = policyAt now (timed.map Prod.fst) := by
  simp only [policyOfReadings, policyAt, ofRules, still, List.mem_map, exists_exists_and_eq_and]

/-- At a fixed instant the loop computes the verdict of the policy. -/
theorem check_iff_policyAt (localtime : TimeT → Tm) (now : TimeT) (rules : RuleCollection)
    (pe : PacketExtractor) (n : Nat) :
    (check (Clock.fixed localtime now) rules pe n).1 = true ↔
      pe.mPData ∈ (policyAt (localtime now) rules).permitted := by
  have still : ∀ k, (Clock.fixed localtime now).getTime k = localtime now := fun _ => rfl
  rw [check_iff_readings, policyOfReadings_fixed still, reached_map_fst]

theorem mem_policyAt_white (now : Tm) (rules : RuleCollection) (packet : Memory) :
    packet ∈ (policyAt now rules).white ↔
      ∃ r ∈ rules, r.type = typeWhiteList ∧ r.Matches now packet := by
  simp only [← effect_eq_white_iff]
  rfl

theorem mem_policyAt_black (now : Tm) (rules : RuleCollection) (packet : Memory) :
    packet ∈ (policyAt now rules).black ↔
      ∃ r ∈ rules, r.type = typeBlackList ∧ r.Matches now packet := by
  simp only [← effect_eq_black_iff]
  rfl

theorem mem_policyAt_permitted (now : Tm) (rules : RuleCollection) (packet : Memory) :
    packet ∈ (policyAt now rules).permitted ↔
      (∃ r ∈ rules, r.type = typeWhiteList ∧ r.Matches now packet) ∨
        ¬ ∃ r ∈ rules, r.type = typeBlackList ∧ r.Matches now packet :=
  or_congr (mem_policyAt_white now rules packet) (not_congr (mem_policyAt_black now rules packet))

/-- The verdict over raw payload bytes. Only bytes inside the payload matter. -/
theorem check_iff_payload (localtime : TimeT → Tm) (now : TimeT) (rules : RuleCollection)
    (packet : Memory) (payload : List UInt8) (hpayload : packet.Holds 0 payload)
    (complete : Rule.Complete (Memory.ofBytes payload) payload.length) :
    (check (Clock.fixed localtime now) rules ⟨packet⟩ 0).1 = true ↔
      (∃ r ∈ rules, r.type = typeWhiteList ∧
        r.Matches (localtime now) (Memory.ofBytes payload)) ∨
      ¬ ∃ r ∈ rules, r.type = typeBlackList ∧
        r.Matches (localtime now) (Memory.ofBytes payload) := by
  have same : ∀ r : Rule, r.Matches (localtime now) (Memory.ofBytes payload) ↔
      r.Matches (localtime now) packet := fun r =>
    Rule.matches_congr complete (fun i hi => (Memory.ofBytes_eq hpayload hi)) (localtime now) r
  simp only [same]
  exact (check_iff_policyAt localtime now rules ⟨packet⟩ 0).trans
    (mem_policyAt_permitted (localtime now) rules packet)

/-- A TCP packet whose ports stand behind four bytes of IP options. -/
def optionsPacket : List UInt8 :=
  [0x46, 0, 0, 44, 0, 0, 0, 0, 64, 6, 0, 0, 10, 0, 0, 1, 10, 0, 0, 2,
    1, 1, 1, 1, 0x30, 0x39, 0x01, 0xbb]

/-- Everything is refused but port 443, whose rule comes last. -/
def onlyHttps : RuleCollection :=
  [⟨0, 0, 0, 0, 0xffffffff, 0, 0, 0⟩, ⟨0, 0, 0, 0, 0xffffffff, 2, 0, 0⟩,
    ⟨0xbb01, 0, 0, 0, 0xffffffff, 1, 6, 0⟩]

theorem check_iff_payload_options :
    (check (Clock.fixed (fun _ => ⟨9, 1⟩) 0) onlyHttps ⟨Memory.ofBytes optionsPacket⟩ 0).1 =
      true ∧
    ((check (Clock.fixed (fun _ => ⟨9, 1⟩) 0) onlyHttps ⟨Memory.ofBytes optionsPacket⟩ 0).1 =
        true ↔
      (∃ r ∈ onlyHttps, r.type = typeWhiteList ∧
        r.Matches ⟨9, 1⟩ (Memory.ofBytes optionsPacket)) ∨
      ¬ ∃ r ∈ onlyHttps, r.type = typeBlackList ∧
        r.Matches ⟨9, 1⟩ (Memory.ofBytes optionsPacket)) := by
  refine ⟨by decide +kernel, ?_⟩
  exact check_iff_payload (fun _ => ⟨9, 1⟩) 0 onlyHttps (Memory.ofBytes optionsPacket)
    optionsPacket (Memory.ofBytes_holds optionsPacket)
    ⟨by decide, fun _ => by decide, fun hicmp => absurd hicmp (by decide)⟩

end RuleVerdict
