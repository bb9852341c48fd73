import ApplicationLayerFirewall.RuleVerdict

/-!
# One verdict, several clock readings

The clock is read anew for every rule whose protocol and addresses match, so
one evaluation may straddle the end of an hour. A verdict reached through a
white rule is always right at the instant of that rule's reading, and so is a
refusal that no white rule stands against. Any other verdict is that of one
instant as long as the readings agree on hour and weekday, and may be right at
no instant when they do not.
-/

namespace ReadingInstants

open ByteOrder PacketReading RuleMatching RuleVerdict AccessPolicy

theorem le_checkStep_snd (clock : Clock) (pe : PacketExtractor) (flags : Flags) (n : Nat)
    (r : Rule) : n ≤ (checkStep clock pe flags n r).2 := by
  have hcheck : n ≤ (r.check clock pe n).2 := by
    rw [Rule.check_snd]
    split_ifs <;> omega
  unfold checkStep
  split_ifs <;> first | exact Nat.le_refl n | exact hcheck

theorem le_checkLoop_snd (clock : Clock) (pe : PacketExtractor) (rules : RuleCollection)
    (flags : Flags) (n : Nat) : n ≤ (checkLoop clock pe rules flags n).2 := by
  induction rules generalizing flags n with
  | nil => exact Nat.le_refl n
  | cons r rest ih =>
    exact Nat.le_trans (le_checkStep_snd clock pe flags n r) (ih _ _)

/-- A rule that did not read the clock gives the same answer at every instant. -/
theorem check_fst_of_reading {clock still : Clock} {r : Rule} {pe : PacketExtractor} {n m : Nat}
    (agree : n < (r.check clock pe n).2 → clock.getTime n = still.getTime m) :
    (r.check still pe m).1 = (r.check clock pe n).1 := by
  rw [Bool.eq_iff_iff, Rule.check_fst, Rule.check_fst]
  by_cases header : r.HeaderMatches pe.mPData
  · rw [agree (by rw [Rule.check_snd, if_pos header]; omega)]
  · exact ⟨fun h => False.elim (header h.header), fun h => False.elim (header h.header)⟩

theorem checkStep_fst_of_reading {clock still : Clock} {r : Rule} {pe : PacketExtractor}
    {flags : Flags} {n m : Nat}
    (agree : n < (checkStep clock pe flags n r).2 → clock.getTime n = still.getTime m) :
    (checkStep still pe flags m r).1 = (checkStep clock pe flags n r).1 := by
  unfold checkStep at agree ⊢
  split_ifs at agree ⊢ <;> first | rfl | simp only [check_fst_of_reading agree]

/-- If every reading taken shows one instant, so does the whole evaluation. -/
theorem checkLoop_fst_of_readings {clock still : Clock} {now : Tm}
    (hstill : ∀ m, still.getTime m = now) (pe : PacketExtractor) (rules : RuleCollection)
    (flags : Flags) (n m : Nat)
    (agree : ∀ k, n ≤ k → k < (checkLoop clock pe rules flags n).2 → clock.getTime k = now) :
    (checkLoop still pe rules flags m).1 = (checkLoop clock pe rules flags n).1 := by
  induction rules generalizing flags n m with
  | nil => rfl
  | cons r rest ih =>
    have hrest := le_checkLoop_snd clock pe rest (checkStep clock pe flags n r).1
      (checkStep clock pe flags n r).2
    have hstep : (checkStep still pe flags m r).1 = (checkStep clock pe flags n r).1 := by
      apply checkStep_fst_of_reading
      intro hread
      rw [hstill]
      exact agree n (Nat.le_refl n) (Nat.lt_of_lt_of_le hread hrest)
    have hlater := le_checkStep_snd clock pe flags n r
    rw [checkLoop, checkLoop, hstep]
    exact ih _ _ _ (fun k hk hlt => agree k (Nat.le_trans hlater hk) hlt)

/-- Only a match changes a flag, and a match takes a reading. -/
theorem checkStep_snd_of_change {clock : Clock} {pe : PacketExtractor} {flags : Flags} {n : Nat}
    {r : Rule} (change : (checkStep clock pe flags n r).1 ≠ flags) :
    (checkStep clock pe flags n r).2 = n + 1 := by
  have taken : (r.check clock pe n).1 = true → (r.check clock pe n).2 = n + 1 := by
    intro hmatch
    have header := ((Rule.check_fst clock r pe n).mp hmatch).header
    rw [Rule.check_snd, if_pos header]
  obtain ⟨black, white, monitor⟩ := flags
  unfold checkStep at change ⊢
  split_ifs at change ⊢ <;> first | exact False.elim (change rfl) | skip
  all_goals
    apply taken
    by_contra hfalse
    simp_all

/-- A flag was set by a rule of its type that matched at one of the readings taken. -/
theorem flag_source {clock : Clock} {pe : PacketExtractor} {flag : Flags → Bool} {type : UInt8}
    (hstep : ∀ flags n r, flag (checkStep clock pe flags n r).1 = true →
      flag flags = true ∨ (r.type = type ∧ r.Matches (clock.getTime n) pe.mPData))
    (rules : RuleCollection) (flags : Flags) (n : Nat)
    (hset : flag (checkLoop clock pe rules flags n).1 = true) :
    flag flags = true ∨ ∃ r ∈ rules, ∃ k, n ≤ k ∧ k < (checkLoop clock pe rules flags n).2 ∧
      r.type = type ∧ r.Matches (clock.getTime k) pe.mPData := by
  induction rules generalizing flags n with
  | nil => exact Or.inl hset
  | cons r rest ih =>
    have hlater := le_checkStep_snd clock pe flags n r
    have hrest := le_checkLoop_snd clock pe rest (checkStep clock pe flags n r).1
      (checkStep clock pe flags n r).2
    rcases ih _ _ hset with hnow | ⟨s, hs, k, hk, hlt, htype, hmatch⟩
    · by_cases hflag : flag flags = true
      · exact Or.inl hflag
      · have hread : (checkStep clock pe flags n r).2 = n + 1 := by
          apply checkStep_snd_of_change
          intro same
          rw [same] at hnow
          exact hflag hnow
        obtain ⟨htype, hmatch⟩ := (hstep flags n r hnow).resolve_left hflag
        refine Or.inr ⟨r, List.mem_cons_self, n, Nat.le_refl n, ?_, htype, hmatch⟩
        change n < (checkLoop clock pe rest _ _).2
        omega
    · exact Or.inr ⟨s, List.mem_cons_of_mem r hs, k, Nat.le_trans hlater hk, hlt, htype, hmatch⟩

theorem white_source (clock : Clock) (rules : RuleCollection) (pe : PacketExtractor)
    (hwhite : (checkLoop clock pe rules noFlags 0).1.white = true) :
    ∃ r ∈ rules, ∃ k < (check clock rules pe 0).2,
      r.type = typeWhiteList ∧ r.Matches (clock.getTime k) pe.mPData := by
  have hstep : ∀ flags n r, (checkStep clock pe flags n r).1.white = true →
      flags.white = true ∨
        (r.type = typeWhiteList ∧ r.Matches (clock.getTime n) pe.mPData) := by
    intro flags n r h
    rw [← effect_eq_white_iff]
    exact (checkStep_white clock pe flags n r).mp h
  rcases flag_source hstep rules noFlags 0 hwhite with h | ⟨r, hr, k, _, hk, hmatch⟩
  · cases h
  · exact ⟨r, hr, k, hk, hmatch⟩

theorem black_source (clock : Clock) (rules : RuleCollection) (pe : PacketExtractor)
    (hblack : (checkLoop clock pe rules noFlags 0).1.black = true) :
    ∃ r ∈ rules, ∃ k < (check clock rules pe 0).2,
      r.type = typeBlackList ∧ r.Matches (clock.getTime k) pe.mPData := by
  have hstep : ∀ flags n r, (checkStep clock pe flags n r).1.black = true →
      flags.black = true ∨
        (r.type = typeBlackList ∧ r.Matches (clock.getTime n) pe.mPData) := by
    intro flags n r h
    rw [← effect_eq_black_iff]
    exact (checkStep_black clock pe flags n r).mp h
  rcases flag_source hstep rules noFlags 0 hblack with h | ⟨r, hr, k, _, hk, hmatch⟩
  · cases h
  · exact ⟨r, hr, k, hk, hmatch⟩

/-- The verdict, had the clock stood still at `t`. -/
def checkAt (clock : Clock) (rules : RuleCollection) (pe : PacketExtractor) (t : TimeT) : Bool :=
  (check (Clock.fixed clock.localtime t) rules pe 0).1

theorem checkAt_of_white {clock : Clock} {rules : RuleCollection} {pe : PacketExtractor}
    (hwhite : (checkLoop clock pe rules noFlags 0).1.white = true) :
    ∃ k < (check clock rules pe 0).2,
      checkAt clock rules pe (clock.time k) = (check clock rules pe 0).1 := by
  obtain ⟨r, hr, k, hk, htype, hmatch⟩ := white_source clock rules pe hwhite
  have haccept : (check clock rules pe 0).1 = true := by simp [check, hwhite]
  refine ⟨k, hk, ?_⟩
  rw [haccept, checkAt, check_iff_policyAt, mem_policyAt_permitted]
  exact Or.inl ⟨r, hr, htype, hmatch⟩

/-- Without a white rule in the way, a refusal is right when its black rule matched. -/
theorem checkAt_of_refusal {clock : Clock} {rules : RuleCollection} {pe : PacketExtractor}
    (hrefused : (check clock rules pe 0).1 = false)
    (hwhite : ∀ r ∈ rules, r.type = typeWhiteList → ∀ k < (check clock rules pe 0).2,
      ¬ r.Matches (clock.getTime k) pe.mPData) :
    ∃ k < (check clock rules pe 0).2,
      checkAt clock rules pe (clock.time k) = (check clock rules pe 0).1 := by
  have hblack : (checkLoop clock pe rules noFlags 0).1.black = true := by
    have hflags : (checkLoop clock pe rules noFlags 0).1.white = false ∧
        (checkLoop clock pe rules noFlags 0).1.black = true := by
      simpa [check] using hrefused
    exact hflags.2
  obtain ⟨r, hr, k, hk, htype, hmatch⟩ := black_source clock rules pe hblack
  refine ⟨k, hk, ?_⟩
  rw [hrefused, Bool.eq_false_iff, checkAt, ne_eq, check_iff_policyAt, mem_policyAt_permitted]
  rintro (⟨s, hs, hstype, hsmatch⟩ | hnone)
  · exact hwhite s hs hstype k hk hsmatch
  · exact hnone ⟨r, hr, htype, hmatch⟩

/-- What remains of a single instant. The verdict is that of the rules at their
own readings. It is the verdict at one of the readings when a white rule matched,
or when it is a refusal and no white rule matches at any reading; and it is the
verdict at every instant that shows the hour and weekday all readings show. -/
theorem verdict_of_readings (clock : Clock) (rules : RuleCollection) (pe : PacketExtractor) :
    ((check clock rules pe 0).1 = true ↔
      (∃ timed ∈ reached clock pe rules noFlags 0, timed.1.type = typeWhiteList ∧
        timed.1.Matches (clock.getTime timed.2) pe.mPData) ∨
      ¬ ∃ timed ∈ reached clock pe rules noFlags 0, timed.1.type = typeBlackList ∧
        timed.1.Matches (clock.getTime timed.2) pe.mPData) ∧
    ((∃ timed ∈ reached clock pe rules noFlags 0, timed.1.type = typeWhiteList ∧
        timed.1.Matches (clock.getTime timed.2) pe.mPData) ∨
      ((check clock rules pe 0).1 = false ∧
        ∀ r ∈ rules, r.type = typeWhiteList → ∀ k < (check clock rules pe 0).2,
          ¬ r.Matches (clock.getTime k) pe.mPData) →
      ∃ k < (check clock rules pe 0).2,
        checkAt clock rules pe (clock.time k) = (check clock rules pe 0).1) ∧
    (∀ t : TimeT, (∀ k < (check clock rules pe 0).2, clock.getTime k = clock.localtime t) →
      checkAt clock rules pe t = (check clock rules pe 0).1) := by
  refine ⟨?_, ?_, ?_⟩
  · simp only [← effect_eq_white_iff, ← effect_eq_black_iff]
    exact check_iff_readings clock rules pe 0
  · rintro (hmatched | ⟨hrefused, hwhite⟩)
    · apply checkAt_of_white
      refine (checkLoop_white clock pe rules noFlags 0).mpr (Or.inr ?_)
      simp only [← effect_eq_white_iff] at hmatched
      exact hmatched
    · exact checkAt_of_refusal hrefused hwhite
  · intro t hsame
    have still : ∀ k, (Clock.fixed clock.localtime t).getTime k = clock.localtime t :=
      fun _ => rfl
    have hflags := checkLoop_fst_of_readings still pe rules noFlags 0 0 (fun k _ hk => hsame k hk)
    simp only [checkAt, check, hflags]

/-! ### A verdict of no instant -/

/-- Local time without zone or leap seconds; the epoch was a Thursday. -/
def utc (t : TimeT) : Tm :=
  ⟨Fin.ofNat 24 (t.toNat / 3600), Fin.ofNat 7 (t.toNat / 86400 + 4)⟩

/-- A UDP packet from 10.0.0.1 to 10.0.0.2 without IP options, port 53 on both sides. -/
def dnsPacket : List UInt8 :=
  [0x45, 0, 0, 28, 0, 0, 0, 0, 64, 17, 0, 0, 10, 0, 0, 1, 10, 0, 0, 2,
    0, 53, 0, 53, 0, 8, 0, 0]

/-- A rule that constrains nothing but the hour: one o'clock. -/
def atOneOClock (type : UInt8) : Rule :=
  ⟨0, 0, 0, 0, 2, type, 0, 0⟩

/-- The second reading falls into the next hour. -/
def hourTurn : Clock := ⟨fun n => 3599 + n, utc⟩

/-- The white rule is tested before the hour turns and the black one after it,
so the packet is refused although it is accepted at either instant. -/
theorem verdict_of_no_instant :
    (∀ a b, a ≤ b → hourTurn.time a ≤ hourTurn.time b) ∧
    check hourTurn [atOneOClock 1, atOneOClock 0] ⟨Memory.ofBytes dnsPacket⟩ 0 = (false, 2) ∧
    ¬ ∃ t, hourTurn.time 0 ≤ t ∧ t ≤ hourTurn.time 1 ∧
      checkAt hourTurn [atOneOClock 1, atOneOClock 0] ⟨Memory.ofBytes dnsPacket⟩ t = false := by
  refine ⟨?_, by decide, ?_⟩
  · intro a b hab
    change (3599 : Int) + a ≤ 3599 + b
    omega
  · rintro ⟨(t : Int), hlo, hhi, hrefused⟩
    change (3599 : Int) ≤ t at hlo
    change t ≤ 3600 at hhi
    have hcases : t = 3599 ∨ t = 3600 := by omega
    rcases hcases with rfl | rfl
    · exact absurd hrefused (by decide)
    · exact absurd hrefused (by decide)

end ReadingInstants
