import ApplicationLayerFirewall.ConnectionLoop
import ApplicationLayerFirewall.ExportReload
import ApplicationLayerFirewall.JsonRoundTrip

/-!
# Requests and answers as texts

The handler with the JSON library it is linked with. A request object may be
written in any layout, and what follows it in the buffer is dropped with the
requests it may contain. A request that is cut off is not obeyed. Every answer
is a standard document, and exported rules can be sent to another server as
they are.
-/

namespace JsonRequests

open ByteOrder ConnectionLoop ExportReload JsonDocuments JsonOverflows JsonParser JsonPrinter
open JsonRoundTrip JsonTexts PacketReading PicoJson RequestHandler RuleJson RuleMatching RuleVerdict

/-- The server with picojson. -/
def serverEnv (undef : Undefined) (warning : List Char) : Env := ⟨picoText, undef, warning⟩

variable {undef : Undefined} {warning : List Char}

/-! ### Bytes of a document -/

theorem ne_nul_of_hexValue {c : Char} {n : Nat} (h : hexValue c = some n) : c ≠ '\x00' := by
  rintro rfl
  have hnone : hexValue '\x00' = none := by decide
  cases hnone.symm.trans h

theorem ne_nul_of_isDigit {c : Char} (h : IsDigit c) : c ≠ '\x00' := by
  rintro rfl
  exact absurd h (by decide)

theorem ne_nul_of_blank {w : List Char} (hw : Blank w) : '\x00' ∉ w :=
  fun hc => absurd (hw _ hc) (by decide)

theorem nul_not_mem_digits {t : List Char} (h : Digits t) : '\x00' ∉ t :=
  fun hc => ne_nul_of_isDigit (h _ hc) rfl

theorem nul_not_mem_codeUnit {t : List Char} {n : Nat} (h : CodeUnit t n) : '\x00' ∉ t := by
  obtain ⟨ha, hb, hc, hd⟩ := h
  simp [(ne_nul_of_hexValue ha).symm, (ne_nul_of_hexValue hb).symm,
    (ne_nul_of_hexValue hc).symm, (ne_nul_of_hexValue hd).symm]

theorem nul_not_mem_codepoint {t : List Char} {c : Char} (h : Codepoint t c) : '\x00' ∉ t := by
  cases h with
  | basic hunit => exact nul_not_mem_codeUnit hunit
  | pair hhigh _ hlow _ => simp [nul_not_mem_codeUnit hhigh, nul_not_mem_codeUnit hlow]

theorem nul_not_mem_stringBody {t s : List Char} (h : StringBody t s) : '\x00' ∉ t := by
  induction h with
  | close => simp
  | @plain c t s hcontrol _ _ _ ih =>
      have hc : '\x00' ≠ c := by
        rintro rfl
        exact absurd hcontrol (by decide)
      simp [hc, ih]
  | @escape e c t s he _ ih =>
      have hletters : ∀ p ∈ escapes, '\x00' ≠ p.1 := by decide
      simp [hletters _ he, ih]
  | unicode hu _ ih => simp [nul_not_mem_codepoint hu, ih]

theorem nul_not_mem_exponent {e : Option (Char × Option Char × List Char)}
    (h : Numeral.ExponentOk e) : '\x00' ∉ Numeral.exponentText e := by
  cases e with
  | none => simp [Numeral.exponentText]
  | some e =>
      obtain ⟨letter, sign, digits⟩ := e
      obtain ⟨hletter, hsign, hdigits, -⟩ := h
      have hfirst : '\x00' ≠ letter := by
        rcases hletter with rfl | rfl <;> decide
      have hsecond : '\x00' ∉ sign.toList := by
        rcases hsign with rfl | rfl | rfl <;> decide
      simp only [Numeral.exponentText, List.mem_cons, List.mem_append, not_or]
      exact ⟨hfirst, hsecond, nul_not_mem_digits hdigits⟩

theorem nul_not_mem_numeral {n : Numeral} (h : n.Standard) : '\x00' ∉ n.text := by
  have hsign : '\x00' ∉ (if n.negative then ['-'] else []) := by
    split_ifs <;> decide
  have hfraction : '\x00' ∉ Numeral.fractionText n.fraction := by
    cases hf : n.fraction with
    | none => simp [Numeral.fractionText]
    | some digits =>
        have hdigits := nul_not_mem_digits (h.fraction digits hf).1
        simpa [Numeral.fractionText] using hdigits
  simp only [Numeral.text, List.mem_append, not_or]
  exact ⟨⟨⟨hsign, nul_not_mem_digits h.whole⟩, hfraction⟩, nul_not_mem_exponent h.exponent⟩

mutual

/-- A document holds no NUL, so C functions see all of it. -/
theorem nul_not_mem_spells : ∀ {t : List Char} {v : Value}, StandardSpells t v → '\x00' ∉ t
  | _, _, .null => by decide
  | _, _, .true => by decide
  | _, _, .false => by decide
  | _, _, .number ⟨_, hn, htext, _⟩ => htext ▸ nul_not_mem_numeral hn
  | _, _, .string hs => by simp [nul_not_mem_stringBody hs]
  | _, _, .emptyArray hw => by simp [ne_nul_of_blank hw]
  | _, _, .array hi => by simp [nul_not_mem_items hi]
  | _, _, .emptyObject hw => by simp [ne_nul_of_blank hw]
  | _, _, .object hm => by simp [nul_not_mem_members hm]

theorem nul_not_mem_items : ∀ {t : List Char} {vs : List Value},
    Items (Spelling Numeral.Standard) t vs → '\x00' ∉ t
  | _, _, .last hw hv hw' => by
      simp [ne_nul_of_blank hw, nul_not_mem_spells hv, ne_nul_of_blank hw']
  | _, _, .more hw hv hw' hvs => by
      simp [ne_nul_of_blank hw, nul_not_mem_spells hv, ne_nul_of_blank hw', nul_not_mem_items hvs]

theorem nul_not_mem_member : ∀ {t : List Char} {m : String × Value},
    Member (Spelling Numeral.Standard) t m → '\x00' ∉ t
  | _, _, .member hw hk hw' hw'' hv => by
      simp [ne_nul_of_blank hw, nul_not_mem_stringBody hk, ne_nul_of_blank hw',
        ne_nul_of_blank hw'', nul_not_mem_spells hv]

theorem nul_not_mem_members : ∀ {t : List Char} {ms : List (String × Value)},
    Members (Spelling Numeral.Standard) t ms → '\x00' ∉ t
  | _, _, .last hm hw => by simp [nul_not_mem_member hm, ne_nul_of_blank hw]
  | _, _, .more hm hw hms => by
      simp [nul_not_mem_member hm, ne_nul_of_blank hw, nul_not_mem_members hms]

end

theorem cString_append {t : List Char} (h : '\x00' ∉ t) (more : List Char) :
    cString (t ++ more) = t ++ cString more := by
  refine List.takeWhile_append_of_pos fun c hc => decide_eq_true ?_
  rintro rfl
  exact h hc

/-! ### Documents that are printed -/

/-- A text without indentation spells the value that will be held. -/
theorem spells_held {v : Value} (h : OfDoubles v) :
    StandardSpells (serialize false v).toList (held v) := by
  obtain ⟨t, ht, hspells⟩ := printed_held h none
  have hnone : ending none = [] := rfl
  rw [hnone, List.append_nil] at ht
  rw [serialize, String.toList_ofList]
  exact ht ▸ hspells

theorem spells_serialize {v : Value} (h : WellFormed v) :
    StandardSpells (serialize false v).toList v := by
  have hspells := spells_held (ofDoubles_of_wellFormed h)
  rwa [held_of_wellFormed h] at hspells

theorem wellFormed_natCast {n : Nat} (h : n < 2 ^ 53) : WellFormed (.number (n : ℚ)) := by
  have habs : |(n : ℤ)| < 2 ^ BinaryRounding.binary64.precision := by
    rw [Nat.abs_cast]
    exact_mod_cast h
  have hrepr := BinaryRounding.Format.representable_intCast BinaryRounding.binary64 habs
    (by decide) (by decide)
  exact .number (by exact_mod_cast hrepr)

/-- A small natural number is printed with its digits. -/
theorem toStr_natCast {n : Nat} (h : n < 2 ^ 53) :
    toStr (.number (n : ℚ)) = Nat.toDigits 10 n := by
  have hwhole : |(n : ℚ)| < 2 ^ 53 ∧ (n : ℚ).den = 1 := by
    rw [Nat.abs_cast]
    exact ⟨by exact_mod_cast h, Rat.den_natCast n⟩
  have hsign : ¬ (n : ℤ) < 0 := by omega
  rw [toStr, numeralOf, if_pos hwhole]
  simp [formatF, Numeral.text, Numeral.fractionText, Numeral.exponentText, hsign]

/-- An object that is written out with its members in any order. -/
theorem spells_fields (f : String × Value) (fs : Fields) (h : ∀ f' ∈ f :: fs, WellFormed f'.2) :
    Members (Spelling Numeral.Standard) (serializeFields none true (f :: fs) ++ ['\x7d'])
      (f :: fs) := by
  have hmembers := members_serializeFields id none blank_nil f fs fun f' hf' =>
    printed_of_wellFormed (h f' hf')
  have hsame : (f :: fs).map (fun f => (f.1, id f.2)) = f :: fs := List.map_id' _
  rwa [hsame] at hmembers

/-! ### Whole requests -/

/-- A request object as the standard writes it, blanks before it included. -/
def RequestText (request : List Char) (o : Fields) : Prop :=
  ∃ w t, request = w ++ t ∧ Blank w ∧ StandardSpells t (.object o)

theorem parseText_request {request : List Char} {o : Fields} (h : RequestText request o) :
    parseText (String.ofList request) = .value (.object o) := by
  obtain ⟨w, t, rfl, hw, ht⟩ := h
  have hall := parseText_standard hw ht blank_nil
  rwa [List.append_nil] at hall

/-- Only the object counts, whatever follows it in the buffer. -/
theorem handle_request {request : List Char} {o : Fields} (h : RequestText request o)
    (more : List Char) (st : Server) :
    handle (serverEnv undef warning) st (request ++ more) =
      handleValue (serverEnv undef warning) st (.object o) := by
  have hparse := parseText_request h
  obtain ⟨w, t, rfl, hw, ht⟩ := h
  have hnul : '\x00' ∉ w ++ t := by simp [ne_nul_of_blank hw, nul_not_mem_spells ht]
  have hmore := parseText_append hparse rfl (String.ofList (cString more))
  have htext : picoText.parse (String.ofList (cString (w ++ t ++ more))) = .value (.object o) := by
    rw [cString_append hnul, String.ofList_append]
    exact hmore
  simp only [handle, serverEnv, htext]

theorem handle_alone {request : List Char} {o : Fields} (h : RequestText request o)
    (st : Server) :
    handle (serverEnv undef warning) st request =
      handleValue (serverEnv undef warning) st (.object o) := by
  have hall := @handle_request undef warning _ _ h [] st
  rwa [List.append_nil] at hall

theorem handleValue_congr {env : Env} {o o' : Fields}
    (h : ∀ key ∈ ["opt", "data", "enabled"], o.lookup key = o'.lookup key) (st : Server) :
    handleValue env st (.object o) = handleValue env st (.object o') := by
  have hopt : o.lookup "opt" = o'.lookup "opt" := h _ (by simp)
  have hdata : dataOf o = dataOf o' := by
    simp only [dataOf, h "data" (by simp)]
  have henabled : enabledOf o = enabledOf o' := by
    simp only [enabledOf, h "enabled" (by simp)]
  have hupdated : updated env st.manager o = updated env st.manager o' := by
    simp only [updated, withEnabled, hdata, henabled]
  simp only [handleValue, getInteger32_object, hopt, updateRules_object, hupdated]

/-- The members of an object in the order of the text, repeated names included. -/
def ObjectText (request : List Char) (ms : Fields) : Prop :=
  ∃ w t, request = w ++ '\x7b' :: t ∧ Blank w ∧ Members (Spelling Numeral.Standard) t ms

theorem ObjectText.request {request : List Char} {ms : Fields} (h : ObjectText request ms) :
    RequestText request (SortedMaps.ofAssignments ms) := by
  obtain ⟨w, t, rfl, hw, ht⟩ := h
  exact ⟨w, _, rfl, hw, Spells.object ht⟩

/-- Two requests whose last members under the three names agree are the same request,
in any layout and order, with other members and with anything behind them. -/
theorem handle_layout {request request' : List Char} {ms ms' : Fields}
    (h : ObjectText request ms) (h' : ObjectText request' ms')
    (hlast : ∀ key ∈ ["opt", "data", "enabled"], ms.reverse.lookup key = ms'.reverse.lookup key)
    (more more' : List Char) (st : Server) :
    handle (serverEnv undef warning) st (request ++ more) =
      handle (serverEnv undef warning) st (request' ++ more') := by
  rw [handle_request h.request more st, handle_request h'.request more' st]
  refine handleValue_congr (fun key hkey => ?_) st
  rw [SortedMaps.lookup_ofAssignments, SortedMaps.lookup_ofAssignments]
  exact hlast key hkey

def statusMember : String × Value := ("opt", .number (4 : ℕ))

def repeatedQuery : String := "\x7b\"opt\":1,\"opt\":4\x7d"

theorem objectText_statusQuery : ObjectText statusQuery.toList [statusMember] := by
  have hfields : ∀ f ∈ [statusMember], WellFormed f.2 := by
    simpa [statusMember] using wellFormed_natCast (n := 4) (by norm_num)
  have htext : statusQuery.toList =
      '\x7b' :: (serializeFields none true [statusMember] ++ ['\x7d']) := by
    simp only [statusMember, serializeFields, serializeAt, toStr_natCast (n := 4) (by norm_num)]
    rfl
  exact ⟨[], _, htext, blank_nil, spells_fields _ _ hfields⟩

theorem objectText_repeatedQuery :
    ObjectText repeatedQuery.toList [("opt", .number (1 : ℕ)), statusMember] := by
  have hfields : ∀ f ∈ [("opt", .number (1 : ℕ)), statusMember], WellFormed f.2 := by
    simpa [statusMember] using
      ⟨wellFormed_natCast (n := 1) (by norm_num), wellFormed_natCast (n := 4) (by norm_num)⟩
  have htext : repeatedQuery.toList = '\x7b' ::
      (serializeFields none true [("opt", .number (1 : ℕ)), statusMember] ++ ['\x7d']) := by
    simp only [statusMember, serializeFields, serializeAt, toStr_natCast (n := 4) (by norm_num),
      toStr_natCast (n := 1) (by norm_num)]
    rfl
  exact ⟨[], _, htext, blank_nil, spells_fields _ _ hfields⟩

theorem repeatedQuery_layout :
    handle (serverEnv zeros []) switchedOn (repeatedQuery.toList ++ ['x']) =
      handle (serverEnv zeros []) switchedOn (statusQuery.toList ++ []) := by
  have hlast : ∀ key ∈ ["opt", "data", "enabled"],
      List.lookup key [("opt", .number (1 : ℕ)), statusMember].reverse =
        List.lookup key [statusMember].reverse := by
    simp [statusMember, List.lookup_cons]
  exact handle_layout objectText_repeatedQuery objectText_statusQuery hlast ['x'] [] switchedOn

/-! ### Parts of requests -/

/-- The handler obeys no request that is cut off, and reports it unless a numeral in the
part that arrived is beyond the doubles, which ends the process. -/
theorem handle_cut {request : List Char} {o : Fields} (h : RequestText request o)
    {cut lost : List Char} (hcut : request = cut ++ lost) (hlost : lost ≠ []) (st : Server) :
    (¬ TextOverflows cut ∧
      handle (serverEnv undef warning) st cut = (.ok badBody, st.logText warning)) ∨
    (TextOverflows cut ∧
      handle (serverEnv undef warning) st cut = (.error .overflowError, st)) := by
  obtain ⟨w, t, rfl, hw, ht⟩ := h
  have hnul : '\x00' ∉ cut := by
    have hall : '\x00' ∉ w ++ t := by simp [ne_nul_of_blank hw, nul_not_mem_spells ht]
    exact fun hc => hall (hcut ▸ List.mem_append_left lost hc)
  have hno := parseText_truncated hw (pico_of_standard ht) rfl hcut hlost
  have hseen : cString cut = cut := cString_eq_self hnul
  by_cases hover : TextOverflows cut
  · have hthrown : parseText (String.ofList cut) = .thrown .overflowError :=
      (parseText_thrown_iff _ _).mpr ⟨rfl, by rwa [String.toList_ofList]⟩
    have htext : picoText.parse (String.ofList (cString cut)) = _ := hseen ▸ hthrown
    exact Or.inr ⟨hover, by simp only [handle, serverEnv, htext]⟩
  · obtain ⟨err, herr⟩ := JsonErrors.syntaxError_of_no_value hno (by rwa [String.toList_ofList])
    have htext : picoText.parse (String.ofList (cString cut)) = _ := hseen ▸ herr
    exact Or.inl ⟨hover, by simp only [handle, serverEnv, htext]⟩

/-- What arrives of this query has no numeral yet. -/
theorem statusQuery_cut :
    handle (serverEnv zeros []) switchedOn "\x7b\"opt\"".toList =
      (.ok badBody, switchedOn.logText []) := by
  have hcut : statusQuery.toList = "\x7b\"opt\"".toList ++ ":4\x7d".toList := by decide
  have hdigits : ∀ c ∈ "\x7b\"opt\"".toList, ¬ IsDigit c :=
    List.forall_iff_forall_mem.mp (by decide)
  have hno : ¬ TextOverflows "\x7b\"opt\"".toList := not_textOverflows_of_no_digit hdigits
  rcases @handle_cut zeros [] _ _ objectText_statusQuery.request _ _ hcut (by decide)
    switchedOn with ⟨-, hanswer⟩ | ⟨hover, -⟩
  · exact hanswer
  · exact absurd hover hno

/-- Requests that arrive together: the first of them, and the others behind it. -/
def together (group : List Char × List (List Char)) : List Char := group.1 ++ group.2.flatten

/-- Of the requests that arrive together only the first is served. -/
theorem rawLoop_together {groups : List (List Char × List (List Char))}
    (hfirst : ∀ group ∈ groups, ∃ o, RequestText group.1 o)
    (hroom : ∀ group ∈ groups, (together group).length ≠ buffSize) (st : Server) :
    (rawLoop (serverEnv undef warning) st (groups.map together)).responses =
        (oneByOne (serverEnv undef warning) st (groups.map Prod.fst)).1 ∧
      (rawLoop (serverEnv undef warning) st (groups.map together)).ending =
        (oneByOne (serverEnv undef warning) st (groups.map Prod.fst)).2 := by
  induction groups generalizing st with
  | nil => exact ⟨rfl, rfl⟩
  | cons group groups ih =>
      obtain ⟨⟨o, ho⟩, hfirsts⟩ := List.forall_mem_cons.mp hfirst
      obtain ⟨hlength, hrooms⟩ := List.forall_mem_cons.mp hroom
      have hsame : handle (serverEnv undef warning) st (together group) =
          handle (serverEnv undef warning) st group.1 :=
        (handle_request ho group.2.flatten st).trans (handle_alone ho st).symm
      simp only [List.map_cons, rawLoop, if_neg hlength, oneByOne, hsame]
      rcases handle (serverEnv undef warning) st group.1 with ⟨_ | rsp, next⟩
      · exact ⟨rfl, rfl⟩
      · obtain ⟨hresponses, hending⟩ := ih hfirsts hrooms next
        exact ⟨congrArg (sent rsp) hresponses, hending⟩

theorem statusQueries_together :
    (rawLoop (serverEnv zeros []) switchedOn
        ([(statusQuery.toList, [switchOff.toList])].map together)).responses =
        (oneByOne (serverEnv zeros []) switchedOn
          ([(statusQuery.toList, [switchOff.toList])].map Prod.fst)).1 ∧
      (rawLoop (serverEnv zeros []) switchedOn
        ([(statusQuery.toList, [switchOff.toList])].map together)).ending =
        (oneByOne (serverEnv zeros []) switchedOn
          ([(statusQuery.toList, [switchOff.toList])].map Prod.fst)).2 := by
  have hfirst : ∀ group ∈ [(statusQuery.toList, [switchOff.toList])],
      ∃ o, RequestText group.1 o := by
    simpa using ⟨_, objectText_statusQuery.request⟩
  have hroom : ∀ group ∈ [(statusQuery.toList, [switchOff.toList])],
      (together group).length ≠ buffSize := by
    simp [together, statusQuery, switchOff, buffSize]
  exact rawLoop_together hfirst hroom switchedOn

/-! ### Answers -/

theorem wellFormed_toJson (r : Rule) : WellFormed (Rule.toJson r) := by
  have hport : ∀ port : UInt16, WellFormed (.number (port.toNat : ℚ)) := fun port =>
    wellFormed_natCast (lt_trans port.toNat_lt (by norm_num))
  rw [toJson_eq]
  refine .object ?_ ?_
  · simp only [SortedMaps.Sorted, exportedFields, List.map_cons, List.map_nil]
    decide
  · simp only [exportedFields, List.forall_mem_cons, List.not_mem_nil, false_imp_iff,
      implies_true, and_true]
    exact ⟨.string _, .string _, hport _, .string _, hport _,
      wellFormed_natCast (lt_trans r.timePass.toNat_lt (by norm_num)),
      wellFormed_natCast (lt_trans r.type.toNat_lt (by norm_num))⟩

theorem wellFormed_rules (rules : RuleCollection) : WellFormed (RuleCollection.toJson rules) := by
  refine .array fun v hv => ?_
  obtain ⟨r, -, rfl⟩ := List.mem_map.mp hv
  exact wellFormed_toJson r

/-- The text is a standard document without blanks around it. -/
def Answer (rsp : String) : Prop := ∃ v, StandardSpells rsp.toList v

theorem answer_serialize {v : Value} (h : WellFormed v) : Answer (serialize false v) :=
  ⟨v, spells_serialize h⟩

/-- An answer that is a literal of the source, written out from its members. -/
theorem answer_members {rsp : String} (f : String × Value) (fs : Fields)
    (h : ∀ f' ∈ f :: fs, WellFormed f'.2)
    (htext : rsp.toList = '\x7b' :: (serializeFields none true (f :: fs) ++ ['\x7d'])) :
    Answer rsp :=
  ⟨_, htext ▸ Spells.object (spells_fields f fs h)⟩

theorem answer_badBody : Answer badBody := by
  have htext : badBody.toList = '\x7b' :: (serializeFields none true
      [("error_code", .number (2 : ℕ)), ("error_msg", .string "bad body")] ++ ['\x7d']) := by
    simp only [serializeFields, serializeAt, toStr_natCast (n := 2) (by norm_num)]
    rfl
  refine answer_members _ _ ?_ htext
  simpa using ⟨wellFormed_natCast (n := 2) (by norm_num), .string _⟩

theorem answer_unknownOpt : Answer unknownOpt := by
  have htext : unknownOpt.toList = '\x7b' :: (serializeFields none true
      [("error_code", .number (3 : ℕ)), ("error_msg", .string "unknown opt")] ++ ['\x7d']) := by
    simp only [serializeFields, serializeAt, toStr_natCast (n := 3) (by norm_num)]
    rfl
  refine answer_members _ _ ?_ htext
  simpa using ⟨wellFormed_natCast (n := 3) (by norm_num), .string _⟩

theorem answer_success : Answer success := by
  have htext : success.toList = '\x7b' ::
      (serializeFields none true [("error_code", .number (0 : ℕ))] ++ ['\x7d']) := by
    simp only [serializeFields, serializeAt, toStr_natCast (n := 0) (by norm_num)]
    rfl
  refine answer_members _ _ ?_ htext
  simpa using wellFormed_natCast (n := 0) (by norm_num)

/-- The members of both answers about the status. -/
def statusFields (enabled : Bool) : Fields :=
  [("error_code", .number (0 : ℕ)), ("enabled", .number (if enabled then 1 else 0 : ℕ))]

theorem status_spells (enabled : Bool) :
    StandardSpells (if enabled then statusEnabled else statusDisabled).toList
      (.object (SortedMaps.ofAssignments (statusFields enabled))) := by
  have hzero := toStr_natCast (n := 0) (by norm_num)
  have hone := toStr_natCast (n := 1) (by norm_num)
  have hdigit : (if enabled then 1 else 0 : ℕ) < 2 ^ 53 := by
    cases enabled <;> norm_num
  have htext : (if enabled then statusEnabled else statusDisabled).toList =
      '\x7b' :: (serializeFields none true (statusFields enabled) ++ ['\x7d']) := by
    cases enabled with
    | true =>
        simp only [statusFields, if_true, serializeFields, serializeAt, hzero, hone]
        rfl
    | false =>
        simp only [statusFields, Bool.false_eq_true, if_false, serializeFields, serializeAt, hzero]
        rfl
  rw [htext]
  refine Spells.object (spells_fields _ _ ?_)
  simp only [List.forall_mem_cons]
  exact ⟨wellFormed_natCast (by norm_num), wellFormed_natCast hdigit,
    fun f hf => absurd hf List.not_mem_nil⟩

theorem updateRules_answer {o : Fields} {st st' : Server} {rsp : String}
    (h : updateRules (serverEnv undef warning) st (.object o) = (.ok rsp, st')) :
    rsp = success := by
  rw [updateRules_object] at h
  cases hupdated : updated (serverEnv undef warning) st.manager o with
  | none =>
      rw [hupdated] at h
      cases h
  | some m =>
      rw [hupdated] at h
      cases h
      rfl

theorem handleValue_answer {o : Fields} {st st' : Server} {rsp : String}
    (h : handleValue (serverEnv undef warning) st (.object o) = (.ok rsp, st')) :
    Answer rsp := by
  have hopt : getInteger32 (serverEnv undef warning).undef (.object o) "opt" (-1) =
      .ok (optOf (serverEnv undef warning) o) := getInteger32_object undef o "opt" (-1)
  rw [handleValue, hopt] at h
  simp only at h
  by_cases hrules : optOf (serverEnv undef warning) o = optQueryRules
  · simp only [if_pos hrules, Prod.mk.injEq] at h
    cases h.1
    exact answer_serialize (wellFormed_rules _)
  simp only [if_neg hrules] at h
  by_cases hstatus : optOf (serverEnv undef warning) o = optQueryStatus
  · simp only [if_pos hstatus, Prod.mk.injEq, Except.ok.injEq] at h
    exact h.1 ▸ ⟨_, status_spells st.manager.isEnabled⟩
  simp only [if_neg hstatus] at h
  by_cases hupdate : optOf (serverEnv undef warning) o = optUpdateRules
  · simp only [if_pos hupdate] at h
    exact (updateRules_answer h).symm ▸ answer_success
  simp only [if_neg hupdate] at h
  split_ifs at h
  · simp only [Prod.mk.injEq, Except.ok.injEq] at h
    exact h.1 ▸ answer_serialize (.string _)
  · simp only [Prod.mk.injEq, Except.ok.injEq] at h
    exact h.1 ▸ answer_serialize (.string _)
  · simp only [Prod.mk.injEq, Except.ok.injEq] at h
    exact h.1 ▸ answer_unknownOpt

theorem handle_answer {st st' : Server} {buff : List Char} {rsp : String}
    (h : handle (serverEnv undef warning) st buff = (.ok rsp, st')) : Answer rsp := by
  rw [handle] at h
  cases hparse : (serverEnv undef warning).text.parse (String.ofList (cString buff)) with
  | thrown e =>
      rw [hparse] at h
      cases h
  | syntaxError err =>
      rw [hparse] at h
      cases h
      exact answer_badBody
  | value v =>
      rw [hparse] at h
      cases v with
      | object o => exact handleValue_answer h
      | _ => cases h

theorem Answer.ne_empty {rsp : String} (h : Answer rsp) : rsp ≠ "" := by
  obtain ⟨v, hspells⟩ := h
  rintro rfl
  obtain ⟨c, u, hnil, -⟩ := JsonAcceptance.spells_head (pico_of_standard hspells)
  cases hnil

/-- The body that ended the process has no response. -/
def unanswered : Ending → Nat
  | .closed _ => 0
  | .terminated => 1
  | .undefined => 1

/-- On a raw connection every body but one that ends the process is answered with one
standard document. -/
theorem rawLoop_answered (st : Server) (results : List (List Char)) :
    (∀ rsp ∈ (rawLoop (serverEnv undef warning) st results).responses,
        ∃ v, StandardSpells rsp.toList v ∧ parseText rsp = .value v) ∧
      (rawLoop (serverEnv undef warning) st results).responses.length +
          unanswered (rawLoop (serverEnv undef warning) st results).ending =
        (rawLoop (serverEnv undef warning) st results).invoked.length := by
  induction results generalizing st with
  | nil => exact ⟨fun rsp hrsp => absurd hrsp List.not_mem_nil, rfl⟩
  | cons buff results ih =>
      rw [rawLoop]
      by_cases hfull : buff.length = buffSize
      · rw [if_pos hfull]
        exact ⟨fun rsp hrsp => absurd hrsp List.not_mem_nil, rfl⟩
      · rw [if_neg hfull]
        rcases hhandle : handle (serverEnv undef warning) st buff with ⟨_ | rsp, next⟩
        · exact ⟨fun rsp hrsp => absurd hrsp List.not_mem_nil, rfl⟩
        · obtain ⟨hstandard, hcount⟩ := ih next
          have hanswer := handle_answer hhandle
          simp only [Served.after, sent, if_neg hanswer.ne_empty, List.forall_mem_cons,
            List.length_cons]
          refine ⟨⟨?_, hstandard⟩, by omega⟩
          obtain ⟨v, hspells⟩ := hanswer
          have hparse := parseText_standard blank_nil hspells blank_nil
          rw [List.nil_append, List.append_nil, String.ofList_toList] at hparse
          exact ⟨v, hspells, hparse⟩

/-! ### Rules from one server to another -/

def rulesQuery : String := "\x7b\"opt\":1\x7d"

/-- An update whose data is an answer to `rulesQuery`. -/
def rulesUpdate (rsp : String) : String := "\x7b\"data\":" ++ rsp ++ ",\"opt\":2\x7d"

/-- The rules of one server are queried and sent to another one. An update that does not
fit into one receive is left out: its parts are answered one by one. -/
def transfer (env : Env) (source target : Server) : Option Server :=
  match handle env source rulesQuery.toList with
  | (.ok rsp, _) =>
      if buffSize ≤ (rulesUpdate rsp).toList.length then none
      else match handle env target (rulesUpdate rsp).toList with
        | (.ok _, st) => some st
        | (.error _, _) => none
  | (.error _, _) => none

/-- From each server to the next one, up to the last. -/
def transferAll (env : Env) : Server → List Server → Option Server
  | source, [] => some source
  | source, target :: targets => (transfer env source target).bind (transferAll env · targets)

theorem requestText_serialize {o : Fields} (h : WellFormed (.object o)) :
    RequestText (serialize false (.object o)).toList o :=
  ⟨[], _, rfl, blank_nil, spells_serialize h⟩

def queryFields : Fields := [("opt", .number (1 : ℕ))]

theorem requestText_rulesQuery : RequestText rulesQuery.toList queryFields := by
  have hfields : WellFormed (.object queryFields) := by
    refine .object (by simp [SortedMaps.Sorted, queryFields]) ?_
    simpa [queryFields] using wellFormed_natCast (n := 1) (by norm_num)
  have htext : rulesQuery = serialize false (.object queryFields) := by
    simp only [serialize, queryFields, Bool.false_eq_true, if_false, serializeAt, serializeFields,
      toStr_natCast (n := 1) (by norm_num)]
    rfl
  exact htext ▸ requestText_serialize hfields

def updateFields (rules : RuleCollection) : Fields :=
  [("data", RuleCollection.toJson rules), ("opt", .number (2 : ℕ))]

theorem rulesUpdate_eq (rules : RuleCollection) :
    rulesUpdate (RuleCollection.toJsonText picoText rules) =
      serialize false (.object (updateFields rules)) := by
  apply String.toList_inj.mp
  have hdata : serializeStr ['d', 'a', 't', 'a'] = ['"', 'd', 'a', 't', 'a', '"'] := by decide
  have hopt : serializeStr ['o', 'p', 't'] = ['"', 'o', 'p', 't', '"'] := by decide
  have htwo : toStr (.number 2) = ['2'] := toStr_natCast (n := 2) (by norm_num)
  simp [rulesUpdate, RuleCollection.toJsonText, picoText, serialize, updateFields, serializeAt,
    serializeFields, hdata, hopt, htwo, deeper, indented, closing, ending]

theorem requestText_rulesUpdate (rules : RuleCollection) :
    RequestText (rulesUpdate (RuleCollection.toJsonText picoText rules)).toList
      (updateFields rules) := by
  have hsorted : SortedMaps.Sorted (updateFields rules) := by
    simp only [SortedMaps.Sorted, updateFields, List.map_cons, List.map_nil]
    decide
  have hfields : ∀ f ∈ updateFields rules, WellFormed f.2 := by
    simpa [updateFields] using ⟨wellFormed_rules rules, wellFormed_natCast (n := 2) (by norm_num)⟩
  exact rulesUpdate_eq rules ▸ requestText_serialize (.object hsorted hfields)

theorem updated_updateFields (env : Env) (m : RuleManager) (rules : RuleCollection) :
    updated env m (updateFields rules) = some { m with rules := rules.map reloaded } := by
  have hdata : dataOf (updateFields rules) = some (rules.map Rule.toJson) := rfl
  simp only [updated, hdata, rulesOf_exported, Option.map_some]
  rfl

theorem handle_rulesQuery (st : Server) :
    handle (serverEnv undef warning) st rulesQuery.toList =
      (.ok (RuleCollection.toJsonText picoText st.manager.rules), st) := by
  have hquery : optOf (serverEnv undef warning) queryFields = optQueryRules :=
    optOf_query _ (by simp [queryFields])
  exact (handle_alone requestText_rulesQuery st).trans (handleValue_query hquery st)

/-- The update with the rules is shorter than the buffer of a receive. -/
def FitsReceive (rules : RuleCollection) : Prop :=
  (rulesUpdate (RuleCollection.toJsonText picoText rules)).toList.length < buffSize

theorem transfer_eq {source : Server} (hfits : FitsReceive source.manager.rules)
    (target : Server) : transfer (serverEnv undef warning) source target =
      some { target with
        manager := { target.manager with rules := source.manager.rules.map reloaded } } := by
  have hupdate : ∀ rules, optOf (serverEnv undef warning) (updateFields rules) = optUpdateRules :=
    fun rules => optOf_update _ (by simp [updateFields, List.lookup_cons])
  have himport := @handle_alone undef warning _ _ (requestText_rulesUpdate source.manager.rules)
    target
  rw [handleValue_update (hupdate _), updateRules_object, updated_updateFields] at himport
  simp only [transfer, handle_rulesQuery, if_neg (Nat.not_le_of_lt hfits), himport]

theorem reloaded_reloaded (r : Rule) : reloaded (reloaded r) = reloaded r := by
  have hknown : knownProtocol (knownProtocol r.protocol) = knownProtocol r.protocol := by
    rcases getProtocolString_cases r.protocol with ⟨-, h⟩ | ⟨-, h⟩ | ⟨-, h⟩ | ⟨-, h⟩ <;>
      (rw [h]; rfl)
  simp only [reloaded, hknown]

/-- However many servers the rules pass through, they lose what one export loses and no
more, and nothing else of the last server changes, if the updates fit into a receive. -/
theorem transferAll_eq {source : Server} (hfits : FitsReceive source.manager.rules)
    (hagain : FitsReceive (source.manager.rules.map reloaded)) (targets : List Server)
    (target : Server) :
    transferAll (serverEnv undef warning) source (targets ++ [target]) =
      some { target with
        manager := { target.manager with rules := source.manager.rules.map reloaded } } := by
  induction targets generalizing source with
  | nil => simp only [List.nil_append, transferAll, transfer_eq hfits, Option.bind_some]
  | cons first targets ih =>
      have hstable : (source.manager.rules.map reloaded).map reloaded =
          source.manager.rules.map reloaded := by
        rw [List.map_map]
        exact List.map_congr_left fun r _ => reloaded_reloaded r
      let next : Server := { first with
        manager := { first.manager with rules := source.manager.rules.map reloaded } }
      have hlater := @ih next hagain (hstable.symm ▸ hagain)
      have hnext : next.manager.rules.map reloaded = source.manager.rules.map reloaded := hstable
      rw [hnext] at hlater
      simp only [List.cons_append, transferAll, transfer_eq hfits, Option.bind_some]
      exact hlater

/-- All TCP is blocked. -/
def blockTcp : Rule := { zeroRule with protocol := ipprotoTcp, timePass := 0xffffffff }

def tcpBlocking : Server := { switchedOn with manager := ⟨[blockTcp], true⟩ }

theorem fits_blockTcp : FitsReceive [blockTcp] := by
  have hnat : ∀ n : Nat, n < 2 ^ 53 → toStr (.number (n : ℚ)) = Nat.toDigits 10 n :=
    fun n hn => toStr_natCast hn
  have hport : ∀ n : UInt16, toStr (.number (n.toNat : ℚ)) = Nat.toDigits 10 n.toNat :=
    fun n => hnat _ (lt_trans n.toNat_lt (by norm_num))
  have hmask : ∀ n : UInt32, toStr (.number (n.toNat : ℚ)) = Nat.toDigits 10 n.toNat :=
    fun n => hnat _ (lt_trans n.toNat_lt (by norm_num))
  have htype : ∀ n : UInt8, toStr (.number (n.toNat : ℚ)) = Nat.toDigits 10 n.toNat :=
    fun n => hnat _ (lt_trans n.toNat_lt (by norm_num))
  have hlength : (rulesUpdate (RuleCollection.toJsonText picoText [blockTcp])).toList.length =
      138 := by
    rw [rulesUpdate_eq]
    simp only [serialize, updateFields, RuleCollection.toJson, Rule.toJson, blockTcp, zeroRule,
      serializeAt, serializeFields, serializeItems, String.toList_ofList, List.map_cons,
      List.map_nil, hport, hmask, htype, hnat 2 (by norm_num)]
    rfl
  rw [FitsReceive, hlength]
  decide

theorem blockTcp_transferred :
    transferAll (serverEnv zeros []) tcpBlocking ([switchedOn] ++ [switchedOn]) =
      some { switchedOn with
        manager := { switchedOn.manager with rules := [blockTcp].map reloaded } } := by
  have hfits : FitsReceive tcpBlocking.manager.rules := fits_blockTcp
  have hagain : FitsReceive (tcpBlocking.manager.rules.map reloaded) := fits_blockTcp
  exact transferAll_eq hfits hagain [switchedOn] switchedOn

end JsonRequests
