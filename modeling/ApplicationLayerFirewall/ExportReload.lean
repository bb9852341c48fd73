import ApplicationLayerFirewall.RuleJson

/-!
# Exported rules, loaded again

Printer and parser were written apart. They agree on addresses, ports, type and
protocol; the printer writes the time mask under a key that the parser does not
read, and asks the wrong field whether there is an ICMP type to print. What
comes back is computed here for every rule, and compared with what went out.
-/

namespace ExportReload

open ByteOrder InetAddress PacketReading PicoJson RuleMatching RuleVerdict RuleJson

/-- The protocols that have a name of their own. -/
def knownProtocol (protocol : UInt8) : UInt8 :=
  if protocol = ipprotoIcmp ∨ protocol = ipprotoUdp ∨ protocol = ipprotoTcp then protocol else 0

/-- What a rule has become after it was printed and parsed. -/
def reloaded (r : Rule) : Rule :=
  { r with protocol := knownProtocol r.protocol, subProtocol := 0, timePass := 0xffffffff }

def protocolText (r : Rule) : String :=
  if r.subProtocol = ipprotoIcmp
    then getProtocolString r.protocol ++ ("." ++ getIcmpString r.subProtocol)
    else getProtocolString r.protocol

def exportedFields (r : Rule) : Fields :=
  [("protocol", .string (protocolText r)),
    ("src_ip", .string (String.ofList (inetNtoa r.srcIp))),
    ("src_port", .number ((ntohs r.srcPort).toNat : ℚ)),
    ("target_ip", .string (String.ofList (inetNtoa r.destIp))),
    ("target_port", .number ((ntohs r.destPort).toNat : ℚ)),
    ("timepass", .number (r.timePass.toNat : ℚ)),
    ("type", .number (r.type.toNat : ℚ))]

theorem toJson_eq (r : Rule) : Rule.toJson r = .object (exportedFields r) := rfl

/-- The names that are printed, with what the parser makes of them. -/
theorem getProtocolString_cases (protocol : UInt8) :
    (getProtocolString protocol = "icmp" ∧ knownProtocol protocol = ipprotoIcmp) ∨
    (getProtocolString protocol = "udp" ∧ knownProtocol protocol = ipprotoUdp) ∨
    (getProtocolString protocol = "tcp" ∧ knownProtocol protocol = ipprotoTcp) ∨
    (getProtocolString protocol = "unknown" ∧ knownProtocol protocol = 0) := by
  by_cases hicmp : protocol = ipprotoIcmp
  · subst hicmp
    exact Or.inl ⟨rfl, rfl⟩
  · by_cases hudp : protocol = ipprotoUdp
    · subst hudp
      exact Or.inr (Or.inl ⟨rfl, rfl⟩)
    · by_cases htcp : protocol = ipprotoTcp
      · subst htcp
        exact Or.inr (Or.inr (Or.inl ⟨rfl, rfl⟩))
      · simp [getProtocolString, knownProtocol, hicmp, hudp, htcp]

/-- The printed protocol is read back as itself, and never with an ICMP type. -/
theorem assignProtocol_protocolText (this r : Rule) (hsub : this.subProtocol = 0) :
    assignProtocol this (protocolText r).toList =
      { this with protocol := knownProtocol r.protocol, subProtocol := 0 } := by
  obtain ⟨destPort, srcPort, srcIp, destIp, timePass, type, protocol, subProtocol⟩ := this
  subst hsub
  have hnames := getProtocolString_cases r.protocol
  by_cases hdot : r.subProtocol = ipprotoIcmp
  · rw [protocolText, if_pos hdot, hdot]
    rcases hnames with ⟨hname, hknown⟩ | ⟨hname, hknown⟩ | ⟨hname, hknown⟩ | ⟨hname, hknown⟩ <;>
      (rw [hname, hknown]; rfl)
  · rw [protocolText, if_neg hdot]
    rcases hnames with ⟨hname, hknown⟩ | ⟨hname, hknown⟩ | ⟨hname, hknown⟩ | ⟨hname, hknown⟩ <;>
      (rw [hname, hknown]; rfl)

/-- An object that gives a rule's fields as they are printed, with a type of its own and no
mask under the parser's key. -/
theorem ruleOf_printed {undef : Undefined} {o : Fields} {r : Rule} {type : UInt8}
    (hprotocol : stringField o "protocol" "" = protocolText r)
    (hsrcIp : stringField o "src_ip" "0.0.0.0" = String.ofList (inetNtoa r.srcIp))
    (hdestIp : stringField o "target_ip" "0.0.0.0" = String.ofList (inetNtoa r.destIp))
    (hsrcPort : integerField undef o "src_port" 0 =
      toUInt64 undef.conversions ((ntohs r.srcPort).toNat : ℚ))
    (hdestPort : integerField undef o "target_port" 0 =
      toUInt64 undef.conversions ((ntohs r.destPort).toNat : ℚ))
    (htype : integerField undef o "type" 0 = toUInt64 undef.conversions (type.toNat : ℚ))
    (hmask : integerField undef o "time_pass" 0xffffffff = 0xffffffff) :
    ruleOf undef o = { reloaded r with type := type } := by
  rw [ruleOf, hprotocol, hsrcIp, hdestIp, hsrcPort, hdestPort, htype, hmask,
    assignProtocol_protocolText _ r rfl]
  simp only [String.toList_ofList, inetAddr_inetNtoa, toUInt16_natCast, toUInt8_natCast,
    ntohs_ntohs]
  rfl

theorem ruleOf_exportedFields (undef : Undefined) (r : Rule) :
    ruleOf undef (exportedFields r) = reloaded r :=
  ruleOf_printed rfl rfl rfl rfl rfl rfl rfl

theorem rulesOf_exported (undef : Undefined) (rules : RuleCollection) :
    rulesOf undef (rules.map Rule.toJson) = some (rules.map reloaded) := by
  have hobjects : rules.map Rule.toJson = (rules.map exportedFields).map Value.object := by
    simp [toJson_eq]
  rw [hobjects, rulesOf_map_object, List.map_map]
  exact congrArg some (List.map_congr_left fun r _ => ruleOf_exportedFields undef r)

/-- Loading what was exported yields every rule in its reloaded form. -/
theorem parseFromText_exported {text : Text} {rules : RuleCollection}
    (undoes : text.parse (text.serialize (RuleCollection.toJson rules)) =
      .value (RuleCollection.toJson rules))
    (undef : Undefined) (this : RuleCollection) :
    RuleCollection.parseFromText text undef this (RuleCollection.toJsonText text rules) =
      .ok (0, rules.map reloaded) := by
  rw [RuleCollection.parseFromText, RuleCollection.toJsonText, undoes]
  simp only [RuleCollection.toJson, parseFromJson_array, rulesOf_exported, List.nil_append]

/-! ### Rules that were parsed -/

theorem getProtocolType_known (p : List Char) :
    knownProtocol (getProtocolType p) = getProtocolType p := by
  unfold getProtocolType
  split_ifs <;> rfl

theorem ruleOf_known (undef : Undefined) (o : Fields) :
    knownProtocol (ruleOf undef o).protocol = (ruleOf undef o).protocol := by
  rw [ruleOf]
  cases (stringField o "protocol" "").toList with
  | nil => rfl
  | cons first rest => exact getProtocolType_known _

/-- A parsed rule survives exactly when the lost fields hold what they become. -/
theorem reloaded_eq_iff {undef : Undefined} {o : Fields} :
    reloaded (ruleOf undef o) = ruleOf undef o ↔
      (ruleOf undef o).subProtocol = 0 ∧ (ruleOf undef o).timePass = 0xffffffff := by
  have hknown := ruleOf_known undef o
  constructor
  · intro hsame
    exact ⟨(congrArg Rule.subProtocol hsame).symm, (congrArg Rule.timePass hsame).symm⟩
  · rintro ⟨hsub, hmask⟩
    rw [reloaded, hknown, ← hsub, ← hmask]

theorem mem_parsed {undef : Undefined} {v : Value} {ret : Int} {rules : RuleCollection}
    (parsed : RuleCollection.parseFromJson undef [] v = .ok (ret, rules)) {r : Rule}
    (hr : r ∈ rules) : ∃ o, r = ruleOf undef o := by
  cases v with
  | array arr =>
    rw [parseFromJson_array] at parsed
    cases hrules : rulesOf undef arr with
    | none =>
      rw [hrules] at parsed
      cases parsed
    | some loaded =>
      rw [hrules] at parsed
      cases parsed
      exact mem_rulesOf hrules hr
  | _ => cases parsed

/-- Export and reload preserve a parsed collection exactly when none of its rules
names an ICMP type other than zero or restricts the time. -/
theorem reload_eq_iff {undef : Undefined} {v : Value} {ret : Int} {rules : RuleCollection}
    (parsed : RuleCollection.parseFromJson undef [] v = .ok (ret, rules))
    {text : Text}
    (undoes : text.parse (text.serialize (RuleCollection.toJson rules)) =
      .value (RuleCollection.toJson rules))
    (this : RuleCollection) :
    (∃ ret', RuleCollection.parseFromText text undef this
        (RuleCollection.toJsonText text rules) = .ok (ret', rules)) ↔
      ∀ r ∈ rules, r.subProtocol = 0 ∧ r.timePass = 0xffffffff := by
  have heach : ∀ r ∈ rules, reloaded r = r ↔ r.subProtocol = 0 ∧ r.timePass = 0xffffffff := by
    intro r hr
    obtain ⟨o, rfl⟩ := mem_parsed parsed hr
    exact reloaded_eq_iff
  rw [parseFromText_exported undoes undef this]
  constructor
  · rintro ⟨ret', hloaded⟩ r hr
    have hback : rules.map reloaded = rules.map id := by
      rw [List.map_id]
      exact congrArg Prod.snd (Except.ok.inj hloaded)
    exact (heach r hr).mp (List.map_eq_map_iff.mp hback r hr)
  · intro hall
    have hback : rules.map reloaded = rules.map id :=
      List.map_congr_left (fun r hr => (heach r hr).mpr (hall r hr))
    exact ⟨0, by rw [hback, List.map_id]⟩

/-! ### One rule that survives and one that does not -/

/-- The library on one text and the value it spells. -/
def textOf (spelt : String) (v : Value) : Text := .ofTable [(spelt, .value v)] spelt

theorem textOf_undoes (spelt : String) (v : Value) :
    (textOf spelt v).parse ((textOf spelt v).serialize v) = .value v := by
  simp [textOf, Text.ofTable]

def httpsObject : Fields :=
  [("protocol", .string "tcp"), ("target_port", .number 443), ("type", .number 1)]

def httpsExport : String :=
  "[\x7b\"protocol\":\"tcp\",\"src_ip\":\"0.0.0.0\",\"src_port\":0,\"target_ip\":\"0.0.0.0\"," ++
    "\"target_port\":443,\"timepass\":4294967295,\"type\":1\x7d]"

theorem https_reload_iff :
    (∃ ret', RuleCollection.parseFromText
        (textOf httpsExport (RuleCollection.toJson [ruleOf zeros httpsObject])) zeros []
        (RuleCollection.toJsonText
          (textOf httpsExport (RuleCollection.toJson [ruleOf zeros httpsObject]))
          [ruleOf zeros httpsObject]) = .ok (ret', [ruleOf zeros httpsObject])) ↔
      ∀ r ∈ [ruleOf zeros httpsObject], r.subProtocol = 0 ∧ r.timePass = 0xffffffff := by
  have hparsed : RuleCollection.parseFromJson zeros [] (.array [.object httpsObject]) =
      .ok (0, [ruleOf zeros httpsObject]) := parseFromJson_array zeros [] _
  exact reload_eq_iff hparsed (textOf_undoes _ _) []

def redirectObject : Fields := [("protocol", .string "icmp.ICMP_REDIRECT")]

def redirectRule : Rule := ⟨0, 0, 0, 0, 0xffffffff, 0, 1, 5⟩

def redirectExport : String :=
  "[\x7b\"protocol\":\"icmp\",\"src_ip\":\"0.0.0.0\",\"src_port\":0,\"target_ip\":\"0.0.0.0\"," ++
    "\"target_port\":0,\"timepass\":4294967295,\"type\":0\x7d]"

def redirectText : Text := textOf redirectExport (RuleCollection.toJson [redirectRule])

/-- A rule against redirects comes back as a rule against all of ICMP. -/
theorem redirect_widened_by_reload :
    RuleCollection.parseFromJson zeros [] (.array [.object redirectObject]) =
      .ok (0, [redirectRule]) ∧
    redirectText.parse (redirectText.serialize (RuleCollection.toJson [redirectRule])) =
      .value (RuleCollection.toJson [redirectRule]) ∧
    RuleCollection.parseFromText redirectText zeros []
        (RuleCollection.toJsonText redirectText [redirectRule]) =
      .ok (0, [{ redirectRule with subProtocol := 0 }]) ∧
    ¬ ∃ ret, RuleCollection.parseFromText redirectText zeros []
      (RuleCollection.toJsonText redirectText [redirectRule]) = .ok (ret, [redirectRule]) := by
  have hrules : rulesOf zeros [.object redirectObject] = some [redirectRule] := by
    decide +kernel
  have hreload : RuleCollection.parseFromText redirectText zeros []
      (RuleCollection.toJsonText redirectText [redirectRule]) =
        .ok (0, [{ redirectRule with subProtocol := 0 }]) :=
    parseFromText_exported (textOf_undoes _ _) zeros []
  refine ⟨?_, textOf_undoes _ _, hreload, ?_⟩
  · rw [parseFromJson_array, hrules]
    rfl
  · rintro ⟨ret, hsame⟩
    rw [hreload] at hsame
    have hrule : [{ redirectRule with subProtocol := 0 }] = [redirectRule] :=
      congrArg Prod.snd (Except.ok.inj hsame)
    exact absurd hrule (by decide)

end ExportReload
