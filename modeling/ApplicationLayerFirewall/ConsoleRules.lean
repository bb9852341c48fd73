import ApplicationLayerFirewall.ConsolePage
import ApplicationLayerFirewall.FirewallRuns

/-!
# Rules in the tables of the console and in the firewall

A row of a table shows a rule by the texts in its columns, typed or fetched.
The rows that are switched on are what an upload makes of the firewall's rules,
and rules that are fetched are shown by rows again.
-/

namespace ConsoleRules

open ByteOrder ConsolePage ConsoleRoundTrip ExportReload FirewallRuns InetAddress JsonDocuments
open JsonPrinter JsonRequests JsonRoundTrip PicoJson RequestHandler RuleJson RuleMatching
open RuleMeaning
open RuleVerdict

/-! ### What the tables show -/

/-- No address is nothing in the column, or the address that restricts nothing. -/
inductive AddressShown : Option Value → Option Quad → Prop
  | missing : AddressShown none none
  | zero : AddressShown (some (.string "0.0.0.0")) none
  | quad (q : Quad) : AddressShown (some (.string (String.ofList q.text))) (some q)

/-- A fetched port is a number, a typed one a text. -/
inductive PortShown : Option Value → Option UInt16 → Prop
  | missing : PortShown none none
  | empty : PortShown (some (.string "")) none
  | zero : PortShown (some (.number 0)) none
  | number (n : UInt16) : PortShown (some (.number n.toNat)) (some n)
  | text (n : UInt16) :
      PortShown (some (.string (String.ofList (Nat.toDigits 10 n.toNat)))) (some n)

inductive ProtocolShown : Option Value → Option StatedProtocol → Prop
  | missing : ProtocolShown none none
  | empty : ProtocolShown (some (.string "")) none
  | unknown : ProtocolShown (some (.string "unknown")) none
  | named (p : StatedProtocol) : ProtocolShown (some (.string p.text)) (some p)

/-- The mask that the page keeps behind a row. -/
inductive MaskKept : Option Value → Prop
  | missing : MaskKept none
  | number (n : UInt32) : MaskKept (some (.number n.toNat))

/-- The item shows the rule, whatever its list says about its type. -/
structure Shows (e : Fields) (spec : KeptSpec) : Prop where
  srcIp : AddressShown (e.lookup "src_ip") spec.val.srcIp
  destIp : AddressShown (e.lookup "target_ip") spec.val.destIp
  srcPort : PortShown (e.lookup "src_port") spec.val.srcPort
  destPort : PortShown (e.lookup "target_port") spec.val.destPort
  protocol : ProtocolShown (e.lookup "protocol") spec.val.protocol
  mask : MaskKept (e.lookup "timepass")

def blackType : Fin 3 := ⟨0, by decide⟩

theorem white_lt_three : 1 < 3 := by decide

def whiteType : Fin 3 := ⟨1, white_lt_three⟩

/-- The rule in the list of a type. -/
def filed (type : Fin 3) (spec : KeptSpec) : KeptSpec :=
  ⟨{ spec.val with type := some type }, spec.property⟩

/-- The rules that the tables show as switched on, the black ones first. -/
def PageShows (s : Scope) (specs : List KeptSpec) : Prop :=
  ∃ blacks whites, List.Forall₂ Shows (s.black.rows.filter isOn) blacks ∧
    List.Forall₂ Shows (s.white.rows.filter isOn) whites ∧
    specs = blacks.map (filed blackType) ++ whites.map (filed whiteType)

/-! ### Objects that state a rule -/

/-- The answer to the status query. -/
def statusText (on : Bool) : String := if on then statusEnabled else statusDisabled

/-- What the page relies on the browser for: that the two sides of JSON fit the standard, and
that `parseInt` reads decimal digits. -/
structure Standard (browser : Browser) : Prop where
  writes : ∀ v, OfDoubles v → StandardSpells (browser.stringify v).toList (held v)
  rules : ∀ rules, browser.parse (RuleCollection.toJsonText picoText rules) =
    some (RuleCollection.toJson rules)
  status : ∀ on, ∃ data, browser.parse (statusText on) = some (.object data) ∧
    data.lookup "enabled" = some (.number (if on then 1 else 0))
  digits : ∀ n : UInt16, browser.parseInt
    (some (.string (String.ofList (Nat.toDigits 10 n.toNat)))) = .number n.toNat
  missing : browser.parseInt none = .null
  empty : browser.parseInt (some (.string "")) = .null

section
variable {undef : Undefined} {browser : Browser} {e : Fields} {spec : KeptSpec}

end

/-! ### Fetched rules -/

/-- The rule names no ICMP type, which its export would lose. -/
def Plain (spec : KeptSpec) : Prop := ∀ p ∈ spec.val.protocol, p.icmpType = none

def isBlackSpec (spec : KeptSpec) : Bool := listEffect spec.val = .black

/-- The rules as the page files them. -/
def arranged (specs : List KeptSpec) : List KeptSpec :=
  (specs.filter isBlackSpec).map (filed blackType) ++
    (specs.filter (fun spec => !isBlackSpec spec)).map (filed whiteType)

/-- The item of a fetched rule. -/
def item (r : Rule) : Fields := marked (exportedFields r)

section
variable {undef : Undefined} {o : Fields} {spec : KeptSpec}

end

end ConsoleRules
