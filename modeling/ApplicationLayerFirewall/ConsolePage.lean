import ApplicationLayerFirewall.ConsoleRoundTrip
import ApplicationLayerFirewall.SortedMaps
import ApplicationLayerFirewall.TransitionRuns

/-!
# The controls of the console page

The controller of the page keeps the rules of two tables and those that are
being added to them. Every control changes one table, or is not there. Of all
that is typed into the tables the column of times alone never leaves the page.
-/

namespace ConsolePage

open ConsoleRoundTrip PicoJson TransitionRuns

/-! ### The scope -/

/-- One of the two tables: the rules in it, and those that are being added. -/
structure Table where
  rows : List Fields
  added : List Fields

structure Scope where
  black : Table
  white : Table
  runState : Bool

def Scope.page (s : Scope) : Page := ⟨s.black.rows, s.white.rows⟩

/-- What a condition makes of a property. -/
def truthy : Option Value → Bool
  | none | some .null => false
  | some (.boolean b) => b
  | some (.number d) => d ≠ 0
  | some (.string s) => s ≠ ""
  | some (.array _) | some (.object _) => true

def isEdited (item : Fields) : Bool := truthy (item.lookup "edit")

/-! ### Controls of a table -/

inductive Column where
  | srcIp
  | srcPort
  | targetIp
  | targetPort
  | protocol
  | time

def Column.key : Column → String
  | srcIp => "src_ip"
  | srcPort => "src_port"
  | targetIp => "target_ip"
  | targetPort => "target_port"
  | protocol => "protocol"
  | time => "time"

/-- The buttons and links of a table, by their row, and its text fields. -/
inductive Control where
  | add
  | save (index : Nat)
  | remove (index : Nat)
  | edit (index : Nat)
  | status (index : Nat)
  | type (column : Column) (index : Nat) (text : String)
  | typeAdded (column : Column) (index : Nat) (text : String)

/-- The item at an index is changed if its row shows the control. -/
def change (visible : Fields → Bool) (f : Fields → Fields) (items : List Fields) (index : Nat) :
    Option (List Fields) :=
  match items[index]? with
  | some item => if visible item then some (items.set index (f item)) else none
  | none => none

namespace Table

/-- `addBlackList` and `addWhiteList`. -/
def addItem (t : Table) : Table := { t with added := t.added ++ [[("edit", .number 1)]] }

/-- `saveBlackItem` and `saveWhiteItem`. -/
def saveItem (t : Table) (index : Nat) : Option Table :=
  match t.added[index]? with
  | some item => some ⟨t.rows ++ [assign item "edit" (.number 0)], t.added.eraseIdx index⟩
  | none => none

/-- `removeBlackItem` and `removeWhiteItem`. -/
def removeItem (t : Table) (index : Nat) : Option Table :=
  if index < t.rows.length then some { t with rows := t.rows.eraseIdx index } else none

end Table

/-- The link `item.edit = item.edit ? 0 : 1`. -/
def toggleEdit (item : Fields) : Fields :=
  assign item "edit" (.number (if isEdited item then 0 else 1))

/-- The link `item.status = item.status==='on' ? 'off' : 'on'`. -/
def toggleStatus (item : Fields) : Fields :=
  assign item "status" (.string (if isOn item then "off" else "on"))

/-- A text field of a column. -/
def typeText (column : Column) (text : String) (item : Fields) : Fields :=
  assign item column.key (.string text)

def Table.apply (t : Table) : Control → Option Table
  | .add => some t.addItem
  | .save index => t.saveItem index
  | .remove index => t.removeItem index
  | .edit index => (change (fun _ => true) toggleEdit t.rows index).map ({ t with rows := · })
  | .status index =>
    (change (fun item => !isEdited item) toggleStatus t.rows index).map ({ t with rows := · })
  | .type column index text =>
    (change isEdited (typeText column text) t.rows index).map ({ t with rows := · })
  | .typeAdded column index text =>
    (change isEdited (typeText column text) t.added index).map ({ t with added := · })

/-! ### The controls of the page and what arrives on it -/

inductive Act where
  | black (control : Control)
  | white (control : Control)
  | radio (on : Bool)

/-- The tables are hidden while the radio button is off. -/
def act (s : Scope) : Act → Option Scope
  | .black control =>
    if s.runState then (s.black.apply control).map ({ s with black := · }) else none
  | .white control =>
    if s.runState then (s.white.apply control).map ({ s with white := · }) else none
  | .radio on => some { s with runState := on }

/-- `syncRuleList` on the scope. -/
def rulesArrived (s : Scope) (list : List Fields) : Scope :=
  let page := syncRuleList list
  { s with black := ⟨page.blackList, []⟩, white := ⟨page.whiteList, []⟩ }

/-- `$scope.run_state = data.enabled ? 1 : 0`, which no answer but an object enables. -/
def statusArrived (s : Scope) : Value → Scope
  | .null => s
  | .object data => { s with runState := truthy (data.lookup "enabled") }
  | _ => { s with runState := false }

/-- The items that the page comes with. -/
def sampleItem (status : String) : Fields :=
  [("target_ip", .string "123"), ("src_ip", .string "33"), ("target_port", .string "241"),
    ("src_port", .string "1241"), ("edit", .number 0), ("time", .string "1-5"),
    ("protocol", .string "1e"), ("device", .string "r1"), ("status", .string status)]

def sampleItems : List Fields := [sampleItem "on", sampleItem "off"]

def initialScope : Scope := ⟨⟨sampleItems, []⟩, ⟨sampleItems, []⟩, false⟩

inductive Event where
  | act (a : Act)
  | rules (list : List Fields)
  | status (data : Value)

def event (s : Scope) : Event → Option Scope
  | .act a => act s a
  | .rules list => some (rulesArrived s list)
  | .status data => some (statusArrived s data)

/-- The body of `uploadRuleList`. -/
def uploadBody (browser : Browser) (token : String) (s : Scope) : Value :=
  updateRequest s.runState (uploadRuleList browser s.page) token

/-! ### Properties of items -/

theorem lookup_assign (e : Fields) (key k : String) (v : Value) :
    (assign e key v).lookup k = if k = key then some v else e.lookup k := by
  by_cases hk : k = key
  · rw [if_pos hk, hk, assign, List.lookup_cons_self]
  · rw [if_neg hk, assign, SortedMaps.lookup_cons_ite, if_neg hk]
    induction e with
    | nil => rfl
    | cons field rest ih =>
      by_cases hfield : field.1 = key
      · have hother : k ≠ field.1 := fun h => hk (h.trans hfield)
        rw [List.filter_cons_of_neg (by simpa using hfield), ih, SortedMaps.lookup_cons_ite,
          if_neg hother]
      · rw [List.filter_cons_of_pos (by simpa using hfield), SortedMaps.lookup_cons_ite,
          SortedMaps.lookup_cons_ite, ih]

/-- The same but for what the column of times shows. -/
def SameBut (e e' : Fields) : Prop := ∀ k, k ≠ "time" → e.lookup k = e'.lookup k

theorem SameBut.refl (e : Fields) : SameBut e e := fun _ _ => rfl

theorem SameBut.assign {e e' : Fields} (h : SameBut e e') (key : String) (v : Value) :
    SameBut (assign e key v) (assign e' key v) := by
  intro k hk
  rw [lookup_assign, lookup_assign, h k hk]

theorem SameBut.isEdited {e e' : Fields} (h : SameBut e e') : isEdited e = isEdited e' :=
  congrArg truthy (h "edit" (by decide))

theorem SameBut.isOn {e e' : Fields} (h : SameBut e e') : isOn e = isOn e' := by
  rw [ConsoleRoundTrip.isOn, ConsoleRoundTrip.isOn, h "status" (by decide)]

theorem SameBut.transformer {e e' : Fields} (h : SameBut e e') (browser : Browser) :
    transformer browser e = transformer browser e' := by
  simp only [ConsoleRoundTrip.transformer, h "target_ip" (by decide), h "src_ip" (by decide),
    h "target_port" (by decide), h "src_port" (by decide), h "timepass" (by decide),
    h "protocol" (by decide)]

/-! ### Lists of items that correspond -/

section
variable {α β : Type} {R : α → β → Prop} {l : List α} {l' : List β}

theorem getElem_related (h : List.Forall₂ R l l') (i : Nat) : Option.Rel R l[i]? l'[i]? := by
  induction h generalizing i with
  | nil => exact .none
  | cons hfirst _ ih =>
    cases i with
    | zero => exact .some hfirst
    | succ i => exact ih i

theorem set_related (h : List.Forall₂ R l l') {a : α} {b : β} (hab : R a b) (i : Nat) :
    List.Forall₂ R (l.set i a) (l'.set i b) := by
  induction h generalizing i with
  | nil => exact .nil
  | cons hfirst hrest ih =>
    cases i with
    | zero => exact .cons hab hrest
    | succ i => exact .cons hfirst (ih i)

theorem eraseIdx_related (h : List.Forall₂ R l l') (i : Nat) :
    List.Forall₂ R (l.eraseIdx i) (l'.eraseIdx i) := by
  induction h generalizing i with
  | nil => exact .nil
  | cons hfirst hrest ih =>
    cases i with
    | zero => exact hrest
    | succ i => exact .cons hfirst (ih i)

end

/-- Corresponding controls at corresponding items. -/
theorem change_related {visible : Fields → Bool} {f f' : Fields → Fields}
    (hvisible : ∀ {e e'}, SameBut e e' → visible e = visible e')
    (hf : ∀ {e e'}, SameBut e e' → SameBut (f e) (f' e')) {items items' : List Fields}
    (h : List.Forall₂ SameBut items items') (index : Nat) :
    Option.Rel (List.Forall₂ SameBut) (change visible f items index)
      (change visible f' items' index) := by
  have hitem := getElem_related h index
  rw [change, change]
  generalize items[index]? = item, items'[index]? = item' at hitem
  cases hitem with
  | none => exact .none
  | @some e e' hsame =>
    simp only [hvisible hsame]
    split_ifs
    · exact .some (set_related h (hf hsame) index)
    · exact .none

/-! ### What is typed into the column of times -/

structure SameTable (t t' : Table) : Prop where
  rows : List.Forall₂ SameBut t.rows t'.rows
  added : List.Forall₂ SameBut t.added t'.added

structure SameScope (s s' : Scope) : Prop where
  black : SameTable s.black s'.black
  white : SameTable s.white s'.white
  runState : s.runState = s'.runState

/-- The text that counts. -/
def Column.counts (text : String) : Column → String
  | .time => ""
  | _ => text

def Control.untimed : Control → Control
  | .type column index text => .type column index (column.counts text)
  | .typeAdded column index text => .typeAdded column index (column.counts text)
  | control => control

def Act.untimed : Act → Act
  | .black control => .black control.untimed
  | .white control => .white control.untimed
  | .radio on => .radio on

/-- The same event without the text if it goes into the column of times. -/
def Event.untimed : Event → Event
  | .act a => .act a.untimed
  | e => e

theorem SameBut.typeText {e e' : Fields} (h : SameBut e e') (column : Column) (text : String) :
    SameBut (typeText column text e) (typeText column (column.counts text) e') := by
  intro k hk
  rw [ConsolePage.typeText, ConsolePage.typeText, lookup_assign, lookup_assign, h k hk]
  cases column with
  | time => exact (if_neg hk).trans (if_neg hk).symm
  | _ => rfl

theorem SameBut.toggleEdit {e e' : Fields} (h : SameBut e e') :
    SameBut (toggleEdit e) (toggleEdit e') := by
  rw [ConsolePage.toggleEdit, ConsolePage.toggleEdit, h.isEdited]
  exact h.assign _ _

theorem SameBut.toggleStatus {e e' : Fields} (h : SameBut e e') :
    SameBut (toggleStatus e) (toggleStatus e') := by
  rw [ConsolePage.toggleStatus, ConsolePage.toggleStatus, h.isOn]
  exact h.assign _ _

theorem SameTable.rowsChanged {t t' : Table} (h : SameTable t t')
    {rows rows' : Option (List Fields)} (hrows : Option.Rel (List.Forall₂ SameBut) rows rows') :
    Option.Rel SameTable (rows.map ({ t with rows := · })) (rows'.map ({ t' with rows := · })) := by
  cases hrows with
  | none => exact .none
  | some hrows => exact .some ⟨hrows, h.added⟩

theorem SameTable.addedChanged {t t' : Table} (h : SameTable t t')
    {added added' : Option (List Fields)}
    (hadded : Option.Rel (List.Forall₂ SameBut) added added') :
    Option.Rel SameTable (added.map ({ t with added := · }))
      (added'.map ({ t' with added := · })) := by
  cases hadded with
  | none => exact .none
  | some hadded => exact .some ⟨h.rows, hadded⟩

theorem apply_untimed {t t' : Table} (h : SameTable t t') (control : Control) :
    Option.Rel SameTable (t.apply control) (t'.apply control.untimed) := by
  cases control with
  | add => exact .some ⟨h.rows, List.rel_append h.added (.cons (SameBut.refl _) .nil)⟩
  | save index =>
    have hitem := getElem_related h.added index
    simp only [Table.apply, Control.untimed, Table.saveItem]
    generalize t.added[index]? = item, t'.added[index]? = item' at hitem
    cases hitem with
    | none => exact .none
    | some hsame =>
      exact .some ⟨List.rel_append h.rows (.cons (hsame.assign _ _) .nil),
        eraseIdx_related h.added index⟩
  | remove index =>
    simp only [Table.apply, Control.untimed, Table.removeItem, h.rows.length_eq]
    split_ifs
    · exact .some ⟨eraseIdx_related h.rows index, h.added⟩
    · exact .none
  | edit index =>
    exact h.rowsChanged (change_related (fun _ => rfl) SameBut.toggleEdit h.rows index)
  | status index =>
    have hvisible : ∀ {e e'}, SameBut e e' → (!isEdited e) = !isEdited e' :=
      fun hsame => congrArg (! ·) hsame.isEdited
    exact h.rowsChanged (change_related hvisible SameBut.toggleStatus h.rows index)
  | type column index text =>
    exact h.rowsChanged
      (change_related SameBut.isEdited (fun hsame => hsame.typeText column text) h.rows index)
  | typeAdded column index text =>
    exact h.addedChanged
      (change_related SameBut.isEdited (fun hsame => hsame.typeText column text) h.added index)

theorem act_untimed {s s' : Scope} (h : SameScope s s') (a : Act) :
    Option.Rel SameScope (act s a) (act s' a.untimed) := by
  cases a with
  | black control =>
    have htable := apply_untimed h.black control
    by_cases hon : s.runState = true
    · have hon' : s'.runState = true := h.runState ▸ hon
      simp only [act, Act.untimed, if_pos hon, if_pos hon']
      generalize s.black.apply control = t, s'.black.apply control.untimed = t' at htable
      cases htable with
      | none => exact .none
      | some htable => exact .some ⟨htable, h.white, h.runState⟩
    · have hoff : s'.runState ≠ true := h.runState ▸ hon
      simp only [act, Act.untimed, if_neg hon, if_neg hoff]
      exact .none
  | white control =>
    have htable := apply_untimed h.white control
    by_cases hon : s.runState = true
    · have hon' : s'.runState = true := h.runState ▸ hon
      simp only [act, Act.untimed, if_pos hon, if_pos hon']
      generalize s.white.apply control = t, s'.white.apply control.untimed = t' at htable
      cases htable with
      | none => exact .none
      | some htable => exact .some ⟨h.black, htable, h.runState⟩
    · have hoff : s'.runState ≠ true := h.runState ▸ hon
      simp only [act, Act.untimed, if_neg hon, if_neg hoff]
      exact .none
  | radio on => exact .some ⟨h.black, h.white, rfl⟩

theorem SameTable.refl (t : Table) : SameTable t t :=
  ⟨List.forall₂_same.mpr fun e _ => SameBut.refl e, List.forall₂_same.mpr fun e _ => SameBut.refl e⟩

theorem SameScope.refl (s : Scope) : SameScope s s := ⟨SameTable.refl _, SameTable.refl _, rfl⟩

theorem event_untimed {s s' : Scope} (e : Event) (h : SameScope s s') :
    Option.Rel SameScope (event s e) (event s' e.untimed) := by
  cases e with
  | act a => exact act_untimed h a
  | rules list => exact .some ⟨SameTable.refl _, SameTable.refl _, h.runState⟩
  | status data =>
    refine .some ?_
    cases data with
    | null => exact h
    | object data => exact ⟨h.black, h.white, rfl⟩
    | _ => exact ⟨h.black, h.white, rfl⟩

theorem upload_same (browser : Browser) {items items' : List Fields}
    (h : List.Forall₂ SameBut items items') (type : ℚ) :
    upload browser items type = upload browser items' type := by
  have hon : List.Forall₂ SameBut (items.filter isOn) (items'.filter isOn) :=
    List.rel_filter (fun _ _ hsame => iff_of_eq (congrArg (· = true) hsame.isOn)) h
  have hsent : List.Forall₂ (· = ·) ((items.filter isOn).map (transformer browser))
      ((items'.filter isOn).map (transformer browser)) :=
    List.rel_map (fun _ _ hsame => hsame.transformer browser) hon
  rw [List.forall₂_eq_eq_eq] at hsent
  rw [upload, upload, hsent]

/-- In every course of edits and answers, an upload is the same whatever was typed into the
column of times. -/
theorem times_not_uploaded (browser : Browser) (token : String) (s : Scope)
    (events : List Event) :
    (run event s events).map (uploadBody browser token) =
      (run event s (events.map Event.untimed)).map (uploadBody browser token) := by
  have hruns := run_related event_untimed (SameScope.refl s) events
  generalize run event s events = last, run event s (events.map Event.untimed) = last' at hruns
  cases hruns with
  | none => rfl
  | some h =>
    have hlists := congrArg₂ (· ++ ·) (upload_same browser h.black.rows 0)
      (upload_same browser h.white.rows 1)
    simp only [Option.map_some, uploadBody, uploadRuleList, Scope.page, h.runState, hlists]

end ConsolePage
