import SonicPins.Lib.SetMatching
import SonicPins.P4Fuzzer.RejectedUpdates

/-! The comparison of the entries that a switch returned with the fuzzer's state. The printed
entries and differences are left out of the messages. -/
namespace SonicPins.P4Fuzzer
open Lib Pdpi P4rtApp

/-- The differencer of PI entries, with the parameters of an action as a set. -/
def compareAction (a b : Action) : Bool :=
  decide (a.actionId = b.actionId) && sameAsSet (fun p q => decide (p = q)) a.params b.params

def compareMember (a b : ActionProfileAction) : Bool :=
  compareAction a.action b.action && decide (a.weight = b.weight ∧ a.watchPort = b.watchPort)

/-- The actions of an action set are a set as well. -/
def compareTableAction : Option TableAction → Option TableAction → Bool
  | some (.action a),some (.action b) => compareAction a b
  | some (.actionProfileActionSet as),some (.actionProfileActionSet bs) => sameAsSet compareMember as bs
  | a,b => decide (a = b)

def compareTableEntry (e f : TableEntry) : Bool :=
  decide (e.tableId = f.tableId ∧ e.priority = f.priority ∧ e.meterConfig = f.meterConfig ∧ e.counterData = f.counterData ∧
    e.meterCounterData = f.meterCounterData ∧ e.metadata = f.metadata) &&
  sameAsSet (fun m n => decide (m = n)) e.matches_ f.matches_ && compareTableAction e.action f.action

/-- The differencer of IR entries. -/
def compareIrActionInvocation (a b : IrActionInvocation) : Bool :=
  decide (a.name = b.name) && sameAsSet (fun p q => decide (p = q)) a.params b.params

def compareIrActionSetInvocation (a b : IrActionSetInvocation) : Bool :=
  compareIrActionInvocation a.action b.action && decide (a.weight = b.weight ∧ a.watchPort = b.watchPort)

def compareIrTableEntryType : IrTableEntryType → IrTableEntryType → Bool
  | .action a,.action b => compareIrActionInvocation a b
  | .actionSet as,.actionSet bs => sameAsSet compareIrActionSetInvocation as bs
  | a,b => decide (a = b)

def compareIrTableEntry (e f : IrTableEntry) : Bool :=
  decide (e.tableName = f.tableName ∧ e.priority = f.priority ∧ e.meterConfig = f.meterConfig ∧
    e.counterData = f.counterData ∧ e.meterCounterData = f.meterCounterData ∧ e.controllerMetadata = f.controllerMetadata) &&
  sameAsSet (fun m n => decide (m = n)) e.matches_ f.matches_ && compareIrTableEntryType e.type f.type

section Comparison
variable [InetText] (s : SwitchState)

/-- An entry that is not found as it is spelled is canonicalized and looked up again. -/
def SwitchState.getTableEntry (entry : TableEntry) : Fallible (Option TableEntry) :=
  match s.irP4Info.tablesById.lookup entry.tableId with
  | none => .error (.thrown "FindOrDie")
  | some _ =>
    match (s.tables entry.tableId).unordered.lookup entry.key with
    | some stored => .ok (some stored)
    | none =>
      match canonicalizeTableEntry s.irP4Info.toIrP4Info entry true with
      | .error _ => .ok none
      | .ok canonical => .ok ((s.tables entry.tableId).unordered.lookup canonical.key)

/-- The differences that a caller knows and accepts. -/
abbrev TreatAsEqual := Option (IrTableEntry → IrTableEntry → Bool)

/-- What the loop over the entries of the switch has found so far. -/
structure Comparison where
  statusMessage : String
  entryUniqueToSwitch : Bool := false
  deriving DecidableEq

/-- The comparison of a canonical entry of the switch with the stored entry of its key. -/
def SwitchState.compareFound (treatAsEqual : TreatAsEqual) (comparison : Comparison) (canonical : TableEntry) :
    Option TableEntry → Fallible Comparison
  | none => do
    let _ ← orFail (piTableEntryToIr s.irP4Info.toIrP4Info canonical {})
    .ok ⟨comparison.statusMessage ++ "The following entry exists on switch but not in Fuzzer:\n",true⟩
  | some fuzzerEntry =>
    if compareTableEntry fuzzerEntry canonical then .ok comparison else do
      let irSwitchEntry ← orFail (piTableEntryToIr s.irP4Info.toIrP4Info canonical {})
      let irFuzzerEntry ← orFail (piTableEntryToIr s.irP4Info.toIrP4Info fuzzerEntry {})
      if compareIrTableEntry irFuzzerEntry irSwitchEntry then
        .error (.status ⟨.internal,"PI 'entries' were not equal but IR 'entries' were\n"⟩)
      else if treatAsEqual.any fun equal => equal irFuzzerEntry irSwitchEntry then .ok comparison
      else .ok { comparison with
        statusMessage := comparison.statusMessage ++ "Entry exists in both switch and Fuzzer, but is different:\n" }

def SwitchState.compareEntry (treatAsEqual : TreatAsEqual) (comparison : Comparison) (switchEntry : TableEntry) :
    Fallible Comparison := do
  let canonical ← orFail (canonicalizeTableEntry s.irP4Info.toIrP4Info switchEntry false)
  let fuzzerEntry ← s.getTableEntry canonical
  s.compareFound treatAsEqual comparison canonical fuzzerEntry

/-- An entry of the switch is erased from the copy of the tables under the key that it has as read. -/
def SwitchState.eraseEntry (copy : UInt32 → AList fun _ : TableEntryKey => TableEntry) (switchEntry : TableEntry) :
    Fallible (UInt32 → AList fun _ : TableEntryKey => TableEntry) := do
  let found ← s.getTableEntry switchEntry
  .ok (if found.isSome then Function.update copy switchEntry.tableId ((copy switchEntry.tableId).erase switchEntry.key) else copy)

def SwitchState.entriesOf (copy : UInt32 → AList fun _ : TableEntryKey => TableEntry) : List TableEntry :=
  s.irP4Info.tablesById.flatMap fun table => (copy table.1).entries.map Sigma.snd

def SwitchState.reportMissing (statusMessage : String) (fuzzerEntry : TableEntry) : Fallible String := do
  let _ ← orFail (piTableEntryToIr s.irP4Info.toIrP4Info fuzzerEntry {})
  .ok (statusMessage ++ "The following entry exists in Fuzzer but not on switch:\n")

/-- The entries that exist only in the fuzzer are searched for when the numbers differ, the
multicast groups among them, or when the switch has an entry of its own. -/
def SwitchState.reportAllMissing (switchEntries : List TableEntry) (comparison : Comparison) : Fallible String :=
  if (switchEntries.length : Int) ≠ s.currentEntries ∨ comparison.entryUniqueToSwitch then do
    let copy ← switchEntries.foldlM s.eraseEntry fun id => (s.tables id).unordered
    (s.entriesOf copy).foldlM s.reportMissing comparison.statusMessage
  else .ok comparison.statusMessage

/-- The multicast groups count as entries of the state, but are no entries of its tables. -/
def SwitchState.assertEntriesAreEqualToState (switchEntries : List TableEntry) (treatAsEqual : TreatAsEqual) :
    Fallible Unit := do
  let size : Int := switchEntries.length
  let counted := if size ≠ s.currentEntries - s.multicast.current.entries then
      "Number of entries on switch does not match number of entries in Fuzzer\nEntries on switch: " ++ decimal size ++
        "\nEntries in Fuzzer: " ++ decimal s.currentEntries ++ "\n"
    else ""
  let comparison ← switchEntries.foldlM (s.compareEntry treatAsEqual) { statusMessage := counted }
  let statusMessage ← s.reportAllMissing switchEntries comparison
  if statusMessage = "" then .ok () else .error (.status ⟨.failedPrecondition,statusMessage⟩)

end Comparison

/-! ### Equality up to order -/

structure SameAction (a b : Action) : Prop where
  actionId : a.actionId = b.actionId
  params : a.params.Perm b.params

structure SameMember (a b : ActionProfileAction) : Prop where
  action : SameAction a.action b.action
  weight : a.weight = b.weight
  watchPort : a.watchPort = b.watchPort

/-- The same actions, up to the order of parameters and of the members of a set. -/
inductive SameTableAction : Option TableAction → Option TableAction → Prop
  | equal (a : Option TableAction) : SameTableAction a a
  | action {a b : Action} : SameAction a b → SameTableAction (some (.action a)) (some (.action b))
  | actionSet {as bs : List ActionProfileAction} : EqUpToOrder SameMember as bs →
      SameTableAction (some (.actionProfileActionSet as)) (some (.actionProfileActionSet bs))

/-- The same entries up to the order of match fields, action parameters and action-set members. -/
structure SameTableEntry (e f : TableEntry) : Prop where
  tableId : e.tableId = f.tableId
  priority : e.priority = f.priority
  meterConfig : e.meterConfig = f.meterConfig
  counterData : e.counterData = f.counterData
  meterCounterData : e.meterCounterData = f.meterCounterData
  metadata : e.metadata = f.metadata
  matches_ : e.matches_.Perm f.matches_
  action : SameTableAction e.action f.action

theorem compareAction_iff (a b : Action) : compareAction a b = true ↔ SameAction a b := by
  rw [compareAction,Bool.and_eq_true,decide_eq_true_iff,sameAsSet_eq_iff]
  exact ⟨fun ⟨hid,hparams⟩ => ⟨hid,hparams⟩,fun ⟨hid,hparams⟩ => ⟨hid,hparams⟩⟩

private theorem compareMember_iff (a b : ActionProfileAction) : compareMember a b = true ↔ SameMember a b := by
  rw [compareMember,Bool.and_eq_true,decide_eq_true_iff,compareAction_iff]
  exact ⟨fun ⟨haction,hweight,hport⟩ => ⟨haction,hweight,hport⟩,fun ⟨haction,hweight,hport⟩ => ⟨haction,hweight,hport⟩⟩

theorem SameAction.refl (a : Action) : SameAction a a := ⟨rfl,.refl _⟩

theorem SameMember.refl (a : ActionProfileAction) : SameMember a a := ⟨.refl _,rfl,rfl⟩

/-- Members that are the same are equivalent. -/
def memberSetoid : Setoid ActionProfileAction where
  r := SameMember
  iseqv :=
    { refl := .refl
      symm := fun h => ⟨⟨h.action.actionId.symm,h.action.params.symm⟩,h.weight.symm,h.watchPort.symm⟩
      trans := fun h h' => ⟨⟨h.action.actionId.trans h'.action.actionId,h.action.params.trans h'.action.params⟩,
        h.weight.trans h'.weight,h.watchPort.trans h'.watchPort⟩ }

theorem compareMembers_iff {as bs : List ActionProfileAction} :
    sameAsSet compareMember as bs = true ↔ EqUpToOrder SameMember as bs :=
  sameAsSet_iff memberSetoid compareMember_iff

private theorem compareTableAction_iff (a b : Option TableAction) : compareTableAction a b = true ↔ SameTableAction a b := by
  constructor
  · intro h
    unfold compareTableAction at h
    split at h
    · exact .action ((compareAction_iff _ _).mp h)
    · exact .actionSet (compareMembers_iff.mp h)
    · obtain rfl := of_decide_eq_true h
      exact .equal _
  · intro h
    cases h with
    | equal =>
      cases a with
      | none => rfl
      | some a =>
        cases a with
        | action a => exact (compareAction_iff _ _).mpr (.refl _)
        | actionProfileActionSet as => exact compareMembers_iff.mpr ⟨as,List.forall₂_same.mpr fun _ _ => .refl _,.refl _⟩
        | _ => simp [compareTableAction]
    | action h => exact (compareAction_iff _ _).mpr h
    | actionSet h => exact compareMembers_iff.mpr h

theorem compareTableEntry_iff (e f : TableEntry) : compareTableEntry e f = true ↔ SameTableEntry e f := by
  rw [compareTableEntry,Bool.and_eq_true,Bool.and_eq_true,decide_eq_true_iff,sameAsSet_eq_iff,compareTableAction_iff]
  exact ⟨fun ⟨⟨⟨h1,h2,h3,h4,h5,h6⟩,hmatches⟩,haction⟩ => ⟨h1,h2,h3,h4,h5,h6,hmatches,haction⟩,
    fun ⟨h1,h2,h3,h4,h5,h6,hmatches,haction⟩ => ⟨⟨⟨h1,h2,h3,h4,h5,h6⟩,hmatches⟩,haction⟩⟩

end SonicPins.P4Fuzzer
