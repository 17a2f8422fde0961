import SonicPins.Lib.Layering
import SonicPins.Pdpi.Values

/-! Sequencing of updates into batches that can be sent one after another, by the
references between the table entries. -/
namespace SonicPins.Pdpi
open Lib

/-- A referenced match field, as table and match field, with a value. -/
abbrev ReferencedValue := String × String × Bytes

def graphError (what : String) (s : Status) : Status := s.annotate ("Failed to build dependency graph: " ++ what ++ " does not exist.")

def tableOf (info : IrP4Info) (e : TableEntry) : StatusOr IrTableDefinition :=
  (findPtrOrStatus info.tablesById e.tableId).mapError
    (graphError ("Table with ID " ++ natText e.tableId.toNat))

def MatchValue.referable : MatchValue → Option Bytes
  | .exact value => some value
  | .optional value => some value
  | _ => none

def getMatchFieldValue (table : IrTableDefinition) (e : TableEntry) (matchField : String) : StatusOr (Option Bytes) :=
  ((findPtrOrStatus table.matchFieldsByName matchField).mapError
    (graphError ("Match field with name " ++ matchField))).map fun d =>
      e.matches_.findSome? fun m => if m.fieldId = d.matchField.id then m.value.referable else none

def referableValues (info : IrP4Info) (e : TableEntry) : StatusOr (List ReferencedValue) := do
  let table ← tableOf info e
  let values ← (info.references.filter fun r => table.preamble.aliasName = r.table).mapM fun r =>
    (getMatchFieldValue table e r.matchField).map fun value => value.map fun v => (r.table,r.matchField,v)
  .ok values.reduceOption

/-- The accessors `exact().value()` and `optional().value()`, empty for other matches. -/
def MatchValue.exactValue : MatchValue → Bytes
  | .exact value => value
  | _ => []

def MatchValue.optionalValue : MatchValue → Bytes
  | .optional value => value
  | _ => []

def matchReference (d : IrMatchFieldDefinition) (value : MatchValue) (r : IrMatchFieldReference) : StatusOr ReferencedValue :=
  match d.matchField.matchType with
  | .exact => .ok (r.table,r.matchField,value.exactValue)
  | .optional => .ok (r.table,r.matchField,value.optionalValue)
  | _ => .error (invalidArgument "Only exact or optional match fields can use @refers_to.")

def matchReferences (table : IrTableDefinition) (m : FieldMatch) : StatusOr (List ReferencedValue) := do
  let d ← (findPtrOrStatus table.matchFieldsById m.fieldId).mapError
    (graphError ("Match field with ID " ++ natText m.fieldId.toNat))
  d.references.mapM (matchReference d m.value)

def paramReferences (action : IrActionDefinition) (p : ActionParamValue) : StatusOr (List ReferencedValue) :=
  ((findPtrOrStatus action.paramsById p.paramId).mapError
    (graphError ("Aciton param with ID " ++ natText p.paramId.toNat))).map fun d =>
      d.references.map fun r => (r.table,r.matchField,p.value)

def actionReferences (info : IrP4Info) (a : Action) : StatusOr (List ReferencedValue) := do
  let d ← (findPtrOrStatus info.actionsById a.actionId).mapError
    (graphError ("Action with ID " ++ natText a.actionId.toNat))
  (a.params.mapM (paramReferences d)).map List.flatten

def unsupportedAction : Status := ⟨.unimplemented,"Only kAction and kActionProfileActionSet are supported: "⟩

def actionsReferences (info : IrP4Info) (e : TableEntry) : StatusOr (List (List ReferencedValue)) :=
  match e.action with
  | some (.action a) => (actionReferences info a).map fun values => [values]
  | some (.actionProfileActionSet actions) => actions.mapM fun a => actionReferences info a.action
  | _ => .error unsupportedAction

def entryReferences (info : IrP4Info) (e : TableEntry) : StatusOr (List ReferencedValue) := do
  let table ← tableOf info e
  let fromMatches ← e.matches_.mapM (matchReferences table)
  let fromActions ← actionsReferences info e
  .ok (fromMatches.flatten ++ fromActions.flatten)

/-- An edge leads to the update that has to wait. -/
def dependencyEdge (currentType referredType : UpdateType) (current referred : Nat) : Option (Nat × Nat) :=
  if (currentType = .insert ∨ currentType = .modify) ∧ referredType = .insert then some (referred,current)
  else if currentType = .delete ∧ referredType = .delete then some (current,referred)
  else none

def typeAt (updates : List Update) (i : Nat) : UpdateType := (updates[i]?.map Update.type).getD .unspecified

def recordDependenciesForReferencedValue (updates : List Update) (current : Nat) (indices : List (ReferencedValue × Nat))
    (value : ReferencedValue) : List (Nat × Nat) :=
  (indices.filter fun x => x.1 = value).filterMap fun x =>
    dependencyEdge (typeAt updates current) (typeAt updates x.2) current x.2

def buildDependencyGraph (info : IrP4Info) (updates : List Update) : StatusOr (Finset (Nat × Nat)) := do
  let indices ← updates.zipIdx.mapM fun u =>
    (referableValues info (entityTableEntry u.1.entity)).map fun values => values.map fun v => (v,u.2)
  let edges ← updates.zipIdx.mapM fun u => (entryReferences info (entityTableEntry u.1.entity)).map fun values =>
    values.flatMap (recordDependenciesForReferencedValue updates u.2 indices.flatten)
  .ok edges.flatten.toFinset

def cyclicGraph : Status := invalidArgument ("The dependency graph generated during P4 update sequencing is cyclic. " ++
  "This indicates a cycle in @foreign_key dependencies in the P4 program.")

/-- The batches, when the loop ends within the given number of rounds. -/
def sequencePiUpdatesInPlace (rounds : Nat) (info : IrP4Info) (updates : List Update) :
    Option (StatusOr (List (List Nat))) :=
  match buildDependencyGraph info updates with
  | .error status => some (.error status)
  | .ok graph =>
    let roots := (List.range updates.length).filter fun v => inDegree graph v = 0
    (peel rounds roots graph).map fun r => if r.2.card ≠ 0 then .error cyclicGraph else .ok r.1

end SonicPins.Pdpi
