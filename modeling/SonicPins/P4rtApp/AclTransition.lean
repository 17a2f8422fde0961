import Mathlib.Data.List.Sort
import SonicPins.P4rtApp.P4InfoReconcile

/-! The ACL tables and their entries in the AppDb, changed from one P4Info to the next. -/
namespace SonicPins.P4rtApp
open Lib Pdpi Sonic

section Exchanges

/-- The AppDb, and how many exchanges there were with the lower layers. -/
structure DbSession where
  db : AppDb
  exchanges : Nat := 0

/-- The lower layers, by what they answer in every exchange. -/
abbrev SwitchLayers := Nat → LowerLayer

variable (layers : SwitchLayers)

/-- Sends one row of a definition and waits for its answer. What a failed exchange leaves in the
AppDb is not followed. -/
def sendDefinition (s : DbSession) (row : KeyOpFieldsValues) : Fallible DbSession := do
  let responses ← orFail (getZmqResponses 1 ((layers s.exchanges).zmq 0 [row]))
  let statuses ← orFail (updateResponses [(row.key,0)] responses [.okStatus])
  let status := statusAt statuses 0
  if status.isOk then .ok ⟨s.db.apply ⟨.p4rt,row⟩,s.exchanges + 1⟩ else .error (.status (invalidArgument status.message))

def insertAclTableDefinition (fs : PipelineFunctions) (table : IrTableDefinition) (s : DbSession) : Fallible DbSession := do
  let row ← orFail (appDbAclTableDefinition fs table)
  sendDefinition layers s row

def removeAclTableDefinitionByKey (key : String) (s : DbSession) : Fallible DbSession := sendDefinition layers s ⟨key,.del,[]⟩

def removeAclTableDefinition (tableName : String) (s : DbSession) : Fallible DbSession :=
  removeAclTableDefinitionByKey layers (generateSonicDbKeyFromTableName tableName) s

def removeAclTableDefinitionOf (table : IrTableDefinition) (s : DbSession) : Fallible DbSession := do
  let key ← orFail (generateSonicDbKeyFromIrTable table)
  removeAclTableDefinitionByKey layers key s

/-- Performs updates all of which have to succeed; the first that does not is reported. -/
def performAll (failed : Status → Status) (updates : List AppDbUpdate) (s : DbSession) : Fallible DbSession := do
  let (_,statuses,_) ← orFail
    ((performAppDbUpdates (layers s.exchanges) updates.zipIdx (updates.map fun _ => .okStatus)).mapError Prod.fst)
  match statuses.find? fun status => !status.isOk with
  | some status => .error (.status (failed status))
  | none => .ok ⟨updates.foldl AppDb.apply s.db,s.exchanges + 1⟩

/-- Translation without a check of constraints. -/
def skipConstraints : ConstraintInfo := ⟨fun _ => .ok "",fun _ _ h => by cases h⟩

variable [InetText] (translation : SwitchTranslation)

def entityAppDbUpdate (info : IrP4Info) (type : UpdateType) (e : Entity) : Fallible AppDbUpdate :=
  (piUpdateToEntityUpdate info skipConstraints translation "" ⟨type,e⟩).map EntityUpdate.appDbUpdate

def updateAppDbEntities (info : IrP4Info) (type : UpdateType) (entities : List Entity) (s : DbSession) : Fallible DbSession := do
  let updates ← entities.mapM (entityAppDbUpdate translation info type)
  performAll layers (fun status => ⟨.internal,"Failed to perform " ++ UpdateType.typeName type ++
    " << in AppDB for entity: []. Error: " ++ status.message⟩) updates s

def removeAclTableFromAppDb (info : IrP4Info) (tableName : String) (entities : List Entity) (s : DbSession) : Fallible DbSession := do
  let s ← if entities.isEmpty then .ok s
    else do
      let updates ← entities.mapM (entityAppDbUpdate translation info .delete)
      performAll layers (fun status => ⟨.internal,"Failed to remove entity '': " ++ status.message⟩) updates s
  removeAclTableDefinition layers tableName s

end Exchanges

/-- `Map::insert`, which keeps a value that is there. -/
def insertNew {κ α : Type} [DecidableEq κ] (m : List (κ × α)) (k : κ) (v : α) : List (κ × α) :=
  if (m.lookup k).isSome then m else m ++ [(k,v)]

def duplicateTableName (tableName : String) : String := tableName ++ "_duplicate_"

def largestTableId (info : IrP4Info) : UInt32 :=
  (info.tablesById.map Prod.fst).foldl (fun largest id => if id > largest then id else largest) 0

def addTableId (id : UInt32) (profile : ActionProfile) : ActionProfile := { profile with tableIds := profile.tableIds ++ [id] }

/-- Adds a table to the action profiles of another, found by name and `at` their ids. -/
def updateActionProfiles (tableId duplicateId : UInt32) (info : IrP4Info) : IrP4Info :=
  let shared := (info.actionProfilesByName.map Prod.snd).filter fun profile => tableId ∈ profile.tableIds
  { info with
    actionProfilesByName := info.actionProfilesByName.map fun x =>
      (x.1,if tableId ∈ x.2.tableIds then addTableId duplicateId x.2 else x.2)
    actionProfilesById := shared.foldl (fun m profile => m.map fun x =>
      (x.1,if x.1 = profile.preamble.id then addTableId duplicateId x.2 else x.2)) info.actionProfilesById }

@[simp] theorem updateActionProfiles_tablesById (tableId duplicateId : UInt32) (info : IrP4Info) :
    (updateActionProfiles tableId duplicateId info).tablesById = info.tablesById := rfl

@[simp] theorem updateActionProfiles_tablesByName (tableId duplicateId : UInt32) (info : IrP4Info) :
    (updateActionProfiles tableId duplicateId info).tablesByName = info.tablesByName := rfl

/-- The P4Info with a copy of a table, and the name of the copy. -/
def duplicateTable (info : IrP4Info) (tableName : String) : StatusOr (IrP4Info × String) :=
  match info.tablesByName.lookup tableName with
  | none => .error ⟨.notFound,"Cannot duplicate table '" ++ tableName ++ "': Table not found in IrP4Info."⟩
  | some table =>
    let name := duplicateTableName tableName
    let id := largestTableId info + 1
    let copy := { table with
      preamble := { table.preamble with aliasName := name,name := table.preamble.name ++ "_duplicate_",id := id } }
    .ok (updateActionProfiles table.preamble.id id { info with
      tablesByName := insertNew info.tablesByName name copy,tablesById := insertNew info.tablesById id copy },name)

/-- `mutable_table_entry()->set_table_id`. -/
def withTableId (id : UInt32) (e : Entity) : Entity := .tableEntry { entityTableEntry e with tableId := id }

variable (fs : PipelineFunctions) (layers : SwitchLayers) [InetText] (translation : SwitchTranslation)

/-- The text that a caller puts before or after an error. -/
def withPrefix (text : String) (r : Fallible DbSession) : Fallible DbSession :=
  r.mapError fun
    | .status s => .status ⟨s.code,text ++ s.message⟩
    | .thrown what => .thrown what

def withSuffix (text : String) (r : Fallible DbSession) : Fallible DbSession :=
  r.mapError fun
    | .status s => .status (s.annotate text)
    | .thrown what => .thrown what

/-- Replaces the definition of a table whose entries stay programmed, in a copy, meanwhile. -/
def replaceTableInAppDb (old new : IrP4Info) (tableName : String) (entities : List Entity) (s : DbSession) :
    Fallible DbSession := do
  let (temporary,duplicate) ← orFail (duplicateTable old tableName)
  let copy ← tableNamed temporary duplicate
  let s ← withPrefix ("Failed to insert duplicate table for '" ++ tableName ++ "': ") (insertAclTableDefinition layers fs copy s)
  let copies := entities.map (withTableId copy.preamble.id)
  let s ← withPrefix ("Failed to insert entities into duplicate table '" ++ duplicate ++ "': ")
    (updateAppDbEntities layers translation temporary .insert copies s)
  let s ← withPrefix ("Failed to delete entities from original table '" ++ tableName ++ "'")
    (updateAppDbEntities layers translation old .delete entities s)
  let s ← withSuffix ("Failed to original duplicate ACL table '" ++ duplicate ++ "'") (removeAclTableDefinition layers tableName s)
  let table ← tableNamed new tableName
  let s ← withSuffix ("Failed to insert new ACL table '" ++ tableName ++ "'") (insertAclTableDefinition layers fs table s)
  let s ← withPrefix ("Failed to insert entities into new table '" ++ tableName)
    (updateAppDbEntities layers translation new .insert entities s)
  let s ← withPrefix ("Failed to delete entities from duplicate table '" ++ duplicate ++ "'")
    (updateAppDbEntities layers translation temporary .delete copies s)
  withSuffix ("Failed to remove duplicate ACL table '" ++ duplicate ++ "'") (removeAclTableDefinition layers duplicate s)

def getCachedEntitiesWithId (cache : EntityCache) (tableId : UInt32) : List Entity :=
  (cache.entries.entries.map fun x => x.2).filter fun e => (entityTableEntry e).tableId = tableId

def getCachedEntitiesInTable (cache : EntityCache) (info : IrP4Info) (tableName : String) : List Entity :=
  match info.tablesByName.lookup tableName with
  | none => []
  | some table => getCachedEntitiesWithId cache table.preamble.id

def estimateBitwidth (table : IrTableDefinition) : Nat := (table.matchFieldsByName.map fun f => f.2.matchField.bitwidth).sum

/-- Tables with wide matches come first, then names in descending order. -/
def comesBefore (left right : IrTableDefinition) : Bool :=
  if estimateBitwidth left ≠ estimateBitwidth right then estimateBitwidth left > estimateBitwidth right
  else left.preamble.aliasName > right.preamble.aliasName

def orderTablesBySize (tables : List IrTableDefinition) : List IrTableDefinition :=
  tables.insertionSort fun left right => !comesBefore right left

/-- Inserts a table that was added or removed before, with the entities it had. -/
def addTable (new : IrP4Info) (removed : String → List Entity) (s : DbSession) (table : IrTableDefinition) : Fallible DbSession := do
  let name := table.preamble.aliasName
  let s ← withSuffix ("Failed to insert new ACL table '" ++ name) (insertAclTableDefinition layers fs table s)
  if (removed name).isEmpty then .ok s
  else
    withPrefix ("Failed to repopulate modified ACL table '" ++ name ++ "'")
      (updateAppDbEntities layers translation new .insert (removed name) s)

def transitionAcls (t : P4InfoReconcileTransition) (cache : EntityCache) (old new : IrP4Info) (s : DbSession) :
    Fallible DbSession := do
  let removed (name : String) : List Entity :=
    if name ∈ t.essentialAclTablesToModify ∨ name ∈ t.nonessentialAclTablesToModify then getCachedEntitiesInTable cache old name
    else []
  let couldNot (name : String) := withPrefix ("Could not remove ACL table '" ++ name ++ "' from AppDb: ")
  let s ← t.aclTablesToDelete.foldlM (fun s name => do
    let table ← tableNamed old name
    couldNot name (removeAclTableDefinitionOf layers table s)) s
  let added ← t.aclTablesToAdd.mapM (tableNamed new)
  let s ← t.nonessentialAclTablesToModify.foldlM (fun s name =>
    couldNot name (removeAclTableFromAppDb layers translation old name (removed name) s)) s
  let nonessential ← t.nonessentialAclTablesToModify.mapM (tableNamed new)
  let (populated,empty) := t.essentialAclTablesToModify.partition fun name => !(removed name).isEmpty
  let s ← empty.foldlM (fun s name => couldNot name (removeAclTableDefinition layers name s)) s
  let essential ← empty.mapM (tableNamed new)
  let s ← populated.foldlM (fun s name => withPrefix ("Failed to modify essential ACL table '" ++ name ++ ": ")
    (replaceTableInAppDb fs layers translation old new name (removed name) s)) s
  (orderTablesBySize (added ++ nonessential ++ essential)).foldlM (addTable fs layers translation new removed) s

end SonicPins.P4rtApp
