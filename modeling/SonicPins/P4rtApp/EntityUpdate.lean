import SonicPins.Sonic.AppDbManager

/-! From an update of a Write request to the entity update that is programmed. -/
namespace SonicPins.P4rtApp
open Lib Pdpi Sonic

/-- `p4_constraints::ConstraintInfo` by its check of a table entry. A failed check
reports an error of the library, which is never an authentication error. -/
structure ConstraintInfo where
  reasonEntryViolatesConstraint : TableEntry → StatusOr String
  errorCode : ∀ e s,reasonEntryViolatesConstraint e = .error s → s.code ≠ .ok ∧ s.code ≠ .unauthenticated

/-- The members that translate ports and queues. -/
structure SwitchTranslation where
  translatePortIds : Bool
  portTranslationMap : PortMap
  cpuQueueTranslator : QueueTranslator
  frontPanelQueueTranslator : QueueTranslator

def SwitchTranslation.options (t : SwitchTranslation) (direction : TranslationDirection) (info : IrP4Info) :
    TranslateTableEntryOptions :=
  ⟨direction,info,t.translatePortIds,t.portTranslationMap,t.cpuQueueTranslator,t.frontPanelQueueTranslator⟩

/-- An update with its translations; the key is the key of the normalized entity. -/
structure EntityUpdate where
  entry : IrEntity
  updateType : UpdateType
  piEntity : Entity
  entityKey : EntityKey
  appDbUpdate : AppDbUpdate
  keyed : makeEntityKey piEntity = .ok entityKey

def allowRoleAccessToTable (roleName tableName : String) (info : IrP4Info) : StatusOr Unit :=
  if roleName.isEmpty then .ok ()
  else match info.tablesByName.lookup tableName with
    | none => .error ⟨.internal,"Could not find table '" ++ tableName ++
        "' when checking role access. Did an IR translation fail somewhere?"⟩
    | some table =>
      if table.role ≠ roleName then
        .error ⟨.permissionDenied,"Role '" ++ roleName ++ "' is not allowed access to table '" ++ tableName ++ "'."⟩
      else .ok ()

def validateTableEntryConstraints (entry : TableEntry) (constraints : ConstraintInfo) : StatusOr Unit :=
  match constraints.reasonEntryViolatesConstraint entry with
  | .error status => .error status
  | .ok reason => if reason.isEmpty then .ok () else .error (invalidArgument reason)

/-- The checks that only table entries have: constraints, unless deleted, and role. -/
def verifyTableEntry (info : IrP4Info) (constraints : ConstraintInfo) (roleName : String) (update : Update)
    (ir : IrEntity) : StatusOr Unit :=
  match update.entity,ir with
  | .tableEntry pi,.tableEntry entry => do
    if update.type ≠ .delete then validateTableEntryConstraints pi constraints
    allowRoleAccessToTable roleName entry.tableName info
  | _,_ => .ok ()

variable [InetText]

def pdpiOptions (type : UpdateType) : TranslationOptions := { keyOnly := type = .delete }

/-- The IR of an update, with the prefix of the library in its errors. -/
def updateIr (info : IrP4Info) (update : Update) : StatusOr IrEntity :=
  (piEntityToIr info update.entity (pdpiOptions update.type)).mapError fun s => ⟨s.code,"[P4RT/PDPI] " ++ s.message⟩

/-- The normalized entity and its key. The translation back from IR is read
without a check of its status, which throws when it failed. -/
def updateKey (info : IrP4Info) (type : UpdateType) (ir : IrEntity) :
    Fallible { p : Entity × EntityKey // makeEntityKey p.1 = .ok p.2 } :=
  match irEntityToPi info ir (pdpiOptions type) with
  | .error status => .error (.thrown ("Bad StatusOr access: " ++ status.message))
  | .ok pi => match h : makeEntityKey pi with
    | .error status => .error (.status status)
    | .ok key => .ok ⟨(pi,key),h⟩

def piUpdateToEntityUpdate (info : IrP4Info) (constraints : ConstraintInfo) (translation : SwitchTranslation)
    (roleName : String) (update : Update) : Fallible EntityUpdate := do
  let ir ← orFail (updateIr info update)
  orFail (verifyTableEntry info constraints roleName update ir)
  let entry ← orFail (updateIrEntityForOrchAgent (translation.options .forOrchAgent info) ir)
  let ⟨(pi,key),keyed⟩ ← updateKey info update.type ir
  let appDbUpdate ← createAppDbUpdate update.type entry info
  .ok ⟨entry,update.type,pi,key,appDbUpdate,keyed⟩

end SonicPins.P4rtApp
