import SonicPins.P4rtApp.AclTransition

/-! A forwarding pipeline config that is pushed to the switch, or restored at a warm boot. -/
namespace SonicPins.P4rtApp
open Lib Pdpi Sonic

/-- The actions of a `SetForwardingPipelineConfigRequest`. -/
inductive PipelineAction where
  | unspecified | verify | verifyAndSave | verifyAndCommit | commit | reconcileAndCommit
  | unknown (n : Int32)
  deriving DecidableEq,Repr

/-- `Action_Name`, which is empty for a number without a name. -/
def PipelineAction.actionName : PipelineAction → String
  | .unspecified => "UNSPECIFIED"
  | .verify => "VERIFY"
  | .verifyAndSave => "VERIFY_AND_SAVE"
  | .verifyAndCommit => "VERIFY_AND_COMMIT"
  | .commit => "COMMIT"
  | .reconcileAndCommit => "RECONCILE_AND_COMMIT"
  | .unknown _ => ""

structure SetForwardingPipelineConfigRequest extends MutableRequest where
  action : PipelineAction := .unspecified
  config : Option ForwardingPipelineConfig := none

/-- A status that `absl::StatusOr` can hold in place of a value. -/
def IsError (s : Status) : Prop := s.code ≠ .ok

/-- What a push asks of a P4Info, and the library that is named with an error of its validation. -/
structure PushFunctions extends PipelineFunctions where
  validationLibrary : String → Option String
  constraintErrors : ∀ p4info,FailsWith IsError (p4ToConstraintInfo p4info)
  infoErrors : ∀ p4info,FailsWith IsError (createIrP4Info p4info)
  hashFieldErrors : ∀ info,FailsWith IsError (extractHashPacketFieldConfigs info)
  hashParamErrors : ∀ info,FailsWith IsError (extractHashParamConfigs info)
  definitionErrors : ∀ table,FailsWith IsError (aclTableDefinitionValues table)

/-- What a push meets below the server: the answers about P4RT rows, hash fields and the switch
table, and the file that a config is saved in. -/
structure PushEnvironment where
  layers : SwitchLayers
  setHashFields : List HashPacketFieldConfig → Status
  delHashFields : List String → Status
  setSwitchTable : HashParamConfigs → List HashPacketFieldConfig → Status
  forwardingConfigFullPath : Option String
  readProtoFromFile : String → StatusOr ForwardingPipelineConfig
  saveProtoToFile : String → ForwardingPipelineConfig → Status
  readErrors : ∀ path,FailsWith IsError (readProtoFromFile path)

section Preparation
variable (fs : PushFunctions)

def libraryPrefix (library : Option String) : String :=
  match library with
  | some name => "[P4RT/" ++ name ++ "] "
  | none => "[P4RT] "

def preprocessConfig (config : Option ForwardingPipelineConfig) : StatusOr (ForwardingPipelineConfig × ConfigInfo) :=
  match config with
  | none => .error (invalidArgument "ForwardingPipelineConfig is missing the config field.")
  | some config => do
    (fs.validateP4Info config.p4info).mapError fun s =>
      invalidArgument (libraryPrefix (fs.validationLibrary config.p4info) ++ "Failed to validate P4Info. Details: " ++ s.message)
    let constraints ← (fs.p4ToConstraintInfo config.p4info).mapError fun s => s.prepend "[P4 Constraint] "
    let info ← (fs.createIrP4Info config.p4info).mapError fun s => s.prepend "[P4RT/PDPI] "
    let fields ← (fs.extractHashPacketFieldConfigs info.toIrP4Info).mapError fun s => s.prepend "[P4RT/PDPI] "
    let params ← (fs.extractHashParamConfigs info.toIrP4Info).mapError fun s => s.prepend "[P4RT/PDPI] "
    .ok (config,⟨info,constraints,fields,params⟩)

/-- A failure that makes the switch critical. -/
def criticalFailure (message : String) : Failure := .status ⟨.internal,(enterCriticalState message).message⟩

/-- Makes the returned errors of a step critical; an exception goes on as it is. -/
def orCritical {α : Type} (text : Status → String) (r : Fallible α) : Fallible α :=
  r.mapError fun
    | .status s => criticalFailure (text s)
    | .thrown what => .thrown what

def ofStatus (s : Status) : Fallible Unit := if s.isOk then .ok () else .error (.status s)

/-- A step that is taken on a condition. -/
def stepIf {α : Type} (c : Bool) (step : α → Fallible α) (a : α) : Fallible α := if c then step a else .ok a

end Preparation

section HashSettings
variable (env : PushEnvironment)

def programHashFieldTable (configs : List HashPacketFieldConfig) : Fallible Unit :=
  if configs.isEmpty then .ok () else ofStatus (env.setHashFields configs)

def removeFromHashFieldTable (configKeys : List String) : Fallible Unit :=
  if configKeys.isEmpty then .ok () else ofStatus (env.delHashFields configKeys)

def programSwitchTable (params : HashParamConfigs) (fields : List HashPacketFieldConfig) : Fallible Unit :=
  if params.isEmpty && fields.isEmpty then .ok () else ofStatus (env.setSwitchTable params fields)

def transitionHashConfig (t : P4InfoReconcileTransition) (fields : List HashPacketFieldConfig) (params : HashParamConfigs) :
    Fallible Unit := do
  let couldNot (what : String) (s : Status) := "Could not update hash settings. Failed to " ++ what ++ ": " ++ s.message
  stepIf (!t.hashingPacketFieldConfigsToSet.isEmpty)
    (fun _ => orCritical (couldNot "set new packet field configs") (programHashFieldTable env fields)) ()
  stepIf (!t.hashingPacketFieldConfigsToDelete.isEmpty)
    (fun _ => orCritical (couldNot "delete packet field configs")
      (removeFromHashFieldTable env t.hashingPacketFieldConfigsToDelete)) ()
  stepIf t.updateSwitchTable (fun _ => orCritical (couldNot "program switch table") (programSwitchTable env params fields)) ()

end HashSettings

section Configuration
variable (fs : PushFunctions) (env : PushEnvironment)

/-- The row that announces the extension tables; none is ever put into it. -/
def tablesDefinitionRow : KeyOpFieldsValues :=
  ⟨tablesDefinitionTableName ++ ":\x7b\"context\":\"0\"\x7d",.set,[("info",utf8 "\x7b\"tables\":null\x7d")]⟩

/-- Sends the definition of an ACL table; the extension tables are announced after every table. -/
def configureTable (s : DbSession) (table : IrTableDefinition) : Fallible DbSession := do
  let name := table.preamble.aliasName
  let type ← orFail ((getTableType table).mapError fun s => s.annotate ("Failed to configure table " ++ name ++ "."))
  let s ← stepIf (type = .acl) (fun s => withSuffix ("Failed to add ACL table definition '" ++ name ++ "' to AppDb.")
    (insertAclTableDefinition env.layers fs.toPipelineFunctions table s)) s
  sendDefinition env.layers s tablesDefinitionRow

def configureAppDbTables (info : IrP4Info) (s : DbSession) : Fallible DbSession := do
  let s ← (orderTablesBySize (info.tablesByName.map Prod.snd)).foldlM (configureTable fs env) s
  let fields ← orFail (fs.extractHashPacketFieldConfigs info)
  let params ← orFail (fs.extractHashParamConfigs info)
  programHashFieldTable env fields
  programSwitchTable env params fields
  .ok s

end Configuration

variable (fs : PushFunctions) (env : PushEnvironment) [InetText]

/-- Brings the lower layers from the current P4Info to the new one. -/
def reconcileConfig (s : ServerState) (current : IrP4Info) (new : ConfigInfo) (db : DbSession) :
    Fallible (ActionProfileCapacityMap × DbSession) := do
  let transition ← calculateTransition fs.toPipelineFunctions current new.irP4Info.toIrP4Info
  orFail (isSupportedTransition transition)
  let capacities ← orFail (getUpdatedResourceCapacities new.irP4Info.toIrP4Info s.capacityByActionProfileName)
  stepIf transition.updateSwitchTable
    (fun _ => transitionHashConfig env transition new.hashPacketFieldConfigs new.hashParamConfigs) ()
  let db ← orCritical (fun status => "Failed to reconcile ACL tables in new ForwardingPipelineConfig: " ++ status.message)
    (transitionAcls fs.toPipelineFunctions env.layers s.translation transition s.entityCache current new.irP4Info.toIrP4Info db)
  .ok (capacities,db)

/-- Configures the lower layers for a first P4Info. -/
def applyFirstConfig (s : ServerState) (commitToHardware : Bool) (new : ConfigInfo) (db : DbSession) :
    Fallible (ActionProfileCapacityMap × DbSession) := do
  let db ← stepIf commitToHardware (fun db =>
    orCritical (fun status => "Failed to apply ForwardingPipelineConfig: " ++ status.toString)
      (configureAppDbTables fs env new.irP4Info.toIrP4Info db)) db
  .ok (addCapacities new.irP4Info.toIrP4Info s.capacityByActionProfileName,db)

/-- The steps that come before any member is changed. -/
def applyConfig (s : ServerState) (commitToHardware : Bool) (new : ConfigInfo) (db : DbSession) :
    Fallible (ActionProfileCapacityMap × DbSession) :=
  match s.irP4Info with
  | some current => reconcileConfig fs env s current.toIrP4Info new db
  | none => applyFirstConfig fs env s commitToHardware new db

def savePipelineConfig (config : ForwardingPipelineConfig) : Fallible Unit :=
  match env.forwardingConfigFullPath with
  | none => .ok ()
  | some path => (ofStatus (env.saveProtoToFile path config)).mapError fun
    | .status s => .status (s.prepend "Failed to save the ForwardingPipelineConfig to disk. ")
    | .thrown what => .thrown what

/-- The members that a new config replaces. -/
def ServerState.withConfig (s : ServerState) (config : ForwardingPipelineConfig) (new : ConfigInfo)
    (capacities : ActionProfileCapacityMap) : ServerState :=
  { s with
    irP4Info := some new.irP4Info,constraintInfo := some new.constraints,forwardingPipelineConfig := some config,
    capacityByActionProfileName := capacities,constraintsSet := fun _ => rfl }

/-- The current P4Info, if a new one is equivalent to it. -/
def isCurrentP4Info (s : ServerState) (new : ConfigInfo) : Bool :=
  s.irP4Info.any fun current => fs.isEquivalent current.toIrP4Info new.irP4Info.toIrP4Info

/-- The server after the commit, with the AppDb of a commit that succeeds. -/
def reconcileAndCommitPipelineConfig (commitToHardware : Bool) (config : Option ForwardingPipelineConfig) (s : ServerState)
    (db : DbSession) : ServerState × Fallible DbSession :=
  match preprocessConfig fs config with
  | .error status => (s,.error (.status status))
  | .ok (config,new) =>
    if isCurrentP4Info fs s new then
      ({ s with forwardingPipelineConfig := some config },(savePipelineConfig env config).map fun _ => db)
    else match applyConfig fs env s commitToHardware new db with
      | .error failure => (s,.error failure)
      | .ok (capacities,db) =>
        (s.withConfig config new capacities,
          if commitToHardware then (savePipelineConfig env config).map fun _ => db else .ok db)

def rebuildCache (s : ServerState) (db : AppDb) : ServerState × Fallible Unit :=
  match s.irP4Info with
  | none => (s,.error (.thrown "bad optional access"))
  | some info => match rebuildEntityEntryCache info.toIrP4Info s.translation db with
    | .error failure => (s,.error failure)
    | .ok cache => ({ s with entityCache := cache },.ok ())

def verifyAndCommitPipelineConfig (config : Option ForwardingPipelineConfig) (s : ServerState) (db : DbSession) :
    ServerState × Fallible Unit :=
  if s.forwardingPipelineConfig.isSome then
    (s,.error (.status ⟨.unimplemented,
      "Clearing existing forwarding state is not supported. Try using RECONCILE_AND_COMMIT instead."⟩))
  else match reconcileAndCommitPipelineConfig fs env true config s db with
    | (s,.error failure) => (s,.error failure)
    | (s,.ok db) => ((rebuildCache s db.db).1,orCritical Status.toString (rebuildCache s db.db).2)

def commitPipelineConfig (config : Option ForwardingPipelineConfig) (s : ServerState) (db : DbSession) :
    ServerState × Fallible Unit :=
  if config.isSome then
    (s,.error (.status (invalidArgument ("The config field cannot be set when using the COMMIT action. " ++
      "It can only be loaded from from a previously saved file (e.g. VERIFY_AND_SAVE)."))))
  else match env.forwardingConfigFullPath with
    | none => (s,.error (.status ⟨.failedPrecondition,"P4RT App has not been configured to save forwarding configs. " ++
        "The COMMIT action cannot be used."⟩))
    | some path => match env.readProtoFromFile path with
      | .error status => (s,.error (.status status))
      | .ok saved => verifyAndCommitPipelineConfig fs env (some saved) s db

def answerPush : Fallible Unit → GrpcStatus
  | .ok () => .okStatus
  | .error (.status s) => if s.code = .internal then enterCriticalState s.message else .ofStatus s
  | .error (.thrown what) => enterCriticalState ("Exception caught in SetForwardingPipelineConfig, error:" ++ what)

def performAction (action : PipelineAction) (config : Option ForwardingPipelineConfig) (s : ServerState) (db : DbSession) :
    ServerState × Fallible Unit :=
  match action with
  | .verify => (s,(orFail (preprocessConfig fs config)).map fun _ => ())
  | .verifyAndCommit => verifyAndCommitPipelineConfig fs env config s db
  | .commit => commitPipelineConfig fs env config s db
  | .reconcileAndCommit =>
    let r := reconcileAndCommitPipelineConfig fs env true config s db
    (r.1,r.2.map fun _ => ())
  | action => (s,.error (.status ⟨.unimplemented,
      "SetForwardingPipelineConfig action '" ++ action.actionName ++ "' is unsupported."⟩))

/-- The server after a push and the answer to the controller. -/
def setForwardingPipelineConfig (s : ServerState) (db : DbSession) (r : SetForwardingPipelineConfigRequest) :
    ServerState × GrpcStatus :=
  let connection := allowRequest r.toMutableRequest s.controllers
  if !connection.isOk then (s,.ofStatus connection)
  else
    let done := performAction fs env r.action r.config s db
    (done.1,answerPush done.2)

end SonicPins.P4rtApp
