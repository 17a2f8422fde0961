import SonicPins.Pdpi.IrToPd

/-! Translation of PD table entries to IR, and their projection to the key. -/
namespace SonicPins.Pdpi
open Lib Packetlib

/-- `HasField`: a text is set when it is not empty. -/
def PdMatch.has (pd : PdMatch) (name : String) : Bool := pd.text name ≠ "" || (pd.message name).isSome

def PdMatch.lpm (pd : PdMatch) (name : String) : String × Int32 :=
  match pd.message name with
  | some (.lpm value prefixLength) => (value,prefixLength)
  | _ => ("",0)

def PdMatch.ternary (pd : PdMatch) (name : String) : String × String :=
  match pd.message name with
  | some (.ternary value mask) => (value,mask)
  | _ => ("","")

def PdMatch.optional (pd : PdMatch) (name : String) : String :=
  match pd.message name with
  | some (.optional value) => value
  | _ => ""

def pdMatchValueToIr (d : IrMatchFieldDefinition) (pd : PdMatch) (name : String) : Except (List String) IrMatchValue :=
  match d.matchField.matchType with
  | .exact => .ok (.exact (formattedStringToIrValue (pd.text name) d.format))
  | .lpm =>
    let (value,prefixLen) := pd.lpm name
    if prefixLen < 0 ∨ prefixLen.toInt > d.matchField.bitwidth then
      .error [bullet ("Prefix length " ++ decimal prefixLen.toInt ++ " is out of bounds.")]
    else .ok (.lpm (formattedStringToIrValue value d.format) prefixLen)
  | .ternary =>
    let (value,mask) := pd.ternary name
    .ok (.ternary (formattedStringToIrValue value d.format) (formattedStringToIrValue mask d.format))
  | .optional => .ok (.optional (formattedStringToIrValue (pd.optional name) d.format))
  | other => .error [bullet ("Unsupported match type '" ++ other.name ++ "'.")]

/-- An exact match that is not set is read as the empty text. -/
def pdMatchToIr (options : TranslationOptions) (pd : PdMatch) (x : String × IrMatchFieldDefinition) : Except String IrMatch :=
  let unsupported := unsupportedReason "Match field" x.2.isUnsupported options
  let invalid (reasons : List String) := generateFormattedError (matchFieldName x.1) (String.intercalate "\n" reasons)
  match pdMatchValueToIr x.2 pd x.1 with
  | .error reasons => .error (invalid (unsupported ++ reasons))
  | .ok value => if unsupported.isEmpty then .ok ⟨x.1,value⟩ else .error (invalid unsupported)

def pdMatchDefinition (table : IrTableDefinition) (name : String) : StatusOr (String × IrMatchFieldDefinition) :=
  match table.matchFieldsByName.lookup name with
  | some d => .ok (name,d)
  | none => .error (invalidArgument (generateFormattedError (matchFieldName name) (bullet "It does not exist in the P4Info.")))

def matchNames (table : IrTableDefinition) : List String :=
  (table.matchFieldsById.insertionSort fun a b => a.1 ≤ b.1).map fun x => x.2.matchField.name

/-- The match fields that are read: those that are set, and the exact ones. -/
def isRead (pd : PdMatch) (x : String × IrMatchFieldDefinition) : Bool :=
  pd.has x.1 || decide (x.2.matchField.matchType = .exact)

def pdMatchEntryToIr (options : TranslationOptions) (table : IrTableDefinition) (pd : PdMatch) : StatusOr (List IrMatch) := do
  let definitions ← (matchNames table).mapM (pdMatchDefinition table)
  let unknown := (table.pdMatchFields.filter fun name => pd.has name && name ∉ matchNames table).map fun name =>
    generateFormattedError (matchFieldName name) "Match field does not exist in the P4Info."
  let (reasons,irMatches) := partitionResults (pdMatchToIr options pd) (definitions.filter (isRead pd))
  if (unknown ++ reasons).isEmpty then .ok irMatches
  else .error (invalidArgument (String.intercalate "\n" (unknown ++ reasons)))

def pdParamToIr (d : IrActionDefinition) (texts : String → String) (name : String) : Except String IrActionParam :=
  match findPtrOrStatus d.paramsByName name with
  | .error status => .error (bullet (paramName name ++ ": " ++ status.message))
  | .ok p => .ok ⟨name,formattedStringToIrValue (texts name) p.format⟩

/-- The parameters are those that are set. -/
def pdActionInvocationToIr (info : IrP4Info) (options : TranslationOptions) (action : String × (String → String)) :
    StatusOr IrActionInvocation :=
  match info.actionsByName.lookup action.1 with
  | none => .error (invalidArgument (generateFormattedError (actionName action.1) (bullet "It does not exist in the P4Info.")))
  | some d =>
    let (reasons,params) := partitionResults (pdParamToIr d action.2) (d.pdFields.filter fun name => action.2 name ≠ "")
    unlessInvalid (actionName action.1) (unsupportedReason "Action" d.isUnsupported options ++ reasons) ⟨action.1,params⟩

def pdActionSetToIr (info : IrP4Info) (options : TranslationOptions) (pd : PdWcmpAction) : Except String IrActionSetInvocation :=
  match pd.action with
  | some (some action) => match pdActionInvocationToIr info options action with
    | .error status => .error (bullet (generateFormattedError "ActionSet" (bullet status.message)))
    | .ok ir => .ok ⟨ir,pd.weight,pd.watchPort⟩
  | _ => .ok ⟨{},pd.weight,pd.watchPort⟩

def pdTableActionToIr (info : IrP4Info) (options : TranslationOptions) (table : IrTableDefinition) (pd : PdTable) :
    List String × IrTableEntryType :=
  if table.usesOneshot then
    let (reasons,actions) := partitionResults (pdActionSetToIr info options) pd.wcmpActions
    (reasons,.actionSet actions)
  else match pd.action with
    | some (some action) => match pdActionInvocationToIr info options action with
      | .error status => ([bullet status.message],.notSet)
      | .ok ir => ([],.action ir)
    | _ => ([],.notSet)

/-- An invalid unit leaves both values as the errors they were made as. -/
def pdMeterConfigToIr (table : IrTableDefinition) (config : Option PdMeterConfig) : List String × Option MeterConfig :=
  match config with
  | none => ([],none)
  | some c =>
    if !table.hasMeter then ([],none)
    else match table.meterUnit with
      | .bytes => ([],some ⟨c.perSecond,c.burst,c.perSecond,c.burst⟩)
      | .packets => ([],some ⟨c.perSecond,c.burst,c.perSecond,c.burst⟩)
      | other => ([bullet ("Invalid meter unit: " ++ decimal other.number),bullet "",bullet ""],some {})

/-- The IR has counter data only for counts other than zero. -/
def pdCountersToIr (table : IrTableDefinition) (counts : Option CounterData) : List String × Option CounterData :=
  match counts with
  | none => ([],none)
  | some c =>
    if !table.hasCounter then ([],none)
    else match countsIn table.counterUnit c with
      | some ir => ([],if ir = {} then none else some ir)
      | none => ([bullet ("Invalid counter unit: " ++ decimal table.meterUnit.number)],none)

def pdColorCountsToIr (table : IrTableDefinition) (counts : Option CounterData) : StatusOr (Option CounterData) :=
  match counts with
  | none => .ok none
  | some c => match countsIn table.counterUnit c with
    | some ir => .ok (some ir)
    | none => .error (invalidArgument ("Invalid or missing counter unit: " ++ table.meterUnit.shortDebugString))

/-- `AddPdMeterCounterDataToIrEntry`. -/
def pdMeterCountersToIr (table : IrTableDefinition) (data : Option MeterCounterData) : List String × Option MeterCounterData :=
  match data with
  | none => ([],none)
  | some counters =>
    if !(table.hasMeter && table.hasCounter) then ([],none)
    else
      let colors : StatusOr MeterCounterData := do
        let green ← pdColorCountsToIr table counters.green
        let yellow ← pdColorCountsToIr table counters.yellow
        let red ← pdColorCountsToIr table counters.red
        .ok ⟨green,yellow,red⟩
      match colors with
      | .error status => ([status.message],none)
      | .ok ir => ([],some ir)

/-- The match fields and the priority, with the reasons against them. -/
def pdTableKeyToIr (options : TranslationOptions) (table : IrTableDefinition) (p4Name : String) (pd : PdTable) :
    List String × IrTableEntry :=
  let (matchReasons,irMatches) := match pdMatchEntryToIr options table (pd.match_.getD {}) with
    | .error status => ([bullet status.message],[])
    | .ok irMatches => ([],irMatches)
  (unsupportedReason ("Table '" ++ p4Name ++ "'") table.isUnsupported options ++ matchReasons,
    { tableName := p4Name,matches_ := irMatches,priority := if "priority" ∈ table.pdFields then pd.priority else 0 })

/-- `PartialPdTableEntryToIrTableEntry`, of the table whose field is set. -/
def pdTableEntryToIrTableEntry (info : IrP4Info) (fieldName : String) (pd : PdTable) (options : TranslationOptions) :
    StatusOr IrTableEntry :=
  match protobufFieldNameToP4Name fieldName with
  | .error status => .error (invalidArgument (generateFormattedError "Table" (bullet status.message)))
  | .ok p4Name =>
    match info.tablesByName.lookup p4Name with
    | none => .error (invalidArgument (generateFormattedError (tableName p4Name)
        (bullet "It does not exist in the P4Info. The PD proto and P4Info file are out of sync")))
    | some table =>
      let (keyReasons,key) := pdTableKeyToIr options table p4Name pd
      if options.keyOnly then unlessInvalid (tableName p4Name) keyReasons key
      else
        let (actionReasons,type) := pdTableActionToIr info options table pd
        let (meterReasons,meterConfig) := pdMeterConfigToIr table pd.meterConfig
        let (counterReasons,counterData) := pdCountersToIr table pd.counterData
        let (meterCounterReasons,meterCounterData) := pdMeterCountersToIr table pd.meterCounterData
        unlessInvalid (tableName p4Name) (keyReasons ++ actionReasons ++ meterReasons ++ counterReasons ++ meterCounterReasons)
          { key with
            controllerMetadata := pd.controllerMetadata,type := type,meterConfig := meterConfig,
            counterData := counterData,meterCounterData := meterCounterData }

def hexStringToUint32 (hexString : String) : StatusOr UInt32 :=
  (hexStringToAnyLargeEnoughBitset 32 hexString).map UInt32.ofNat

/-- The reading of backup replicas is commented out. -/
def pdReplicaToIr (pd : PdReplica) : StatusOr IrReplica :=
  (hexStringToUint32 pd.instanceId).map fun instanceId => { port := pd.port,instanceId := instanceId }

def pdReplicasToIr : List (Bytes × UInt32) → List PdReplica → List String × List IrReplica
  | _,[] => ([],[])
  | seen,pd :: pds => match pdReplicaToIr pd with
    | .error status =>
      let rest := pdReplicasToIr seen pds
      (bullet ("Error translating replica \x7b port: \"" ++ cEscape pd.port ++ "\" instance: \"" ++ pd.instanceId ++
        "\" \x7d: " ++ status.message) :: rest.1,rest.2)
    | .ok ir =>
      let (reasons,seen) := replicaReasons seen (ir.port,ir.instanceId) (ir.backupReplicas.map fun b => (b.port,b.instanceId))
      let rest := pdReplicasToIr seen pds
      (reasons ++ rest.1,ir :: rest.2)

def pdMulticastGroupEntryToIr (pd : PdMulticastGroupTableEntry) (options : TranslationOptions) :
    StatusOr IrMulticastGroupEntry :=
  let invalid (reason : String) := invalidArgument (generateFormattedError "MulticastGroupEntry" reason)
  match pd.match_ with
  | none => .error (invalid "'match' field is missing.")
  | some text =>
    if text.isEmpty then .error (invalid "'multicast_group_id' field is missing in 'match'.")
    else match hexStringToUint32 text with
      | .error status => .error (invalid (bullet status.message))
      | .ok groupId =>
        if options.keyOnly then .ok { multicastGroupId := groupId }
        else match pd.action with
          | none => .error (invalid "'action' field is missing.")
          | some none => .error (invalid "'replicate' field is missing in 'action'.")
          | some (some pdReplicas) =>
            let (reasons,replicas) := pdReplicasToIr [] pdReplicas
            unlessInvalid ("MulticastGroupEntry with group id '" ++ natText groupId.toNat ++ "'") reasons
              ⟨groupId,replicas,pd.metadata⟩

/-- The same reading of the message of a table, whose field can have the name of the built-in one. No table message has metadata. -/
def pdTableAsMulticastGroupToIr (gen : PdGenOptions) (info : IrP4Info) (pd : PdTable) (options : TranslationOptions) :
    StatusOr IrMulticastGroupEntry := do
  let typeName := gen.package ++ ".MulticastGroupTableEntry"
  let matchFields := (info.tablesByName.lookup "multicast_group_table").elim [] IrTableDefinition.pdMatchFields
  if pd.match_.isSome then getFieldDescriptor (typeName ++ ".Match") matchFields "multicast_group_id"
  let ir ← pdMulticastGroupEntryToIr { match_ := pd.match_.map fun m => m.text "multicast_group_id" }
    { options with keyOnly := true }
  if options.keyOnly then .ok ir
  else .error (invalidArgument (generateFormattedError "MulticastGroupEntry" (bullet ("Field metadata missing in " ++ typeName))))

def pdTableEntryToIrEntity (gen : PdGenOptions) (info : IrP4Info) (pd : PdTableEntry) (options : TranslationOptions) :
    StatusOr IrEntity :=
  let group (e : IrMulticastGroupEntry) : IrEntity := .packetReplicationEngineEntry (.multicastGroupEntry e)
  match pd with
  | .notSet => .error (invalidArgument (generateFormattedError "Table" (bullet "Oneof message is not set: entry")))
  | .multicastGroupTableEntry entry => (pdMulticastGroupEntryToIr entry options).map group
  | .table fieldName entry =>
    if fieldName = "multicast_group_table_entry" then (pdTableAsMulticastGroupToIr gen info entry options).map group
    else (pdTableEntryToIrTableEntry info fieldName entry options).map .tableEntry

/-- `ClearField` on the message of a table. -/
def PdTable.clearField (gen : PdGenOptions) (table : IrTableDefinition) (pd : PdTable) (fieldname : String) : StatusOr PdTable :=
  (getFieldDescriptor (gen.package ++ "." ++ tableMessageName table) table.pdFields fieldname).map fun _ =>
    match fieldname with
    | "match" => { pd with match_ := none }
    | "action" => { pd with action := none }
    | "wcmp_actions" => { pd with wcmpActions := [] }
    | "priority" => { pd with priority := 0 }
    | "meter_config" => { pd with meterConfig := none }
    | "counter_data" => { pd with counterData := none }
    | "meter_counter_data" => { pd with meterCounterData := none }
    | "controller_metadata" => { pd with controllerMetadata := [] }
    | _ => pd

def PdTable.clearFieldIf (gen : PdGenOptions) (table : IrTableDefinition) (c : Bool) (pd : PdTable) (fieldname : String) :
    StatusOr PdTable :=
  if c then pd.clearField gen table fieldname else .ok pd

/-- The meter and the counter are cleared under names that no table message has. -/
def pdTableEntryToOnlyKeyPd (gen : PdGenOptions) (info : IrP4Info) (pd : PdTableEntry) : StatusOr PdTableEntry :=
  match pd with
  | .notSet => .error (invalidArgument "Oneof message is not set: entry")
  | .multicastGroupTableEntry entry => .ok (.multicastGroupTableEntry { entry with action := none })
  | .table fieldName entry => do
    let p4Name ← protobufFieldNameToP4Name fieldName
    match info.tablesByName.lookup p4Name with
    | none => .error ⟨.notFound,"Table \"" ++ p4Name ++
        "\" does not exist in P4Info. The PD proto and P4Info file are out of sync"⟩
    | some table =>
      if fieldName = "multicast_group_table_entry" then (entry.clearField gen table "action").map (.table fieldName) else do
      let entry ← entry.clearField gen table "controller_metadata"
      let entry ← entry.clearField gen table (if table.usesOneshot then "wcmp_actions" else "action")
      let entry ← entry.clearFieldIf gen table table.hasMeter "meter"
      let entry ← entry.clearFieldIf gen table table.hasCounter "counter"
      .ok (.table fieldName entry)

end SonicPins.Pdpi
