import SonicPins.Packetlib.HexStrings
import SonicPins.Pdpi.PdMessages

/-! Translation of IR entries and packets to the PD messages of their P4Info. -/
namespace SonicPins.Pdpi
open Lib Packetlib

/-- `IrValueString`: the text of the field that is set. -/
def irValueString : IrValue → String
  | .notSet => ""
  | .hexStr s => s
  | .ipv4 s => s
  | .ipv6 s => s
  | .mac s => s
  | .str s => s

/-- `IrValueToFormattedString`: the text of the field that the format names, empty when another one is set. -/
def irValueToFormattedString (value : IrValue) (format : Format) : String :=
  match format,value with
  | .mac,.mac s => s
  | .ipv4,.ipv4 s => s
  | .ipv6,.ipv6 s => s
  | .string,.str s => s
  | .hexString,.hexStr s => s
  | _,_ => ""

def IrMatchValue.exactValue : IrMatchValue → IrValue
  | .exact v => v
  | _ => .notSet

def IrMatchValue.lpmValue : IrMatchValue → IrValue × Int32
  | .lpm v prefixLength => (v,prefixLength)
  | _ => (.notSet,0)

def IrMatchValue.ternaryValue : IrMatchValue → IrValue × IrValue
  | .ternary v mask => (v,mask)
  | _ => (.notSet,.notSet)

def IrMatchValue.optionalValue : IrMatchValue → IrValue
  | .optional v => v
  | _ => .notSet

/-- What the field's match type reads from an IR match; a value of another type reads as the default. -/
def pdFieldValue (matchType : MatchType) (value : IrMatchValue) : Option PdFieldValue :=
  match matchType with
  | .exact => some (.text (irValueString value.exactValue))
  | .lpm => some (.message (.lpm (irValueString value.lpmValue.1) value.lpmValue.2))
  | .ternary => some (.message (.ternary (irValueString value.ternaryValue.1) (irValueString value.ternaryValue.2)))
  | .optional => some (.message (.optional (irValueString value.optionalValue)))
  | _ => none

/-- A match field with its value, or the reasons against it. -/
def irMatchFieldToPd (gen : PdGenOptions) (table : IrTableDefinition) (d : IrMatchFieldDefinition) (m : IrMatch) :
    Except (List String) PdFieldValue :=
  match pdFieldValue d.matchField.matchType m.value with
  | none => .error [bullet ("Unsupported match type '" ++ d.matchField.matchType.name ++ "'.")]
  | some value =>
    (reasonOf (getFieldDescriptor (gen.package ++ "." ++ tableMessageName table ++ ".Match") table.pdMatchFields m.name)).map
      fun _ => value

/-- The reason against an unknown name is collected in a list that the loop leaves behind. -/
def irMatchToPd (gen : PdGenOptions) (options : TranslationOptions) (table : IrTableDefinition) (m : IrMatch) :
    Except String (Option (String × PdFieldValue)) :=
  match table.matchFieldsByName.lookup m.name with
  | none => .ok none
  | some d =>
    let unsupported := unsupportedReason "Match field" d.isUnsupported options
    let invalid (reasons : List String) := generateFormattedError (matchFieldName m.name) (String.intercalate "\n" reasons)
    match irMatchFieldToPd gen table d m with
    | .error reasons => .error (invalid (unsupported ++ reasons))
    | .ok value => if unsupported.isEmpty then .ok (some (m.name,value)) else .error (invalid unsupported)

def irMatchEntryToPd (gen : PdGenOptions) (options : TranslationOptions) (table : IrTableDefinition) (ms : List IrMatch) :
    StatusOr PdMatch :=
  let (reasons,values) := partitionResults (irMatchToPd gen options table) ms
  if reasons.isEmpty then .ok (values.reduceOption.foldl (fun pd x => pd.set x.1 x.2) {})
  else .error (invalidArgument (String.intercalate "\n" reasons))

def irParamToPd (gen : PdGenOptions) (d : IrActionDefinition) (p : IrActionParam) : Except String (String × String) :=
  match getFieldDescriptor (gen.package ++ "." ++ actionMessageName d) d.pdFields p.name with
  | .error status => .error (bullet (paramName p.name ++ ": " ++ status.message))
  | .ok _ => .ok (p.name,irValueString p.value)

/-- Into the `Action` message of a table. -/
def irActionInvocationToPd (gen : PdGenOptions) (info : IrP4Info) (options : TranslationOptions) (table : IrTableDefinition)
    (a : IrActionInvocation) : StatusOr PdAction :=
  match info.actionsByName.lookup a.name with
  | none => .error (invalidArgument (generateFormattedError (actionName a.name) (bullet "It does not exist in the P4Info.")))
  | some d =>
    match getFieldDescriptor (gen.package ++ "." ++ tableMessageName table ++ ".Action") table.pdActionFields a.name with
    | .error status => .error (invalidArgument (generateFormattedError (actionName a.name) (bullet status.message)))
    | .ok _ =>
      let (reasons,params) := partitionResults (irParamToPd gen d) a.params
      unlessInvalid (actionName a.name) (unsupportedReason "Action" d.isUnsupported options ++ reasons)
        (some (a.name,params.foldl (fun texts x => Function.update texts x.1 x.2) fun _ => ""))

def irActionSetInvocationToPd (gen : PdGenOptions) (info : IrP4Info) (options : TranslationOptions)
    (table : IrTableDefinition) (a : IrActionSetInvocation) : Except String PdWcmpAction :=
  match irActionInvocationToPd gen info options table a.action with
  | .error status => .error (bullet status.message)
  | .ok action => .ok ⟨some action,a.weight,a.watchPort⟩

def irActionSetToPd (gen : PdGenOptions) (info : IrP4Info) (options : TranslationOptions) (table : IrTableDefinition)
    (actions : List IrActionSetInvocation) : StatusOr (List PdWcmpAction) :=
  let (reasons,pdActions) := partitionResults (irActionSetInvocationToPd gen info options table) actions
  unlessInvalid "ActionSet" reasons pdActions

/-- `ir.action_set().actions()`. -/
def IrTableEntryType.setActions : IrTableEntryType → List IrActionSetInvocation
  | .actionSet actions => actions
  | _ => []

/-- A one-shot table reads the action set only, any other table the action only. -/
def irTableActionToPd (gen : PdGenOptions) (info : IrP4Info) (options : TranslationOptions) (table : IrTableDefinition)
    (type : IrTableEntryType) : List String × Option PdAction × List PdWcmpAction :=
  if table.usesOneshot then
    match irActionSetToPd gen info options table type.setActions with
    | .error status => ([bullet status.message],none,[])
    | .ok actions => ([],none,actions)
  else match type with
    | .action a => match irActionInvocationToPd gen info options table a with
      | .error status => ([bullet status.message],none,[])
      | .ok action => ([],some action,[])
    | _ => ([],none,[])

def MeterUnit.number : MeterUnit → Int
  | .unspecified => 0
  | .bytes => 1
  | .packets => 2
  | .unknown n => n.toInt

def CounterUnit.number : CounterUnit → Int
  | .unspecified => 0
  | .bytes => 1
  | .packets => 2
  | .both => 3
  | .unknown n => n.toInt

/-- `IrMeter::ShortDebugString`. -/
def MeterUnit.shortDebugString : MeterUnit → String
  | .unspecified => ""
  | .bytes => "unit: BYTES"
  | .packets => "unit: PACKETS"
  | .unknown n => "unit: " ++ decimal n.toInt

/-- The rates of a PD config are both the committed and the peak ones. -/
def irMeterConfigToPd (unit : MeterUnit) (c : MeterConfig) : List String × PdMeterConfig :=
  let rates := if c.cir ≠ c.pir then
    [bullet ("CIR and PIR values should be equal. Got CIR as " ++ decimal c.cir.toInt ++ ", PIR as " ++
      decimal c.pir.toInt ++ ".")] else []
  let bursts := if c.cburst ≠ c.pburst then
    [bullet ("CBurst and PBurst values should be equal. Got CBurst as " ++ decimal c.cburst.toInt ++ ", PBurst as " ++
      decimal c.pburst.toInt ++ ".")] else []
  let invalid := match unit with
    | .bytes => []
    | .packets => []
    | other => [bullet ("Invalid meter unit: " ++ decimal other.number)]
  (rates ++ bursts ++ invalid,⟨c.cir,c.cburst⟩)

def countsIn (unit : CounterUnit) (c : CounterData) : Option CounterData :=
  match unit with
  | .bytes => some { byteCount := c.byteCount }
  | .packets => some { packetCount := c.packetCount }
  | .both => some c
  | _ => none

/-- The counts of one colour, when it has them. -/
def irColorCountsToPd (table : IrTableDefinition) (counts : Option CounterData) : StatusOr (Option CounterData) :=
  match counts with
  | none => .ok none
  | some c => match countsIn table.counterUnit c with
    | some pd => .ok (some pd)
    | none => .error (invalidArgument ("Invalid or missing counter unit: " ++ table.meterUnit.shortDebugString))

/-- `AddIrMeterCounterDataToPdEntry`. -/
def irMeterCountersToPd (table : IrTableDefinition) (data : MeterCounterData) : StatusOr MeterCounterData := do
  if !table.hasCounter then
    .error (invalidArgument (bullet "Table has no counter support but IR table entry has a meter counter."))
  else
    let green ← irColorCountsToPd table data.green
    let yellow ← irColorCountsToPd table data.yellow
    let red ← irColorCountsToPd table data.red
    .ok ⟨green,yellow,red⟩

/-- The meter config and the meter counters, which are read only beside a config. -/
def irMetersToPd (table : IrTableDefinition) (ir : IrTableEntry) :
    List String × Option PdMeterConfig × Option MeterCounterData :=
  match ir.meterConfig with
  | none => ([],none,none)
  | some c =>
    if !table.hasMeter then ([],none,none)
    else
      let (reasons,config) := irMeterConfigToPd table.meterUnit c
      match ir.meterCounterData with
      | none => (reasons,some config,none)
      | some data => match irMeterCountersToPd table data with
        | .error status => (reasons ++ [status.message],some config,none)
        | .ok counters => (reasons,some config,some counters)

def irCountersToPd (table : IrTableDefinition) (ir : IrTableEntry) : List String × Option CounterData :=
  match ir.counterData with
  | none => ([],none)
  | some c =>
    if !table.hasCounter then ([],none)
    else match countsIn table.counterUnit c with
      | some counts => ([],some counts)
      | none => ([bullet ("Invalid counter unit: " ++ decimal table.counterUnit.number)],none)

/-- The match fields and the priority, with the reasons against them. -/
def irTableKeyToPd (gen : PdGenOptions) (options : TranslationOptions) (table : IrTableDefinition) (ir : IrTableEntry) :
    List String × PdTable :=
  let (matchReasons,pdMatch) := match irMatchEntryToPd gen options table ir.matches_ with
    | .error status => ([bullet status.message],PdMatch.mk (fun _ => "") fun _ => none)
    | .ok pdMatch => ([],pdMatch)
  let priorityReasons :=
    if ir.priority = 0 then []
    else match getFieldDescriptor (gen.package ++ "." ++ tableMessageName table) table.pdFields "priority" with
      | .error status => [bullet status.message]
      | .ok _ => []
  (unsupportedReason ("Table '" ++ ir.tableName ++ "'") table.isUnsupported options ++ matchReasons ++ priorityReasons,
    { match_ := some pdMatch,priority := ir.priority })

/-- The message of an IR entry, written into an empty one. -/
def irTableEntryToPd (gen : PdGenOptions) (info : IrP4Info) (ir : IrTableEntry) (options : TranslationOptions) :
    StatusOr PdTableEntry :=
  match info.tablesByName.lookup ir.tableName with
  | none => .error (invalidArgument (generateFormattedError (tableName ir.tableName)
      (bullet "It does not exist in the P4Info. The PD proto and P4Info file are out of sync")))
  | some table =>
    match getFieldDescriptor (gen.package ++ ".TableEntry") (pdEntryFields gen info) (tableFieldName ir.tableName) with
    | .error status => .error (invalidArgument (generateFormattedError (tableName ir.tableName) (bullet status.message)))
    | .ok _ =>
      let (keyReasons,key) := irTableKeyToPd gen options table ir
      if options.keyOnly then
        unlessInvalid (tableName ir.tableName) keyReasons (.table (tableFieldName ir.tableName) key)
      else
        let (actionReasons,action,wcmpActions) := irTableActionToPd gen info options table ir.type
        let (meterReasons,meterConfig,meterCounterData) := irMetersToPd table ir
        let (counterReasons,counterData) := irCountersToPd table ir
        unlessInvalid (tableName ir.tableName) (keyReasons ++ actionReasons ++ meterReasons ++ counterReasons)
          (.table (tableFieldName ir.tableName)
            { key with
              controllerMetadata := ir.controllerMetadata,action := action,wcmpActions := wcmpActions,
              meterConfig := meterConfig,meterCounterData := meterCounterData,counterData := counterData })

def irMetadataToPd (gen : PdGenOptions) (info : IrP4Info) (kind : PacketIoKind) (m : IrPacketMetadata) :
    Except String (String × String) :=
  match (info.packetMetadataByName kind).lookup m.name with
  | none => .error (bullet ("Metadata with name '" ++ m.name ++ "' not defined."))
  | some d =>
    if d.isPadding then
      .error (bullet ("Metadata with name '" ++ m.name ++
        "' has @padding annotation and so it must be omitted in IR representation."))
    else
      let typeName := gen.package ++ (match kind with
        | .packetIn => ".PacketIn.Metadata"
        | .packetOut => ".PacketOut.Metadata")
      match getFieldDescriptor typeName (pdMetadataFields info kind) m.name with
      | .error status => .error (bullet (metadataName m.name ++ ": " ++ status.message))
      | .ok _ => .ok (m.name,irValueToFormattedString m.value d.format)

/-- `IrPacketIoToPd`; the `Metadata` message is made for the first value. -/
def irPacketIoToPd (gen : PdGenOptions) (info : IrP4Info) (kind : PacketIoKind) (packet : IrPacketIo)
    (_ : TranslationOptions) : StatusOr PdPacketIo :=
  let (reasons,values) := partitionResults (irMetadataToPd gen info kind) packet.metadata
  unlessInvalid (packetDescription kind) reasons
    ⟨packet.payload,if values.isEmpty then none
      else some (values.foldl (fun texts x => Function.update texts x.1 x.2) fun _ => "")⟩

def irPacketInToPd (gen : PdGenOptions) (info : IrP4Info) := irPacketIoToPd gen info .packetIn

def irPacketOutToPd (gen : PdGenOptions) (info : IrP4Info) := irPacketIoToPd gen info .packetOut

/-- The copying of backup replicas is commented out. -/
def irReplicaToPd (r : IrReplica) : PdReplica :=
  { port := r.port,instanceId := bitsetToHexString 16 r.instanceId.toNat }

/-- The message that is written, whatever the checks say. -/
def pdMulticastGroupMessage (ir : IrMulticastGroupEntry) : PdMulticastGroupTableEntry :=
  ⟨some (bitsetToHexString 16 ir.multicastGroupId.toNat),some (some (ir.replicas.map irReplicaToPd)),ir.metadata⟩

def irMulticastGroupEntryToPd (ir : IrMulticastGroupEntry) (options : TranslationOptions) :
    StatusOr PdMulticastGroupTableEntry :=
  if options.keyOnly then .ok { match_ := some (bitsetToHexString 16 ir.multicastGroupId.toNat) }
  else unlessInvalid ("MulticastGroupEntry with group id '" ++ natText ir.multicastGroupId.toNat ++ "'")
    (irReplicasReasons [] ir.replicas) (pdMulticastGroupMessage ir)

def irPacketReplicationEngineEntryToPd (gen : PdGenOptions) (info : IrP4Info) (ir : IrPacketReplicationEngineEntry)
    (options : TranslationOptions) : StatusOr PdTableEntry :=
  match ir with
  | .multicastGroupEntry e =>
    match getFieldDescriptor (gen.package ++ ".TableEntry") (pdEntryFields gen info) "multicast_group_table_entry" with
    | .error status =>
      .error ⟨.internal,generateFormattedError "MulticastGroupEntry" (bullet status.message)⟩
    | .ok _ => (irMulticastGroupEntryToPd e options).map .multicastGroupTableEntry
  | .cloneSessionEntry _ => .error ⟨.unimplemented,"PacketReplicationEngineEntry is not supported: "⟩

def irEntityToPdTableEntry (gen : PdGenOptions) (info : IrP4Info) (ir : IrEntity) (options : TranslationOptions) :
    StatusOr PdTableEntry :=
  match ir with
  | .tableEntry e => irTableEntryToPd gen info e options
  | .packetReplicationEngineEntry e => irPacketReplicationEngineEntryToPd gen info e options

end SonicPins.Pdpi
