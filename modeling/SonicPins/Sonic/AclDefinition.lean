import SonicPins.Sonic.AppDbReading
import SonicPins.Sonic.Hashing

/-! The AppDb row that defines an ACL table, from the annotations of the table, its match fields and its actions. -/
namespace SonicPins.Sonic
open Lib Pdpi P4rtApp

variable {schema : AclSchema} {v : FieldValue} {table : IrTableDefinition}

/-- `swss::acl::MatchFieldSchema`, with the name of its format. -/
structure MatchFieldSchema where
  bitwidth : Nat
  formatName : String

/-- What the code takes from the ACL schema: the names of the stages, and the SAI match fields by name. -/
structure AclSchema where
  isStage : String → Bool
  matchFieldSchemaByName : String → Option MatchFieldSchema

def formatName : Format → String
  | .hexString => "HEX_STRING"
  | .mac => "MAC"
  | .ipv4 => "IPV4"
  | .ipv6 => "IPV6"
  | .string => "STRING"

def formatParse (name : String) : Option Format := [Format.hexString,.mac,.ipv4,.ipv6,.string].find? fun f => formatName f = name

def basicMatchAnnotationLabel : String := "sai_field"
def compositeMatchAnnotationLabel : String := "composite_field"
def udfMatchAnnotationLabel : String := "sai_udf"

/-- `absl::StrReplaceAll(text, {{" ", ""}})`. -/
def withoutSpaces (text : String) : String := String.ofList (text.toList.filter (· ≠ ' '))

def generateBasicMatchJson (matchField : IrMatchFieldDefinition) (body : String) : StatusOr Json :=
  let saiField := withoutSpaces body
  if saiField.isEmpty then .error (invalidArgument (basicMatchAnnotationLabel ++ " annotation was found but is empty."))
  else
    let json := (Json.null.set "kind" (.str "sai_field")).set "format" (.str (formatName matchField.format))
    let json := if matchField.format ≠ .string then json.set "bitwidth" (.num matchField.matchField.bitwidth) else json
    .ok (json.set "sai_field" (.str saiField))

structure UdfComponents where
  base : Option String := none
  offset : Option Int := none
  bitwidth : Option Int := none

def udfFormatError : String := "Bad annotation. Expected: @sai_udf(base=<%s>, offset=<%d>, length=<%d>)"

def udfError {α : Type} (text : String) : StatusOr α := .error (invalidArgument (udfFormatError ++ text))

/-- One argument of the form `name=value`; the length is in bytes. -/
def addUdfComponent (udf : UdfComponents) (component : String) : StatusOr UdfComponents :=
  match strSplit '=' component with
  | [name,value] =>
    if name = "base" then
      if udf.base.isSome then udfError ". base appeared multiple times" else .ok { udf with base := some value }
    else if name = "offset" ∨ name = "length" then
      match simpleAtoi32 value with
      | none => udfError (". " ++ component ++ " is not an integer.")
      | some n =>
        if n < 0 then udfError (". " ++ component ++ " is negative.")
        else if name = "offset" then
          if udf.offset.isSome then udfError ". offset appeared multiple times" else .ok { udf with offset := some n }
        else if udf.bitwidth.isSome then udfError ". length appeared multiple times"
        else .ok { udf with bitwidth := some (Int32.ofInt (n * 8)).toInt }
    else udfError (". Field " ++ component ++ " is unknown.")
  | _ => udfError ""

/-- A component that has to be there. -/
def udfComponent {α : Type} (component : Option α) (name : String) : StatusOr α :=
  match component with
  | some value => .ok value
  | none => udfError (". Field " ++ name ++ " is missing.")

def generateUdfMatchFieldJson (matchField : IrMatchFieldDefinition) (body : String) : StatusOr Json := do
  let components ← (parseAsArgList body).mapError fun s => ⟨s.code,"[P4RT/PDPI] " ++ s.message⟩
  let udf ← components.foldlM addUdfComponent {}
  let base ← udfComponent udf.base "base"
  let offset ← udfComponent udf.offset "offset"
  let bitwidth ← udfComponent udf.bitwidth "length"
  if matchField.matchField.bitwidth ≠ 0 ∧ (matchField.matchField.bitwidth : Int) ≠ bitwidth then
    .error (invalidArgument ("UDF Annotation length (" ++ decimal bitwidth ++ ") does not match match_field bitwidth (" ++
      natText matchField.matchField.bitwidth ++ ")"))
  else .ok (((((Json.null.set "kind" (.str "udf")).set "format" (.str (formatName matchField.format))).set "base" (.str base)).set
    "offset" (.num offset)).set "bitwidth" (.num bitwidth))

def eraseMember (j : Json) (key : String) : Json :=
  match j with
  | .obj members => .obj (members.filter fun m => m.1 ≠ key)
  | j => j

/-- `annotation.label` and `annotation.body` as they are printed in errors. -/
def annotationText (a : String × String) : String := "@" ++ a.1 ++ "(" ++ a.2 ++ ")"

/-- A match field that has only a format and a width. -/
def elementField (format : Format) (bitwidth : Nat) : IrMatchFieldDefinition :=
  { matchField := { id := 0,name := "",bitwidth := bitwidth,matchType := .unspecified },format := format }

/-- An element of a composite field; what its annotation leaves open is taken from the schema. -/
def compositeElement (schema : AclSchema) (composite element : String × String) : StatusOr Json :=
  if element.1 = basicMatchAnnotationLabel then
    let name := withoutSpaces element.2
    if name.isEmpty then .error (invalidArgument "sai_field within an @composite_field annotion is empty.")
    else match schema.matchFieldSchemaByName name with
      | none => .error (invalidArgument ("Unknown SAI Match Field (" ++ name ++ ") in annotation " ++ annotationText composite))
      | some found => match formatParse found.formatName with
        | none => .error ⟨.internal,"Failed to match schema format '" ++ found.formatName ++
            "' with any pdpi::Format. This indicates a bug in the switch ACL schema."⟩
        | some format =>
          ((generateBasicMatchJson (elementField format found.bitwidth) element.2).mapError fun s =>
            ⟨s.code,"Failed within composite match annotation " ++ annotationText composite ++ ". " ++ s.message⟩).map
            fun json => eraseMember json "format"
  else if element.1 = udfMatchAnnotationLabel then
    ((generateUdfMatchFieldJson (elementField .hexString 0) element.2).mapError fun s =>
      ⟨s.code,"Failed to parse UDF annotation " ++ annotationText element ++ " in annotation " ++ annotationText composite ++
        s.message⟩).map fun json => eraseMember json "format"
  else .error (invalidArgument "Only @sai_field or @sai_udf annotations are allowed within a composite field.")

/-- The width that a JSON object has; without one the conversion throws. -/
def bitwidthOf (json : Json) : Fallible Int32 := getInt ((jsonFind? json "bitwidth").getD .null)

def addCompositeElement (schema : AclSchema) (composite : String × String) (acc : List Json × Int32) (element : String × String) :
    Fallible (List Json × Int32) := do
  let json ← orFail (compositeElement schema composite element)
  let width ← bitwidthOf json
  .ok (acc.1 ++ [json],acc.2 + width)

def generateCompositeMatchFieldJson (schema : AclSchema) (matchField : IrMatchFieldDefinition) (composite : String × String) :
    Fallible Json := do
  let json := (Json.null.set "kind" (.str "composite")).set "format" (.str (formatName matchField.format))
  let json := if matchField.format ≠ .string then json.set "bitwidth" (.num matchField.matchField.bitwidth) else json
  let texts ← orFail ((parseAsArgList composite.2).mapError fun s =>
    ⟨s.code,"[P4RT/PDPI] Failed to parse composite element annotations: " ++ s.message⟩)
  let elements := getAllAnnotations texts
  if elements.length ≠ texts.length then
    .error (.status (invalidArgument ("One or more arguments in an @composite_field annotation is not in the expected @lable(body) " ++
      "format. Annotation: " ++ composite.2)))
  else do
    let (elementJsons,total) ← elements.foldlM (addCompositeElement schema composite) ([],0)
    let json := if elementJsons.isEmpty then json else json.set "elements" (.arr elementJsons)
    let bitwidth ← bitwidthOf json
    if total ≠ bitwidth then
      .error (.status (invalidArgument ("Composite field bitwidth (" ++ decimal bitwidth.toInt ++
        ") does not match total element bitwidth (" ++ decimal total.toInt ++ "). Annotation: " ++ annotationText composite)))
    else .ok json

def annotationCountError : String :=
  "Exactly one of the following annotations must be applied to a match field: (@sai_field, @composite_field, @sai_udf)"

/-- The annotations that say how a match field is matched, one after the other. -/
def addMatchAnnotation (schema : AclSchema) (matchField : IrMatchFieldDefinition) (json : Option Json) (a : String × String) :
    Fallible (Option Json) :=
  if a.1 ≠ basicMatchAnnotationLabel ∧ a.1 ≠ compositeMatchAnnotationLabel ∧ a.1 ≠ udfMatchAnnotationLabel then .ok json
  else if json.isSome then .error (.status (invalidArgument annotationCountError))
  else if a.1 = basicMatchAnnotationLabel then (orFail (generateBasicMatchJson matchField a.2)).map some
  else if a.1 = compositeMatchAnnotationLabel then (generateCompositeMatchFieldJson schema matchField a).map some
  else (orFail (generateUdfMatchFieldJson matchField a.2)).map some

def matchTuple (schema : AclSchema) (matchField : IrMatchFieldDefinition) : Fallible FieldValue :=
  let name := matchField.matchField.name
  if name.isEmpty then .error (.status (invalidArgument "Match field [] is missing a name."))
  else do
    let json ← (getAllAnnotations matchField.matchField.annotations).foldlM ( addMatchAnnotation schema matchField) none
    match json with
    | some json => .ok (textField ("match/" ++ name) json.dump)
    | none => .error (.status (invalidArgument (annotationCountError ++ ". None were provided")))

/-- `IrActionInfo::SaiAction`; what is not set is empty. -/
structure SaiAction where
  action : String
  parameter : String := ""
  color : String := ""
  objectType : String := ""
  deriving DecidableEq

def isValidColor (color : String) : Bool :=
  color = "SAI_PACKET_COLOR_GREEN" || color = "SAI_PACKET_COLOR_YELLOW" || color = "SAI_PACKET_COLOR_RED"

def redirectObjectTypes : List String :=
  ["SAI_OBJECT_TYPE_BRIDGE_PORT","SAI_OBJECT_TYPE_IPMC_GROUP","SAI_OBJECT_TYPE_L2MC_GROUP","SAI_OBJECT_TYPE_LAG",
    "SAI_OBJECT_TYPE_NEXT_HOP","SAI_OBJECT_TYPE_NEXT_HOP_GROUP","SAI_OBJECT_TYPE_PORT","SAI_OBJECT_TYPE_SYSTEM_PORT"]

def extractActionAndColor : List String → StatusOr SaiAction
  | [] => .error (invalidArgument "ACL action annotation is missing arguments.")
  | [action] => .ok { action := action }
  | [action,color] =>
    if isValidColor color then .ok { action := action,color := color }
    else .error (invalidArgument ("Annotation argument '" ++ color ++ "' is not a valid color value. " ++
      "Annotation format: (action[, color])."))
  | _ => .error (invalidArgument "ACL action annotation has too many arguments. Expected (action[, color]).")

def extractActionParamSaiObjectType : List String → StatusOr String
  | [] => .ok ""
  | [type] =>
    if type ∈ redirectObjectTypes then .ok type
    else .error (invalidArgument ("Annotation argument '" ++ type ++ "' is not a valid sai object type."))
  | args => .error (invalidArgument ("ACL action parameter object type annotation '@sai_action_param_object_type(" ++
      ",".intercalate args ++ ")' has too many arguments (expected 1)."))

def failedParam (s : Status) : Status := s.annotate " Failed to process action parameter []."

/-- The object type of a parameter, empty when it has no annotation for it. -/
def paramObjectType (annotations : List String) : StatusOr String :=
  match getAnnotationAsArgList "sai_action_param_object_type" annotations with
  | .ok args => (extractActionParamSaiObjectType args).mapError failedParam
  | .error _ => .ok ""

def parseActionParam (p : IrActionParamDefinition) : StatusOr SaiAction :=
  match getAnnotationAsArgList "sai_action_param" p.param.annotations with
  | .error s =>
    if s.code = .notFound then
      .error (invalidArgument "Action parameter [] is missing a sai action annotation: @sai_action_param.")
    else .error (invalidArgument (" Failed to process action parameter []: " ++ s.toString))
  | .ok args => do
    let action ← (extractActionAndColor args).mapError failedParam
    let objectType ← paramObjectType p.param.annotations
    if p.param.name.isEmpty then .error (invalidArgument "ACL action parameter [] is missing an alias.")
    else .ok { action with objectType := objectType,parameter := p.param.name }

/-- The SAI actions of the annotations of an action; annotations that cannot be read count as none. -/
def annotatedSaiActions (annotations : List String) : StatusOr (List SaiAction) :=
  match getAllAnnotationsAsArgList "sai_action" annotations with
  | .ok argLists => argLists.mapM extractActionAndColor
  | .error _ => .ok []

/-- The SAI actions of an action: those of its annotations, then those of its parameters in the order of their ids. -/
def parseAction (a : IrActionDefinition) : StatusOr (List SaiAction) :=
  if a.preamble.aliasName.isEmpty then .error (invalidArgument "Action '' is missing an alias.")
  else do
    let annotated ← annotatedSaiActions a.preamble.annotations
    let params ← a.paramsById.mapM fun p => ((parseActionParam p.2).mapError fun s =>
      s.annotate ("In action '" ++ a.preamble.aliasName ++ "'.")).map (p.1,·)
    .ok (annotated ++ (params.insertionSort fun p q => p.1 ≤ q.1).map Prod.snd)

def createSaiActionJson (a : SaiAction) : Json :=
  let json := Json.null.set "action" (.str a.action)
  let json := if a.parameter.isEmpty then json else json.set "param" (.str a.parameter)
  let json := if a.color.isEmpty then json else json.set "packet_color" (.str a.color)
  if a.objectType.isEmpty then json else json.set "object_type" (.str a.objectType)

/-- The field of an action of a table, which has to have a SAI action. -/
def actionTuple (a : IrActionDefinition) : StatusOr FieldValue := do
  let actions ← parseAction a
  if actions.isEmpty then .error (invalidArgument ("ACL action [" ++ a.preamble.aliasName ++ "] has no SAI mapping."))
  else .ok (textField ("action/" ++ a.preamble.aliasName) (Json.arr (actions.map createSaiActionJson)).dump)

def stageTuple (table : IrTableDefinition) : StatusOr FieldValue :=
  match getAnnotationAsArgList "sai_acl" table.preamble.annotations with
  | .error s => .error (invalidArgument ("Table " ++ table.preamble.aliasName ++ " is not an ACL table: " ++ s.toString))
  | .ok [] => .error (invalidArgument "Label @sai_acl requires a stage.")
  | .ok [stage] => .ok (textField "stage" stage)
  | .ok _ => .error (invalidArgument "Label @sai_acl only accepts one stage.")

/-- `GetStage`, by whether it returns. -/
def isKnownStage (schema : AclSchema) (name : Bytes) : Bool :=
  name = utf8 "PRE_INGRESS" || (ofUtf8? name).any schema.isStage

def meterUnitName : MeterUnit → String
  | .unspecified => "UNSPECIFIED"
  | .bytes => "BYTES"
  | .packets => "PACKETS"
  | .unknown _ => ""

def counterUnitName : CounterUnit → String
  | .unspecified => "UNSPECIFIED"
  | .bytes => "BYTES"
  | .packets => "PACKETS"
  | .both => "BOTH"
  | .unknown _ => ""

/-- The priority of a table, which is written as it stands in the annotation. -/
def priorityTuple (table : IrTableDefinition) : StatusOr (List FieldValue) :=
  match getAnnotationBody "sai_acl_priority" table.preamble.annotations with
  | .error _ => .ok []
  | .ok priority =>
    if (simpleAtoi32 priority).isSome then .ok [textField "priority" priority]
    else .error (invalidArgument ("Expected integer value in @sai_acl_priority() annotation but got '" ++ priority ++ "'"))

def sizeTuple (size : Int64) : List FieldValue := if size > 0 then [textField "size" (decimal size.toInt)] else []

def meterTuple (unit : MeterUnit) : List FieldValue :=
  if unit = .unspecified then [] else [textField "meter/unit" (meterUnitName unit)]

def counterTuple (unit : CounterUnit) : List FieldValue :=
  if unit = .unspecified then [] else [textField "counter/unit" (counterUnitName unit)]

def generateSonicDbValuesFromIrTable (schema : AclSchema) (table : IrTableDefinition) : Fallible (List FieldValue) := do
  let stage ← orFail (stageTuple table)
  if !isKnownStage schema stage.2 then
    .error (.status (invalidArgument ("ACL table references unknown stage '" ++ bytesText stage.2 ++ "'.")))
  else if table.matchFieldsById.isEmpty then
    .error (.status (invalidArgument "ACL table requires at least one match field."))
  else do
    let fields ← table.matchFieldsById.mapM fun m => (matchTuple schema m.2).mapError fun
      | .status s => .status ⟨s.code,"Failed to process match field '" ++ m.2.matchField.name ++ "'. " ++ s.message⟩
      | .thrown what => .thrown what
    if table.entryActions.isEmpty then
      .error (.status (invalidArgument "ACL table requires at least one action for entries."))
    else do
      let actions ← orFail (table.entryActions.mapM actionTuple)
      let priority ← orFail (priorityTuple table)
      .ok (stage :: fields ++ actions ++ sizeTuple table.size ++ meterTuple table.meterUnit ++
        counterTuple table.counterUnit ++ priority)

private theorem matchTuple_field {m : IrMatchFieldDefinition} (h : matchTuple schema m = .ok v) :
    v.1 = "match/" ++ m.matchField.name := by
  unfold matchTuple at h
  simp only at h
  split at h
  · cases h
  · obtain ⟨json,-,h⟩ := bind_eq_ok.mp h
    split at h
    · cases h
      rfl
    · cases h

private theorem actionTuple_field {a : IrActionDefinition} (h : actionTuple a = .ok v) :
    v.1 = "action/" ++ a.preamble.aliasName := by
  obtain ⟨actions,-,h⟩ := bind_eq_ok.mp h
  split at h
  · cases h
  · cases h
    rfl

private theorem stageTuple_field (h : stageTuple table = .ok v) : v.1 = "stage" := by
  unfold stageTuple at h
  split at h <;> cases h
  rfl

/-- The fields after the stage, the match fields and the actions. -/
def optionalFields : List String := ["size","meter/unit","counter/unit","priority"]

private theorem optionalTuples_fields {priority : List FieldValue} (h : priorityTuple table = .ok priority) :
    ((sizeTuple table.size ++ meterTuple table.meterUnit ++ counterTuple table.counterUnit ++ priority).map Prod.fst).Sublist
      optionalFields := by
  have hsize : ((sizeTuple table.size).map Prod.fst).Sublist ["size"] := by
    unfold sizeTuple
    split <;> simp [textField]
  have hmeter : ((meterTuple table.meterUnit).map Prod.fst).Sublist ["meter/unit"] := by
    unfold meterTuple
    split <;> simp [textField]
  have hcounter : ((counterTuple table.counterUnit).map Prod.fst).Sublist ["counter/unit"] := by
    unfold counterTuple
    split <;> simp [textField]
  have hpriority : (priority.map Prod.fst).Sublist ["priority"] := by
    unfold priorityTuple at h
    split at h
    · cases h
      simp
    · split at h
      · cases h
        simp [textField]
      · cases h
  rw [List.map_append,List.map_append,List.map_append]
  exact ((hsize.append hmeter).append hcounter).append hpriority

private theorem definition_fields {values : List FieldValue}
    (h : generateSonicDbValuesFromIrTable schema table = .ok values) :
    ∃ rest : List String,rest.Sublist optionalFields ∧ values.map Prod.fst =
      "stage" :: (table.matchFieldsById.map (fun m => "match/" ++ m.2.matchField.name) ++
        table.entryActions.map (fun a => "action/" ++ a.preamble.aliasName) ++ rest) := by
  obtain ⟨stage,hstage,h⟩ := bind_eq_ok.mp h
  split at h
  · cases h
  · split at h
    · cases h
    · obtain ⟨fields,hfields,h⟩ := bind_eq_ok.mp h
      split at h
      · cases h
      · obtain ⟨actions,hactions,h⟩ := bind_eq_ok.mp h
        obtain ⟨priority,hpriority,h⟩ := bind_eq_ok.mp h
        cases h
        refine ⟨_,optionalTuples_fields (orFail_eq_ok.mp hpriority),?_⟩
        have hmatch : fields.map Prod.fst = table.matchFieldsById.map fun m => "match/" ++ m.2.matchField.name :=
          map_eq_of_forall₂ (mapM_eq_ok.mp hfields) fun m v hv => matchTuple_field (mapError_eq_ok.mp hv)
        have haction : actions.map Prod.fst = table.entryActions.map fun a => "action/" ++ a.preamble.aliasName :=
          map_eq_of_forall₂ (mapM_eq_ok.mp (orFail_eq_ok.mp hactions)) fun a v hv => actionTuple_field hv
        simp [← hmatch,← haction,stageTuple_field (orFail_eq_ok.mp hstage)]

theorem take_prefixed {text name : String} (h : 2 ≤ text.toList.length) : (text ++ name).toList.take 2 = text.toList.take 2 := by
  rw [String.toList_append,List.take_append_of_le_length h]

theorem definition_nodup {values : List FieldValue} (h : generateSonicDbValuesFromIrTable schema table = .ok values)
    (hmatches : (table.matchFieldsById.map fun m => m.2.matchField.name).Nodup)
    (hactions : (table.entryActions.map fun a => a.preamble.aliasName).Nodup) : (values.map Prod.fst).Nodup := by
  obtain ⟨rest,hrest,hfields⟩ := definition_fields h
  have hmatches := hmatches.map (prefixed_injective "match/")
  have hactions := hactions.map (prefixed_injective "action/")
  rw [List.map_map] at hmatches hactions
  have hmatchKind : ∀ field ∈ table.matchFieldsById.map (fun m => "match/" ++ m.2.matchField.name),field.toList.take 2 = ['m','a'] := by
    intro field hfield
    obtain ⟨m,-,rfl⟩ := List.mem_map.mp hfield
    exact take_prefixed (by decide)
  have hactionKind : ∀ field ∈ table.entryActions.map (fun a => "action/" ++ a.preamble.aliasName),field.toList.take 2 = ['a','c'] := by
    intro field hfield
    obtain ⟨a,-,rfl⟩ := List.mem_map.mp hfield
    exact take_prefixed (by decide)
  have hrestKind : ∀ field ∈ rest,field.toList.take 2 ≠ ['m','a'] ∧ field.toList.take 2 ≠ ['a','c'] ∧ field ≠ "stage" := by
    intro field hfield
    have hall : ∀ field ∈ optionalFields,field.toList.take 2 ≠ ['m','a'] ∧ field.toList.take 2 ≠ ['a','c'] ∧ field ≠ "stage" := by
      decide
    exact hall field (hrest.subset hfield)
  have hnodup : optionalFields.Nodup := by decide
  rw [hfields,List.nodup_cons,List.nodup_append',List.nodup_append']
  refine ⟨fun hstage => ?_,⟨hmatches,hactions,fun field hm ha => ?_⟩,hnodup.sublist hrest,fun field hbefore hafter => ?_⟩
  · rcases List.mem_append.mp hstage with hstage | hstage
    · rcases List.mem_append.mp hstage with hstage | hstage
      · exact absurd (hmatchKind _ hstage) (by decide)
      · exact absurd (hactionKind _ hstage) (by decide)
    · exact (hrestKind _ hstage).2.2 rfl
  · exact absurd ((hmatchKind _ hm).symm.trans (hactionKind _ ha)) (by decide)
  · rcases List.mem_append.mp hbefore with hm | ha
    · exact (hrestKind _ hafter).1 (hmatchKind _ hm)
    · exact (hrestKind _ hafter).2.1 (hactionKind _ ha)

/-- The functions that read hash settings and ACL definitions, as the switch has them. An exception ends the comparison
of two definitions as an error does. -/
def sonicFunctions (schema : AclSchema) (fs : PipelineFunctions) : PipelineFunctions :=
  { fs with
    extractHashPacketFieldConfigs := extractHashPacketFieldConfigs,
    extractHashParamConfigs := extractHashParamConfigs,
    aclTableDefinitionValues := fun table => (generateSonicDbValuesFromIrTable schema table).mapError fun
      | .status s => s
      | .thrown what => ⟨.internal,what⟩ }

end SonicPins.Sonic
