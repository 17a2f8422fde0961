import Mathlib.Data.Prod.Lex
import Mathlib.Data.String.Basic
import SonicPins.Lib.Grouping
import SonicPins.Pdpi.References
import SonicPins.Sonic.Annotations

/-! The references between the tables of a P4Info, parsed from the annotations of match
fields and action parameters. -/
namespace SonicPins.Pdpi
open Lib References Sonic

variable {parsed : ParsedReferenceAnnotation}

def parsedAnnotation {α : Type} (label : String) (parser : String → StatusOr α) (text : String) : StatusOr (Option α) :=
  match parseAnnotation text with
  | some (l,body) =>
    if l = label then
      ((parser body).mapError fun s => s.annotate ("Failed to parse annotation \"" ++ text ++ "\"")).map some
    else .ok none
  | none => .ok none

/-- Annotations that are not well formed, or have another label, are left out. -/
def getAllParsedAnnotations {α : Type} (label : String) (parser : String → StatusOr α) (annotations : List String) :
    StatusOr (List α) :=
  (annotations.mapM ( parsedAnnotation label parser)).map List.reduceOption

/-- `ParsedRefersToAnnotation` and `ParsedReferencedByAnnotation`. -/
structure ParsedReferenceAnnotation where
  table : String
  field : String
  deriving DecidableEq,Repr

def parseAsReferenceAnnotation (body : String) : StatusOr ParsedReferenceAnnotation := do
  match ← parseAsArgList body with
  | [table,field] => .ok ⟨table,field⟩
  | args => .error (invalidArgument ("Invalid argument. Expected 2 args, but got " ++ natText args.length))

def parseAllRefersToAnnotations : List String → StatusOr (List ParsedReferenceAnnotation) :=
  getAllParsedAnnotations "refers_to" parseAsReferenceAnnotation

def parseAllReferencedByAnnotations : List String → StatusOr (List ParsedReferenceAnnotation) :=
  getAllParsedAnnotations "referenced_by" parseAsReferenceAnnotation

def builtInTableHasAction (table : IrBuiltInTable) (action : IrBuiltInAction) : Bool :=
  table = .multicastGroupTable && action = .replica

def getBuiltInActionFromBuiltInParameter : IrBuiltInParameter → StatusOr IrBuiltInAction
  | .replicaPort => .ok .replica
  | .replicaInstance => .ok .replica
  | .unspecified => .error (invalidArgument "Unknown built-in parameter: BUILT_IN_PARAMETER_UNSPECIFIED")

def createIrFieldFromRefersTo (info : IrP4Info) (parsed : ParsedReferenceAnnotation) : StatusOr IrField :=
  if (info.actionsByName.lookup parsed.table).isSome ||
      (isBuiltInTable parsed.table && (stringToIrBuiltInParameter parsed.field).isOk) then
    .error ⟨.unimplemented,"@refers_to(" ++ parsed.table ++ "," ++ parsed.field ++
      ") refers to an action. References to actions are not supported."⟩
  else ((createIrMatchField info parsed.table parsed.field).mapError fun s =>
    s.prepend "Failed to create IrField from @refers_to: ").map .matchField

/-- Only the match fields and the parameters of built-in tables refer by `@referenced_by`. -/
def createIrFieldFromReferencedBy (info : IrP4Info) (parsed : ParsedReferenceAnnotation) : StatusOr IrField :=
  let errorString := "Failed to create IrField from @referenced_by: "
  match stringToIrBuiltInTable parsed.table with
  | .error _ => .error ⟨.unimplemented,errorString ++ "@reference_by should only be used for built-ins, references " ++
      "from p4 tables or actions should be captured using @refers_to. @referenced_by(" ++ parsed.table ++ "," ++
      parsed.field ++ ") should be replaced with an appropriate @refers_to annotation at field '" ++ parsed.field ++
      "' in table '" ++ parsed.table ++ "'."⟩
  | .ok builtInTable =>
    if (stringToIrBuiltInMatchField parsed.field).isOk then
      ((createIrMatchField info parsed.table parsed.field).mapError fun s => s.prepend errorString).map .matchField
    else match stringToIrBuiltInParameter parsed.field with
      | .ok param => do
        let action ← getBuiltInActionFromBuiltInParameter param
        let actionName ← irBuiltInActionToString action
        if builtInTableHasAction builtInTable action then
          ((createIrActionField info actionName parsed.field).mapError fun s => s.prepend errorString).map .actionField
        else .error (invalidArgument (errorString ++ "Built-in table '" ++ parsed.table ++
          "' does not have built-in action '" ++ actionName ++ "'."))
      | .error _ => .error (invalidArgument (errorString ++ "'" ++ parsed.field ++ "' in @referenced_by(" ++
          parsed.table ++ "," ++ parsed.field ++ ") is not a known built-in match field or parameter."))

def paramRefersTo (info : IrP4Info) (actionName paramName : String) (parsed : ParsedReferenceAnnotation) :
    StatusOr FieldReference := do
  let destination ← createIrFieldFromRefersTo info parsed
  let source ← createIrActionField info actionName paramName
  if fieldIsOptional destination then
    .error ⟨.unimplemented,"References to optional fields are not supported. Parameter " ++ paramName ++ "in action " ++
      actionName ++ " refers to optional field " ++ parsed.field ++ " in table " ++ parsed.table⟩
  else .ok ⟨.actionField source,destination⟩

def matchFieldRefersTo (info : IrP4Info) (tableName matchFieldName : String) (parsed : ParsedReferenceAnnotation) :
    StatusOr FieldReference := do
  let destination ← createIrFieldFromRefersTo info parsed
  let source ← createIrMatchField info tableName matchFieldName
  if fieldIsOptional destination then
    .error ⟨.unimplemented,"References to optional fields are not supported. Match field " ++ matchFieldName ++ "in table " ++
      tableName ++ " refers to optional field " ++ parsed.field ++ " in table " ++ parsed.table⟩
  else .ok ⟨.matchField source,destination⟩

def matchFieldReferencedBy (info : IrP4Info) (tableName matchFieldName : String) (parsed : ParsedReferenceAnnotation) :
    StatusOr FieldReference := do
  let source ← createIrFieldFromReferencedBy info parsed
  let destination ← createIrMatchField info tableName matchFieldName
  if fieldIsOptional (.matchField destination) then
    .error ⟨.unimplemented,"References to optional fields are not supported. Match field " ++ parsed.field ++ "in table " ++
      parsed.table ++ " refers to optional field " ++ matchFieldName ++ " in table " ++ tableName⟩
  else .ok ⟨source,.matchField destination⟩

/-- `gutil::AsOrderedView`. -/
def orderedView {α : Type} (m : List (String × α)) : List (String × α) := m.insertionSort fun a b => a.1 ≤ b.1

/-- The two nested maps from names of a source and of a destination table, as one map. -/
abbrev FieldReferencesByNames := List (Lex (String × String) × List FieldReference)

def addFieldReferences (source destination : String) (fieldReferences : List FieldReference) (m : FieldReferencesByNames) :
    FieldReferencesByNames :=
  appendAt (toLex (source,destination)) fieldReferences m

/-- The references that the annotations of one item make, each put under the names it has. -/
def addAnnotated (reference : ParsedReferenceAnnotation → StatusOr FieldReference)
    (names : ParsedReferenceAnnotation → String × String) (annotations : List ParsedReferenceAnnotation)
    (m : FieldReferencesByNames) : StatusOr FieldReferencesByNames :=
  annotations.foldlM (fun m parsed => (reference parsed).map fun f =>
    addFieldReferences (names parsed).1 (names parsed).2 [f] m) m

def addParamReferences (info : IrP4Info) (action : String × IrActionDefinition) (m : FieldReferencesByNames)
    (param : String × IrActionParamDefinition) : StatusOr FieldReferencesByNames := do
  let refersTo ← parseAllRefersToAnnotations param.2.param.annotations
  let m ← addAnnotated (paramRefersTo info action.1 param.1) (fun parsed => (action.1,parsed.table)) refersTo m
  let referencedBy ← parseAllReferencedByAnnotations param.2.param.annotations
  if referencedBy.isEmpty then .ok m
  else .error ⟨.unimplemented,"References to actions are unsupported: parameter '" ++ param.2.param.name ++ "' in action '" ++
    action.2.preamble.aliasName ++ "' contains @referenced_by annotation."⟩

/-- The references of actions, under the names of the source action and the destination table. -/
def fieldReferencesByDstTableBySrcAction (info : IrP4Info) : StatusOr FieldReferencesByNames :=
  info.actionsByName.foldlM (fun m action => (orderedView action.2.paramsByName).foldlM (addParamReferences info action) m) []

def addMatchFieldReferences (info : IrP4Info) (tableName : String) (m : FieldReferencesByNames)
    (matchField : String × IrMatchFieldDefinition) : StatusOr FieldReferencesByNames := do
  let refersTo ← parseAllRefersToAnnotations matchField.2.matchField.annotations
  let m ← addAnnotated (matchFieldRefersTo info tableName matchField.1) (fun parsed => (tableName,parsed.table)) refersTo m
  let referencedBy ← parseAllReferencedByAnnotations matchField.2.matchField.annotations
  addAnnotated (matchFieldReferencedBy info tableName matchField.1) (fun parsed => (parsed.table,tableName)) referencedBy m

/-- The references of an action, by the name of their source action. -/
def referencesOfAction (actionReferences : FieldReferencesByNames) (actionName : String) : FieldReferencesByNames :=
  actionReferences.filter fun x => (ofLex x.1).1 = actionName

def inheritReferences (actionReferences : FieldReferencesByNames) (tableName : String) (m : FieldReferencesByNames)
    (action : IrActionDefinition) : FieldReferencesByNames :=
  (referencesOfAction actionReferences action.preamble.aliasName).foldl
    (fun m x => addFieldReferences tableName (ofLex x.1).2 x.2 m) m

def checkDefaultAction (actionReferences : FieldReferencesByNames) (tableName : String) (action : IrActionDefinition) :
    StatusOr Unit :=
  if (referencesOfAction actionReferences action.preamble.aliasName).isEmpty then .ok ()
  else .error ⟨.unimplemented,"Defaults actions that contain references are not supported. " ++ action.preamble.aliasName ++
    " contains references and is a default action for table " ++ tableName⟩

def addTableReferences (info : IrP4Info) (actionReferences m : FieldReferencesByNames) (table : String × IrTableDefinition) :
    StatusOr FieldReferencesByNames := do
  let m ← (orderedView table.2.matchFieldsByName).foldlM (addMatchFieldReferences info table.1) m
  let m := table.2.entryActions.foldl (inheritReferences actionReferences table.1) m
  table.2.defaultOnlyActions.forM (checkDefaultAction actionReferences table.1)
  .ok m

def assembleReference (info : IrP4Info) (x : Lex (String × String) × List FieldReference) : StatusOr IrTableReference :=
  if x.2.isEmpty then
    .error ⟨.internal,"Empty table references should not be created. Reference from '" ++ (ofLex x.1).1 ++ "' to '" ++
      (ofLex x.1).2 ++ "' is empty."⟩
  else do
    let sourceTable ← createIrTable info (ofLex x.1).1
    let destinationTable ← createIrTable info (ofLex x.1).2
    .ok ⟨sourceTable,destinationTable,x.2⟩

def parseIrTableReferences (info : IrP4Info) : StatusOr (List IrTableReference) := do
  let actionReferences ← fieldReferencesByDstTableBySrcAction info
  let m ← (orderedView info.tablesByName).foldlM (addTableReferences info actionReferences) []
  m.mapM (assembleReference info)

section Meaning
variable (info : IrP4Info)

/-- A table of the P4Info, or a built-in table. -/
def IrTable.Known : IrTable → Prop
  | .p4Table name id => isBuiltInTable name = false ∧ ∃ table,info.tablesByName.lookup name = some table ∧ table.preamble.id = id
  | .builtInTable table => table ≠ .unspecified
  | .notSet => False

/-- A match field of a table of the P4Info, or one that is built in. -/
def IrTable.HasField : IrTable → IrMatchField → Prop
  | .p4Table name _,.p4MatchField f => ∃ table d,info.tablesByName.lookup name = some table ∧
      table.matchFieldsByName.lookup f.fieldName = some d ∧ d.matchField.id = f.fieldId ∧
      (f.isOptional = true ↔ d.matchField.matchType = .optional)
  | .builtInTable _,.builtInMatchField _ => True
  | _,_ => False

def IrActionField.Known : IrActionField → Prop
  | .p4ActionField f => ∃ action,info.actionsByName.lookup f.actionName = some action ∧ action.preamble.id = f.actionId
  | .builtInActionField _ => True
  | .notSet => False

/-- A reference from a match field of the source table or from a parameter, to a match field of the destination table. -/
structure FieldReference.Sound (source destination : IrTable) (f : FieldReference) : Prop where
  destination : ∃ m,f.destination = .matchField m ∧ destination.HasField info m
  required : fieldIsOptional f.destination = false
  source : (∃ m,f.source = .matchField m ∧ source.HasField info m) ∨ ∃ a,f.source = .actionField a ∧ a.Known info

structure IrTableReference.Sound (r : IrTableReference) : Prop where
  source : r.sourceTable.Known info
  destination : r.destinationTable.Known info
  nonempty : r.fieldReferences ≠ []
  fields : ∀ f ∈ r.fieldReferences,f.Sound info r.sourceTable r.destinationTable

/-- A field reference between the tables of two names. -/
def FieldReference.SoundByName (source destination : String) (f : FieldReference) : Prop :=
  ∀ sourceTable destinationTable,createIrTable info source = .ok sourceTable →
    createIrTable info destination = .ok destinationTable → f.Sound info sourceTable destinationTable

/-- The names of the tables of a reference, which determine them. -/
def IrTableReference.names (r : IrTableReference) : StatusOr String × StatusOr String :=
  (getNameOfTable r.sourceTable,getNameOfTable r.destinationTable)

end Meaning

section Creation
variable {info : IrP4Info}

theorem createIrTable_known {name : String} {table : IrTable} (h : createIrTable info name = .ok table) :
    table.Known info ∧ getNameOfTable table = .ok name := by
  unfold createIrTable at h
  split at h
  · obtain ⟨t,ht,rfl⟩ := map_eq_ok.mp h
    unfold stringToIrBuiltInTable at ht
    split at ht
    · rename_i hname
      cases ht
      exact ⟨by simp [IrTable.Known],by rw [hname]; rfl⟩
    · split at ht
      · rename_i hname
        cases ht
        exact ⟨by simp [IrTable.Known],by rw [hname]; rfl⟩
      · cases ht
  · rename_i hname
    obtain ⟨t,ht,rfl⟩ := map_eq_ok.mp h
    exact ⟨⟨eq_false_of_ne_true hname,t,findPtrOrStatus_eq_ok.mp ht,rfl⟩,rfl⟩

private theorem createIrP4MatchField_eq_ok {tableName fieldName : String} {m : IrMatchField}
    (h : createIrP4MatchField info tableName fieldName = .ok m) : ∃ table d,info.tablesByName.lookup tableName = some table ∧
      table.matchFieldsByName.lookup fieldName = some d ∧
      m = .p4MatchField ⟨fieldName,d.matchField.id,d.matchField.matchType = .optional⟩ := by
  obtain ⟨table,htable,h⟩ := bind_eq_ok.mp h
  obtain ⟨d,hd,h⟩ := bind_eq_ok.mp h
  refine ⟨table,d,findPtrOrStatus_eq_ok.mp htable,findPtrOrStatus_eq_ok.mp hd,?_⟩
  cases htype : d.matchField.matchType <;> rw [htype] at h <;> cases h <;> rfl

theorem createIrMatchField_hasField {tableName fieldName : String} {m : IrMatchField} {table : IrTable}
    (h : createIrMatchField info tableName fieldName = .ok m) (htable : createIrTable info tableName = .ok table) :
    table.HasField info m := by
  unfold createIrMatchField at h
  unfold createIrTable at htable
  split at h
  · rename_i hbuiltIn
    rw [if_pos hbuiltIn] at htable
    obtain ⟨t,-,rfl⟩ := map_eq_ok.mp htable
    obtain ⟨_,-,h⟩ := bind_eq_ok.mp h
    obtain ⟨field,-,h⟩ := bind_eq_ok.mp h
    split at h
    · cases h
      trivial
    · cases h
  · rename_i hbuiltIn
    rw [if_neg hbuiltIn] at htable
    obtain ⟨t,-,rfl⟩ := map_eq_ok.mp htable
    obtain ⟨t,d,ht,hd,rfl⟩ := createIrP4MatchField_eq_ok h
    exact ⟨t,d,ht,hd,rfl,by simp⟩

theorem createIrActionField_known {actionName paramName : String} {a : IrActionField}
    (h : createIrActionField info actionName paramName = .ok a) : a.Known info := by
  unfold createIrActionField at h
  split at h
  · obtain ⟨action,-,h⟩ := bind_eq_ok.mp h
    obtain ⟨parameter,-,h⟩ := bind_eq_ok.mp h
    split at h
    · cases h
      trivial
    · cases h
  · obtain ⟨action,haction,h⟩ := bind_eq_ok.mp h
    obtain ⟨param,-,h⟩ := bind_eq_ok.mp h
    cases h
    exact ⟨action,findPtrOrStatus_eq_ok.mp haction,rfl⟩

theorem createIrFieldFromRefersTo_eq_ok {field : IrField}
    (h : createIrFieldFromRefersTo info parsed = .ok field) :
    ∃ m,field = .matchField m ∧ createIrMatchField info parsed.table parsed.field = .ok m := by
  unfold createIrFieldFromRefersTo at h
  split at h
  · cases h
  · obtain ⟨m,hm,rfl⟩ := map_eq_ok.mp h
    exact ⟨m,rfl,mapError_eq_ok.mp hm⟩

private theorem createIrFieldFromReferencedBy_eq_ok {field : IrField}
    (h : createIrFieldFromReferencedBy info parsed = .ok field) :
    (∃ m,field = .matchField m ∧ createIrMatchField info parsed.table parsed.field = .ok m) ∨
      ∃ a,field = .actionField a ∧ a.Known info := by
  unfold createIrFieldFromReferencedBy at h
  split at h
  · cases h
  · split at h
    · obtain ⟨m,hm,rfl⟩ := map_eq_ok.mp h
      exact .inl ⟨m,rfl,mapError_eq_ok.mp hm⟩
    · split at h
      · obtain ⟨action,-,h⟩ := bind_eq_ok.mp h
        obtain ⟨actionName,-,h⟩ := bind_eq_ok.mp h
        split at h
        · obtain ⟨a,ha,rfl⟩ := map_eq_ok.mp h
          exact .inr ⟨a,rfl,createIrActionField_known (mapError_eq_ok.mp ha)⟩
        · cases h
      · cases h

private theorem paramRefersTo_sound {actionName paramName : String} {f : FieldReference}
    (h : paramRefersTo info actionName paramName parsed = .ok f) (source : String) :
    f.SoundByName info source parsed.table := by
  obtain ⟨destination,hdestination,h⟩ := bind_eq_ok.mp h
  obtain ⟨a,ha,h⟩ := bind_eq_ok.mp h
  obtain ⟨m,rfl,hm⟩ := createIrFieldFromRefersTo_eq_ok hdestination
  split at h
  · cases h
  · rename_i hrequired
    cases h
    intro sourceTable destinationTable _ htable
    exact ⟨⟨m,rfl,createIrMatchField_hasField hm htable⟩,by simpa using hrequired,.inr ⟨a,rfl,createIrActionField_known ha⟩⟩

private theorem matchFieldRefersTo_sound {tableName matchFieldName : String} {f : FieldReference}
    (h : matchFieldRefersTo info tableName matchFieldName parsed = .ok f) : f.SoundByName info tableName parsed.table := by
  obtain ⟨destination,hdestination,h⟩ := bind_eq_ok.mp h
  obtain ⟨source,hsource,h⟩ := bind_eq_ok.mp h
  obtain ⟨m,rfl,hm⟩ := createIrFieldFromRefersTo_eq_ok hdestination
  split at h
  · cases h
  · rename_i hrequired
    cases h
    intro sourceTable destinationTable hsourceTable htable
    exact ⟨⟨m,rfl,createIrMatchField_hasField hm htable⟩,by simpa using hrequired,
      .inl ⟨source,rfl,createIrMatchField_hasField hsource hsourceTable⟩⟩

private theorem matchFieldReferencedBy_sound {tableName matchFieldName : String}
    {f : FieldReference} (h : matchFieldReferencedBy info tableName matchFieldName parsed = .ok f) :
    f.SoundByName info parsed.table tableName := by
  obtain ⟨source,hsource,h⟩ := bind_eq_ok.mp h
  obtain ⟨m,hm,h⟩ := bind_eq_ok.mp h
  split at h
  · cases h
  · rename_i hrequired
    cases h
    intro sourceTable destinationTable hsourceTable htable
    refine ⟨⟨m,rfl,createIrMatchField_hasField hm htable⟩,by simpa using hrequired,?_⟩
    rcases createIrFieldFromReferencedBy_eq_ok hsource with ⟨m',rfl,hm'⟩ | ⟨a,rfl,ha⟩
    · exact .inl ⟨m',rfl,createIrMatchField_hasField hm' hsourceTable⟩
    · exact .inr ⟨a,rfl,ha⟩

end Creation

variable {info : IrP4Info} {P : Lex (String × String) → FieldReference → Prop} {m m' : FieldReferencesByNames}

/-- The references of an action are sound from each table that inherits them. -/
def SoundFromAnywhere (info : IrP4Info) (names : Lex (String × String)) (f : FieldReference) : Prop :=
  ∀ source,f.SoundByName info source (ofLex names).2

def SoundReferences (info : IrP4Info) (names : Lex (String × String)) (f : FieldReference) : Prop :=
  f.SoundByName info (ofLex names).1 (ofLex names).2

theorem addAnnotated_grouped (h : Grouped P m) {reference : ParsedReferenceAnnotation → StatusOr FieldReference}
    {names : ParsedReferenceAnnotation → String × String} { annotations : List ParsedReferenceAnnotation}
    (hP : ∀ parsed f,reference parsed = .ok f → P (toLex (names parsed)) f)
    (hm : addAnnotated reference names annotations m = .ok m') : Grouped P m' := by
  refine foldlM_invariant (P := Grouped P) (fun m parsed m' _ hgrouped hstep => ?_) h hm
  obtain ⟨f,hf,rfl⟩ := map_eq_ok.mp hstep
  refine hgrouped.appendAt fun g hg => ?_
  obtain rfl := List.mem_singleton.mp hg
  exact hP parsed g hf

private theorem addParamReferences_grouped {action : String × IrActionDefinition} {param : String × IrActionParamDefinition}
    (h : Grouped (SoundFromAnywhere info) m) (hm : addParamReferences info action m param = .ok m') :
    Grouped (SoundFromAnywhere info) m' := by
  obtain ⟨refersTo,-,hm⟩ := bind_eq_ok.mp hm
  obtain ⟨added,hadded,hm⟩ := bind_eq_ok.mp hm
  obtain ⟨referencedBy,-,hm⟩ := bind_eq_ok.mp hm
  split at hm
  · cases hm
    refine addAnnotated_grouped h ?_ hadded
    exact fun parsed f hf => paramRefersTo_sound hf
  · cases hm

private theorem fieldReferencesByDstTableBySrcAction_grouped (h : fieldReferencesByDstTableBySrcAction info = .ok m) :
    Grouped (SoundFromAnywhere info) m := by
  refine foldlM_invariant (P := Grouped (SoundFromAnywhere info)) (fun m action m' _ hm hstep => ?_) .nil h
  exact foldlM_invariant (fun m param m' _ hm hstep => addParamReferences_grouped hm hstep) hm hstep

private theorem addMatchFieldReferences_grouped {tableName : String} {matchField : String × IrMatchFieldDefinition}
    (h : Grouped (SoundReferences info) m) (hm : addMatchFieldReferences info tableName m matchField = .ok m') :
    Grouped (SoundReferences info) m' := by
  obtain ⟨refersTo,-,hm⟩ := bind_eq_ok.mp hm
  obtain ⟨added,hadded,hm⟩ := bind_eq_ok.mp hm
  obtain ⟨referencedBy,-,hm⟩ := bind_eq_ok.mp hm
  have hgrouped : Grouped (SoundReferences info) added := by
    refine addAnnotated_grouped h ?_ hadded
    exact fun parsed f hf => matchFieldRefersTo_sound hf
  refine addAnnotated_grouped hgrouped ?_ hm
  exact fun parsed f hf => matchFieldReferencedBy_sound hf

private theorem inheritReferences_grouped {actionReferences : FieldReferencesByNames} {tableName : String} {action : IrActionDefinition}
    (hactions : Grouped (SoundFromAnywhere info) actionReferences) (h : Grouped (SoundReferences info) m) :
    Grouped (SoundReferences info) (inheritReferences actionReferences tableName m action) := by
  refine List.foldlRecOn (motive := Grouped (SoundReferences info)) _ _ h fun m hm x hx => ?_
  exact hm.appendAt fun f hf => hactions.all x (List.mem_filter.mp hx).1 f hf tableName

private theorem addTableReferences_grouped {actionReferences : FieldReferencesByNames} {table : String × IrTableDefinition}
    (hactions : Grouped (SoundFromAnywhere info) actionReferences) (h : Grouped (SoundReferences info) m)
    (hm : addTableReferences info actionReferences m table = .ok m') : Grouped (SoundReferences info) m' := by
  obtain ⟨own,hown,hm⟩ := bind_eq_ok.mp hm
  obtain ⟨_,-,hm⟩ := bind_eq_ok.mp hm
  cases hm
  have hgrouped : Grouped (SoundReferences info) own :=
    foldlM_invariant (fun m field m' _ hm hstep => addMatchFieldReferences_grouped hm hstep) h hown
  exact List.foldlRecOn (motive := Grouped (SoundReferences info)) _ _ hgrouped
    fun m hm action _ => inheritReferences_grouped hactions hm

theorem assembleReference_eq_ok {x : Lex (String × String) × List FieldReference} {r : IrTableReference}
    (h : assembleReference info x = .ok r) : x.2 ≠ [] ∧ createIrTable info (ofLex x.1).1 = .ok r.sourceTable ∧
      createIrTable info (ofLex x.1).2 = .ok r.destinationTable ∧ r.fieldReferences = x.2 := by
  unfold assembleReference at h
  split at h
  · cases h
  · rename_i hne
    obtain ⟨sourceTable,hsource,h⟩ := bind_eq_ok.mp h
    obtain ⟨destinationTable,hdestination,h⟩ := bind_eq_ok.mp h
    cases h
    exact ⟨by simpa using hne,hsource,hdestination,rfl⟩

theorem parseIrTableReferences_spec {references : List IrTableReference} (h : parseIrTableReferences info = .ok references) :
    (∀ r ∈ references,r.Sound info) ∧ (references.map IrTableReference.names).Nodup := by
  obtain ⟨actionReferences,hactions,h⟩ := bind_eq_ok.mp h
  obtain ⟨m,hm,h⟩ := bind_eq_ok.mp h
  have hgrouped : Grouped (SoundReferences info) m := foldlM_invariant (fun m table m' _ hm hstep =>
    addTableReferences_grouped (fieldReferencesByDstTableBySrcAction_grouped hactions) hm hstep) .nil hm
  constructor
  · intro r hr
    obtain ⟨x,hx,hxr⟩ := (mem_of_mapM h).mp hr
    obtain ⟨hne,hsource,hdestination,hfields⟩ := assembleReference_eq_ok hxr
    refine ⟨(createIrTable_known hsource).1,(createIrTable_known hdestination).1,by rwa [hfields],fun f hf => ?_⟩
    rw [hfields] at hf
    exact hgrouped.all x hx f hf _ _ hsource hdestination
  · have hnames : references.map IrTableReference.names =
        (m.map Prod.fst).map fun k => ((.ok (ofLex k).1,.ok (ofLex k).2) : StatusOr String × StatusOr String) := by
      rw [List.map_map]
      refine map_eq_of_forall₂ (mapM_eq_ok.mp h) fun x r hxr => ?_
      obtain ⟨-,hsource,hdestination,-⟩ := assembleReference_eq_ok hxr
      exact Prod.ext (createIrTable_known hsource).2 (createIrTable_known hdestination).2
    rw [hnames]
    refine hgrouped.ordered.nodupKeys.map fun a b hab => ?_
    obtain ⟨hsource,hdestination⟩ := Prod.mk.injEq .. ▸ hab
    exact ofLex.injective (Prod.ext (Except.ok.inj hsource) (Except.ok.inj hdestination))

end SonicPins.Pdpi
