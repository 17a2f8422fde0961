import SonicPins.Lib.DoubleIndex
import SonicPins.Lib.TextReading
import SonicPins.P4rtApp.WarmBoot
import SonicPins.Pdpi.NormalForm

/-! Translation for OrchAgent and back for the controller: which entries come back, and
what a translation leaves untouched. -/
namespace SonicPins.P4rtApp
open Lib Pdpi

variable {m m' : IrMatch} {id : Int32} {name : String} {port : Bytes} {v : IrValue} {e : IrTableEntry} {r : IrReplica}
  {t : QueueTranslator}

section Maps
variable {α β : Type} [DecidableEq α] [DecidableEq β]

theorem lookup_swap {l : List (α × β)} (hl : (l.map Prod.fst).Nodup) (hl' : (l.map Prod.snd).Nodup) {a : α} {b : β} :
    (l.map Prod.swap).lookup b = some a ↔ l.lookup a = some b := by
  have hswap : ((l.map Prod.swap).map Prod.fst).Nodup := by simpa [Function.comp_def] using hl'
  have hmem : (b,a) ∈ l.map Prod.swap ↔ (a,b) ∈ l := by simp
  constructor
  · intro h
    exact lookup_eq_some_of_mem hl (hmem.mp (mem_of_lookup_eq_some h))
  · intro h
    exact lookup_eq_some_of_mem hswap (hmem.mpr (mem_of_lookup_eq_some h))

theorem PortMap.right_eq_some {m : PortMap} {id : String} : m.right id = some name ↔ m.left name = some id :=
  lookup_swap m.leftNodup m.rightNodup

theorem QueueTranslator.idToName_eq_some : t.idToName id = some name ↔ t.nameToId name = some id :=
    lookup_swap t.nameNodup t.idNodup

end Maps

theorem safeParseInt_hexAlternate (id : Int32) : safeParseInt 16 (QueueTranslator.hexAlternate id) = some (id.toUInt32.toNat : Int) := by
  unfold QueueTranslator.hexAlternate
  split_ifs with hzero
  · subst hzero
    decide
  · simpa [hexPadded] using safeParseInt_hexPadded 0 id.toUInt32.toNat

private theorem simpleHexAtoi32_hexAlternate (id : Int32) :
    simpleHexAtoi32 (QueueTranslator.hexAlternate id) = if 0 ≤ id then some id.toInt else none := by
  unfold simpleHexAtoi32
  rw [safeParseInt_hexAlternate,Option.bind_some,inRange]
  split_ifs with hrange hid hid
  · rw [toUInt32_of_nonneg hid]
  · have hlarge := toUInt32_of_neg hid
    omega
  · have hsmall := id.toInt_lt
    rw [toUInt32_of_nonneg hid] at hrange
    have hpos := Int32.le_iff_toInt_le.mp hid
    simp at hpos
    omega
  · rfl

def PortInDomain (m : PortMap) (port : Bytes) : Prop := ∃ id name,ofUtf8? port = some id ∧ m.right id = some name

theorem translatePort_forOrchAgent {m : PortMap} :
    translatePort .forOrchAgent m port = .ok name ↔ ∃ id,ofUtf8? port = some id ∧ m.right id = some name := by
  unfold translatePort
  cases ofUtf8? port with
  | none => simp
  | some id => cases hid : m.right id <;> simp [hid]

private theorem translatePort_forController {m : PortMap} {id : String} :
    translatePort .forController m port = .ok id ↔ ∃ name,ofUtf8? port = some name ∧ m.left name = some id := by
  unfold translatePort
  cases ofUtf8? port with
  | none => simp
  | some name => cases hname : m.left name <;> simp [hname]

theorem translatePort_back {m : PortMap} (h : translatePort .forOrchAgent m port = .ok name) :
    ∃ id,translatePort .forController m (utf8 name) = .ok id ∧ utf8 id = port := by
  obtain ⟨id,hid,hname⟩ := translatePort_forOrchAgent.mp h
  exact ⟨id,translatePort_forController.mpr ⟨name,ofUtf8?_utf8 name,PortMap.right_eq_some.mp hname⟩,utf8_of_ofUtf8? hid⟩

def PortValueInDomain (m : PortMap) (v : IrValue) : Prop := ∃ id name,v = .str id ∧ m.right id = some name

def QueueInDomain (t : QueueTranslator) (v : IrValue) : Prop := ∃ name id,v = .str name ∧ t.nameToId name = some id

/-- The id of a queue is not negative. -/
def QueueInvertible (t : QueueTranslator) (v : IrValue) : Prop := ∀ name id,v = .str name → t.nameToId name = some id → 0 ≤ id

theorem portValue_undoes {m : PortMap} (h : PortValueInDomain m v) :
    Undoes (translatePortValue .forOrchAgent m) (translatePortValue .forController m) v := by
  obtain ⟨id,name,rfl,hid⟩ := h
  have hname : translatePort .forOrchAgent m (utf8 id) = .ok name := translatePort_forOrchAgent.mpr ⟨id,ofUtf8?_utf8 id,hid⟩
  obtain ⟨id',hid',heq⟩ := translatePort_back hname
  obtain rfl := utf8_injective heq
  exact ⟨.str name,by simp [translatePortValue,hname,Except.map],by simp [translatePortValue,hid',Except.map]⟩

theorem queue_undoes_iff (h : QueueInDomain t v) :
    Undoes (optionallyTranslateQueue .forOrchAgent t) (optionallyTranslateQueue .forController t) v ↔ QueueInvertible t v := by
  obtain ⟨name,id,rfl,hid⟩ := h
  have hname : t.idToName id = some name := QueueTranslator.idToName_eq_some.mpr hid
  have hback : optionallyTranslateQueue .forController t (.str (QueueTranslator.hexAlternate id)) = .ok (.str name) ↔ 0 ≤ id := by
    unfold optionallyTranslateQueue QueueTranslator.optionallyTranslateIdToName
    simp only [simpleHexAtoi32_hexAlternate]
    by_cases hnonneg : 0 ≤ id
    · simp [hname,hnonneg,Except.map]
    · simp [hnonneg,Except.map]
  have hforward : optionallyTranslateQueue .forOrchAgent t (.str name) = .ok (.str (QueueTranslator.hexAlternate id)) := by
    simp [optionallyTranslateQueue,QueueTranslator.optionallyTranslateNameToIdInHexString,hid]
  unfold Undoes QueueInvertible
  rw [hforward]
  simp only [Except.ok.injEq,exists_eq_left',hback,IrValue.str.injEq]
  constructor
  · rintro hnonneg _ id' rfl hid'
    rw [hid] at hid'
    cases hid'
    exact hnonneg
  · exact fun hall => hall name id rfl hid

section Fields
variable (o : TranslateTableEntryOptions)

def TranslateTableEntryOptions.toward (direction : TranslationDirection) : TranslateTableEntryOptions := { o with direction := direction }

/-- The translation of a value by the type of its field. -/
def translateTypedValue (typeName : String) (v : IrValue) : StatusOr IrValue :=
  if o.translatePortIds && isPortType typeName then translatePortValue o.direction o.portMap v
  else if isCpuQueue typeName then optionallyTranslateQueue o.direction o.cpuQueueTranslator v
  else if isFrontPanelQueue typeName then optionallyTranslateQueue o.direction o.frontPanelQueueTranslator v
  else .ok v

def ValueInDomain (typeName : String) (v : IrValue) : Prop :=
  if o.translatePortIds && isPortType typeName then PortValueInDomain o.portMap v
  else if isCpuQueue typeName then QueueInDomain o.cpuQueueTranslator v
  else if isFrontPanelQueue typeName then QueueInDomain o.frontPanelQueueTranslator v
  else True

def ValueInvertible (typeName : String) (v : IrValue) : Prop :=
  if o.translatePortIds && isPortType typeName then True
  else if isCpuQueue typeName then QueueInvertible o.cpuQueueTranslator v
  else if isFrontPanelQueue typeName then QueueInvertible o.frontPanelQueueTranslator v
  else True

variable {o}

private theorem typedValue_undoes_iff {typeName : String} (h : ValueInDomain o typeName v) :
    Undoes (translateTypedValue (o.toward .forOrchAgent) typeName) (translateTypedValue (o.toward .forController) typeName) v ↔
      ValueInvertible o typeName v := by
  unfold ValueInDomain at h
  unfold translateTypedValue ValueInvertible
  simp only [TranslateTableEntryOptions.toward]
  split_ifs at h with hport hcpu hfront
  · simpa [hport] using portValue_undoes h
  · simpa [hport,hcpu] using queue_undoes_iff h
  · simpa [hport,hcpu,hfront] using queue_undoes_iff h
  · simp [hport,hcpu,hfront,Undoes]

theorem translateActionParam_eq_ok {action : IrActionDefinition} {p p' : IrActionParam} :
    translateActionParam o action name p = .ok p' ↔ ∃ d,action.paramsByName.lookup p.name = some d ∧ p'.name = p.name ∧
      translateTypedValue o d.param.typeName p.value = .ok p'.value := by
  unfold translateActionParam translateTypedValue
  obtain ⟨pname,v⟩ := p
  obtain ⟨pname',v'⟩ := p'
  cases hd : action.paramsByName.lookup pname with
  | none => simp
  | some d =>
    simp only [Option.some.injEq,exists_eq_left']
    split_ifs
    · cases translatePortValue o.direction o.portMap v <;> simp [eq_comm]
    · cases optionallyTranslateQueue o.direction o.cpuQueueTranslator v <;> simp [Except.map,eq_comm]
    · cases optionallyTranslateQueue o.direction o.frontPanelQueueTranslator v <;> simp [Except.map,eq_comm]
    · simp [eq_comm]

end Fields

section Entries
variable (o : TranslateTableEntryOptions) (table : IrTableDefinition)

def ParamInDomain (action : IrActionDefinition) (p : IrActionParam) : Prop :=
  ∃ d,action.paramsByName.lookup p.name = some d ∧ ValueInDomain o d.param.typeName p.value

def findAction (name : String) : Option IrActionDefinition := table.entryActions.find? fun a => a.preamble.aliasName = name

def ActionInDomain (a : IrActionInvocation) : Prop :=
  ∃ d,findAction table a.name = some d ∧ ∀ p ∈ a.params,ParamInDomain o d p

/-- The queues of an action have no negative ids. -/
def ActionInvertible (a : IrActionInvocation) : Prop := ∀ d,findAction table a.name = some d → ∀ p ∈ a.params,
  ∀ pd,d.paramsByName.lookup p.name = some pd → ValueInvertible o pd.param.typeName p.value

def WatchPortInDomain (port : Bytes) : Prop := o.translatePortIds = true → port ≠ [] → PortInDomain o.portMap port

/-- A watched port has a name, as an empty one is not translated back. -/
def WatchPortInvertible (port : Bytes) : Prop := o.translatePortIds = true → port ≠ [] → ∀ id name,
  ofUtf8? port = some id → o.portMap.right id = some name → name ≠ ""

def MatchInDomain (m : IrMatch) : Prop := ∃ d,table.matchFieldsByName.lookup m.name = some d ∧
  (o.translatePortIds = true → isPortType d.matchField.typeName = true →
    ∃ v,(m.value = .exact v ∨ m.value = .optional v) ∧ PortValueInDomain o.portMap v)

def TypeInDomain : IrTableEntryType → Prop
  | .action a => ActionInDomain o table a
  | .actionSet actions => ∀ a ∈ actions,ActionInDomain o table a.action ∧ WatchPortInDomain o a.watchPort
  | .notSet => True

def TypeInvertible : IrTableEntryType → Prop
  | .action a => ActionInvertible o table a
  | .actionSet actions => ∀ a ∈ actions,ActionInvertible o table a.action ∧ WatchPortInvertible o a.watchPort
  | .notSet => True

/-- The names of an entry are defined, and its ports and queues are in the domains of the maps. -/
def EntryInDomain (e : IrTableEntry) : Prop := ∃ table,o.irP4Info.tablesByName.lookup e.tableName = some table ∧
  (∀ m ∈ e.matches_,MatchInDomain o table m) ∧ TypeInDomain o table e.type

def EntryInvertible (e : IrTableEntry) : Prop := ∀ table,o.irP4Info.tablesByName.lookup e.tableName = some table →
  TypeInvertible o table e.type

variable {o table}

private theorem param_undoes_iff {action : IrActionDefinition} {p : IrActionParam} (h : ParamInDomain o action p) :
    Undoes (translateActionParam (o.toward .forOrchAgent) action name) (translateActionParam (o.toward .forController) action name) p ↔
      ∀ d,action.paramsByName.lookup p.name = some d → ValueInvertible o d.param.typeName p.value := by
  obtain ⟨d,hd,hdomain⟩ := h
  simp only [hd,Option.some.injEq,forall_eq']
  rw [← typedValue_undoes_iff hdomain]
  constructor
  · rintro ⟨p',hforward,hback⟩
    obtain ⟨d₁,hd₁,hname,hv⟩ := translateActionParam_eq_ok.mp hforward
    obtain ⟨d₂,hd₂,-,hv'⟩ := translateActionParam_eq_ok.mp hback
    rw [hd] at hd₁
    rw [hname,hd] at hd₂
    cases hd₁
    cases hd₂
    exact ⟨p'.value,hv,hv'⟩
  · rintro ⟨v,hv,hv'⟩
    exact ⟨⟨p.name,v⟩,translateActionParam_eq_ok.mpr ⟨d,hd,rfl,hv⟩,translateActionParam_eq_ok.mpr ⟨d,hd,rfl,hv'⟩⟩

theorem translateAction_eq_ok {a a' : IrActionInvocation} : translateAction o table a = .ok a' ↔
    ∃ d,findAction table a.name = some d ∧ a'.name = a.name ∧ a.params.mapM (translateActionParam o d a.name) = .ok a'.params := by
  unfold translateAction findAction
  obtain ⟨name,params⟩ := a
  obtain ⟨name',params'⟩ := a'
  cases table.entryActions.find? fun d => d.preamble.aliasName = name with
  | none => simp
  | some d =>
    simp only [map_eq_ok,Option.some.injEq,exists_eq_left',IrActionInvocation.mk.injEq]
    constructor
    · rintro ⟨_,h,rfl,rfl⟩
      exact ⟨rfl,h⟩
    · rintro ⟨rfl,h⟩
      exact ⟨_,h,rfl,rfl⟩

theorem action_undoes_iff {a : IrActionInvocation} (h : ActionInDomain o table a) :
    Undoes (translateAction (o.toward .forOrchAgent) table) (translateAction (o.toward .forController) table) a ↔
      ActionInvertible o table a := by
  obtain ⟨d,hd,hparams⟩ := h
  have hall : (∀ p ∈ a.params,Undoes (translateActionParam (o.toward .forOrchAgent) d a.name)
      (translateActionParam (o.toward .forController) d a.name) p) ↔ ActionInvertible o table a := by
    unfold ActionInvertible
    simp only [hd,Option.some.injEq,forall_eq']
    exact forall₂_congr fun p hp => param_undoes_iff (hparams p hp)
  rw [← hall,← undoes_mapM]
  constructor
  · rintro ⟨a',hforward,hback⟩
    obtain ⟨d₁,hd₁,hname,hps⟩ := translateAction_eq_ok.mp hforward
    obtain ⟨d₂,hd₂,-,hps'⟩ := translateAction_eq_ok.mp hback
    rw [hd] at hd₁
    rw [hname,hd] at hd₂
    cases hd₁
    cases hd₂
    rw [hname] at hps'
    exact ⟨a'.params,hps,hps'⟩
  · rintro ⟨ps,hps,hps'⟩
    exact ⟨⟨a.name,ps⟩,translateAction_eq_ok.mpr ⟨d,hd,rfl,hps⟩,translateAction_eq_ok.mpr ⟨d,hd,rfl,hps'⟩⟩

/-- The watched port of a member, translated unless it is empty. -/
def translateWatchPort (o : TranslateTableEntryOptions) (port : Bytes) : StatusOr Bytes :=
  if o.translatePortIds && !port.isEmpty then (translatePort o.direction o.portMap port).map utf8 else .ok port

theorem translateActionSetInvocation_eq_ok {a a' : IrActionSetInvocation} : translateActionSetInvocation o table a = .ok a' ↔
    translateAction o table a.action = .ok a'.action ∧ a'.weight = a.weight ∧ translateWatchPort o a.watchPort = .ok a'.watchPort := by
  unfold translateActionSetInvocation translateWatchPort
  obtain ⟨action,weight,port⟩ := a
  obtain ⟨action',weight',port'⟩ := a'
  simp only [bind_eq_ok]
  split_ifs
  · simp only [bind_eq_ok,map_eq_ok,Except.ok.injEq,IrActionSetInvocation.mk.injEq]
    constructor
    · rintro ⟨_,hb,_,hp,rfl,rfl,rfl⟩
      exact ⟨hb,rfl,_,hp,rfl⟩
    · rintro ⟨hb,rfl,_,hp,rfl⟩
      exact ⟨_,hb,_,hp,rfl,rfl,rfl⟩
  · simp only [Except.ok.injEq,IrActionSetInvocation.mk.injEq]
    constructor
    · rintro ⟨_,hb,rfl,rfl,rfl⟩
      exact ⟨hb,rfl,rfl⟩
    · rintro ⟨hb,rfl,rfl⟩
      exact ⟨_,hb,rfl,rfl,rfl⟩

private theorem watchPort_undoes_iff (h : WatchPortInDomain o port) :
    Undoes (translateWatchPort (o.toward .forOrchAgent)) (translateWatchPort (o.toward .forController)) port ↔
      WatchPortInvertible o port := by
  by_cases htranslated : o.translatePortIds = true ∧ port ≠ []
  swap
  · have hkept : (o.translatePortIds && !port.isEmpty) = false := by
      cases hids : o.translatePortIds <;> simp_all
    have hport (direction : TranslationDirection) : translateWatchPort (o.toward direction) port = .ok port := by
      simp [translateWatchPort,TranslateTableEntryOptions.toward,hkept]
    exact ⟨fun _ hids hne => absurd ⟨hids,hne⟩ htranslated,fun _ => ⟨port,hport _,hport _⟩⟩
  obtain ⟨hids,hne⟩ := htranslated
  obtain ⟨id,name,hid,hname⟩ := h hids hne
  have hforward : translatePort .forOrchAgent o.portMap port = .ok name := translatePort_forOrchAgent.mpr ⟨id,hid,hname⟩
  obtain ⟨id',hback,heq⟩ := translatePort_back hforward
  have hthere : translateWatchPort (o.toward .forOrchAgent) port = .ok (utf8 name) := by
    simp [translateWatchPort,TranslateTableEntryOptions.toward,hids,hne,hforward,Except.map]
  have hinvertible : WatchPortInvertible o port ↔ name ≠ "" := by
    constructor
    · exact fun hall => hall hids hne id name hid hname
    · rintro hnonempty - - id₁ name₁ hid₁ hname₁
      rw [hid] at hid₁
      cases hid₁
      rw [hname] at hname₁
      cases hname₁
      exact hnonempty
  rw [hinvertible]
  unfold Undoes
  simp only [hthere,Except.ok.injEq,exists_eq_left']
  by_cases hempty : name = ""
  · subst hempty
    simp [translateWatchPort,utf8,hne.symm]
  · have hbytes : utf8 name ≠ [] := fun h => hempty (utf8_injective (h.trans (by simp [utf8])))
    simp [translateWatchPort,TranslateTableEntryOptions.toward,hids,hbytes,hback,heq,hempty,Except.map]

private theorem member_undoes_iff {a : IrActionSetInvocation} (h : ActionInDomain o table a.action ∧ WatchPortInDomain o a.watchPort) :
    Undoes (translateActionSetInvocation (o.toward .forOrchAgent) table) (translateActionSetInvocation (o.toward .forController) table) a ↔
      ActionInvertible o table a.action ∧ WatchPortInvertible o a.watchPort := by
  rw [← action_undoes_iff h.1,← watchPort_undoes_iff h.2]
  constructor
  · rintro ⟨a',hforward,hback⟩
    obtain ⟨haction,-,hport⟩ := translateActionSetInvocation_eq_ok.mp hforward
    obtain ⟨haction',-,hport'⟩ := translateActionSetInvocation_eq_ok.mp hback
    exact ⟨⟨_,haction,haction'⟩,⟨_,hport,hport'⟩⟩
  · rintro ⟨⟨action,haction,haction'⟩,⟨port,hport,hport'⟩⟩
    exact ⟨⟨action,a.weight,port⟩,translateActionSetInvocation_eq_ok.mpr ⟨haction,rfl,hport⟩,
      translateActionSetInvocation_eq_ok.mpr ⟨haction',rfl,hport'⟩⟩

private theorem type_undoes_iff {type : IrTableEntryType} (h : TypeInDomain o table type) :
    Undoes (translateEntryType (o.toward .forOrchAgent) table) (translateEntryType (o.toward .forController) table) type ↔
      TypeInvertible o table type := by
  cases type with
  | notSet => exact ⟨fun _ => trivial,fun _ => ⟨.notSet,rfl,rfl⟩⟩
  | action a =>
    refine Iff.trans ?_ (action_undoes_iff h)
    constructor
    · rintro ⟨_,hforward,hback⟩
      obtain ⟨a',ha,rfl⟩ := map_eq_ok.mp hforward
      obtain ⟨a'',ha',heq⟩ := map_eq_ok.mp hback
      cases heq
      exact ⟨a',ha,ha'⟩
    · rintro ⟨a',ha,ha'⟩
      exact ⟨.action a',map_eq_ok.mpr ⟨a',ha,rfl⟩,map_eq_ok.mpr ⟨a,ha',rfl⟩⟩
  | actionSet actions =>
    refine Iff.trans ?_ (undoes_mapM.trans (forall₂_congr fun a ha => member_undoes_iff (h a ha)))
    constructor
    · rintro ⟨_,hforward,hback⟩
      obtain ⟨actions',ha,rfl⟩ := map_eq_ok.mp hforward
      obtain ⟨actions'',ha',heq⟩ := map_eq_ok.mp hback
      cases heq
      exact ⟨actions',ha,ha'⟩
    · rintro ⟨actions',ha,ha'⟩
      exact ⟨.actionSet actions',map_eq_ok.mpr ⟨actions',ha,rfl⟩,map_eq_ok.mpr ⟨actions,ha',rfl⟩⟩

def PortMatch (o : TranslateTableEntryOptions) (table : IrTableDefinition) (m : IrMatch) : Prop :=
  o.translatePortIds = true ∧ ∃ d,table.matchFieldsByName.lookup m.name = some d ∧ isPortType d.matchField.typeName = true

theorem translateMatchField_kept (h : ¬ PortMatch o table m) : translateMatchField o table m = .ok m' ↔
    (∃ d,table.matchFieldsByName.lookup m.name = some d) ∧ m' = m := by
  unfold translateMatchField
  cases hd : table.matchFieldsByName.lookup m.name with
  | none => simp
  | some d =>
    have hport : (o.translatePortIds && isPortType d.matchField.typeName) = false := by
      rw [Bool.eq_false_iff]
      intro hport
      obtain ⟨hids,htype⟩ := Bool.and_eq_true_iff.mp hport
      exact h ⟨hids,d,hd,htype⟩
    simp [hport,eq_comm]

theorem translateMatchField_port (h : PortMatch o table m) :
    translateMatchField o table m = translatePortInMatchField o.direction o.portMap m := by
  obtain ⟨hids,d,hd,htype⟩ := h
  simp [translateMatchField,hd,hids,htype]

theorem translatePortInMatchField_eq_ok {direction : TranslationDirection} {portMap : PortMap} :
    translatePortInMatchField direction portMap m = .ok m' ↔ m'.name = m.name ∧ ∃ v v',
      translatePortValue direction portMap v = .ok v' ∧
        (m.value = .exact v ∧ m'.value = .exact v' ∨ m.value = .optional v ∧ m'.value = .optional v') := by
  obtain ⟨name,value⟩ := m
  obtain ⟨name',value'⟩ := m'
  unfold translatePortInMatchField
  cases value <;> simp [map_eq_ok,mapError_eq_ok] <;> grind

private theorem match_undoes (h : MatchInDomain o table m) :
    Undoes (translateMatchField (o.toward .forOrchAgent) table) (translateMatchField (o.toward .forController) table) m := by
  obtain ⟨d,hd,hdomain⟩ := h
  by_cases hport : PortMatch o table m
  swap
  · exact ⟨m,(translateMatchField_kept (by exact hport)).mpr ⟨⟨d,hd⟩,rfl⟩,(translateMatchField_kept (by exact hport)).mpr ⟨⟨d,hd⟩,rfl⟩⟩
  obtain ⟨hids,d',hd',htype⟩ := id hport
  rw [hd] at hd'
  cases hd'
  obtain ⟨v,hvalue,hv⟩ := hdomain hids htype
  obtain ⟨v',hthere,hback⟩ := portValue_undoes hv
  have hname (value : IrMatchValue) : PortMatch o table ⟨m.name,value⟩ := hport
  obtain ⟨name,value⟩ := m
  rcases hvalue with rfl | rfl
  · refine ⟨⟨name,.exact v'⟩,?_,?_⟩
    · exact (translateMatchField_port (by exact hport)).trans
        (translatePortInMatchField_eq_ok.mpr ⟨rfl,v,v',hthere,.inl ⟨rfl,rfl⟩⟩)
    · exact (translateMatchField_port (by exact hname _)).trans
        (translatePortInMatchField_eq_ok.mpr ⟨rfl,v',v,hback,.inl ⟨rfl,rfl⟩⟩)
  · refine ⟨⟨name,.optional v'⟩,?_,?_⟩
    · exact (translateMatchField_port (by exact hport)).trans
        (translatePortInMatchField_eq_ok.mpr ⟨rfl,v,v',hthere,.inr ⟨rfl,rfl⟩⟩)
    · exact (translateMatchField_port (by exact hname _)).trans
        (translatePortInMatchField_eq_ok.mpr ⟨rfl,v',v,hback,.inr ⟨rfl,rfl⟩⟩)

theorem translateTableEntry_eq_ok {e' : IrTableEntry} : translateTableEntry o e = .ok e' ↔
    ∃ table,o.irP4Info.tablesByName.lookup e.tableName = some table ∧
      e.matches_.mapM (translateMatchField o table) = .ok e'.matches_ ∧ translateEntryType o table e.type = .ok e'.type ∧
        e' = { e with matches_ := e'.matches_,type := e'.type } := by
  unfold translateTableEntry
  cases o.irP4Info.tablesByName.lookup e.tableName with
  | none => simp
  | some table =>
    simp only [Option.some.injEq,exists_eq_left',bind_eq_ok,Except.ok.injEq]
    constructor
    · rintro ⟨ms,hms,type,htype,rfl⟩
      exact ⟨hms,htype,rfl⟩
    · rintro ⟨hms,htype,heq⟩
      exact ⟨_,hms,_,htype,heq.symm⟩

theorem entry_undoes_iff (h : EntryInDomain o e) :
    Undoes (translateTableEntry (o.toward .forOrchAgent)) (translateTableEntry (o.toward .forController)) e ↔ EntryInvertible o e := by
  obtain ⟨table,htable,hmatches,htype⟩ := h
  have hinvertible : EntryInvertible o e ↔ TypeInvertible o table e.type := by simp [EntryInvertible,htable]
  rw [hinvertible,← type_undoes_iff htype]
  constructor
  · rintro ⟨e',hforward,hback⟩
    obtain ⟨t₁,ht₁,-,htype₁,heq⟩ := translateTableEntry_eq_ok.mp hforward
    obtain ⟨t₂,ht₂,-,htype₂,-⟩ := translateTableEntry_eq_ok.mp hback
    have hname : e'.tableName = e.tableName := by rw [heq]
    rw [hname] at ht₂
    cases htable.symm.trans ht₁
    cases htable.symm.trans ht₂
    exact ⟨e'.type,htype₁,htype₂⟩
  · rintro ⟨type,hthere,hback⟩
    obtain ⟨ms,hms,hms'⟩ := undoes_mapM.mpr fun m hm => match_undoes (hmatches m hm)
    exact ⟨{ e with matches_ := ms,type := type },translateTableEntry_eq_ok.mpr ⟨table,htable,hms,hthere,rfl⟩,
      translateTableEntry_eq_ok.mpr ⟨table,htable,hms',hback,rfl⟩⟩

end Entries

section Replication
variable {o : TranslateTableEntryOptions}

def ReplicaInDomain (o : TranslateTableEntryOptions) (r : IrReplica) : Prop :=
  o.translatePortIds = true → PortInDomain o.portMap r.port ∧ ∀ b ∈ r.backupReplicas,PortInDomain o.portMap b.port

def translateBackupReplica (o : TranslateTableEntryOptions) (b : IrBackupReplica) : StatusOr IrBackupReplica :=
  (translatePort o.direction o.portMap b.port).map fun port => ⟨utf8 port,b.instanceId⟩

theorem translatePortInReplica_eq_ok (hids : o.translatePortIds = true) {r' : IrReplica} :
    translatePortInReplica o r = .ok r' ↔ (∃ port,translatePort o.direction o.portMap r.port = .ok port ∧ r'.port = utf8 port) ∧
      r.backupReplicas.mapM (translateBackupReplica o) = .ok r'.backupReplicas ∧ r'.instanceId = r.instanceId := by
  unfold translatePortInReplica
  rw [if_pos hids]
  obtain ⟨port,i,backups⟩ := r
  obtain ⟨port',i',backups'⟩ := r'
  simp only [bind_eq_ok,Except.ok.injEq,IrReplica.mk.injEq]
  constructor
  · rintro ⟨p,hp,bs,hbs,rfl,rfl,rfl⟩
    exact ⟨⟨p,hp,rfl⟩,hbs,rfl⟩
  · rintro ⟨⟨p,hp,rfl⟩,hbs,rfl⟩
    exact ⟨p,hp,_,hbs,rfl,rfl,rfl⟩

private theorem replica_undoes (h : ReplicaInDomain o r) :
    Undoes (translatePortInReplica (o.toward .forOrchAgent)) (translatePortInReplica (o.toward .forController)) r := by
  by_cases hids : o.translatePortIds = true
  swap
  · have hkept (direction : TranslationDirection) : translatePortInReplica (o.toward direction) r = .ok r :=
      if_neg hids
    exact ⟨r,hkept _,hkept _⟩
  have htoward (direction : TranslationDirection) : (o.toward direction).translatePortIds = true := hids
  obtain ⟨⟨id,name,hid,hname⟩,hbackups⟩ := h hids
  have hthere := translatePort_forOrchAgent.mpr ⟨id,hid,hname⟩
  obtain ⟨id',hback,heq⟩ := translatePort_back hthere
  have hbackup : ∀ b ∈ r.backupReplicas,
      Undoes (translateBackupReplica (o.toward .forOrchAgent)) (translateBackupReplica (o.toward .forController)) b := by
    intro b hb
    obtain ⟨id,name,hid,hname⟩ := hbackups b hb
    have hthere := translatePort_forOrchAgent.mpr ⟨id,hid,hname⟩
    obtain ⟨id',hback,heq⟩ := translatePort_back hthere
    refine ⟨⟨utf8 name,b.instanceId⟩,map_eq_ok.mpr ⟨name,hthere,rfl⟩,map_eq_ok.mpr ⟨id',hback,?_⟩⟩
    rw [heq]
  obtain ⟨bs,hbs,hbs'⟩ := undoes_mapM.mpr hbackup
  exact ⟨⟨utf8 name,r.instanceId,bs⟩,(translatePortInReplica_eq_ok (htoward _)).mpr ⟨⟨name,hthere,rfl⟩,hbs,rfl⟩,
    (translatePortInReplica_eq_ok (htoward _)).mpr ⟨⟨id',hback,heq.symm⟩,hbs',rfl⟩⟩

/-- The ports of all replicas are in the domain of the map. -/
def ReplicationInDomain (o : TranslateTableEntryOptions) : IrPacketReplicationEngineEntry → Prop
  | .multicastGroupEntry g => ∀ r ∈ g.replicas,ReplicaInDomain o r
  | .cloneSessionEntry c => ∀ r ∈ c.replicas,ReplicaInDomain o r

def IsMulticastGroup (e : IrPacketReplicationEngineEntry) : Prop := ∃ g,e = .multicastGroupEntry g

theorem replication_undoes_iff {e : IrPacketReplicationEngineEntry} (h : ReplicationInDomain o e) :
    Undoes (translatePacketReplicationEntry (o.toward .forOrchAgent)) (translatePacketReplicationEntry (o.toward .forController)) e ↔
      IsMulticastGroup e := by
  constructor
  · rintro ⟨e',-,hback⟩
    obtain ⟨replicas,-,heq⟩ := map_eq_ok.mp hback
    exact ⟨_,heq.symm⟩
  · rintro ⟨g,rfl⟩
    obtain ⟨replicas,hthere,hback⟩ := undoes_mapM.mpr fun r hr => replica_undoes (h r hr)
    exact ⟨.multicastGroupEntry { g with replicas := replicas },map_eq_ok.mpr ⟨replicas,hthere,rfl⟩,
      map_eq_ok.mpr ⟨g.replicas,hback,rfl⟩⟩

end Replication

section Untouched
variable (o : TranslateTableEntryOptions) (table : IrTableDefinition)

/-- The types of fields that are translated. -/
def IsTranslated (typeName : String) : Prop :=
  o.translatePortIds = true ∧ isPortType typeName = true ∨ isCpuQueue typeName = true ∨ isFrontPanelQueue typeName = true

def UntouchedParam (action : IrActionDefinition) (p p' : IrActionParam) : Prop := p'.name = p.name ∧
  ∀ d,action.paramsByName.lookup p.name = some d → ¬ IsTranslated o d.param.typeName → p' = p

def UntouchedAction (a a' : IrActionInvocation) : Prop := a'.name = a.name ∧
  ∀ d,findAction table a.name = some d → List.Forall₂ (UntouchedParam o d) a.params a'.params

def UntouchedMember (a a' : IrActionSetInvocation) : Prop := UntouchedAction o table a.action a'.action ∧ a'.weight = a.weight ∧
  (o.translatePortIds = false ∨ a.watchPort = [] → a'.watchPort = a.watchPort)

def UntouchedType : IrTableEntryType → IrTableEntryType → Prop
  | .action a,.action a' => UntouchedAction o table a a'
  | .actionSet l,.actionSet l' => List.Forall₂ (UntouchedMember o table) l l'
  | .notSet,.notSet => True
  | _,_ => False

def UntouchedMatch (m m' : IrMatch) : Prop := m'.name = m.name ∧ (¬ PortMatch o table m → m' = m)

/-- Fields that are no ports or queues are the same. -/
def UntouchedEntry (e e' : IrTableEntry) : Prop := e' = { e with matches_ := e'.matches_,type := e'.type } ∧
  ∀ table,o.irP4Info.tablesByName.lookup e.tableName = some table →
    List.Forall₂ (UntouchedMatch o table) e.matches_ e'.matches_ ∧ UntouchedType o table e.type e'.type

def UntouchedReplica (r r' : IrReplica) : Prop := r'.instanceId = r.instanceId ∧ (o.translatePortIds = false → r' = r) ∧
  List.Forall₂ (fun b b' : IrBackupReplica => b'.instanceId = b.instanceId) r.backupReplicas r'.backupReplicas

def UntouchedReplication : IrPacketReplicationEngineEntry → IrPacketReplicationEngineEntry → Prop
  | .multicastGroupEntry g,.multicastGroupEntry g' =>
    g' = { g with replicas := g'.replicas } ∧ List.Forall₂ (UntouchedReplica o) g.replicas g'.replicas
  | _,_ => False

variable {o table}

private theorem translateTypedValue_untouched {typeName : String} {v' : IrValue} (h : ¬ IsTranslated o typeName)
    (hv : translateTypedValue o typeName v = .ok v') : v' = v := by
  obtain ⟨hport,hqueue⟩ := not_or.mp h
  obtain ⟨hcpu,hfront⟩ := not_or.mp hqueue
  unfold translateTypedValue at hv
  rw [if_neg (by simpa using hport),if_neg hcpu,if_neg hfront] at hv
  cases hv
  rfl

theorem translateAction_untouched {a a' : IrActionInvocation} (h : translateAction o table a = .ok a') : UntouchedAction o table a a' := by
  obtain ⟨d,hd,hname,hparams⟩ := translateAction_eq_ok.mp h
  refine ⟨hname,fun d' hd' => ?_⟩
  cases hd.symm.trans hd'
  refine (mapM_eq_ok.mp hparams).imp fun p p' hp => ?_
  obtain ⟨pd,hpd,hpname,hvalue⟩ := translateActionParam_eq_ok.mp hp
  refine ⟨hpname,fun pd' hpd' hkept => ?_⟩
  cases hpd.symm.trans hpd'
  obtain ⟨name,v⟩ := p'
  obtain rfl : name = p.name := hpname
  obtain rfl : v = p.value := translateTypedValue_untouched hkept hvalue
  rfl

theorem translateActionSetInvocation_untouched {a a' : IrActionSetInvocation} (h : translateActionSetInvocation o table a = .ok a') :
    UntouchedMember o table a a' := by
  obtain ⟨haction,hweight,hport⟩ := translateActionSetInvocation_eq_ok.mp h
  refine ⟨translateAction_untouched haction,hweight,fun hkept => ?_⟩
  unfold translateWatchPort at hport
  rw [if_neg (by rcases hkept with hkept | hkept <;> simp [hkept])] at hport
  exact (Except.ok.inj hport).symm

private theorem translateEntryType_untouched {type type' : IrTableEntryType} (h : translateEntryType o table type = .ok type') :
    UntouchedType o table type type' := by
  cases type with
  | notSet =>
    cases h
    trivial
  | action a =>
    obtain ⟨a',ha,rfl⟩ := map_eq_ok.mp h
    exact translateAction_untouched ha
  | actionSet actions =>
    obtain ⟨actions',hactions,rfl⟩ := map_eq_ok.mp h
    exact (mapM_eq_ok.mp hactions).imp fun _ _ => translateActionSetInvocation_untouched

private theorem translateMatchField_untouched (h : translateMatchField o table m = .ok m') : UntouchedMatch o table m m' := by
  by_cases hport : PortMatch o table m
  · rw [translateMatchField_port hport] at h
    exact ⟨(translatePortInMatchField_eq_ok.mp h).1,fun hkept => absurd hport hkept⟩
  · obtain ⟨-,rfl⟩ := (translateMatchField_kept hport).mp h
    exact ⟨rfl,fun _ => rfl⟩

private theorem translateTableEntry_untouched {e' : IrTableEntry} (h : translateTableEntry o e = .ok e') : UntouchedEntry o e e' := by
  obtain ⟨table,htable,hmatches,htype,heq⟩ := translateTableEntry_eq_ok.mp h
  refine ⟨heq,fun table' htable' => ?_⟩
  cases htable.symm.trans htable'
  exact ⟨(mapM_eq_ok.mp hmatches).imp fun _ _ => translateMatchField_untouched,translateEntryType_untouched htype⟩

private theorem translatePortInReplica_untouched {r' : IrReplica} (h : translatePortInReplica o r = .ok r') : UntouchedReplica o r r' := by
  by_cases hids : o.translatePortIds = true
  · obtain ⟨-,hbackups,hinstance⟩ := (translatePortInReplica_eq_ok hids).mp h
    refine ⟨hinstance,fun hoff => by simp [hoff] at hids,(mapM_eq_ok.mp hbackups).imp fun b b' hb => ?_⟩
    obtain ⟨port,-,rfl⟩ := map_eq_ok.mp hb
    rfl
  · rw [translatePortInReplica,if_neg hids] at h
    cases h
    exact ⟨rfl,fun _ => rfl,List.forall₂_same.mpr fun _ _ => rfl⟩

end Untouched

variable (o : TranslateTableEntryOptions)

/-- An entry comes back, and neither direction touches fields that are no ports or queues. -/
def EntryRoundTrips (e : IrTableEntry) : Prop :=
  Undoes (translateTableEntry (o.toward .forOrchAgent)) (translateTableEntry (o.toward .forController)) e ∧
    ∀ direction e',translateTableEntry (o.toward direction) e = .ok e' → UntouchedEntry o e e'

def ReplicationRoundTrips (e : IrPacketReplicationEngineEntry) : Prop :=
  Undoes (translatePacketReplicationEntry (o.toward .forOrchAgent)) (translatePacketReplicationEntry (o.toward .forController)) e ∧
    ∀ direction e',translatePacketReplicationEntry (o.toward direction) e = .ok e' → UntouchedReplication o e e'

/-- Table entries round trip unless a queue id is negative or a watched port has an empty name;
packet replication entries round trip when they are multicast groups. -/
theorem port_and_queue_translation_iff :
    (∀ e,EntryInDomain o e → (EntryRoundTrips o e ↔ EntryInvertible o e)) ∧
      ∀ e,ReplicationInDomain o e → (ReplicationRoundTrips o e ↔ IsMulticastGroup e) := by
  constructor
  · intro e h
    rw [← entry_undoes_iff h]
    exact ⟨And.left,fun hundoes => ⟨hundoes,fun _ _ => translateTableEntry_untouched⟩⟩
  · intro e h
    rw [← replication_undoes_iff h]
    refine ⟨And.left,fun hundoes => ⟨hundoes,fun direction e' he' => ?_⟩⟩
    obtain ⟨g,rfl⟩ := (replication_undoes_iff h).mp hundoes
    obtain ⟨replicas,hreplicas,rfl⟩ := map_eq_ok.mp he'
    exact ⟨rfl,(mapM_eq_ok.mp hreplicas).imp fun _ _ => translatePortInReplica_untouched⟩

def queueAction : IrActionDefinition where
  preamble := { id := 1,aliasName := "set_queue" }
  paramsByName :=
    [("port",⟨{ id := 1,name := "port",bitwidth := 0,typeName := "port_id_t" },.string,[]⟩),
      ("queue",⟨{ id := 2,name := "queue",bitwidth := 0,typeName := "cpu_queue_t" },.string,[]⟩)]

def queueOptions (t : QueueTranslator) : TranslateTableEntryOptions where
  direction := .forOrchAgent
  irP4Info := { tablesByName := [("acl_table",{ preamble := { id := 1,aliasName := "acl_table" },entryActions := [queueAction] })] }
  translatePortIds := true
  portMap := ⟨[("Ethernet0","1")],by decide,by decide⟩
  cpuQueueTranslator := t
  frontPanelQueueTranslator := .empty

def queueEntry : IrTableEntry :=
  { tableName := "acl_table",type := .action ⟨"set_queue",[⟨"port",.str "1"⟩,⟨"queue",.str "CPU"⟩]⟩ }

theorem queueEntry_inDomain (h : t.nameToId "CPU" = some id) : EntryInDomain (queueOptions t) queueEntry := by
  refine ⟨_,rfl,by simp [queueEntry],queueAction,rfl,?_⟩
  exact List.forall_mem_cons.mpr ⟨⟨_,rfl,"1","Ethernet0",rfl,rfl⟩,List.forall_mem_cons.mpr ⟨⟨_,rfl,"CPU",id,rfl,h⟩,by simp⟩⟩

theorem queueEntry_invertible_iff (h : t.nameToId "CPU" = some id) :
    EntryInvertible (queueOptions t) queueEntry ↔ 0 ≤ id := by
  constructor
  · intro hinvertible
    exact hinvertible _ rfl queueAction rfl ⟨"queue",.str "CPU"⟩ (by simp) _ rfl "CPU" id rfl h
  · rintro hnonneg table htable d hd p hp pd hpd
    cases htable
    cases hd
    simp only [List.mem_cons,List.not_mem_nil,or_false] at hp
    rcases hp with rfl | rfl
    · cases hpd
      trivial
    · cases hpd
      rintro name id' hname hid
      cases hname
      cases h.symm.trans hid
      exact hnonneg

theorem queueEntry_round_trips : EntryRoundTrips (queueOptions ⟨[("CPU",3)],by decide,by decide⟩) queueEntry :=
  ((port_and_queue_translation_iff (queueOptions ⟨[("CPU",3)],by decide,by decide⟩)).1 queueEntry (queueEntry_inDomain rfl)).mpr
    ((queueEntry_invertible_iff rfl).mpr (by decide))

/-- A negative queue id is accepted for a translator, and its queue does not come back. -/
theorem negative_queue_id : ∃ t,QueueTranslator.create [("CPU","-1")] = .ok t ∧ EntryInDomain (queueOptions t) queueEntry ∧
    ¬ EntryRoundTrips (queueOptions t) queueEntry := by
  have hentries : (QueueTranslator.create [("CPU","-1")]).toOption.map QueueTranslator.entries = some [("CPU",-1)] := by decide
  obtain ⟨t,ht,hqueues⟩ := Option.map_eq_some_iff.mp hentries
  have hid : t.nameToId "CPU" = some (-1) := by
    rw [QueueTranslator.nameToId,hqueues]
    rfl
  refine ⟨t,toOption_eq_some.mp ht,queueEntry_inDomain hid,fun h => ?_⟩
  have hundoes := (entry_undoes_iff (queueEntry_inDomain hid)).mp h.1
  exact absurd ((queueEntry_invertible_iff hid).mp hundoes) (by decide)

end SonicPins.P4rtApp
