import SonicPins.P4Symbolic.IdAllocation
import SonicPins.P4Symbolic.SymbolicEvaluation

/-! What statements and actions do to concrete headers, and that their symbolic evaluation does the same for every
assignment of the solver's variables. -/
namespace SonicPins.P4Symbolic.Evaluation
open Lib Pdpi Operators SymbolicPerPacketState

variable {scope : Scope}

/-- Concrete headers, and the variables of an action. -/
abbrev Frame := Store × Store

def simpleValueOf (c : Frame) : Ir.SimpleValue → Option Value
  | .unsupported => none
  | .fieldValue field => c.1 (qualifiedName field)
  | .hexstrValue value negative =>
    if negative then none else (hexStringToNat value).toOption.map fun n => ⟨binaryDigits n,n⟩
  | .boolValue value => some ⟨1,value.toNat⟩
  | .variableValue name => c.2 name

def valueOf (c : Frame) : Ir.RValue → Option Value
  | .value value => simpleValueOf c value
  | .binary operation left right => (valueOf c left).bind fun a => (valueOf c right).map fun b => binaryValue operation a b
  | .unary operation operand => (valueOf c operand).map fun a => unaryOf operation a
  | .ternary condition left right =>
    (valueOf c condition).bind fun v => (valueOf c left).bind fun a => (valueOf c right).map fun b => ternaryOf v a b
  | .builtin function argument => (valueOf c argument).map fun a => builtinOf function a

def SetsHeader (key : String) (value : Value) (c c' : Frame) : Prop := c.1.set key value = some c'.1 ∧ c'.2 = c.2

def CopiesField (leftHeaderName rightHeaderName fieldName : String) (c c' : Frame) : Prop :=
  ∃ v,c.1 (rightHeaderName ++ "." ++ fieldName) = some v ∧ SetsHeader (leftHeaderName ++ "." ++ fieldName) v c c'

/-- What a statement may do. The value of a hash is any one; what the packet is marked with is in the headers. -/
def Executes (program : Ir.Program) : Ir.Statement → Frame → Frame → Prop
  | .unsupported,_,_ => False
  | .assignment (.fieldValue field) right,c,c' => ∃ v,valueOf c right = some v ∧ SetsHeader (qualifiedName field) v c c'
  | .assignment (.variableValue name) right,c,c' =>
    ∃ v,valueOf c right = some v ∧ c' = (c.1,Function.update c.2 name (some v))
  | .assignment .unsupported _,_,_ => False
  | .drop headerName,c,c' => ∃ d width,SetsHeader (headerName ++ "." ++ "egress_spec") ⟨9,511⟩ c d ∧
      SetsHeader (headerName ++ "." ++ "mcast_grp") ⟨width,0⟩ d c'
  | .clone,c,c' => SetsHeader "$got_cloned$" ⟨1,1⟩ c c'
  | .recirculate,c,c' => SetsHeader "$got_recirculated$" ⟨1,1⟩ c c'
  | .hash field,c,c' => ∃ v,SetsHeader (qualifiedName field) v c c'
  | .exit,c,c' => c' = c
  | .headerAssignment left right,c,c' => ∃ header d,program.headers.lookup right = some header ∧
      Through (CopiesField left right) header.orderedFieldsList c d ∧ CopiesField left right "$valid$" d c'

def RunsBody (program : Ir.Program) (action : Ir.ProgramAction) (scope c c' : Store) : Prop :=
  ∃ scope',Through (Executes program) action.actionBody (c,scope) (c',scope')

section Statements
variable {program : Ir.Program} {actionName key : String} {guard value : Term} {state state' : ActionState}

def frameAt (σ : Assignment) (state : ActionState) : Frame := (storeAt σ state.headers,storeAt σ state.scope)

structure SoundState (state : ActionState) : Prop where
  headers : SoundPacket state.headers
  scope : SoundPacket state.scope

/-- A step that is sound, and does what a relation says. -/
structure Steps (guard : Term) (R : Assignment → Frame → Frame → Prop) (state state' : ActionState) : Prop where
  sound : SoundState state'
  follows : Follows frameAt Prod.fst (holds guard) R state state'

theorem Steps.imp {R R' : Assignment → Frame → Frame → Prop} (h : Steps guard R state state')
    (himp : ∀ σ,R σ (frameAt σ state) (frameAt σ state') → R' σ (frameAt σ state) (frameAt σ state')) :
    Steps guard R' state state' := ⟨h.sound,h.follows.imp fun σ _ => himp σ⟩

theorem Steps.trans {state'' : ActionState} {R R' : Assignment → Frame → Frame → Prop} (h : Steps guard R state state')
    (h' : Steps guard R' state' state'') : Steps guard (fun σ c c'' => ∃ c',R σ c c' ∧ R' σ c' c'') state state'' :=
  ⟨h'.sound,h.follows.trans h'.follows⟩

theorem storeAt_of_lookup {packet : SymbolicPerPacketState} {t : Term} (h : packet.lookup key = some t) (σ : Assignment) :
    storeAt σ packet key = some (valueAt σ t) := by
  rw [storeAt,h,Option.map_some]

private theorem lt_binaryDigits (n : Nat) : n < 2 ^ binaryDigits n := by
  rw [binaryDigits]
  split_ifs with h
  · rw [h]
    decide
  · exact Nat.lt_log2_self

theorem sound_bvVal {n w : Nat} (hw : 0 < w) : Sound (.bvVal n w) := fun _ => Term.Means.bvVal n hw

theorem sound_boolVal (b : Bool) : Sound (.boolVal b) := by
  intro σ
  refine ⟨Nat.zero_lt_one,rfl,rfl,?_⟩
  cases b with
  | false => exact Nat.two_pow_pos 1
  | true => exact Nat.one_lt_two_pow one_ne_zero

theorem valueAt_bvVal {n w : Nat} (h : n < 2 ^ w) (σ : Assignment) : valueAt σ (.bvVal n w) = ⟨w,n⟩ := by
  rw [valueAt,Term.eval,Nat.mod_eq_of_lt h]
  rfl

private theorem evaluateHexStr_value {text : String} {negative : Bool} {t : Term} (h : evaluateHexStr text negative = .ok t) :
    Sound t ∧ ∀ c σ,simpleValueOf c (.hexstrValue text negative) = some (valueAt σ t) := by
  rw [evaluateHexStr] at h
  split_ifs at h with hnegative
  obtain ⟨v,-,h⟩ := bind_eq_ok.mp h
  obtain ⟨n,hn,h⟩ := bind_eq_ok.mp h
  cases h
  have hpos : 0 < binaryDigits n := by
    rw [binaryDigits]
    split_ifs <;> omega
  refine ⟨sound_bvVal hpos,fun c σ => ?_⟩
  rw [simpleValueOf,if_neg hnegative,hn,valueAt_bvVal (lt_binaryDigits n)]
  rfl

private theorem evaluateSimpleValue_value {headers : SymbolicPerPacketState} (hheaders : SoundPacket headers)
    (hscope : SoundPacket scope) {v : Ir.SimpleValue} {t : Term} (h : evaluateSimpleValue actionName headers scope v = .ok t) :
    Sound t ∧ ∀ σ,simpleValueOf (storeAt σ headers,storeAt σ scope) v = some (valueAt σ t) := by
  cases v with
  | unsupported => cases h
  | fieldValue field =>
    have hlookup := getField_eq_ok.mp h
    exact ⟨hheaders _ _ hlookup,storeAt_of_lookup hlookup⟩
  | hexstrValue text negative =>
    obtain ⟨hsound,hvalue⟩ := evaluateHexStr_value h
    exact ⟨hsound,fun σ => hvalue _ σ⟩
  | boolValue b =>
    cases h
    exact ⟨sound_boolVal b,fun σ => rfl⟩
  | variableValue name =>
    rw [evaluateSimpleValue,evaluateVariable] at h
    cases hlookup : scope.lookup name with
    | none =>
      rw [hlookup] at h
      cases h
    | some v =>
      rw [hlookup] at h
      cases h
      exact ⟨hscope _ _ hlookup,storeAt_of_lookup hlookup⟩

theorem evaluateRValue_value {headers : SymbolicPerPacketState} (hheaders : SoundPacket headers)
    (hscope : SoundPacket scope) {e : Ir.RValue} {t : Term} (h : evaluateRValue actionName headers scope e = .ok t) :
    Sound t ∧ ∀ σ,valueOf (storeAt σ headers,storeAt σ scope) e = some (valueAt σ t) := by
  induction e generalizing t with
  | value v => exact evaluateSimpleValue_value hheaders hscope h
  | binary operation left right ihl ihr =>
    obtain ⟨a,ha,h⟩ := bind_eq_ok.mp h
    obtain ⟨b,hb,h⟩ := bind_eq_ok.mp h
    obtain ⟨hsa,hva⟩ := ihl ha
    obtain ⟨hsb,hvb⟩ := ihr hb
    obtain ⟨hsound,hvalue⟩ := evaluateBinary_value hsa hsb h
    refine ⟨hsound,fun σ => ?_⟩
    rw [valueOf,hva,hvb,hvalue]
    rfl
  | unary operation operand ih =>
    obtain ⟨a,ha,h⟩ := bind_eq_ok.mp h
    obtain ⟨hsa,hva⟩ := ih ha
    obtain ⟨hsound,hvalue⟩ := evaluateUnary_value hsa h
    refine ⟨hsound,fun σ => ?_⟩
    rw [valueOf,hva,hvalue]
    rfl
  | ternary condition left right ihc ihl ihr =>
    obtain ⟨c,hc,h⟩ := bind_eq_ok.mp h
    obtain ⟨a,ha,h⟩ := bind_eq_ok.mp h
    obtain ⟨b,hb,h⟩ := bind_eq_ok.mp h
    obtain ⟨hsc,hvc⟩ := ihc hc
    obtain ⟨hsa,hva⟩ := ihl ha
    obtain ⟨hsb,hvb⟩ := ihr hb
    obtain ⟨hsound,hvalue⟩ := ite_value hsc hsa hsb h
    refine ⟨hsound,fun σ => ?_⟩
    rw [valueOf,hvc,hva,hvb,hvalue]
    rfl
  | builtin function argument ih =>
    obtain ⟨a,ha,h⟩ := bind_eq_ok.mp h
    obtain ⟨hsa,hva⟩ := ih ha
    obtain ⟨hsound,hvalue⟩ := evaluateBuiltin_value hsa h
    refine ⟨hsound,fun σ => ?_⟩
    rw [valueOf,hva,hvalue]
    rfl

theorem setHeader_steps (hs : SoundState state) (hvalue : Sound value) (hguard : Sound guard)
    (h : setHeader guard state key value = .ok state') :
    Steps guard (fun σ => SetsHeader key (valueAt σ value)) state state' := by
  obtain ⟨headers,hset,rfl⟩ := map_eq_ok.mp h
  obtain ⟨hsound,hfollows⟩ := set_follows hs.headers hvalue hguard hset
  exact ⟨⟨hsound,hs.scope⟩,fun σ hσ => ⟨hfollows.runs σ hσ,rfl⟩,fun σ hσ => hfollows.idle σ hσ⟩

private theorem evaluateAssignmentStatement_steps {left : Ir.LValue} {right : Ir.RValue} (hs : SoundState state) (hguard : Sound guard)
    (h : evaluateAssignmentStatement actionName guard state left right = .ok state') :
    Steps guard (fun _ => Executes program (.assignment left right)) state state' := by
  obtain ⟨t,ht,h⟩ := bind_eq_ok.mp h
  obtain ⟨hsound,hvalue⟩ := evaluateRValue_value hs.headers hs.scope ht
  cases left with
  | unsupported => cases h
  | fieldValue field => exact (setHeader_steps hs hsound hguard h).imp fun σ hset => ⟨_,hvalue σ,hset⟩
  | variableValue name =>
    cases h
    have hscope : SoundPacket ((name,t) :: state.scope) := by
      intro k t' hk
      rw [lookup_cons_ite] at hk
      split_ifs at hk
      · rw [← Option.some.inj hk]
        exact hsound
      · exact hs.scope k t' hk
    refine ⟨⟨hs.headers,hscope⟩,fun σ _ => ⟨_,hvalue σ,?_⟩,fun σ _ => rfl⟩
    refine Prod.ext rfl (funext fun k => ?_)
    change (List.lookup k ((name,t) :: state.scope)).map (valueAt σ) =
      Function.update (storeAt σ state.scope) name (some (valueAt σ t)) k
    rw [lookup_cons_ite,Function.update_apply]
    split_ifs
    · rfl
    · rfl

private theorem evaluateDrop_steps {headerName : String} (hs : SoundState state) (hguard : Sound guard)
    (h : evaluateDrop program guard state headerName = .ok state') :
    Steps guard (fun _ => Executes program (.drop headerName)) state state' := by
  obtain ⟨mid,hmid,h⟩ := bind_eq_ok.mp h
  obtain ⟨width,-,h⟩ := bind_eq_ok.mp h
  obtain ⟨mcastGrp,hgrp,h⟩ := bind_eq_ok.mp h
  rw [Term.mkBvVal] at hgrp
  split_ifs at hgrp with hwidth
  cases hgrp
  have hfirst := setHeader_steps hs (sound_bvVal (by decide)) hguard hmid
  have hsecond := setHeader_steps hfirst.sound (sound_bvVal (Nat.pos_of_ne_zero hwidth)) hguard h
  apply (hfirst.trans hsecond).imp
  rintro σ ⟨d,hspec,hgrp⟩
  rw [valueAt_bvVal (show 511 < 2 ^ 9 by decide)] at hspec
  rw [valueAt_bvVal (Nat.two_pow_pos width)] at hgrp
  exact ⟨d,width,hspec,hgrp⟩

private theorem evaluateHash_steps {field : Ir.FieldValue} (hs : SoundState state) (hguard : Sound guard)
    (h : evaluateHash actionName guard state field = .ok state') :
    Steps guard (fun _ => Executes program (.hash field)) state state' := by
  rw [evaluateHash] at h
  cases hlookup : state.headers.lookup (qualifiedName field) with
  | none =>
    rw [hlookup] at h
    cases h
  | some oldValue =>
    rw [hlookup] at h
    have hpos := (hs.headers _ _ hlookup fun _ _ => 0).pos
    have hfree : Sound (freeVariable (qualifiedName field) oldValue.sort state.counter).1 := fun σ => .const _ hpos
    have hcounted : SoundState { state with counter := (freeVariable (qualifiedName field) oldValue.sort state.counter).2 } :=
      ⟨hs.headers,hs.scope⟩
    have hsteps := setHeader_steps hcounted hfree hguard h
    exact ⟨hsteps.sound,fun σ hσ => ⟨_,hsteps.follows.runs σ hσ⟩,fun σ hσ => hsteps.follows.idle σ hσ⟩

theorem copiesField_steps {leftHeaderName rightHeaderName fieldName : String} {t : Term} (hs : SoundState state) (hguard : Sound guard)
    (hget : state.headers.get rightHeaderName fieldName = .ok t)
    (h : setHeader guard state (leftHeaderName ++ "." ++ fieldName) t = .ok state') :
    Steps guard (fun _ => CopiesField leftHeaderName rightHeaderName fieldName) state state' := by
  have hlookup := getField_eq_ok.mp hget
  exact (setHeader_steps hs (hs.headers _ _ hlookup) hguard h).imp fun σ hset => ⟨_,storeAt_of_lookup hlookup σ,hset⟩

private theorem evaluateHeaderAssignmentStatement_steps {left right : String} (hs : SoundState state) (hguard : Sound guard)
    (h : evaluateHeaderAssignmentStatement program guard state left right = .ok state') :
    Steps guard (fun _ => Executes program (.headerAssignment left right)) state state' := by
  obtain ⟨leftHeader,hleft,h⟩ := bind_eq_ok.mp h
  obtain ⟨rightHeader,hright,h⟩ := bind_eq_ok.mp h
  split_ifs at h
  obtain ⟨mid,hmid,h⟩ := bind_eq_ok.mp h
  obtain ⟨valid,hvalid,h⟩ := bind_eq_ok.mp h
  have hheader : program.headers.lookup right = some rightHeader := by
    rw [headerOf] at hright
    cases hlookup : program.headers.lookup right with
    | none =>
      rw [hlookup] at hright
      cases hright
    | some header =>
      rw [hlookup] at hright
      cases hright
      rfl
  have hcopy : ∀ fieldName ∈ rightHeader.orderedFieldsList,∀ s s',SoundState s →
      assignHeaderField guard left right leftHeader s fieldName = .ok s' →
        SoundState s' ∧ Follows frameAt Prod.fst (holds guard) (fun _ => CopiesField left right fieldName) s s' := by
    intro fieldName _ s s' hs hstep
    rw [assignHeaderField] at hstep
    cases hlookup : leftHeader.fields.lookup fieldName with
    | none =>
      rw [hlookup] at hstep
      cases hstep
    | some width =>
      rw [hlookup] at hstep
      obtain ⟨t,ht,hstep⟩ := bind_eq_ok.mp hstep
      have hsteps := copiesField_steps hs hguard ht hstep
      exact ⟨hsteps.sound,hsteps.follows⟩
  obtain ⟨hmidSound,hfields⟩ := Follows.foldlM (R := fun fieldName _ => CopiesField left right fieldName) hcopy hs hmid
  have hlast := copiesField_steps hmidSound hguard hvalid h
  apply (Steps.trans ⟨hmidSound,hfields⟩ hlast).imp
  rintro σ ⟨d,hthrough,hcopy⟩
  exact ⟨rightHeader,d,hheader,hthrough,hcopy⟩

private theorem evaluateStatement_steps {statement : Ir.Statement} (hs : SoundState state) (hguard : Sound guard)
    (h : evaluateStatement program actionName guard state statement = .ok state') :
    Steps guard (fun _ => Executes program statement) state state' := by
  cases statement with
  | unsupported => cases h
  | assignment left right => exact evaluateAssignmentStatement_steps hs hguard h
  | drop headerName => exact evaluateDrop_steps hs hguard h
  | clone => exact setHeader_steps hs (sound_boolVal true) hguard h
  | recirculate => exact setHeader_steps hs (sound_boolVal true) hguard h
  | hash field => exact evaluateHash_steps hs hguard h
  | exit =>
    cases h
    exact ⟨hs,.refl fun _ _ => rfl⟩
  | headerAssignment left right => exact evaluateHeaderAssignmentStatement_steps hs hguard h

end Statements

section Translation
variable {a b : IdAllocator} {t t' t'' : P4RuntimeTranslator} {typeName text : String}

/-- Strings of translated types keep the ids that they have. -/
def Extends (t' t : P4RuntimeTranslator) : Prop := ∀ typeName a,t.p4runtimeTranslationAllocators.lookup typeName = some a →
  ∃ b,t'.p4runtimeTranslationAllocators.lookup typeName = some b ∧ b.Extends a

theorem Extends.refl (t : P4RuntimeTranslator) : Extends t t := fun _ a ha => ⟨a,ha,fun _ _ h => h⟩

theorem Extends.trans (h' : Extends t'' t') (h : Extends t' t) : Extends t'' t := by
  intro typeName a ha
  obtain ⟨b,hb,hba⟩ := h typeName a ha
  obtain ⟨c,hc,hcb⟩ := h' typeName b hb
  exact ⟨c,hc,fun s id hid => hcb s id (hba s id hid)⟩

private theorem allocateId_extends {r : StatusOr UInt64} (h : a.allocateId text = some (b,r)) :
    b.Extends a ∧ ∀ id,r = .ok id → b.stringToIdMap.lookup text = some id := by
  rw [IdAllocator.allocateId] at h
  cases hlookup : a.stringToIdMap.lookup text with
  | some id =>
    rw [hlookup] at h
    cases h
    refine ⟨fun _ _ h => h,fun id' hid => ?_⟩
    cases hid
    exact hlookup
  | none =>
    rw [hlookup] at h
    dsimp only at h
    split_ifs at h
    · obtain ⟨id,-,heq⟩ := Option.map_eq_some_iff.mp h
      cases heq
      constructor
      · intro s id' hs
        change List.lookup s ((text,id) :: a.stringToIdMap) = some id'
        rw [lookup_cons_ite,if_neg (fun heq => by rw [heq,hlookup] at hs; cases hs)]
        exact hs
      · intro id' hid
        cases hid
        change List.lookup text ((text,id) :: a.stringToIdMap) = some id
        rw [lookup_cons_ite,if_pos rfl]
    · cases h
      exact ⟨fun _ _ h => h,fun id hid => by cases hid⟩

def idOf (t : P4RuntimeTranslator) (typeName text : String) : Option UInt64 :=
  (t.p4runtimeTranslationAllocators.lookup typeName).bind fun a => a.stringToIdMap.lookup text

theorem Extends.idOf_eq {id : UInt64} (h : Extends t' t) (hid : idOf t typeName text = some id) :
    idOf t' typeName text = some id := by
  obtain ⟨a,ha,hlookup⟩ := Option.bind_eq_some_iff.mp hid
  obtain ⟨b,hb,hba⟩ := h typeName a ha
  exact Option.bind_eq_some_iff.mpr ⟨b,hb,hba _ _ hlookup⟩

theorem translatorAllocateId_extends {id : UInt64} (h : t.allocateId typeName text = .ok (id,t')) :
    Extends t' t ∧ idOf t' typeName text = some id := by
  rw [P4RuntimeTranslator.allocateId] at h
  set allocator := (t.p4runtimeTranslationAllocators.lookup typeName).getD (.ofData dynamicTranslation) with hallocator
  cases hcall : allocator.allocateId text with
  | none =>
    rw [hcall] at h
    cases h
  | some call =>
    obtain ⟨after,r⟩ := call
    rw [hcall] at h
    obtain ⟨id',hr,heq⟩ := map_eq_ok.mp h
    cases heq
    obtain ⟨hextends,hid⟩ := allocateId_extends hcall
    constructor
    · intro name a ha
      by_cases hname : name = typeName
      · rw [hname] at ha ⊢
        rw [ha,Option.getD_some] at hallocator
        rw [hallocator] at hextends
        exact ⟨after,by rw [lookup_cons_ite,if_pos rfl],hextends⟩
      · exact ⟨a,by rw [lookup_cons_ite,if_neg hname]; exact ha,fun _ _ h => h⟩
    · rw [idOf,lookup_cons_ite,if_pos rfl]
      exact hid id (orFail_eq_ok.mp hr)

variable [InetText] {value : IrValue} {bitwidth : Nat} {fieldName : Option String}

/-- The number that a value of an entry stands for, with its width. -/
def readValue (t : P4RuntimeTranslator) (value : IrValue) (typeName : String) (bitwidth : Nat) : Option Value :=
  match value with
  | .str text => (idOf t typeName text).map fun id => ⟨idBitwidth id,id.toNat⟩
  | value => (irValueToNormalizedByteString value bitwidth).toOption.map fun byteString =>
      ⟨bitwidth,bytesToNat byteString % 2 ^ bitwidth⟩

theorem Extends.readValue_eq {v : Value} (h : Extends t' t) (hv : readValue t value typeName bitwidth = some v) :
    readValue t' value typeName bitwidth = some v := by
  cases value with
  | str text =>
    obtain ⟨id,hid,rfl⟩ := Option.map_eq_some_iff.mp hv
    exact Option.map_eq_some_iff.mpr ⟨id,h.idOf_eq hid,rfl⟩
  | _ => exact hv

omit [InetText] in
private theorem idBitwidth_spec (id : UInt64) : 0 < idBitwidth id ∧ id.toNat < 2 ^ idBitwidth id := by
  rw [idBitwidth]
  split_ifs with h
  · rw [h]
    decide
  · exact ⟨Nat.succ_pos _,Nat.lt_log2_self⟩

theorem formatP4RTValue_value {r : Term × P4RuntimeTranslator} (h : formatP4RTValue value fieldName typeName bitwidth t = .ok r) :
    Extends r.2 t ∧ Sound r.1 ∧ ∀ σ,readValue r.2 value typeName bitwidth = some (valueAt σ r.1) := by
  cases value with
  | str text =>
    obtain ⟨allocated,hallocated,h⟩ := bind_eq_ok.mp h
    split_ifs at h
    cases h
    have hnote : (t.noteField fieldName typeName).p4runtimeTranslationAllocators = t.p4runtimeTranslationAllocators := by
      cases fieldName with
      | none => rfl
      | some name =>
        rw [P4RuntimeTranslator.noteField]
        split_ifs <;> rfl
    obtain ⟨hextends,hid⟩ := translatorAllocateId_extends hallocated
    rw [Extends,hnote] at hextends
    obtain ⟨hpos,hlt⟩ := idBitwidth_spec allocated.1
    refine ⟨hextends,sound_bvVal hpos,fun σ => ?_⟩
    rw [valueAt_bvVal hlt]
    exact Option.map_eq_some_iff.mpr ⟨_,hid,rfl⟩
  | _ =>
    rw [formatP4RTValue] at h
    · split_ifs at h
      obtain ⟨byteString,hbytes,h⟩ := bind_eq_ok.mp h
      obtain ⟨-,-,h⟩ := bind_eq_ok.mp h
      obtain ⟨bits,hbits,h⟩ := bind_eq_ok.mp h
      cases h
      rw [Term.mkBvVal] at hbits
      split_ifs at hbits with hwidth
      cases hbits
      refine ⟨.refl t,sound_bvVal (Nat.pos_of_ne_zero hwidth),fun σ => ?_⟩
      rw [readValue,orFail_eq_ok.mp hbytes]
      · rfl
      · intro text htext
        cases htext
    · intro text htext
      cases htext

end Translation

variable {program : Ir.Program} {guard : Term} {action : Ir.ProgramAction} {work work' work'' : Work}

/-- What an evaluation does to the headers, as values read in every later translator. -/
structure Acts (guard : Term) (R : P4RuntimeTranslator → Assignment → Store → Store → Prop) (work work' : Work) : Prop where
  extends_ : Extends work'.1.translator work.1.translator
  sound : SoundPacket work'.2
  follows : ∀ T,Extends T work'.1.translator → Follows storeAt id (holds guard) (R T) work.2 work'.2

theorem Acts.imp {R R' : P4RuntimeTranslator → Assignment → Store → Store → Prop} (h : Acts guard R work work')
    (himp : ∀ T,Extends T work'.1.translator → ∀ σ c c',R T σ c c' → R' T σ c c') : Acts guard R' work work' :=
  ⟨h.extends_,h.sound,fun T hT => (h.follows T hT).imp fun σ _ => himp T hT σ _ _⟩

theorem evaluateActionBody_acts (hs : SoundPacket work.2) (hscope : SoundPacket scope) (hguard : Sound guard)
    (h : evaluateActionBody program guard action scope work.1 work.2 = .ok work') :
    Acts guard (fun _ σ => RunsBody program action (storeAt σ scope)) work work' := by
  obtain ⟨s,hfold,rfl⟩ := map_eq_ok.mp h
  have hstatement : ∀ statement ∈ action.actionBody,∀ s s',SoundState s →
      evaluateStatement program action.actionDefinition.preamble.name guard s statement = .ok s' →
        SoundState s' ∧ Follows frameAt Prod.fst (holds guard) (fun _ => Executes program statement) s s' := by
    intro statement _ s s' hs hstep
    have hsteps := evaluateStatement_steps hs hguard hstep
    exact ⟨hsteps.sound,hsteps.follows⟩
  obtain ⟨hsound,hfollows⟩ := Follows.foldlM (R := fun statement _ => Executes program statement) hstatement ⟨hs,hscope⟩ hfold
  refine ⟨.refl _,hsound.headers,fun T _ => ⟨fun σ hσ => ?_,fun σ hσ => hfollows.idle σ hσ⟩⟩
  exact ⟨storeAt σ s.scope,hfollows.runs σ hσ⟩

private theorem storeAt_insertVariable {name : String} {value : Term} (σ : Assignment) :
    storeAt σ (insertVariable name value scope) =
      if (storeAt σ scope name).isSome then storeAt σ scope
      else Function.update (storeAt σ scope) name (some (valueAt σ value)) := by
  rw [insertVariable,storeAt]
  cases hlookup : scope.lookup name with
  | some v => rfl
  | none =>
    funext k
    change (List.lookup k ((name,value) :: scope)).map (valueAt σ) =
      Function.update (storeAt σ scope) name (some (valueAt σ value)) k
    rw [lookup_cons_ite,Function.update_apply]
    split_ifs <;> rfl

private theorem soundPacket_insertVariable {name : String} {value : Term} (hs : SoundPacket scope) (hv : Sound value) :
    SoundPacket (insertVariable name value scope) := by
  intro k t hk
  rw [insertVariable] at hk
  cases hlookup : scope.lookup name with
  | some v =>
    rw [hlookup] at hk
    exact hs k t hk
  | none =>
    rw [hlookup] at hk
    change List.lookup k ((name,value) :: scope) = some t at hk
    rw [lookup_cons_ite] at hk
    split_ifs at hk
    · rw [← Option.some.inj hk]
      exact hv
    · exact hs k t hk

variable [InetText]

/-- A parameter that is not there yet gets the value of its argument. -/
def bindArgument (T : P4RuntimeTranslator) (action : Ir.ProgramAction) (scope : Store) (arg : IrActionParam) : Option Store :=
  (action.actionDefinition.paramsByName.lookup arg.name).bind fun definition =>
    (readValue T arg.value definition.param.typeName definition.param.bitwidth).map fun v =>
      if (scope definition.param.name).isSome then scope else Function.update scope definition.param.name (some v)

/-- An invocation with its arguments, as an entry has it. -/
def Invokes (program : Ir.Program) (T : P4RuntimeTranslator) (invocation : IrActionInvocation) (c c' : Store) : Prop :=
  ∃ action scope,program.actions.lookup invocation.name = some action ∧
    action.actionDefinition.paramsByName.length = invocation.params.length ∧
    invocation.params.foldlM (bindArgument T action) (fun _ => none) = some scope ∧ RunsBody program action scope c c'

private theorem addArgument_spec {s s' : Scope × P4RuntimeTranslator} {arg : IrActionParam} (hs : SoundPacket s.1)
    (h : addArgument action s arg = .ok s') : Extends s'.2 s.2 ∧ SoundPacket s'.1 ∧ ∀ T,Extends T s'.2 → ∀ σ,
      bindArgument T action (storeAt σ s.1) arg = some (storeAt σ s'.1) := by
  obtain ⟨definition,hdefinition,h⟩ := bind_eq_ok.mp h
  obtain ⟨value,hvalue,h⟩ := bind_eq_ok.mp h
  cases h
  obtain ⟨hextends,hsound,hread⟩ := formatP4RTValue_value hvalue
  refine ⟨hextends,soundPacket_insertVariable hs hsound,fun T hT σ => ?_⟩
  rw [bindArgument,findPtrOrStatus_eq_ok.mp (orFail_eq_ok.mp hdefinition),Option.bind_some,hT.readValue_eq (hread σ),
    Option.map_some,storeAt_insertVariable]

private theorem addArguments_spec {args : List IrActionParam} {s s' : Scope × P4RuntimeTranslator} (hs : SoundPacket s.1)
    (h : args.foldlM (addArgument action) s = .ok s') : Extends s'.2 s.2 ∧ SoundPacket s'.1 ∧ ∀ T,Extends T s'.2 → ∀ σ,
      args.foldlM (bindArgument T action) (storeAt σ s.1) = some (storeAt σ s'.1) := by
  induction args generalizing s with
  | nil =>
    cases h
    exact ⟨.refl _,hs,fun _ _ _ => rfl⟩
  | cons arg args ih =>
    rw [List.foldlM_cons] at h
    obtain ⟨mid,hmid,h⟩ := bind_eq_ok.mp h
    obtain ⟨hextends,hsound,hbind⟩ := addArgument_spec hs hmid
    obtain ⟨hextends',hsound',hbinds⟩ := ih hsound h
    refine ⟨hextends'.trans hextends,hsound',fun T hT σ => ?_⟩
    rw [List.foldlM_cons,hbind T (hT.trans hextends') σ]
    exact hbinds T hT σ

theorem evaluateSingleConcreteAction_acts {invocation : IrActionInvocation} (hs : SoundPacket work.2) (hguard : Sound guard)
    (h : evaluateSingleConcreteAction program guard invocation work = .ok work') :
    Acts guard (fun T _ => Invokes program T invocation) work work' := by
  rw [evaluateSingleConcreteAction] at h
  cases haction : program.actions.lookup invocation.name with
  | none =>
    rw [haction] at h
    cases h
  | some action =>
    rw [haction] at h
    dsimp only at h
    rw [evaluateConcreteAction] at h
    split_ifs at h with hlength
    obtain ⟨s,hargs,h⟩ := bind_eq_ok.mp h
    obtain ⟨hextends,hscope,hbinds⟩ := addArguments_spec (fun _ _ hk => by cases hk) hargs
    have hbody : Acts guard _ ({ work.1 with translator := s.2 },work.2) work' := evaluateActionBody_acts hs hscope hguard h
    refine ⟨hbody.extends_.trans hextends,hbody.sound,fun T hT => (hbody.follows T hT).imp fun σ _ hruns => ?_⟩
    exact ⟨action,_,haction,not_not.mp hlength,hbinds T (hT.trans hbody.extends_) σ,hruns⟩

end SonicPins.P4Symbolic.Evaluation
