import SonicPins.P4Symbolic.IdAllocation
import SonicPins.P4Symbolic.SymbolicEntries

/-! Which allocators the initialisation of an evaluation leaves: those of the types whose
strings occur in symbolic entries are there before the provided translations are added. -/
namespace SonicPins.P4Symbolic
open Lib Pdpi Ir

variable {typeName : String} {table : Table} {vars : SymbolicMatch} {program : P4Program}

/-! ### The strings that symbolic entries give -/

/-- A concrete string value, with the name of its type. -/
abbrev TypedString := String × String

def stringsOf (typeName : String) : IrValue → List TypedString
  | .str s => [(typeName,s)]
  | _ => []

def SketchMatchValue.given : SketchMatchValue → List IrValue
  | .notSet => []
  | .exact value => [value]
  | .lpm value _ | .optional value => value.toList
  | .ternary value mask => value.toList ++ mask.toList

def stringsOfMatch (table : Table) (irMatch : SketchMatch) : List TypedString :=
  match table.tableDefinition.matchFieldsByName.lookup irMatch.name with
  | none => []
  | some definition => (SketchMatchValue.given irMatch.value).flatMap (stringsOf definition.matchField.typeName)

/-- The string of an action parameter, under the type of the parameter. -/
def stringsOfParam (program : P4Program) (actionName : String) (param : IrActionParam) : List TypedString :=
  match (program.actions.lookup actionName).bind fun action => action.actionDefinition.paramsByName.lookup param.name with
  | none => []
  | some definition => stringsOf definition.param.typeName param.value

def stringsOfEntry (program : P4Program) (table : Table) : Ir.TableEntry → List TypedString
  | .symbolicEntry entry =>
    entry.matches_.flatMap (stringsOfMatch table) ++
      match entry.type with
      | .action irAction => irAction.params.flatMap (stringsOfParam program irAction.name)
      | _ => []
  | _ => []

def stringsOfTable (program : P4Program) (tableEntries : String × List Ir.TableEntry) : List TypedString :=
  if References.isBuiltInTable tableEntries.1 then []
  else
    match program.tables.lookup tableEntries.1 with
    | none => []
    | some table => tableEntries.2.flatMap (stringsOfEntry program table)

/-- All concrete string values in the sketches of the symbolic entries. -/
def stringsOfEntries (program : P4Program) (entries : TableEntries) : List TypedString :=
  entries.flatMap (stringsOfTable program)

/-! ### Allocators made on the way -/

/-- An allocator as it is after some calls since it was made from a translation. -/
def IdAllocator.BuiltFrom (a : IdAllocator) (data : TranslationData) : Prop :=
  ∃ calls results,(IdAllocator.ofData data).allocateIds calls = some (a,results)

namespace IdAllocator
variable {a b c : IdAllocator} {data : TranslationData} {s : String} {r : StatusOr UInt64}

theorem builtFrom_ofData (data : TranslationData) : (ofData data).BuiltFrom data := ⟨[],[],rfl⟩

private theorem allocateIds_append {calls : List String} {results : List (StatusOr UInt64)} (h : a.allocateIds calls = some (b,results))
    (hs : b.allocateId s = some (c,r)) : a.allocateIds (calls ++ [s]) = some (c,results ++ [r]) := by
  induction calls generalizing a results with
  | nil =>
    cases h
    simp only [List.nil_append,allocateIds,hs,Option.bind_some,Option.map_some]
  | cons t calls ih =>
    obtain ⟨⟨d,q⟩,hd,hmap⟩ := Option.bind_eq_some_iff.mp h
    obtain ⟨⟨b',qs⟩,hcalls,heq⟩ := Option.map_eq_some_iff.mp hmap
    cases heq
    rw [List.cons_append,allocateIds,hd,Option.bind_some,ih hcalls]
    rfl

theorem BuiltFrom.step (h : a.BuiltFrom data) (hs : a.allocateId s = some (b,r)) : b.BuiltFrom data := by
  obtain ⟨calls,results,hcalls⟩ := h
  exact ⟨_,_,allocateIds_append hcalls hs⟩

private theorem allocateId_keeps (h : a.allocateId s = some (b,r)) : b.translationData = a.translationData ∧ b.Extends a ∧
    (a.translationData.dynamicTranslation = false → b = a) := by
  unfold allocateId at h
  cases hlookup : a.stringToIdMap.lookup s with
  | some id =>
    rw [hlookup] at h
    cases h
    exact ⟨rfl,fun _ _ hl => hl,fun _ => rfl⟩
  | none =>
    simp only [hlookup] at h
    by_cases hdyn : a.translationData.dynamicTranslation = true
    · rw [if_pos hdyn] at h
      obtain ⟨id,-,heq⟩ := Option.map_eq_some_iff.mp h
      cases heq
      refine ⟨rfl,?_,fun hfalse => absurd hdyn (by simp [hfalse])⟩
      intro t i ht
      have hne : t ≠ s := by
        rintro rfl
        rw [hlookup] at ht
        cases ht
      simpa [lookup_cons_eq,hne] using ht
    · rw [if_neg hdyn] at h
      cases h
      exact ⟨rfl,fun _ _ hl => hl,fun _ => rfl⟩

theorem BuiltFrom.keeps (h : a.BuiltFrom data) : a.translationData = (ofData data).translationData ∧ a.Extends (ofData data) ∧
    ((ofData data).translationData.dynamicTranslation = false → a = ofData data) := by
  obtain ⟨calls,results,hcalls⟩ := h
  have hrun : ∀ (b : IdAllocator),b.allocateIds calls = some (a,results) → a.translationData = b.translationData ∧ a.Extends b ∧
      (b.translationData.dynamicTranslation = false → a = b) := by
    clear hcalls
    induction calls generalizing results with
    | nil =>
      intro b hb
      cases hb
      exact ⟨rfl,fun _ _ hl => hl,fun _ => rfl⟩
    | cons t calls ih =>
      intro b hb
      obtain ⟨⟨d,q⟩,hd,hmap⟩ := Option.bind_eq_some_iff.mp hb
      obtain ⟨⟨b',qs⟩,hcalls,heq⟩ := Option.map_eq_some_iff.mp hmap
      cases heq
      obtain ⟨hdata,hext,hsame⟩ := allocateId_keeps hd
      obtain ⟨hdata',hext',hsame'⟩ := ih _ d hcalls
      refine ⟨hdata'.trans hdata,fun s i hs => hext' s i (hext s i hs),fun hdyn => ?_⟩
      exact (hsame' (hdata ▸ hdyn)).trans (hsame hdyn)
  exact hrun _ hcalls

end IdAllocator

/-- The allocators that formatting the given strings leaves: one for each of their types, made for dynamic translation. -/
def MadeFor (t : P4RuntimeTranslator) (strings : List TypedString) : Prop :=
  ∀ typeName,(t.p4runtimeTranslationAllocators.lookup typeName = none ∧ typeName ∉ strings.map Prod.fst) ∨
    typeName ∈ strings.map Prod.fst ∧
      ∃ a,t.p4runtimeTranslationAllocators.lookup typeName = some a ∧ a.BuiltFrom dynamicTranslation

def Formats (strings : List TypedString) (t t' : P4RuntimeTranslator) : Prop :=
  ∀ earlier,MadeFor t earlier → MadeFor t' (earlier ++ strings)

section Steps
variable {t t' t'' : P4RuntimeTranslator} {strings strings' : List TypedString}

theorem Formats.refl (t : P4RuntimeTranslator) : Formats [] t t := by
  intro earlier h
  rwa [List.append_nil]

theorem Formats.trans (h : Formats strings t t') (h' : Formats strings' t' t'') : Formats (strings ++ strings') t t'' := by
  intro earlier hearlier
  rw [← List.append_assoc]
  exact h' _ (h _ hearlier)

theorem Formats.of_allocators (h : t'.p4runtimeTranslationAllocators = t.p4runtimeTranslationAllocators) : Formats [] t t' := by
  intro earlier hearlier typeName
  rw [h,List.append_nil]
  exact hearlier typeName

private theorem allocateId_formats {s : String} {id : UInt64} (h : t.allocateId typeName s = .ok (id,t')) :
    Formats [(typeName,s)] t t' := by
  unfold P4RuntimeTranslator.allocateId at h
  simp only at h
  split at h
  next => cases h
  next after r hcall =>
    obtain ⟨i,hi,heq⟩ := map_eq_ok.mp h
    cases heq
    intro earlier hearlier name
    rw [List.map_append,List.map_singleton,List.mem_append,List.mem_singleton,lookup_cons_eq]
    by_cases hname : name = typeName
    · refine .inr ⟨.inr hname,after,if_pos hname,?_⟩
      rcases hearlier typeName with ⟨hnone,-⟩ | ⟨-,a,ha,hbuilt⟩
      · rw [hnone] at hcall
        exact (IdAllocator.builtFrom_ofData dynamicTranslation).step hcall
      · rw [ha] at hcall
        exact hbuilt.step hcall
    · rw [if_neg hname]
      rcases hearlier name with ⟨hnone,hnot⟩ | ⟨hmem,ha⟩
      · exact .inl ⟨hnone,not_or.mpr ⟨hnot,hname⟩⟩
      · exact .inr ⟨.inl hmem,ha⟩

private theorem noteField_allocators (t : P4RuntimeTranslator) (fieldName : Option String) (typeName : String) :
    (t.noteField fieldName typeName).p4runtimeTranslationAllocators = t.p4runtimeTranslationAllocators := by
  unfold P4RuntimeTranslator.noteField
  cases fieldName with
  | none => rfl
  | some name =>
    simp only
    split <;> rfl

variable [InetText]

theorem formatP4RTValue_formats {value : IrValue} {fieldName : Option String} {bitwidth : Nat} {e : Term}
    (h : formatP4RTValue value fieldName typeName bitwidth t = .ok (e,t')) : Formats (stringsOf typeName value) t t' := by
  have hother : ∀ v,stringsOf typeName v = [] → (∀ s,v ≠ .str s) →
      formatP4RTValue v fieldName typeName bitwidth t = .ok (e,t') → Formats [] t t' := by
    intro v _ hv hok
    have hsame : t' = t := by
      cases v with
      | str s => exact absurd rfl (hv s)
      | _ =>
        simp only [formatP4RTValue] at hok
        split at hok
        · cases hok
        · obtain ⟨bytes,-,hok⟩ := bind_eq_ok.mp hok
          obtain ⟨_,-,hok⟩ := bind_eq_ok.mp hok
          obtain ⟨bits,-,hok⟩ := bind_eq_ok.mp hok
          cases hok
          rfl
    rw [hsame]
    exact .refl t
  cases value with
  | str s =>
    obtain ⟨⟨id,u⟩,hid,hok⟩ := bind_eq_ok.mp h
    have hstep := (Formats.of_allocators (noteField_allocators t fieldName typeName)).trans (allocateId_formats hid)
    simp only at hok
    split at hok
    · cases hok
      exact hstep
    · cases hok
  | notSet => exact hother _ rfl (by simp) h
  | hexStr s => exact hother _ rfl (by simp) h
  | ipv4 s => exact hother _ rfl (by simp) h
  | ipv6 s => exact hother _ rfl (by simp) h
  | mac s => exact hother _ rfl (by simp) h

end Steps

/-! ### The initialisation -/

@[simp] theorem add_translator (state : SolverState) (c : Term) : (state.add c).translator = state.translator := rfl

theorem atKey_eq_ok {α : Type} {m : List (String × α)} {k : String} {v : α} : atKey m k = .ok v ↔ m.lookup k = some v := by
  unfold atKey
  cases m.lookup k <;> simp

section Initialisation
variable [InetText] {state state' : SolverState}

theorem constrainMatchVariable_formats {target : Term} {matchField : MatchField} {value : IrValue}
    (h : constrainMatchVariable target matchField table value state = .ok state') :
    Formats (stringsOf matchField.typeName value) state.translator state'.translator := by
  obtain ⟨concrete,hconcrete,h⟩ := bind_eq_ok.mp h
  obtain ⟨constraint,-,h⟩ := bind_eq_ok.mp h
  cases h
  unfold getZ3Value at hconcrete
  split at hconcrete
  · cases hconcrete
  · exact formatP4RTValue_formats hconcrete

theorem constrainIfGiven_formats {target : Term} {matchField : MatchField} {value : Option IrValue}
    (h : constrainIfGiven target matchField table value state = .ok state') :
    Formats (value.toList.flatMap (stringsOf matchField.typeName)) state.translator state'.translator := by
  cases value with
  | none =>
    cases h
    exact .refl _
  | some value => simpa using constrainMatchVariable_formats h

omit [InetText] in
private theorem constrainPrefixLength_translator {name : String} {prefixLength : Int32}
    (h : constrainPrefixLength vars name prefixLength state = .ok state') : state'.translator = state.translator := by
  unfold constrainPrefixLength at h
  simp only at h
  split at h
  · cases h
    rfl
  · split at h
    · cases h
    · obtain ⟨ones,-,h⟩ := bind_eq_ok.mp h
      obtain ⟨zeroes,-,h⟩ := bind_eq_ok.mp h
      obtain ⟨mask,-,h⟩ := bind_eq_ok.mp h
      cases h
      rfl

private theorem concreteParts_formats {irMatch : SketchMatch}
    (h : addConstraintsForConcretePartsOfSymbolicMatch vars irMatch table state = .ok state') :
    Formats (stringsOfMatch table irMatch) state.translator state'.translator := by
  obtain ⟨definition,hdef,h⟩ := bind_eq_ok.mp h
  rw [stringsOfMatch,atKey_eq_ok.mp hdef]
  cases hvalue : irMatch.value with
  | notSet =>
    rw [hvalue] at h
    cases h
    exact .refl _
  | exact value =>
    rw [hvalue] at h
    simpa [SketchMatchValue.given] using constrainMatchVariable_formats h
  | lpm value prefixLength =>
    rw [hvalue] at h
    obtain ⟨middle,hmiddle,h⟩ := bind_eq_ok.mp h
    have hstep := constrainIfGiven_formats hmiddle
    rwa [← constrainPrefixLength_translator h] at hstep
  | ternary value mask =>
    rw [hvalue] at h
    obtain ⟨middle,hmiddle,h⟩ := bind_eq_ok.mp h
    have hstep := (constrainIfGiven_formats hmiddle).trans (constrainIfGiven_formats h)
    rwa [← List.flatMap_append] at hstep
  | optional value =>
    rw [hvalue] at h
    exact constrainIfGiven_formats h

omit [InetText] in
private theorem matchTypeConstraints_translator
    (h : addMatchTypeConstraintsForSymbolicMatch vars state = .ok state') : state'.translator = state.translator := by
  unfold addMatchTypeConstraintsForSymbolicMatch at h
  cases hkind : vars.matchType with
  | exact =>
    rw [hkind] at h
    obtain ⟨c,-,h⟩ := bind_eq_ok.mp h
    cases h
    rfl
  | lpm =>
    rw [hkind] at h
    obtain ⟨_,-,h⟩ := bind_eq_ok.mp h
    obtain ⟨_,-,h⟩ := bind_eq_ok.mp h
    obtain ⟨_,-,h⟩ := bind_eq_ok.mp h
    obtain ⟨_,-,h⟩ := bind_eq_ok.mp h
    cases h
    rfl
  | optional =>
    rw [hkind] at h
    obtain ⟨_,-,h⟩ := bind_eq_ok.mp h
    obtain ⟨_,-,h⟩ := bind_eq_ok.mp h
    obtain ⟨_,-,h⟩ := bind_eq_ok.mp h
    cases h
    rfl
  | ternary =>
    rw [hkind] at h
    cases h
    rfl
  | unspecified =>
    rw [hkind] at h
    cases h
  | range =>
    rw [hkind] at h
    cases h

private theorem initializeSymbolicMatch_formats {entry : SymbolicTableEntry} {irMatch : SketchMatch}
    (h : initializeSymbolicMatch entry table program irMatch state = .ok state') :
    Formats (stringsOfMatch table irMatch) state.translator state'.translator := by
  unfold initializeSymbolicMatch at h
  split at h
  · cases h
  · obtain ⟨vars,-,h⟩ := bind_eq_ok.mp h
    obtain ⟨typed,htyped,h⟩ := bind_eq_ok.mp h
    obtain ⟨canonical,hcanonical,h⟩ := bind_eq_ok.mp h
    obtain ⟨masked,-,hcanonical⟩ := bind_eq_ok.mp hcanonical
    obtain ⟨constraint,-,hcanonical⟩ := bind_eq_ok.mp hcanonical
    cases hcanonical
    have hstep := concreteParts_formats h
    rwa [add_translator,matchTypeConstraints_translator htyped] at hstep

omit [InetText] in
theorem foldlM_formats {α : Type} {step : SolverState → α → Fallible SolverState} {strings : α → List TypedString}
    (hstep : ∀ s x s',step s x = .ok s' → Formats (strings x) s.translator s'.translator) {l : List α}
    (h : l.foldlM step state = .ok state') : Formats (l.flatMap strings) state.translator state'.translator := by
  induction l generalizing state with
  | nil =>
    cases h
    exact .refl _
  | cons x l ih =>
    rw [List.foldlM_cons] at h
    obtain ⟨middle,hx,hl⟩ := bind_eq_ok.mp h
    exact (hstep state x middle hx).trans (ih hl)

private theorem constrainActionParam_formats {actionName : String} {params : List (String × Term)}
    {param : IrActionParam} (h : constrainActionParam program actionName params state param = .ok state') :
    Formats (stringsOfParam program actionName param) state.translator state'.translator := by
  obtain ⟨action,haction,h⟩ := bind_eq_ok.mp h
  obtain ⟨target,-,h⟩ := bind_eq_ok.mp h
  obtain ⟨definition,hdefinition,h⟩ := bind_eq_ok.mp h
  obtain ⟨concrete,hconcrete,h⟩ := bind_eq_ok.mp h
  obtain ⟨constraint,-,h⟩ := bind_eq_ok.mp h
  cases h
  have hlookup := findPtrOrStatus_eq_ok.mp (mapError_eq_ok.mp hdefinition)
  rw [stringsOfParam,atKey_eq_ok.mp haction,Option.bind_some,hlookup]
  exact formatP4RTValue_formats hconcrete

omit [InetText] in
private theorem foldl_add_translator (l : List (String × Term)) (f : String × Term → Term) (state : SolverState) :
    (l.foldl (fun state x => state.add (f x)) state).translator = state.translator := by
  induction l generalizing state with
  | nil => rfl
  | cons x l ih => rw [List.foldl_cons,ih,add_translator]

private theorem concreteAction_formats {irAction : IrActionInvocation} {vars : ActionVariables}
    (h : addConstraintsForConcretePartsOfSymbolicAction irAction vars program state = .ok state') :
    Formats (irAction.params.flatMap (stringsOfParam program irAction.name)) state.translator state'.translator := by
  unfold addConstraintsForConcretePartsOfSymbolicAction at h
  split at h
  · split at h
    next hparams =>
      cases h
      rw [List.isEmpty_iff.mp hparams]
      exact .refl _
    next => cases h
  · split at h
    · split at h
      · cases h
      · have hstep := foldlM_formats (fun s x s' hx => constrainActionParam_formats hx) h
        rwa [foldl_add_translator,add_translator] at hstep
    · cases h

private theorem initializeSymbolicActions_formats {entry : SymbolicTableEntry}
    (h : initializeSymbolicActions entry table program state = .ok state') :
    Formats (match entry.type with
      | .action irAction => irAction.params.flatMap (stringsOfParam program irAction.name)
      | _ => []) state.translator state'.translator := by
  unfold initializeSymbolicActions at h
  obtain ⟨vars,-,h⟩ := bind_eq_ok.mp h
  cases htype : entry.type with
  | notSet =>
    simp only [htype] at h
    cases h
    exact .refl _
  | action irAction =>
    simp only [htype] at h
    have hstep := concreteAction_formats h
    exact hstep
  | actionSet actions =>
    simp only [htype] at h
    cases h

private theorem initializeTableEntry_formats {entry : Ir.TableEntry}
    (h : initializeTableEntry program table state entry = .ok state') :
    Formats (stringsOfEntry program table entry) state.translator state'.translator := by
  cases entry with
  | notSet => cases h
  | concreteEntry entity index =>
    cases h
    exact .refl _
  | symbolicEntry entry =>
    simp only [initializeTableEntry] at h
    split at h
    · cases h
    · obtain ⟨middle,hmatches,hactions⟩ := bind_eq_ok.mp h
      exact (foldlM_formats (fun s x s' hx => initializeSymbolicMatch_formats hx) hmatches).trans
        (initializeSymbolicActions_formats hactions)

private theorem initializeTable_formats {tableEntries : String × List Ir.TableEntry}
    (h : initializeTable program state tableEntries = .ok state') :
    Formats (stringsOfTable program tableEntries) state.translator state'.translator := by
  unfold initializeTable at h
  unfold stringsOfTable
  split at h
  next hbuiltIn =>
    cases h
    rw [if_pos hbuiltIn]
    exact .refl _
  next hbuiltIn =>
    rw [if_neg hbuiltIn]
    cases htable : program.tables.lookup tableEntries.1 with
    | none =>
      rw [htable] at h
      cases h
    | some table =>
      rw [htable] at h
      exact foldlM_formats (fun s x s' hx => initializeTableEntry_formats hx) h

private theorem initializeTableEntries_madeFor {entries : TableEntries}
    (h : initializeTableEntries program entries {} = .ok state') :
    MadeFor state'.translator (stringsOfEntries program entries) := by
  have hempty : MadeFor ({} : SolverState).translator [] := fun typeName => .inl ⟨rfl,by simp⟩
  exact foldlM_formats (fun s x s' hx => initializeTable_formats hx) h [] hempty

end Initialisation

/-! ### The provided translations -/

/-- An allocator that honours a provided translation: it was made from it, encodes each string of
the static mapping as the mapped id (the last one, if there are several), and rejects every other
string if the translation is purely static. -/
structure IdAllocator.Honours (a : IdAllocator) (data : TranslationData) : Prop where
  builtFrom : a.BuiltFrom data
  encodes : ∀ s id,data.staticMapping.reverse.lookup s = some id → a.allocateId s = some (a,.ok id)
  rejects : data.dynamicTranslation = false → ∀ s,s ∉ data.staticStrings → ∃ e,a.allocateId s = some (a,.error e)

namespace IdAllocator

private theorem foldl_store_stringToIdMap (pairs : List (String × UInt64)) (a : IdAllocator) :
    (pairs.foldl (fun a x => a.store x.1 x.2) a).stringToIdMap = pairs.reverse ++ a.stringToIdMap := by
  induction pairs generalizing a with
  | nil => rfl
  | cons x pairs ih => rw [List.foldl_cons,ih,store_stringToIdMap,List.reverse_cons,List.append_assoc,List.singleton_append]

private theorem foldl_store_translationData (pairs : List (String × UInt64)) (a : IdAllocator) :
    (pairs.foldl (fun a x => a.store x.1 x.2) a).translationData = a.translationData := by
  induction pairs generalizing a with
  | nil => rfl
  | cons x pairs ih => rw [List.foldl_cons,ih,store_translationData]

@[simp] theorem ofData_stringToIdMap (data : TranslationData) : (ofData data).stringToIdMap = data.staticMapping.reverse := by
  rw [ofData,foldl_store_stringToIdMap,List.append_nil]

@[simp] theorem ofData_translationData (data : TranslationData) : (ofData data).translationData = data :=
  foldl_store_translationData _ _

theorem BuiltFrom.honours {a : IdAllocator} {data : TranslationData} (h : a.BuiltFrom data) : a.Honours data where
  builtFrom := h
  encodes s id hs := by
    have hlookup := h.keeps.2.1 s id (by rwa [ofData_stringToIdMap])
    rw [allocateId,hlookup]
  rejects hdyn s hs := by
    have hsame := h.keeps.2.2 (by rwa [ofData_translationData])
    have hnone : (ofData data).stringToIdMap.lookup s = none := by
      rw [ofData_stringToIdMap,List.lookup_eq_none_iff]
      intro x hx
      rw [bne_iff_ne]
      rintro rfl
      exact hs (List.mem_map_of_mem (List.mem_reverse.mp hx))
    rw [hsame]
    exact ⟨_,by rw [allocateId,hnone,ofData_translationData,hdyn]; rfl⟩

end IdAllocator

theorem lookup_emplace (t : P4RuntimeTranslator) (typeName name : String) (a : IdAllocator) :
    (t.emplace typeName a).p4runtimeTranslationAllocators.lookup name =
      (t.p4runtimeTranslationAllocators.lookup name).or (if name = typeName then some a else none) := by
  unfold P4RuntimeTranslator.emplace
  cases hlookup : t.p4runtimeTranslationAllocators.lookup typeName with
  | some b =>
    by_cases hname : name = typeName
    · rw [hname,hlookup]
      rfl
    · simp [hname]
  | none =>
    simp only [lookup_cons_eq]
    by_cases hname : name = typeName
    · simp [hname,hlookup]
    · simp [hname]

private theorem lookup_foldl_emplace {l : List (String × TranslationData)} (hnodup : (l.map Prod.fst).Nodup)
    {data : TranslationData} (hmem : (typeName,data) ∈ l) (t : P4RuntimeTranslator) :
    (l.foldl (fun t x => t.emplace x.1 (.ofData x.2)) t).p4runtimeTranslationAllocators.lookup typeName =
      (t.p4runtimeTranslationAllocators.lookup typeName).or (some (.ofData data)) := by
  have hother : ∀ (l : List (String × TranslationData)) (t : P4RuntimeTranslator),typeName ∉ l.map Prod.fst →
      (l.foldl (fun t x => t.emplace x.1 (.ofData x.2)) t).p4runtimeTranslationAllocators.lookup typeName =
        t.p4runtimeTranslationAllocators.lookup typeName := by
    intro l
    induction l with
    | nil => exact fun _ _ => rfl
    | cons x l ih =>
      intro t hnot
      obtain ⟨hx,hl⟩ := not_or.mp (List.mem_cons.not.mp hnot)
      rw [List.foldl_cons,ih _ hl,lookup_emplace,if_neg hx,Option.or_none]
  induction l generalizing t with
  | nil => cases hmem
  | cons x l ih =>
    obtain ⟨hx,hl⟩ := List.nodup_cons.mp hnodup
    rw [List.foldl_cons]
    rcases List.mem_cons.mp hmem with rfl | hmem
    · rw [hother l _ hx,lookup_emplace,if_pos rfl]
    · have hne : typeName ≠ x.1 := fun heq => hx (heq ▸ List.mem_map.mpr ⟨_,hmem,rfl⟩)
      rw [ih hl hmem,lookup_emplace,if_neg hne,Option.or_none]

/-- Each type with a provided translation is handled by an allocator that honours it. -/
def TranslationPerType.HonouredBy (translations : TranslationPerType) (state : SolverState) : Prop :=
  ∀ x ∈ translations.translations,∃ a,state.translator.p4runtimeTranslationAllocators.lookup x.1 = some a ∧ a.Honours x.2

/-- No symbolic entry gives a string of a type with a provided translation, unless that
translation says what is done without one. -/
def TranslationPerType.Untouched (translations : TranslationPerType) (strings : List TypedString) : Prop :=
  ∀ x ∈ translations.translations,x.1 ∈ strings.map Prod.fst → x.2 = dynamicTranslation

/-- The provided translations are honoured exactly when the entries give no string of their types. -/
theorem static_translations_honoured_iff [InetText] {program : P4Program} {entries : TableEntries}
    {translations : TranslationPerType} {state : SolverState} (h : initializeEvaluation program entries translations = .ok state) :
    translations.HonouredBy state ↔ translations.Untouched (stringsOfEntries program entries) := by
  obtain ⟨before,hbefore,rfl⟩ := map_eq_ok.mp h
  have hmade := initializeTableEntries_madeFor hbefore
  have hlookup : ∀ x ∈ translations.translations,
      (addStaticTranslations translations before).translator.p4runtimeTranslationAllocators.lookup x.1 =
        (before.translator.p4runtimeTranslationAllocators.lookup x.1).or (some (.ofData x.2)) :=
    fun x hx => lookup_foldl_emplace translations.nodup hx before.translator
  constructor
  · intro hhonoured x hx hstring
    obtain ⟨a,ha,hhonours⟩ := hhonoured x hx
    rcases hmade x.1 with ⟨-,hnot⟩ | ⟨-,b,hb,hbuilt⟩
    · exact absurd hstring hnot
    · rw [hlookup x hx,hb] at ha
      cases ha
      have hdynamic := hbuilt.keeps.1
      have hprovided := hhonours.builtFrom.keeps.1
      rw [IdAllocator.ofData_translationData] at hdynamic hprovided
      exact hprovided.symm.trans hdynamic
  · intro huntouched x hx
    rw [hlookup x hx]
    rcases hmade x.1 with ⟨hnone,-⟩ | ⟨hstring,b,hb,hbuilt⟩
    · exact ⟨_,by rw [hnone]; rfl,(IdAllocator.builtFrom_ofData x.2).honours⟩
    · rw [hb]
      exact ⟨b,rfl,(huntouched x hx hstring ▸ hbuilt).honours⟩

def portProgram : P4Program where
  headers := [("local_metadata",{ fields := [("in_port",9)] })]
  tables := [("port_table",{
    tableDefinition := {
      preamble := { id := 1,aliasName := "port_table",name := "port_table" }
      matchFieldsByName := [("in_port",{
        matchField := { id := 1,name := "in_port",bitwidth := 0,matchType := .exact,typeName := "port_id_t" }
        format := .string })]
      entryActions := [{ preamble := { id := 2,aliasName := "pass",name := "pass" } }] }
    matchNameToField := [("in_port",⟨"local_metadata","in_port"⟩)] })]
  actions := [("pass",{ actionDefinition := { preamble := { id := 2,aliasName := "pass",name := "pass" } } })]

/-- One symbolic entry; its match is symbolic or on a given port. -/
def portEntry (value : SketchMatchValue) : TableEntries :=
  [("port_table",[.symbolicEntry { tableName := "port_table",matches_ := [⟨"in_port",value⟩] }])]

def portTranslation : TranslationPerType where
  translations := [("port_id_t",{ staticMapping := [("Ethernet0",7)] })]
  nodup := by decide

/-- With a symbolic match, the port type keeps its provided translation. -/
theorem static_translations_honoured_symbolic_port :
    ∃ state,@initializeEvaluation uncompressedInet portProgram (portEntry .notSet) portTranslation = .ok state ∧
      (portTranslation.HonouredBy state ↔ portTranslation.Untouched (stringsOfEntries portProgram (portEntry .notSet))) :=
  ⟨_,by rfl,@static_translations_honoured_iff uncompressedInet _ _ _ _ (by rfl)⟩

/-- With a given port, the port type gets a dynamic allocator first, which the provided translation does not replace. -/
theorem static_translations_not_honoured :
    ¬ ∀ (program : P4Program) (entries : TableEntries) (translations : TranslationPerType) (state : SolverState),
      @initializeEvaluation uncompressedInet program entries translations = .ok state → translations.HonouredBy state := by
  intro h
  have hhonoured := h portProgram (portEntry (.exact (.str "Ethernet0"))) portTranslation _ (by rfl)
  obtain ⟨a,ha,hhonours⟩ := hhonoured _ (List.mem_singleton.mpr rfl)
  have hdata := hhonours.builtFrom.keeps.1
  rw [IdAllocator.ofData_translationData] at hdata
  cases ha
  exact absurd hdata (by decide)

end SonicPins.P4Symbolic
