import SonicPins.P4rtApp.EntryRows
import SonicPins.P4rtApp.TransitionPlan
import SonicPins.P4rtApp.WriteStatuses
import SonicPins.Sonic.FailOnFirst

/-! The definition of an ACL table replaced while its entries stay programmed: in the table, in its
duplicate or in the new table, whatever has been done of the operations. -/
namespace SonicPins.P4rtApp
open Lib Pdpi Sonic

section Operations

/-- An exchange of a replacement, about a definition or about all entries. -/
inductive ReplacementOp where
  | definition (row : KeyOpFieldsValues)
  | entities (updates : List AppDbUpdate)

def ReplacementOp.updates : ReplacementOp → List AppDbUpdate
  | .definition row => [⟨.p4rt,row⟩]
  | .entities updates => updates

variable (fs : PipelineFunctions) (layers : SwitchLayers)

def ReplacementOp.perform (s : DbSession) : ReplacementOp → Fallible DbSession
  | .definition row => sendDefinition layers s row
  | .entities updates => performAll layers id updates s

def performOps (ops : List (Fallible ReplacementOp)) (s : DbSession) : Fallible DbSession :=
  ops.foldlM (fun s op => op >>= ReplacementOp.perform layers s) s

def definitionOp (table : IrTableDefinition) : Fallible ReplacementOp := (orFail (appDbAclTableDefinition fs table)).map .definition

def removalOp (tableName : String) : Fallible ReplacementOp := .ok (.definition ⟨generateSonicDbKeyFromTableName tableName,.del,[]⟩)

variable [InetText] (translation : SwitchTranslation)

def entitiesOp (info : IrP4Info) (type : UpdateType) (entities : List Entity) : Fallible ReplacementOp :=
  (entities.mapM (entityAppDbUpdate translation info type)).map .entities

/-- The operations of a replacement in their order. -/
def replacementOps (old new : IrP4Info) (tableName : String) (entities : List Entity) : List (Fallible ReplacementOp) :=
  match duplicateTable old tableName with
  | .error status => [.error (.status status)]
  | .ok (temporary,duplicate) => match tableNamed temporary duplicate with
    | .error failure => [.error failure]
    | .ok copy =>
      let copies := entities.map (withTableId copy.preamble.id)
      [definitionOp fs copy,
        entitiesOp translation temporary .insert copies,
        entitiesOp translation old .delete entities,
        removalOp tableName,
        tableNamed new tableName >>= definitionOp fs,
        entitiesOp translation new .insert entities,
        entitiesOp translation temporary .delete copies,
        removalOp duplicate]

end Operations

section Performed
variable {fs : PipelineFunctions} {layers : SwitchLayers} {s s' : DbSession}

theorem sendDefinition_db {row : KeyOpFieldsValues} (h : sendDefinition layers s row = .ok s') : s'.db = s.db.apply ⟨.p4rt,row⟩ := by
  obtain ⟨responses,-,h⟩ := bind_eq_ok.mp h
  obtain ⟨statuses,-,h⟩ := bind_eq_ok.mp h
  simp only at h
  split_ifs at h
  cases h
  rfl

private theorem performAll_db {failed : Status → Status} {updates : List AppDbUpdate} (h : performAll layers failed updates s = .ok s') :
    s'.db = updates.foldl AppDb.apply s.db := by
  obtain ⟨answered,-,h⟩ := bind_eq_ok.mp h
  simp only at h
  split at h
  · cases h
  · cases h
    rfl

theorem ReplacementOp.perform_db {op : ReplacementOp} (h : op.perform layers s = .ok s') :
    s'.db = op.updates.foldl AppDb.apply s.db := by
  cases op with
  | definition row => exact sendDefinition_db h
  | entities updates => exact performAll_db h

@[simp] theorem toOption_withPrefix (text : String) (r : Fallible DbSession) : (withPrefix text r).toOption = r.toOption :=
  toOption_mapError ..

@[simp] theorem toOption_withSuffix (text : String) (r : Fallible DbSession) : (withSuffix text r).toOption = r.toOption :=
  toOption_mapError ..

private theorem performAll_toOption (failed : Status → Status) (updates : List AppDbUpdate) (s : DbSession) :
    (performAll layers failed updates s).toOption = (performAll layers id updates s).toOption := by
  unfold performAll
  simp only [toOption_bind]
  congr 1
  funext statuses
  split <;> rfl

private theorem toOption_insertAclTableDefinition (table : IrTableDefinition) (s : DbSession) :
    (insertAclTableDefinition layers fs table s).toOption = (definitionOp fs table >>= ReplacementOp.perform layers s).toOption := by
  simp [insertAclTableDefinition,definitionOp,Option.bind_map,ReplacementOp.perform]

private theorem toOption_updateAppDbEntities [InetText] (translation : SwitchTranslation) (info : IrP4Info) (type : UpdateType)
    (entities : List Entity) (s : DbSession) : (updateAppDbEntities layers translation info type entities s).toOption =
      (entitiesOp translation info type entities >>= ReplacementOp.perform layers s).toOption := by
  simp [updateAppDbEntities,entitiesOp,Option.bind_map,ReplacementOp.perform,performAll_toOption (_ : Status → Status)]

theorem replaceTableInAppDb_toOption [InetText] (translation : SwitchTranslation) (old new : IrP4Info) (tableName : String)
    (entities : List Entity) (s : DbSession) :
    (replaceTableInAppDb fs layers translation old new tableName entities s).toOption =
      (performOps layers (replacementOps fs translation old new tableName entities) s).toOption := by
  unfold replaceTableInAppDb replacementOps performOps
  cases duplicateTable old tableName with
  | error status => rfl
  | ok p =>
    obtain ⟨temporary,duplicate⟩ := p
    cases hcopy : tableNamed temporary duplicate with
    | error failure => simp [orFail,hcopy]
    | ok copy =>
      simp only [orFail,hcopy,toOption_bind,toOption_mapError,toOption_ok,toOption_withPrefix,toOption_withSuffix,
        toOption_insertAclTableDefinition,toOption_updateAppDbEntities,removeAclTableDefinition,removeAclTableDefinitionByKey,removalOp,
        ReplacementOp.perform,List.foldlM_cons,List.foldlM_nil,Option.bind_some,Option.bind_assoc,pure,Except.pure,Option.bind_fun_some]

end Performed

section Runs
variable (layers : SwitchLayers)

/-- The contents of the AppDb while operations are performed one after another. Of an operation, also of
one that fails, any part may have been done, in any order. -/
inductive Reaches : List (Fallible ReplacementOp) → DbSession → AppDb → Prop
  | start (ops : List (Fallible ReplacementOp)) (s : DbSession) : Reaches ops s s.db
  | within {op : ReplacementOp} {part : List AppDbUpdate} (ops : List (Fallible ReplacementOp)) (s : DbSession) :
      part.Subperm op.updates → Reaches (.ok op :: ops) s (part.foldl AppDb.apply s.db)
  | next {op : ReplacementOp} {ops : List (Fallible ReplacementOp)} {s s' : DbSession} {db : AppDb} :
      op.perform layers s = .ok s' → Reaches ops s' db → Reaches (.ok op :: ops) s db

def phaseOf (op : Fallible ReplacementOp) : Option (List (KeyChange DbRow)) := op.toOption.map fun op => op.updates.map rowChange

theorem mem_phaseOf {op : Fallible ReplacementOp} {phase : List (KeyChange DbRow)} :
    phase ∈ phaseOf op ↔ ∃ op',op = .ok op' ∧ op'.updates.map rowChange = phase := by
  rw [phaseOf,Option.mem_def,Option.map_eq_some_iff]
  simp only [toOption_eq_some]

variable {layers} {ops : List (Fallible ReplacementOp)} {s : DbSession} {db : AppDb}

theorem Reaches.seen (h : Reaches layers ops s db) : Seen (ops.map phaseOf) (presentRows s.db) (presentRows db) := by
  induction h with
  | start => exact .start _ _
  | within ops s hpart =>
    rw [presentRows_foldl]
    obtain ⟨l,hperm,hsub⟩ := hpart
    exact .within _ _ ⟨l.map rowChange,hperm.map _,hsub.map _⟩
  | next hperform _ ih =>
    rw [ReplacementOp.perform_db hperform,presentRows_foldl] at ih
    exact .later ih

theorem reaches_performOps {s' : DbSession} (h : performOps layers ops s = .ok s') : Reaches layers ops s s'.db := by
  induction ops generalizing s with
  | nil =>
    cases h
    exact .start _ _
  | cons op ops ih =>
    rw [performOps,List.foldlM_cons] at h
    obtain ⟨mid,hmid,hrest⟩ := bind_eq_ok.mp h
    obtain ⟨op,rfl,hmid⟩ := bind_eq_ok.mp hmid
    exact .next hmid (ih hrest)

end Runs

section Phases
variable [InetText] {fs : PipelineFunctions} {translation : SwitchTranslation} {info : IrP4Info} {entities : List Entity}
  {phase : List (KeyChange DbRow)} {row : DbRow}

omit [InetText] in
theorem keeps_definitionOp {table : IrTableDefinition} (h : phase ∈ phaseOf (definitionOp fs table)) : KeyChange.Keeps phase row := by
  obtain ⟨op,hop,rfl⟩ := mem_phaseOf.mp h
  obtain ⟨update,hupdate,rfl⟩ := map_eq_ok.mp hop
  obtain ⟨key,-,hupdate⟩ := bind_eq_ok.mp (orFail_eq_ok.mp hupdate)
  obtain ⟨values,-,hupdate⟩ := bind_eq_ok.mp hupdate
  cases hupdate
  refine keeps_of_set (fun u hu => ?_) row
  rw [List.mem_singleton.mp hu]

omit [InetText] in
theorem keeps_removalOp {tableName : String} (h : phase ∈ phaseOf (removalOp tableName))
    (hrow : row ≠ (.p4rt,generateSonicDbKeyFromTableName tableName)) : KeyChange.Keeps phase row := by
  obtain ⟨op,hop,rfl⟩ := mem_phaseOf.mp h
  cases hop
  refine keeps_of_ne fun u hu => ?_
  rw [List.mem_singleton.mp hu]
  exact hrow.symm

theorem keeps_insertOp (h : phase ∈ phaseOf (entitiesOp translation info .insert entities)) : KeyChange.Keeps phase row := by
  obtain ⟨op,hop,rfl⟩ := mem_phaseOf.mp h
  obtain ⟨updates,hupdates,rfl⟩ := map_eq_ok.mp hop
  refine keeps_of_set (fun u hu => ?_) row
  obtain ⟨e,-,he⟩ := (mem_of_mapM hupdates).mp hu
  exact entityAppDbUpdate_op he

theorem put_insertOp (h : phase ∈ phaseOf (entitiesOp translation info .insert entities)) {e : Entity} (he : e ∈ entities) :
    ∃ u,entityAppDbUpdate translation info .insert e = .ok u ∧ KeyChange.put (rowOf u) ∈ phase := by
  obtain ⟨op,hop,rfl⟩ := mem_phaseOf.mp h
  obtain ⟨updates,hupdates,rfl⟩ := map_eq_ok.mp hop
  obtain ⟨u,hu,heu⟩ := exists_of_forall₂_left (mapM_eq_ok.mp hupdates) he
  refine ⟨u,heu,List.mem_map.mpr ⟨u,hu,?_⟩⟩
  rw [rowChange,entityAppDbUpdate_op heu]
  rfl

theorem keeps_deleteOp {tableName : String} (htable : ∀ e ∈ entities,entityTable info e = some tableName)
    (hrow : ∀ u,EntryRow tableName u → rowOf u ≠ row) (h : phase ∈ phaseOf (entitiesOp translation info .delete entities)) :
    KeyChange.Keeps phase row := by
  obtain ⟨op,hop,rfl⟩ := mem_phaseOf.mp h
  obtain ⟨updates,hupdates,rfl⟩ := map_eq_ok.mp hop
  refine keeps_of_ne fun u hu => ?_
  obtain ⟨e,he,heu⟩ := (mem_of_mapM hupdates).mp hu
  exact hrow u (entityAppDbUpdate_entryRow heu (htable e he))

end Phases

section Duplicates
variable {info temporary : IrP4Info} {tableName duplicate : String} {copy : IrTableDefinition}

theorem lookup_insertNew {κ α : Type} [DecidableEq κ] (m : List (κ × α)) (k : κ) (v : α) :
    (insertNew m k v).lookup k = some ((m.lookup k).getD v) := by
  unfold insertNew
  cases hk : m.lookup k with
  | none => simp [List.lookup_append,hk]
  | some w => simpa using hk

private theorem lookup_insertNew_of_some {κ α : Type} [DecidableEq κ] {m : List (κ × α)} {k : κ} {v : α} {k' : κ} {w : α}
    (h : m.lookup k' = some w) : (insertNew m k v).lookup k' = some w := by
  unfold insertNew
  split
  · exact h
  · simp [List.lookup_append,h]

/-- The id of the duplicate of a table, if it gets one, is not the id of a table, and tables with the id of the table have
its name in the new P4Info. -/
structure Replaceable (old new : IrP4Info) (tableName : String) : Prop where
  newId : old.tablesByName.lookup (duplicateTableName tableName) = none → old.tablesById.lookup (largestTableId old + 1) = none
  sameName : ∀ table,old.tablesByName.lookup tableName = some table →
    ∀ table',new.tablesById.lookup table.preamble.id = some table' → table'.preamble.aliasName = tableName

theorem entityTable_copy (hinfo : info.WellFormed)
    (hnew : info.tablesByName.lookup (duplicateTableName tableName) = none → info.tablesById.lookup (largestTableId info + 1) = none)
    (h : duplicateTable info tableName = .ok (temporary,duplicate)) (hcopy : tableNamed temporary duplicate = .ok copy) (e : Entity) :
    duplicate = duplicateTableName tableName ∧ entityTable temporary (withTableId copy.preamble.id e) = some duplicate := by
  unfold duplicateTable at h
  split at h
  · cases h
  · rename_i table htable
    cases h
    refine ⟨rfl,?_⟩
    rw [tableNamed_eq_ok,updateActionProfiles_tablesByName,lookup_insertNew,Option.some.injEq] at hcopy
    cases hduplicate : info.tablesByName.lookup (duplicateTableName tableName) with
    | none =>
      rw [hduplicate,Option.getD_none] at hcopy
      rw [← hcopy,withTableId,entityTable,updateActionProfiles_tablesById,lookup_insertNew,hnew hduplicate]
      rfl
    | some present =>
      rw [hduplicate,Option.getD_some] at hcopy
      obtain ⟨hname,hid,-⟩ := hinfo.table_of_name hduplicate
      rw [← hcopy,withTableId,entityTable,updateActionProfiles_tablesById,lookup_insertNew_of_some hid,Option.map_some,hname]

end Duplicates

section Installed
variable [InetText] (translation : SwitchTranslation)

/-- An entity is in a table: the row that inserting it there would write is present. -/
def InTable (present : Set DbRow) (info : IrP4Info) (tableName : String) (e : Entity) : Prop :=
  entityTable info e = some tableName ∧ ∃ u,entityAppDbUpdate translation info .insert e = .ok u ∧ rowOf u ∈ present

def InDuplicate (present : Set DbRow) (old : IrP4Info) (tableName : String) (e : Entity) : Prop :=
  ∃ temporary duplicate copy,duplicateTable old tableName = .ok (temporary,duplicate) ∧ tableNamed temporary duplicate = .ok copy ∧
    InTable translation present temporary duplicate (withTableId copy.preamble.id e)

/-- An entity is in the old table, in its duplicate or in the new table. -/
def Installed (present : Set DbRow) (old new : IrP4Info) (tableName : String) (e : Entity) : Prop :=
  InTable translation present old tableName e ∨ InDuplicate translation present old tableName e ∨
    InTable translation present new tableName e

end Installed

section Handover
variable [InetText] {fs : PipelineFunctions} {layers : SwitchLayers} {translation : SwitchTranslation} {old : AcceptedP4Info}
  {new : IrP4Info} {tableName : String} {entities : List Entity}

theorem Replaceable.entityTable_new (h : Replaceable old.toIrP4Info new tableName) {e : Entity}
    (htable : entityTable old.toIrP4Info e = some tableName) {type : UpdateType} {u : AppDbUpdate}
    (hu : entityAppDbUpdate translation new type e = .ok u) : entityTable new e = some tableName := by
  cases e with
  | tableEntry pi =>
    obtain ⟨table,hlookup,hname⟩ := Option.map_eq_some_iff.mp htable
    obtain ⟨hid,hlookup,-⟩ := old.wellFormed.table_of_id hlookup
    obtain ⟨table',hlookup'⟩ := entityTable_of_translated hu
    have hname' := h.sameName table (hname ▸ hlookup) table' (hid ▸ hlookup')
    rw [entityTable,hlookup',Option.map_some,hname']
  | packetReplicationEngineEntry | notSet | other => cases htable

section Moved
variable {temporary : IrP4Info} {duplicate : String} {copy : IrTableDefinition} {present seen : Set DbRow} {e : Entity}

/-- While the old table is removed and the new one filled, an entry stays in the duplicate until it is in the new table. -/
theorem seen_after_copying (h : Replaceable old.toIrP4Info new tableName)
    (hduplicate : duplicateTable old.toIrP4Info tableName = .ok (temporary,duplicate))
    (hcopy : tableNamed temporary duplicate = .ok copy) (htables : ∀ e ∈ entities,entityTable old.toIrP4Info e = some tableName)
    (he : e ∈ entities) {v : AppDbUpdate} (hv : entityAppDbUpdate translation temporary .insert (withTableId copy.preamble.id e) = .ok v)
    (hpresent : rowOf v ∈ present)
    (hseen : Seen ([entitiesOp translation old.toIrP4Info .delete entities,removalOp tableName,
        tableNamed new tableName >>= definitionOp fs,entitiesOp translation new .insert entities,
        entitiesOp translation temporary .delete (entities.map (withTableId copy.preamble.id)),removalOp duplicate].map phaseOf)
      present seen) :
    InDuplicate translation seen old.toIrP4Info tableName e ∨ InTable translation seen new tableName e := by
  obtain ⟨rfl,-⟩ := entityTable_copy old.wellFormed h.newId hduplicate hcopy e
  have hcopies (e : Entity) := (entityTable_copy old.wellFormed h.newId hduplicate hcopy e).2
  have hvrow := entityAppDbUpdate_entryRow hv (hcopies e)
  refine (@Seen.handover _ [_,_,_] [_,_] _ _ _ _ (fun seen => InTable translation seen new tableName e) hseen hpresent ?_
    fun phase hphase => ⟨keeps_insertOp hphase,?_⟩).imp_left fun hcopied => ⟨temporary,_,copy,hduplicate,hcopy,hcopies e,v,hv,hcopied⟩
  · intro p hp phase hphase
    simp only [List.mem_cons,List.not_mem_nil,or_false] at hp
    rcases hp with rfl | rfl | rfl
    · exact keeps_deleteOp htables (fun w hw => hw.ne_duplicate hvrow) hphase
    · exact keeps_removalOp hphase (hvrow.ne_definition tableName)
    · obtain ⟨op,hop,rfl⟩ := mem_phaseOf.mp hphase
      obtain ⟨table,-,hop⟩ := bind_eq_ok.mp hop
      exact keeps_definitionOp (mem_phaseOf.mpr ⟨op,hop,rfl⟩)
  · obtain ⟨w,hw,hput⟩ := put_insertOp hphase he
    have hnew := h.entityTable_new (htables e he) hw
    have hwrow := entityAppDbUpdate_entryRow hw hnew
    have hcopytables : ∀ c ∈ entities.map (withTableId copy.preamble.id),entityTable temporary c =
      some (duplicateTableName tableName) := by
      intro c hc
      obtain ⟨e,-,rfl⟩ := List.mem_map.mp hc
      exact hcopies e
    refine ⟨rowOf w,hput,keeps_insertOp hphase,fun present hpresent hseen => ⟨hnew,w,hw,hseen.kept ?_ hpresent⟩⟩
    intro p hp phase hphase
    simp only [List.mem_cons,List.not_mem_nil,or_false] at hp
    rcases hp with rfl | rfl
    · exact keeps_deleteOp hcopytables (fun x hx => (hwrow.ne_duplicate hx).symm) hphase
    · exact keeps_removalOp hphase (hwrow.ne_definition _)

end Moved

/-- Make before break: at every point of a replacement an entry is in the old table, in the duplicate or in the new table. -/
theorem make_before_break (h : Replaceable old.toIrP4Info new tableName) {s : DbSession}
    (hcached : ∀ e ∈ entities,InTable translation (presentRows s.db) old.toIrP4Info tableName e) {db : AppDb}
    (hreached : Reaches layers (replacementOps fs translation old.toIrP4Info new tableName entities) s db) :
    ∀ e ∈ entities,Installed translation (presentRows db) old.toIrP4Info new tableName e := by
  intro e he
  have hseen := hreached.seen
  obtain ⟨htable,u,hu,hpresent⟩ := hcached e he
  -- when there is no duplicate, nothing is done
  have hstopped {seen : Set DbRow} (h : Seen [none] (presentRows s.db) seen) : rowOf u ∈ seen := by
    refine h.kept (fun p hp phase hphase => ?_) hpresent
    rw [List.mem_singleton.mp hp] at hphase
    cases hphase
  unfold replacementOps at hseen
  cases hduplicate : duplicateTable old.toIrP4Info tableName with
  | error status =>
    rw [hduplicate] at hseen
    exact .inl ⟨htable,u,hu,hstopped hseen⟩
  | ok p =>
    obtain ⟨temporary,duplicate⟩ := p
    simp only [hduplicate] at hseen
    cases hcopy : tableNamed temporary duplicate with
    | error failure =>
      simp only [hcopy] at hseen
      exact .inl ⟨htable,u,hu,hstopped hseen⟩
    | ok copy =>
      simp only [hcopy] at hseen
      -- the entry stays in the old table until its copy is in the duplicate
      refine (@Seen.handover _ [_] [_,_,_,_,_,_] _ _ _ _ (fun seen => InDuplicate translation seen old.toIrP4Info tableName e ∨
        InTable translation seen new tableName e) hseen hpresent ?_ fun phase hphase => ⟨keeps_insertOp hphase,?_⟩).imp_left
          fun hold => ⟨htable,u,hu,hold⟩
      · intro p hp phase hphase
        rw [List.mem_singleton.mp hp] at hphase
        exact keeps_definitionOp hphase
      · obtain ⟨v,hv,hput⟩ := put_insertOp hphase (List.mem_map_of_mem he)
        exact ⟨rowOf v,hput,keeps_insertOp hphase,fun present hpresent hseen =>
          seen_after_copying h hduplicate hcopy (fun e he => (hcached e he).1) he hv hpresent hseen⟩

end Handover

attribute [local instance] uncompressedInet

/-- The row of an operation that is about one row of the P4RT table. -/
def singleUpdate : Fallible ReplacementOp → Option AppDbUpdate
  | .error _ => none
  | .ok op => match op.updates with
    | [u] => if u.table = .p4rt then some u else none
    | _ => none

private theorem sendDefinition_acceptAll (s : DbSession) (row : KeyOpFieldsValues) :
    sendDefinition (fun _ => acceptAll) s row = .ok ⟨s.db.apply ⟨.p4rt,row⟩,s.exchanges + 1⟩ := by
  simp [sendDefinition,getZmqResponses,acceptAll,collectResponses,assign,updateResponses,mergeResponses,mergeResponse,
    swssToP4RTErrorCode,cHexEscape,statusAt,Status.isOk,orFail,bind_eq_ok,Except.mapError,p4rtTableName,Status.okStatus]

private theorem performAppDbUpdates_acceptAll {u : AppDbUpdate} (h : u.table = .p4rt) :
    performAppDbUpdates acceptAll [(u,0)] [.okStatus] = .ok (true,[.okStatus],[.batch [u.update]]) := by
  simp [performAppDbUpdates,runAppDbUpdates,performAppDbUpdate,performAppDbP4rtUpdates,h,getZmqResponses,acceptAll,
    collectResponses,assign,updateResponses,mergeResponses,mergeResponse,swssToP4RTErrorCode,cHexEscape,Status.isOk,
    p4rtTableName,Status.okStatus,bind,Except.bind,Except.map,statusAt]

private theorem performAll_acceptAll (failed : Status → Status) (s : DbSession) {u : AppDbUpdate} (h : u.table = .p4rt) :
    performAll (fun _ => acceptAll) failed [u] s = .ok ⟨s.db.apply u,s.exchanges + 1⟩ := by
  simp only [performAll,List.zipIdx_singleton,List.map_singleton,performAppDbUpdates_acceptAll h]
  rfl

theorem performOps_acceptAll {ops : List (Fallible ReplacementOp)} {us : List AppDbUpdate} (h : ops.mapM singleUpdate = some us)
    (s : DbSession) : performOps (fun _ => acceptAll) ops s = .ok ⟨us.foldl AppDb.apply s.db,s.exchanges + us.length⟩ := by
  induction ops generalizing us s with
  | nil =>
    cases h
    rfl
  | cons op ops ih =>
    rw [List.mapM_cons] at h
    obtain ⟨u,hu,h⟩ := Option.bind_eq_some_iff.mp h
    obtain ⟨rest,hrest,h⟩ := Option.bind_eq_some_iff.mp h
    cases h
    have hstep : (op >>= ReplacementOp.perform (fun _ => acceptAll) s) = .ok ⟨s.db.apply u,s.exchanges + 1⟩ := by
      cases op with
      | error failure => cases hu
      | ok op =>
        cases op with
        | definition row =>
          cases hu
          exact sendDefinition_acceptAll s row
        | entities updates =>
          unfold singleUpdate at hu
          split at hu
          · cases hu
          · next op hop =>
            cases hop
            split at hu
            · next u' hu' =>
              split_ifs at hu with htable
              cases hu
              change performAll (fun _ => acceptAll) id updates s = _
              change updates = [u] at hu'
              rw [hu']
              exact performAll_acceptAll id s htable
            · cases hu
    rw [performOps,List.foldlM_cons,hstep]
    refine (ih hrest ⟨s.db.apply u,s.exchanges + 1⟩).trans ?_
    rw [List.foldl_cons,List.length_cons,Nat.add_right_comm,Nat.add_assoc]

/-- A P4Info with an ACL table at ingress, which has the given actions, and one at egress. -/
def ingressEgressPipeline (ingressId egressId : UInt32) (ingressActions : List IrActionDefinition) : IrP4Info :=
  let table (id : UInt32) (name stage : String) (actions : List IrActionDefinition) : IrTableDefinition :=
    { preamble := { id := id,aliasName := name,annotations := ["@sai_acl(" ++ stage ++ ")"] },
      matchFieldsById := [(1,etherType)],matchFieldsByName := [("ether_type",etherType)],entryActions := actions,
      requiresPriority := true }
  let ingress := table ingressId "acl_ingress_table" "INGRESS" ingressActions
  let egress := table egressId "acl_egress_table" "EGRESS" [dropAction]
  { tablesById := [(ingressId,ingress),(egressId,egress)],
    tablesByName := [("acl_ingress_table",ingress),("acl_egress_table",egress)],
    actionsById := [(1,dropAction),(2,copyAction)],actionsByName := [("acl_drop",dropAction),("acl_copy",copyAction)] }

def oldPipeline : AcceptedP4Info := ⟨ingressEgressPipeline 1 2 [dropAction],by decide +kernel⟩

def extendedPipeline : AcceptedP4Info := ⟨ingressEgressPipeline 1 2 [dropAction,copyAction],by decide +kernel⟩

/-- The ingress table gets an action, and the tables exchange their ids. -/
def exchangedPipeline : AcceptedP4Info := ⟨ingressEgressPipeline 2 1 [dropAction,copyAction],by decide +kernel⟩

def dropIpv4Entry : Entity := .tableEntry
  { tableId := 1,matches_ := [⟨1,.ternary [0x08,0x00] [0xff,0xff]⟩],priority := 10,action := some (.action ⟨1,[]⟩) }

def dropIpv4Key : String := "ACL_ACL_INGRESS_TABLE:\x7b\"match/ether_type\":\"0x0800&0xffff\",\"priority\":10\x7d"

def sampleSession : DbSession := ⟨{ p4rt := AList.singleton dropIpv4Key [textField "action" "acl_drop"] },0⟩

theorem inTable_row {translation : SwitchTranslation} {present : Set DbRow} {info : IrP4Info} {tableName : String} {e : Entity}
    (h : InTable translation present info tableName e) :
    ∃ row ∈ (entityAppDbUpdate translation info .insert e).toOption.map rowOf,row ∈ present := by
  obtain ⟨-,u,hu,hpresent⟩ := h
  exact ⟨rowOf u,by rw [hu]; rfl,hpresent⟩

theorem dropIpv4_row : (entityAppDbUpdate noTranslation oldPipeline.toIrP4Info .insert dropIpv4Entry).toOption.map rowOf =
    some (.p4rt,dropIpv4Key) := by decide +kernel

theorem dropIpv4_inTable :
    InTable noTranslation (presentRows sampleSession.db) oldPipeline.toIrP4Info "acl_ingress_table" dropIpv4Entry := by
  obtain ⟨u,hu,hkey⟩ := Option.map_eq_some_iff.mp dropIpv4_row
  refine ⟨by decide +kernel,u,toOption_eq_some.mp hu,?_⟩
  rw [hkey]
  exact AList.mem_keys.mpr (List.mem_singleton.mpr rfl)

/-- The tables exchange their ids, and an entry ends up in the other table. -/
theorem exchanged_ids_lose_entry : ¬ ∀ (old new : AcceptedP4Info) (t : P4InfoReconcileTransition) (tableName : String)
    (entities : List Entity) (s : DbSession) (db : AppDb),calculateTransition sampleFunctions old.toIrP4Info new.toIrP4Info = .ok t →
      tableName ∈ t.essentialAclTablesToModify →
      (∀ e ∈ entities,InTable noTranslation (presentRows s.db) old.toIrP4Info tableName e) →
      Reaches (fun _ => acceptAll) (replacementOps sampleFunctions noTranslation old.toIrP4Info new.toIrP4Info tableName entities) s db →
      ∀ e ∈ entities,Installed noTranslation (presentRows db) old.toIrP4Info new.toIrP4Info tableName e := by
  intro h
  have hplan : (calculateTransition sampleFunctions oldPipeline.toIrP4Info exchangedPipeline.toIrP4Info).toOption =
      some { essentialAclTablesToModify := ["acl_ingress_table"] } := by decide +kernel
  have hrun : ((replacementOps sampleFunctions noTranslation oldPipeline.toIrP4Info exchangedPipeline.toIrP4Info
      "acl_ingress_table" [dropIpv4Entry]).mapM singleUpdate).map (fun us => (us.foldl AppDb.apply sampleSession.db).p4rt.keys) =
      some ["ACL_ACL_EGRESS_TABLE:\x7b\"match/ether_type\":\"0x0800&0xffff\",\"priority\":10\x7d",
        "ACL_TABLE_DEFINITION_TABLE:ACL_ACL_INGRESS_TABLE"] := by decide +kernel
  obtain ⟨us,hus,hkeys⟩ := Option.map_eq_some_iff.mp hrun
  obtain ⟨s,hs,hdb⟩ : ∃ s,performOps (fun _ => acceptAll) (replacementOps sampleFunctions noTranslation oldPipeline.toIrP4Info
      exchangedPipeline.toIrP4Info "acl_ingress_table" [dropIpv4Entry]) sampleSession = .ok s ∧
      s.db = us.foldl AppDb.apply sampleSession.db := ⟨_,performOps_acceptAll hus sampleSession,rfl⟩
  rw [← hdb] at hkeys
  have hinstalled := h oldPipeline exchangedPipeline _ "acl_ingress_table" [dropIpv4Entry] sampleSession s.db (toOption_eq_some.mp hplan)
    List.mem_cons_self (by simpa using dropIpv4_inTable) (reaches_performOps hs) dropIpv4Entry List.mem_cons_self
  have hrows (row : DbRow) (hp4rt : row.1 = .p4rt) (hpresent : row ∈ presentRows s.db) : row.2 ∈ s.db.p4rt.keys := by
    obtain ⟨table,key⟩ := row
    cases hp4rt
    exact AList.mem_keys.mp hpresent
  rw [hkeys] at hrows
  rcases hinstalled with hold | ⟨temporary,duplicate,copy,hduplicate,hcopy,hcopied⟩ | ⟨htable,-⟩
  · obtain ⟨row,hrow,hpresent⟩ := inTable_row hold
    rw [dropIpv4_row] at hrow
    cases hrow
    exact absurd (hrows _ rfl hpresent) (by decide)
  · obtain ⟨row,hrow,hpresent⟩ := inTable_row hcopied
    have hcopyrow : ((duplicateTable oldPipeline.toIrP4Info "acl_ingress_table").toOption.bind fun p =>
        (tableNamed p.1 p.2).toOption.bind fun copy =>
          (entityAppDbUpdate noTranslation p.1 .insert (withTableId copy.preamble.id dropIpv4Entry)).toOption.map rowOf) =
        some (.p4rt,"ACL_ACL_INGRESS_TABLE_DUPLICATE_:\x7b\"match/ether_type\":\"0x0800&0xffff\",\"priority\":10\x7d") := by
      decide +kernel
    rw [hduplicate,toOption_ok,Option.bind_some,hcopy,toOption_ok,Option.bind_some] at hcopyrow
    rw [hcopyrow] at hrow
    cases hrow
    exact absurd (hrows _ rfl hpresent) (by decide)
  · revert htable
    decide +kernel

/-- An entry that is kept while its table gets an action. -/
theorem extended_table_keeps_entry : ∃ s,performOps (fun _ => acceptAll) (replacementOps sampleFunctions noTranslation
      oldPipeline.toIrP4Info extendedPipeline.toIrP4Info "acl_ingress_table" [dropIpv4Entry]) sampleSession = .ok s ∧
    ∀ e ∈ [dropIpv4Entry],Installed noTranslation (presentRows s.db) oldPipeline.toIrP4Info extendedPipeline.toIrP4Info
      "acl_ingress_table" e := by
  have hrun : ((replacementOps sampleFunctions noTranslation oldPipeline.toIrP4Info extendedPipeline.toIrP4Info
      "acl_ingress_table" [dropIpv4Entry]).mapM singleUpdate).isSome = true := by decide +kernel
  obtain ⟨us,hus⟩ := Option.isSome_iff_exists.mp hrun
  obtain ⟨s,hs⟩ : ∃ s,performOps (fun _ => acceptAll) (replacementOps sampleFunctions noTranslation oldPipeline.toIrP4Info
      extendedPipeline.toIrP4Info "acl_ingress_table" [dropIpv4Entry]) sampleSession = .ok s :=
    ⟨_,performOps_acceptAll hus sampleSession⟩
  refine ⟨s,hs,make_before_break ⟨fun _ => by decide +kernel,fun table htable table' htable' => ?_⟩ (by simpa using dropIpv4_inTable)
    (reaches_performOps hs)⟩
  have hid : (oldPipeline.tablesByName.lookup "acl_ingress_table").map (fun t => t.preamble.id) = some 1 := by decide +kernel
  have hname : (extendedPipeline.tablesById.lookup 1).map (fun t => t.preamble.aliasName) = some "acl_ingress_table" := by decide +kernel
  rw [htable,Option.map_some,Option.some.injEq] at hid
  rw [hid] at htable'
  rw [htable',Option.map_some,Option.some.injEq] at hname
  exact hname

end SonicPins.P4rtApp
