import SonicPins.P4rtApp.WriteStatuses
import SonicPins.Sonic.AppDbReading

/-! Reading the entity cache in batches: what is read, and when the batches have the size that
is asked for. -/
namespace SonicPins.P4rtApp
open Lib Pdpi Sonic

variable {outputs : List (List Entity)} {entities : List Entity}

inductive RequestedEntity where
  | tableEntry (e : TableEntry) (isDefaultAction : Bool)
  | packetReplicationEngineEntry (e : PacketReplicationEngineEntry)
  | other (field : String)

structure ReadRequest where
  role : String := ""
  entities : List RequestedEntity := []

/-- Only requests for all table entries are supported. -/
def supportedTableEntryRequest (e : TableEntry) (isDefaultAction : Bool) : StatusOr Unit :=
  if e.tableId ≠ 0 ∨ e.matches_ ≠ [] ∨ e.priority ≠ 0 ∨ e.metadata ≠ [] ∨ e.action.isSome ∨ isDefaultAction then
    .error ⟨.unimplemented,"Read request for table entry: "⟩
  else .ok ()

def cloneSessionEntry : PacketReplicationEngineEntry → CloneSessionEntry
  | .cloneSessionEntry e => e
  | _ => {}

def multicastGroupEntry : PacketReplicationEngineEntry → MulticastGroupEntry
  | .multicastGroupEntry e => e
  | _ => {}

def supportedPacketReplicationEntryRequest (e : PacketReplicationEngineEntry) : StatusOr Unit :=
  if (cloneSessionEntry e).sessionId ≠ 0 ∨ (cloneSessionEntry e).replicas ≠ [] then
    .error ⟨.unimplemented,"Read request for packet_replication_engine_entry's clone_session_entry is not empty: "⟩
  else if (multicastGroupEntry e).multicastGroupId ≠ 0 ∨ (multicastGroupEntry e).replicas ≠ [] then
    .error ⟨.unimplemented,"Read request for packet_replication_engine_entry's multicast_group_entry is not empty: "⟩
  else .ok ()

/-- Two replication entries of the same type; a type that is not set asks for all. -/
def sameReplicationType : PacketReplicationEngineEntry → PacketReplicationEngineEntry → Bool
  | .notSet,_ => true
  | .multicastGroupEntry _,.multicastGroupEntry _ => true
  | .cloneSessionEntry _,.cloneSessionEntry _ => true
  | _,_ => false

/-- The cached entities that a request asks for. -/
def RequestedEntity.asksFor : RequestedEntity → Entity → Bool
  | .tableEntry _ _,.tableEntry _ => true
  | .packetReplicationEngineEntry r,.packetReplicationEngineEntry e => sameReplicationType r e
  | _,_ => false

def RequestedEntity.supported : RequestedEntity → StatusOr Unit
  | .tableEntry e isDefaultAction => supportedTableEntryRequest e isDefaultAction
  | .packetReplicationEngineEntry e => supportedPacketReplicationEntryRequest e
  | .other _ => .error ⟨.unimplemented,"Read has not been implemented for: "⟩

section Entries
variable [InetText] (info : IrP4Info) (translation : SwitchTranslation) (db : AppDb) (role : String)

def translatePiTableEntryForOrchAgent (e : TableEntry) : StatusOr IrTableEntry := do
  let ir ← (piTableEntryToIr info e {}).mapError fun s => ⟨s.code,"[P4RT/PDPI] " ++ s.message⟩
  translateTableEntry (translation.options .forOrchAgent info) (convert64BitIpv6AclMatchFieldsTo128Bit ir)

/-- A cached ACL entry with the counters kept for it. -/
def appendAclCounterData (e : TableEntry) : StatusOr TableEntry := do
  let ir ← translatePiTableEntryForOrchAgent info translation e
  let key ← getRedisP4rtTableKey ir info
  let counted := appendCounterData ir (db.counters (p4rtTablePrefix ++ key))
  .ok { e with
    counterData := counted.counterData.or e.counterData,
    meterCounterData := counted.meterCounterData.or e.meterCounterData }

/-- What a cached table entry adds to a response: nothing if the role has no access to its table. -/
def appendTableEntryReads (e : TableEntry) : StatusOr (List Entity) :=
  match info.tablesById.lookup e.tableId with
  | none => .error ⟨.internal,"Could not find table ID " ++ natText e.tableId.toNat ++
      " when checking role access. Did an IR translation fail somewhere?"⟩
  | some table =>
    if !role.isEmpty && table.role ≠ role then .ok []
    else do
      let type ← (getTableType table).mapError fun s => s.annotate "Could not determine table type for table."
      if type = .acl then
        let counted ← appendAclCounterData info translation db e
        .ok [.tableEntry counted]
      else .ok [.tableEntry e]

def readEntity : Entity → StatusOr (List Entity)
  | .tableEntry e => appendTableEntryReads info translation db role e
  | entity => .ok [entity]

end Entries

section Batches

/-- The responses, of which the last one is still filled. -/
structure Batches where
  earlier : List (List Entity) := []
  back : List Entity := []

def Batches.size (b : Batches) : Nat := b.earlier.length + 1

/-- What is added after each cached entity; the code compares the number of responses with the batch size. -/
def Batches.append (batchSize : Nat) (b : Batches) (entities : List Entity) : Batches :=
  let b := { b with back := b.back ++ entities }
  if batchSize ≤ b.size then ⟨b.earlier ++ [b.back],[]⟩ else b

/-- A last response without entities is dropped, unless it is the only one. -/
def Batches.finish (b : Batches) : List (List Entity) :=
  if 1 < b.size ∧ b.back = [] then b.earlier else b.earlier ++ [b.back]

variable [InetText] (info : IrP4Info) (translation : SwitchTranslation) (db : AppDb) (role : String) (batchSize : Nat)

/-- The loop over the cache for one requested entity. -/
def readRequested (cached : List Entity) (b : Batches) (requested : RequestedEntity) : StatusOr Batches := do
  requested.supported
  (cached.filter requested.asksFor).foldlM (fun b e => (readEntity info translation db role e).map (b.append batchSize)) b

def cachedEntities (cache : EntityCache) : List Entity := cache.entries.entries.map Sigma.snd

def readAllEntitiesInBatches (request : ReadRequest) (cache : EntityCache) : StatusOr (List (List Entity)) := do
  let b ← request.entities.foldlM (readRequested info translation db request.role batchSize (cachedEntities cache)) {}
  .ok b.finish

end Batches
section Contents
variable (info : IrP4Info) (role : String)

/-- A role sees the entries of its own tables, and all entities that are no table entries. -/
def VisibleTo : Entity → Prop
  | .tableEntry e => role = "" ∨ ∀ table ∈ info.tablesById.lookup e.tableId,table.role = role
  | _ => True

instance : DecidablePred (VisibleTo info role)
  | .tableEntry e => inferInstanceAs (Decidable (role = "" ∨ ∀ table ∈ info.tablesById.lookup e.tableId,table.role = role))
  | .notSet | .packetReplicationEngineEntry _ | .other _ => .isTrue trivial

/-- What is read of a cached entity: itself, an ACL entry with counters. -/
inductive ReadOf : Entity → Entity → Prop
  | cached (e : Entity) : ReadOf e e
  | counted (e : TableEntry) (table : IrTableDefinition) (counters : Option CounterData) (meters : Option MeterCounterData)
      (htable : info.tablesById.lookup e.tableId = some table) (hacl : getTableType table = .ok .acl) :
      ReadOf (.tableEntry e) (.tableEntry { e with counterData := counters,meterCounterData := meters })

variable [InetText] (translation : SwitchTranslation) (db : AppDb)

theorem readEntity_spec {e : Entity} (h : readEntity info translation db role e = .ok entities) :
    (¬ VisibleTo info role e ∧ entities = []) ∨ VisibleTo info role e ∧ ∃ read,ReadOf info e read ∧ entities = [read] := by
  cases e with
  | tableEntry e =>
    rw [readEntity,appendTableEntryReads] at h
    cases htable : info.tablesById.lookup e.tableId with
    | none => simp [htable] at h
    | some table =>
      rw [htable] at h
      simp only at h
      split at h
      · rename_i hhidden
        cases h
        simp only [Bool.and_eq_true,Bool.not_eq_true',decide_eq_true_eq,ne_eq] at hhidden
        refine .inl ⟨?_,rfl⟩
        rintro (rfl | hrole)
        · simp at hhidden
        · exact hhidden.2 (hrole table htable)
      · rename_i hshown
        have hvisible : VisibleTo info role (.tableEntry e) := by
          simp only [Bool.and_eq_true,Bool.not_eq_true',decide_eq_true_eq,ne_eq,not_and,not_not] at hshown
          by_cases hrole : role = ""
          · exact .inl hrole
          · refine .inr fun table' htable' => ?_
            obtain rfl := Option.some.inj (htable.symm.trans htable')
            exact hshown (by simpa using hrole)
        refine .inr ⟨hvisible,?_⟩
        obtain ⟨type,htype,h⟩ := bind_eq_ok.mp h
        split at h
        · rename_i hacl
          subst hacl
          obtain ⟨counted,hcounted,h⟩ := bind_eq_ok.mp h
          cases h
          obtain ⟨ir,-,hcounted⟩ := bind_eq_ok.mp hcounted
          obtain ⟨key,-,hcounted⟩ := bind_eq_ok.mp hcounted
          cases hcounted
          exact ⟨_,.counted e table _ _ htable (mapError_eq_ok.mp htype),rfl⟩
        · cases h
          exact ⟨_,.cached _,rfl⟩
  | notSet | packetReplicationEngineEntry | other =>
    cases h
    exact .inr ⟨trivial,_,.cached _,rfl⟩

end Contents

section Filling
variable (batchSize : Nat)

private theorem foldl_append_large (h : 1 < batchSize) (outputs : List (List Entity)) (back : List Entity) :
    outputs.foldl (Batches.append batchSize) ⟨[],back⟩ = ⟨[],back ++ outputs.flatten⟩ := by
  induction outputs generalizing back with
  | nil => simp
  | cons output outputs ih =>
    have hstep : Batches.append batchSize ⟨[],back⟩ output = ⟨[],back ++ output⟩ := by
      simp [Batches.append,Batches.size,h]
    rw [List.foldl_cons,hstep,ih,List.flatten_cons,List.append_assoc]

private theorem foldl_append_one (outputs earlier : List (List Entity)) :
    outputs.foldl (Batches.append 1) ⟨earlier,[]⟩ = ⟨earlier ++ outputs,[]⟩ := by
  induction outputs generalizing earlier with
  | nil => simp
  | cons output outputs ih =>
    have hstep : Batches.append 1 ⟨earlier,[]⟩ output = ⟨earlier ++ [output],[]⟩ := by
      simp [Batches.append,Batches.size]
    rw [List.foldl_cons,hstep,ih,List.append_assoc,List.singleton_append]

end Filling

section Runs
variable [InetText] {info : IrP4Info} {translation : SwitchTranslation} {db : AppDb} {role : String} {batchSize : Nat}

theorem foldlM_append {b b' : Batches}
    (h : entities.foldlM (fun b e => (readEntity info translation db role e).map (b.append batchSize)) b = .ok b') :
    ∃ outputs,List.Forall₂ (fun e output => readEntity info translation db role e = .ok output) entities outputs ∧
      b' = outputs.foldl (Batches.append batchSize) b := by
  induction entities generalizing b with
  | nil =>
    cases h
    exact ⟨[],.nil,rfl⟩
  | cons e entities ih =>
    rw [List.foldlM_cons] at h
    obtain ⟨next,hnext,hrest⟩ := bind_eq_ok.mp h
    obtain ⟨output,houtput,rfl⟩ := map_eq_ok.mp hnext
    obtain ⟨outputs,houtputs,rfl⟩ := ih hrest
    exact ⟨output :: outputs,.cons houtput houtputs,rfl⟩

/-- The cached entities that a request looks at, for each requested entity in turn. -/
def askedFor (request : ReadRequest) (cache : EntityCache) : List Entity :=
  request.entities.flatMap fun requested => (cachedEntities cache).filter requested.asksFor

private theorem readAllEntitiesInBatches_spec {request : ReadRequest} {cache : EntityCache} {responses : List (List Entity)}
    (h : readAllEntitiesInBatches info translation db batchSize request cache = .ok responses) :
    ∃ outputs,List.Forall₂ (fun e output => readEntity info translation db request.role e = .ok output)
        (askedFor request cache) outputs ∧
      responses = (outputs.foldl (Batches.append batchSize) {}).finish := by
  obtain ⟨b,hb,h⟩ := bind_eq_ok.mp h
  cases h
  have hrun : ∀ (entities : List RequestedEntity) (b b' : Batches),
      entities.foldlM (readRequested info translation db request.role batchSize (cachedEntities cache)) b = .ok b' →
      ∃ outputs,List.Forall₂ (fun e output => readEntity info translation db request.role e = .ok output)
          (entities.flatMap fun requested => (cachedEntities cache).filter requested.asksFor) outputs ∧
        b' = outputs.foldl (Batches.append batchSize) b := by
    intro entities
    induction entities with
    | nil =>
      intro b b' h
      cases h
      exact ⟨[],.nil,rfl⟩
    | cons requested entities ih =>
      intro b b' h
      rw [List.foldlM_cons] at h
      obtain ⟨next,hnext,hrest⟩ := bind_eq_ok.mp h
      obtain ⟨⟨⟩,-,hnext⟩ := bind_eq_ok.mp hnext
      obtain ⟨first,hfirst,rfl⟩ := foldlM_append hnext
      obtain ⟨others,hothers,rfl⟩ := ih _ _ hrest
      exact ⟨first ++ others,by rw [List.flatMap_cons]; exact List.rel_append hfirst hothers,by rw [List.foldl_append]⟩
  obtain ⟨outputs,houtputs,rfl⟩ := hrun _ _ _ hb
  exact ⟨outputs,houtputs,rfl⟩

private theorem flatten_outputs
    (h : List.Forall₂ (fun e output => readEntity info translation db role e = .ok output) entities outputs) :
    List.Forall₂ (ReadOf info) (entities.filter fun e => decide (VisibleTo info role e)) outputs.flatten := by
  induction h with
  | nil => exact .nil
  | cons houtput _ ih =>
    rcases readEntity_spec info role translation db houtput with ⟨hhidden,rfl⟩ | ⟨hvisible,read,hread,rfl⟩
    · rw [List.filter_cons_of_neg (by simpa using hhidden)]
      exact ih
    · rw [List.filter_cons_of_pos (by simpa using hvisible)]
      exact .cons hread ih

private theorem outputs_bounded
    (h : List.Forall₂ (fun e output => readEntity info translation db role e = .ok output) entities outputs) :
    ∀ output ∈ outputs,output.length ≤ 1 := by
  induction h with
  | nil => simp
  | cons houtput _ ih =>
    refine List.forall_mem_cons.mpr ⟨?_,ih⟩
    rcases readEntity_spec info role translation db houtput with ⟨-,rfl⟩ | ⟨-,read,-,rfl⟩
    · exact Nat.zero_le 1
    · exact le_refl 1

theorem outputs_nonempty
    (h : List.Forall₂ (fun e output => readEntity info translation db role e = .ok output) entities outputs) :
    (∀ output ∈ outputs,output ≠ []) ↔ ∀ e ∈ entities,VisibleTo info role e := by
  induction h with
  | nil => simp
  | cons houtput _ ih =>
    rw [List.forall_mem_cons,List.forall_mem_cons,ih]
    refine and_congr_left fun _ => ?_
    rcases readEntity_spec info role translation db houtput with ⟨hhidden,rfl⟩ | ⟨hvisible,read,-,rfl⟩
    · exact iff_of_false (fun h => h rfl) hhidden
    · exact iff_of_true (List.cons_ne_nil _ _) hvisible

end Runs

section Exactness
variable [InetText] (info : IrP4Info) (translation : SwitchTranslation) (db : AppDb) (batchSize : Nat)

/-- The responses hold the expected entities, each once, and have the size that is asked for. -/
structure BatchedWell (expected : List Entity) (responses : List (List Entity)) : Prop where
  contents : List.Forall₂ (ReadOf info) expected responses.flatten
  bounded : ∀ response ∈ responses,response.length ≤ batchSize
  nonempty : ∀ response ∈ responses,response = [] → responses.length = 1

def expectedEntities (request : ReadRequest) (cache : EntityCache) : List Entity :=
  (askedFor request cache).filter fun e => decide (VisibleTo info request.role e)

variable {info translation db batchSize} in
/-- The batches have the size that is asked for exactly if a size of one leaves no cached entity out, or a greater one holds
everything at once. -/
theorem batchedWell_iff {request : ReadRequest} {cache : EntityCache} {responses : List (List Entity)} (hpositive : 0 < batchSize)
    (h : readAllEntitiesInBatches info translation db batchSize request cache = .ok responses) :
    BatchedWell info batchSize (expectedEntities info request cache) responses ↔
      (batchSize = 1 ∧ ((askedFor request cache).length ≤ 1 ∨ ∀ e ∈ askedFor request cache,VisibleTo info request.role e)) ∨
        (1 < batchSize ∧ (expectedEntities info request cache).length ≤ batchSize) := by
  obtain ⟨outputs,houtputs,rfl⟩ := readAllEntitiesInBatches_spec h
  have hcontents := flatten_outputs houtputs
  have hcount := hcontents.length_eq
  rcases Nat.lt_or_ge 1 batchSize with hlarge | hle
  · have hresponses : (outputs.foldl (Batches.append batchSize) {}).finish = [outputs.flatten] := by
      rw [foldl_append_large batchSize hlarge outputs []]
      rfl
    rw [hresponses]
    have hone : batchSize ≠ 1 := by omega
    constructor
    · rintro ⟨-,hbounded,-⟩
      refine .inr ⟨hlarge,?_⟩
      rw [expectedEntities,hcount]
      exact hbounded _ (List.mem_singleton.mpr rfl)
    · rintro (⟨h,-⟩ | ⟨-,hfits⟩)
      · exact absurd h hone
      · refine ⟨by simpa [expectedEntities] using hcontents,fun response hresponse => ?_,fun _ _ _ => rfl⟩
        rw [List.mem_singleton.mp hresponse,← hcount]
        exact hfits
  · obtain rfl : batchSize = 1 := by omega
    have hlength := houtputs.length_eq
    rw [foldl_append_one outputs []]
    rcases outputs with - | ⟨first,others⟩
    · have hnone : askedFor request cache = [] := List.length_eq_zero_iff.mp hlength
      refine iff_of_true ⟨?_,by simp [Batches.finish,Batches.size],fun _ _ _ => rfl⟩ (.inl ⟨rfl,.inl (by simp [hnone])⟩)
      simp [expectedEntities,hnone,Batches.finish,Batches.size]
    · have hresponses : (⟨[] ++ (first :: others),[]⟩ : Batches).finish = first :: others := by
        simp [Batches.finish,Batches.size]
      rw [hresponses]
      constructor
      · rintro ⟨-,-,hnonempty⟩
        refine .inl ⟨rfl,?_⟩
        by_cases hsingle : (first :: others).length = 1
        · exact .inl (by omega)
        · exact .inr ((outputs_nonempty houtputs).mp fun output houtput hempty => hsingle (hnonempty output houtput hempty))
      · rintro (⟨-,hall⟩ | ⟨h,-⟩)
        · refine ⟨hcontents,outputs_bounded houtputs,fun output houtput hempty => ?_⟩
          rcases hall with hsingle | hvisible
          · rw [hlength] at hsingle
            exact Nat.le_antisymm hsingle (by simp)
          · exact absurd hempty ((outputs_nonempty houtputs).mpr hvisible output houtput)
        · exact absurd h (lt_irrefl 1)

end Exactness

attribute [local instance] uncompressedInet

def threeGroups : ServerState :=
  (write acceptAll sampleServer (sampleRequest
    [⟨.insert,.tableEntry (wcmpGroup "g1" [1])⟩,⟨.insert,.tableEntry (wcmpGroup "g2" [1])⟩,⟨.insert,.tableEntry (wcmpGroup "g3" [1])⟩])).1

def readAllTables : ReadRequest := ⟨"",[.tableEntry { tableId := 0 } false]⟩

theorem threeGroups_read :
    (readAllEntitiesInBatches samplePipeline.toIrP4Info noTranslation {} 2 readAllTables threeGroups.entityCache).map
      (·.map List.length) = .ok [3] ∧
    (readAllEntitiesInBatches samplePipeline.toIrP4Info noTranslation {} 3 readAllTables threeGroups.entityCache).isOk = true ∧
    (expectedEntities samplePipeline.toIrP4Info readAllTables threeGroups.entityCache).length ≤ 3 := by
  decide +kernel

/-- Three entries are read in one response also when two are asked for. -/
theorem three_read_as_two :
    (readAllEntitiesInBatches samplePipeline.toIrP4Info noTranslation {} 2 readAllTables threeGroups.entityCache).map
      (·.map List.length) = .ok [3] := threeGroups_read.1

theorem three_read_as_three : ∃ responses,
    readAllEntitiesInBatches samplePipeline.toIrP4Info noTranslation {} 3 readAllTables threeGroups.entityCache = .ok responses ∧
      BatchedWell samplePipeline.toIrP4Info 3 (expectedEntities samplePipeline.toIrP4Info readAllTables threeGroups.entityCache)
        responses := by
  have hok : (readAllEntitiesInBatches samplePipeline.toIrP4Info noTranslation {} 3 readAllTables
      threeGroups.entityCache).isOk = true := threeGroups_read.2.1
  cases h : readAllEntitiesInBatches samplePipeline.toIrP4Info noTranslation {} 3 readAllTables threeGroups.entityCache with
  | error status => rw [h] at hok; cases hok
  | ok responses => exact ⟨responses,rfl,(batchedWell_iff (by decide) h).mpr (.inr ⟨by decide,threeGroups_read.2.2⟩)⟩

end SonicPins.P4rtApp
