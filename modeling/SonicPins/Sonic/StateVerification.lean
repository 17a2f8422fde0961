import Mathlib.Data.Finmap
import Mathlib.Data.List.Lex
import Mathlib.Data.String.Basic
import SonicPins.Lib.SetDifference
import SonicPins.Lib.SortedMerge
import SonicPins.Lib.TextReading
import SonicPins.Sonic.AppDbReading

/-! State verification: database tables, and the packet replication cache, compared entry by
entry. -/
namespace SonicPins.Sonic
open Lib Pdpi P4rtApp

variable {nameA nameB : String} {e : IrMulticastGroupEntry} {groups : List IrMulticastGroupEntry}
  {list : List FieldValue}

def prettyPrintEntry (map : AList fun _ : String => Bytes) : String :=
  "\x7b\x7b" ++ String.intercalate "\x7d,\x7b" (map.entries.map fun e => e.1 ++ "," ++ bytesText e.2) ++ "\x7d\x7d"

/-- Collects the fields of a row; a repeated field is an error. -/
def listToMap (list : List FieldValue) : StatusOr (AList fun _ : String => Bytes) :=
  list.foldlM (fun map pair =>
    if pair.1 ∈ map then .error ⟨.internal,"Detected a duplicate key '" ++ pair.1 ++ "' for the table entry."⟩
    else .ok (map.insert pair.1 pair.2)) ∅

/-- The values are good when there is no error. -/
structure RedisTableEntry where
  values : AList (fun _ : String => Bytes) := ∅
  errors : String := ""

/-- The entries of a table in the order of their keys. -/
structure RedisTable where
  dbName : String
  entries : List (String × RedisTableEntry) := []
  ordered : Ordered entries

def readTableEntry (dbName : String) (table : DbTable) (key : String) : RedisTableEntry :=
  match listToMap (getRow table key) with
  | .error _ => { errors := dbName ++ " has duplicate fields for key: " ++ key }
  | .ok values => { values := values }

def readAllEntriesFromRedisTable (table : DbTable) (dbName : String) : RedisTable where
  dbName := dbName
  entries := table.keys.foldl (fun m key => assign key (readTableEntry dbName table key) m) []
  ordered := ordered_foldl_assign id (readTableEntry dbName table) table.keys ordered_nil

def compareTableEntries (key tableAName : String) (a : RedisTableEntry) (tableBName : String) (b : RedisTableEntry) : String :=
  if a.values.toFinmap ≠ b.values.toFinmap then
    "Entries for '" ++ key ++ "' do not match: " ++ tableAName ++ "=" ++ prettyPrintEntry a.values ++ " " ++ tableBName ++
      "=" ++ prettyPrintEntry b.values
  else ""

/-- The failures of a key that both tables have: the errors of either side, or the difference. -/
def compareEntries (tableAName tableBName : String) (a b : String × RedisTableEntry) : List String :=
  let errors := [a.2.errors,b.2.errors].filter fun e => !e.isEmpty
  if errors.isEmpty then [compareTableEntries a.1 tableAName a.2 tableBName b.2].filter fun e => !e.isEmpty else errors

def compareTables (a b : RedisTable) : List String :=
  mergeReports (fun e => [b.dbName ++ " is missing key: " ++ e.1]) (fun e => [a.dbName ++ " is missing key: " ++ e.1])
    (compareEntries a.dbName b.dbName) a.entries b.entries

def verifyAppStateDbAndAppDbEntries (appStateDb appDb : DbTable) : List String :=
  compareTables (readAllEntriesFromRedisTable appDb "AppDb") (readAllEntriesFromRedisTable appStateDb "AppStateDb")

/-- The multicast group of an entity, empty for one that is none. -/
def multicastGroupEntry : IrEntity → IrMulticastGroupEntry
  | .packetReplicationEngineEntry e => P4rtApp.mutableMulticastGroupEntry e
  | .tableEntry _ => {}

/-- The order of strings: byte by byte. -/
def byteOrder (b : Bytes) : List Nat := b.map UInt8.toNat

def replicaText (port : Bytes) (instanceId : UInt32) : Bytes := port ++ utf8 ("_" ++ natText instanceId.toNat)

/-- The replicas of a group as an ordered set of texts. -/
def portInstances (e : IrMulticastGroupEntry) : List (List Nat × Bytes) :=
  e.replicas.foldl (fun m r => assign (byteOrder (replicaText r.port r.instanceId)) (replicaText r.port r.instanceId) m) []

def replicaDifference (a b : IrMulticastGroupEntry) : List Bytes :=
  ((setDifference (fun x y => decide (x.1 < y.1)) (portInstances a) (portInstances b)).deleted).map Prod.snd

def comparePacketReplicationEntities (appDb cache : IrMulticastGroupEntry) : List String :=
  (if appDb.metadata ≠ cache.metadata then
    ["Packet replication metadata mismatch '" ++ bytesText appDb.metadata ++ "' vs. '" ++ bytesText cache.metadata ++ "'"]
    else []) ++
  (replicaDifference appDb cache).map (fun difference => "Packet replication cache is missing replica " ++
    bytesText difference ++ " for group id " ++ natText appDb.multicastGroupId.toNat) ++
  (replicaDifference cache appDb).map fun difference => "APP DB is missing replica " ++ bytesText difference ++
    " for group id " ++ natText appDb.multicastGroupId.toNat

/-- The groups by id; the last one of an id is kept. -/
def groupsById (entries : List IrEntity) : List (Nat × IrMulticastGroupEntry) :=
  entries.foldl (fun m e => assign (multicastGroupEntry e).multicastGroupId.toNat (multicastGroupEntry e) m) []

def comparePacketReplicationTableEntries (entriesAppDb entriesCache : List IrEntity) : List String :=
  let mapAppDb := groupsById entriesAppDb
  let mapCache := groupsById entriesCache
  (mapAppDb.flatMap fun (id,entry) => match mapCache.lookup id with
    | none => ["Packet replication cache is missing multicast group ID " ++ natText id]
    | some cached => comparePacketReplicationEntities entry cached) ++
  mapCache.flatMap fun (id,_) =>
    if (mapAppDb.lookup id).isNone then ["APP DB is missing multicast group ID " ++ natText id] else []

/-- The failed result of reading the AppDb is reported, and then dereferenced. -/
def verifyPacketReplicationWithCacheEntities (table : DbTable) (cacheIrEntities : List IrEntity) : Fallible (List String) :=
  match getAllAppDbPacketReplicationTableEntries table with
  | .error (.thrown what) => .error (.thrown what)
  | .error (.status s) => .error (.thrown s.toString)
  | .ok entries => .ok (comparePacketReplicationTableEntries (entries.map .packetReplicationEngineEntry) cacheIrEntities)

/-- The fields of a row, each at most once. -/
def WellFormedRow (row : List FieldValue) : Prop := (row.map Prod.fst).Nodup

def SameRow (a b : List FieldValue) : Prop := WellFormedRow a ∧ WellFormedRow b ∧ ∀ field,a.lookup field = b.lookup field

theorem foldlM_listToMap {map m : AList fun _ : String => Bytes} : list.foldlM (fun map pair =>
      if pair.1 ∈ map then .error ⟨.internal,"Detected a duplicate key '" ++ pair.1 ++ "' for the table entry."⟩
      else .ok (map.insert pair.1 pair.2)) map = (.ok m : StatusOr _) ↔
      WellFormedRow list ∧ (∀ pair ∈ list,pair.1 ∉ map) ∧ m = list.foldl (fun map pair => map.insert pair.1 pair.2) map := by
  induction list generalizing map with
  | nil => simp [WellFormedRow,pure,Except.pure,eq_comm]
  | cons pair list ih =>
    rw [List.foldlM_cons]
    by_cases hmem : pair.1 ∈ map
    · simp [hmem,bind,Except.bind]
    · rw [if_neg hmem]
      change list.foldlM _ (map.insert pair.1 pair.2) = _ ↔ _
      rw [ih]
      simp only [WellFormedRow,List.map_cons,List.nodup_cons,List.mem_cons,AList.mem_insert,List.foldl_cons,List.mem_map,
        Prod.exists]
      grind

theorem lookup_foldl_insert (h : WellFormedRow list) (map : AList fun _ : String => Bytes)
    (field : String) : (list.foldl (fun map pair => map.insert pair.1 pair.2) map).lookup field =
      (list.lookup field).or (map.lookup field) := by
  induction list generalizing map with
  | nil => simp
  | cons pair list ih =>
    obtain ⟨hout,hrest⟩ := List.nodup_cons.mp h
    rw [List.foldl_cons,ih hrest,lookup_cons_ite]
    by_cases hfield : field = pair.1
    · subst hfield
      have hnone : list.lookup pair.1 = none := by
        rw [List.lookup_eq_none_iff]
        intro p hp
        have hne : pair.1 ≠ p.1 := fun heq => hout (heq ▸ List.mem_map_of_mem hp)
        simpa using hne
      rw [hnone,if_pos rfl,AList.lookup_insert]
      rfl
    · rw [if_neg hfield,AList.lookup_insert_ne hfield]

theorem listToMap_eq_ok {m : AList fun _ : String => Bytes} (h : listToMap list = .ok m) :
    WellFormedRow list ∧ ∀ field,m.lookup field = list.lookup field := by
  obtain ⟨hwf,-,rfl⟩ := foldlM_listToMap.mp h
  exact ⟨hwf,fun field => by rw [lookup_foldl_insert hwf,AList.lookup_empty,Option.or_none]⟩

theorem listToMap_of_wellFormed (h : WellFormedRow list) : ∃ m,listToMap list = .ok m :=
  ⟨_,foldlM_listToMap.mpr ⟨h,fun _ _ => AList.notMem_empty _,rfl⟩⟩

theorem readTableEntry_errors (dbName : String) (table : DbTable) (key : String) :
    (readTableEntry dbName table key).errors = "" ↔ WellFormedRow (getRow table key) := by
  unfold readTableEntry
  constructor
  · intro h
    split at h
    · simp [String.append_eq_empty_iff] at h
    · next m hm => exact (listToMap_eq_ok hm).1
  · intro h
    obtain ⟨m,hm⟩ := listToMap_of_wellFormed h
    rw [hm]

theorem readTableEntry_values {dbName : String} {table : DbTable} {key : String} (h : WellFormedRow (getRow table key))
    (field : String) : (readTableEntry dbName table key).values.lookup field = (getRow table key).lookup field := by
  obtain ⟨m,hm⟩ := listToMap_of_wellFormed h
  unfold readTableEntry
  rw [hm]
  exact (listToMap_eq_ok hm).2 field

private theorem compareTableEntries_eq_empty {key : String} {a b : RedisTableEntry} :
    compareTableEntries key nameA a nameB b = "" ↔ ∀ field,a.values.lookup field = b.values.lookup field := by
  have hsame : a.values.toFinmap = b.values.toFinmap ↔ ∀ field,a.values.lookup field = b.values.lookup field := by
    constructor
    · intro h field
      rw [← Finmap.lookup_toFinmap,h,Finmap.lookup_toFinmap]
    · intro h
      exact Finmap.ext_lookup fun field => by rw [Finmap.lookup_toFinmap,Finmap.lookup_toFinmap,h]
  unfold compareTableEntries
  rw [← hsame]
  split_ifs with h
  · simp [String.append_eq_empty_iff,h]
  · simpa using h

private theorem compareEntries_eq_nil {key : String} {a b : DbTable} :
    compareEntries nameA nameB (key,readTableEntry nameA a key) (key,readTableEntry nameB b key) = [] ↔
      SameRow (getRow a key) (getRow b key) := by
  have hA := readTableEntry_errors nameA a key
  have hB := readTableEntry_errors nameB b key
  unfold compareEntries SameRow
  by_cases hrowA : WellFormedRow (getRow a key)
  swap
  · have herror : (readTableEntry nameA a key).errors ≠ "" := mt hA.mp hrowA
    simp [hrowA,herror]
  by_cases hrowB : WellFormedRow (getRow b key)
  swap
  · have herror : (readTableEntry nameB b key).errors ≠ "" := mt hB.mp hrowB
    simp [hrowA,hrowB,hA.mpr hrowA,herror]
  have hfields : compareTableEntries key nameA (readTableEntry nameA a key) nameB (readTableEntry nameB b key) = "" ↔ _ :=
    compareTableEntries_eq_empty
  simp only [readTableEntry_values hrowA,readTableEntry_values hrowB] at hfields
  simp [hA.mpr hrowA,hB.mpr hrowB,hrowA,hrowB,hfields]

theorem lookup_readAllEntries (table : DbTable) (dbName key : String) :
    (readAllEntriesFromRedisTable table dbName).entries.lookup key =
      if key ∈ table then some (readTableEntry dbName table key) else none := by
  by_cases hmem : key ∈ table
  · rw [if_pos hmem]
    exact lookup_foldl_assign id (readTableEntry dbName table) (by simpa using table.keys_nodup) [] hmem
  · rw [if_neg hmem,List.lookup_eq_none_iff]
    intro e he
    have hkey := (mem_keys_foldl_assign id (readTableEntry dbName table) table.keys [] e.1).mp (List.mem_map_of_mem he)
    have hin : e.1 ∈ table := AList.mem_keys.mpr (by simpa using hkey)
    simpa using fun heq : key = e.1 => hmem (heq ▸ hin)

theorem mem_keys_readAllEntries (table : DbTable) (dbName key : String) :
    key ∈ (readAllEntriesFromRedisTable table dbName).entries.map Prod.fst ↔ key ∈ table := by
  rw [AList.mem_keys]
  exact (mem_keys_foldl_assign id (readTableEntry dbName table) table.keys [] key).trans (by simp)

structure SameTables (a b : DbTable) : Prop where
  keys : ∀ key,key ∈ a ↔ key ∈ b
  wellFormedA : ∀ key ∈ a,WellFormedRow (getRow a key)
  wellFormedB : ∀ key ∈ b,WellFormedRow (getRow b key)
  fields : ∀ key ∈ a,∀ field,(getRow a key).lookup field = (getRow b key).lookup field

/-- The failures by key: one for a key of one table only, none for a key whose rows are the same,
and some for any other. -/
structure CompleteReport (a b : DbTable) (nameA nameB : String) (keys : List String) (report : String → List String) : Prop where
  nodup : keys.Nodup
  mem : ∀ key,key ∈ keys ↔ key ∈ a ∨ key ∈ b
  onlyA : ∀ key,key ∈ a → key ∉ b → report key = [nameB ++ " is missing key: " ++ key]
  onlyB : ∀ key,key ∈ b → key ∉ a → report key = [nameA ++ " is missing key: " ++ key]
  both : ∀ key,key ∈ a → key ∈ b → (report key = [] ↔ SameRow (getRow a key) (getRow b key))

private theorem compareTables_complete (a b : DbTable) (nameA nameB : String) : ∃ keys report,
    compareTables (readAllEntriesFromRedisTable a nameA) (readAllEntriesFromRedisTable b nameB) = keys.flatMap report ∧
      CompleteReport a b nameA nameB keys report := by
  have hmerged : ReportsByKey (fun e => [nameB ++ " is missing key: " ++ e.1])
      (fun e => [nameA ++ " is missing key: " ++ e.1]) (compareEntries nameA nameB)
      (readAllEntriesFromRedisTable a nameA).entries (readAllEntriesFromRedisTable b nameB).entries
      (compareTables (readAllEntriesFromRedisTable a nameA) (readAllEntriesFromRedisTable b nameB)) :=
    reportsByKey_mergeReports (readAllEntriesFromRedisTable a nameA).ordered (readAllEntriesFromRedisTable b nameB).ordered
  obtain ⟨keys,hsorted,hmem,hreports⟩ := hmerged
  refine ⟨keys,_,hreports,⟨hsorted.imp fun h => h.ne,fun key => ?_,fun key ha hb => ?_,fun key hb ha => ?_,fun key ha hb => ?_⟩⟩
  · rw [hmem,mem_keys_readAllEntries,mem_keys_readAllEntries]
  · rw [reportAt,lookup_readAllEntries,lookup_readAllEntries,if_pos ha,if_neg hb]
  · rw [reportAt,lookup_readAllEntries,lookup_readAllEntries,if_pos hb,if_neg ha]
  · rw [reportAt,lookup_readAllEntries,lookup_readAllEntries,if_pos ha,if_pos hb]
    exact compareEntries_eq_nil

theorem CompleteReport.eq_nil_iff {a b : DbTable} {keys : List String} {report : String → List String}
    (h : CompleteReport a b nameA nameB keys report) : keys.flatMap report = [] ↔ SameTables a b := by
  rw [List.flatMap_eq_nil_iff]
  constructor
  · intro hnil
    have hkeys (key : String) : key ∈ a ↔ key ∈ b := by
      constructor
      · intro ha
        by_contra hb
        have hreport := h.onlyA key ha hb
        rw [hnil key ((h.mem key).mpr (.inl ha))] at hreport
        cases hreport
      · intro hb
        by_contra ha
        have hreport := h.onlyB key hb ha
        rw [hnil key ((h.mem key).mpr (.inr hb))] at hreport
        cases hreport
    have hsame (key : String) (ha : key ∈ a) : SameRow (getRow a key) (getRow b key) :=
      (h.both key ha ((hkeys key).mp ha)).mp (hnil key ((h.mem key).mpr (.inl ha)))
    exact ⟨hkeys,fun key ha => (hsame key ha).1,fun key hb => (hsame key ((hkeys key).mpr hb)).2.1,
      fun key ha => (hsame key ha).2.2⟩
  · intro hsame key hkey
    have ha : key ∈ a := ((h.mem key).mp hkey).elim id (hsame.keys key).mpr
    have hb : key ∈ b := (hsame.keys key).mp ha
    exact (h.both key ha hb).mpr ⟨hsame.wellFormedA key ha,hsame.wellFormedB key hb,hsame.fields key ha⟩

/-- The comparison of the two databases misses no key and no difference. -/
theorem table_comparison_complete (appStateDb appDb : DbTable) :
    (verifyAppStateDbAndAppDbEntries appStateDb appDb = [] ↔ SameTables appDb appStateDb) ∧ ∃ keys report,
      verifyAppStateDbAndAppDbEntries appStateDb appDb = keys.flatMap report ∧
        CompleteReport appDb appStateDb "AppDb" "AppStateDb" keys report := by
  obtain ⟨keys,report,hreports,hcomplete⟩ := compareTables_complete appDb appStateDb "AppDb" "AppStateDb"
  refine ⟨?_,keys,report,hreports,hcomplete⟩
  rw [verifyAppStateDbAndAppDbEntries,hreports]
  exact hcomplete.eq_nil_iff

def HasReplica (e : IrMulticastGroupEntry) (port : Bytes) (instanceId : UInt32) : Prop :=
  ∃ r ∈ e.replicas,r.port = port ∧ r.instanceId = instanceId

def HasBackup (e : IrMulticastGroupEntry) (port : Bytes) (instanceId : UInt32) (backup : IrBackupReplica) : Prop :=
  ∃ r ∈ e.replicas,r.port = port ∧ r.instanceId = instanceId ∧ backup ∈ r.backupReplicas

/-- Groups with the same metadata and primary replicas: all that is compared. -/
structure SamePrimaries (a b : IrMulticastGroupEntry) : Prop where
  metadata : a.metadata = b.metadata
  replicas : ∀ port instanceId,HasReplica a port instanceId ↔ HasReplica b port instanceId

/-- Groups that are the same, backup replicas included. -/
structure SameGroup (a b : IrMulticastGroupEntry) : Prop extends SamePrimaries a b where
  backups : ∀ port instanceId backup,HasBackup a port instanceId backup ↔ HasBackup b port instanceId backup

private theorem underscore_notMem_digit : ∀ d < 10,(95 : UInt8) ∉ String.utf8EncodeChar (Nat.digitChar d) := by decide

theorem underscore_notMem_utf8 {l : List Char} (h : ∀ c ∈ l,∃ d < 10,c = Nat.digitChar d) : (95 : UInt8) ∉ utf8 (String.ofList l) := by
  induction l with
  | nil => simp [utf8]
  | cons c l ih =>
    obtain ⟨d,hd,rfl⟩ := h c List.mem_cons_self
    rw [utf8_ofList_cons,List.mem_append]
    exact fun hmem => hmem.elim (underscore_notMem_digit d hd) (ih fun x hx => h x (List.mem_cons_of_mem _ hx))

theorem utf8_underscore_decimal (n : Nat) : utf8 ("_" ++ natText n) = 95 :: utf8 (natText n) := by
  have htext : "_" ++ natText n = String.ofList ('_' :: numeral 10 n) := by
    rw [String.ofList_cons]
    rfl
  rw [htext,utf8_ofList_cons]
  rfl

private theorem replicaText_injective {port port' : Bytes} {i i' : UInt32} (h : replicaText port i = replicaText port' i') :
    port = port' ∧ i = i' := by
  have hout (n : Nat) : (95 : UInt8) ∉ (utf8 (natText n)).reverse := by
    rw [List.mem_reverse]
    refine underscore_notMem_utf8 fun c hc => ?_
    obtain ⟨d,hd,rfl⟩ := digitValue_of_mem_numeral (by decide) (by decide) hc
    exact ⟨d,hd,rfl⟩
  unfold replicaText at h
  rw [utf8_underscore_decimal,utf8_underscore_decimal] at h
  have hreverse := congrArg List.reverse h
  simp only [List.reverse_append,List.reverse_cons,List.append_assoc,List.singleton_append] at hreverse
  have hspan (n : Nat) := span_append_cons (hout n)
  have hdigits := congrArg (List.takeWhile (· ≠ 95)) hreverse
  have hport := congrArg (List.dropWhile (· ≠ 95)) hreverse
  rw [(hspan _ _).1,(hspan _ _).1] at hdigits
  rw [(hspan _ _).2,(hspan _ _).2] at hport
  have hnumber := congrArg (safeParseInt 10) (utf8_injective (List.reverse_injective hdigits))
  unfold natText at hnumber
  rw [safeParseInt_decimal,safeParseInt_decimal] at hnumber
  refine ⟨List.reverse_injective (List.tail_eq_of_cons_eq hport),UInt32.toNat_inj.mp ?_⟩
  have hint := Option.some.inj hnumber
  omega

private theorem byteOrder_injective : Function.Injective byteOrder := List.map_injective_iff.mpr fun _ _ => UInt8.toNat_inj.mp

private theorem mem_portInstances {x : List Nat × Bytes} : x ∈ portInstances e ↔
    ∃ r ∈ e.replicas,x = (byteOrder (replicaText r.port r.instanceId),replicaText r.port r.instanceId) := by
  have hforward (l : List IrReplica) : ∀ x ∈ l.foldl (fun m r => assign (byteOrder (replicaText r.port r.instanceId))
      (replicaText r.port r.instanceId) m) [],∃ r ∈ l,x = (byteOrder (replicaText r.port r.instanceId),
        replicaText r.port r.instanceId) := by
    induction l using List.reverseRecOn with
    | nil => simp
    | append_singleton l r ih =>
      intro x hx
      rw [List.foldl_concat] at hx
      rcases mem_assign hx with rfl | hx
      · exact ⟨r,by simp,rfl⟩
      · obtain ⟨r',hr',rfl⟩ := ih x hx
        exact ⟨r',by simp [hr'],rfl⟩
  constructor
  · exact hforward e.replicas x
  · rintro ⟨r,hr,rfl⟩
    have hkey := (mem_keys_foldl_assign (fun r : IrReplica => byteOrder (replicaText r.port r.instanceId))
      (fun r => replicaText r.port r.instanceId) e.replicas [] _).mpr (.inl (List.mem_map_of_mem hr))
    obtain ⟨x,hx,hxkey⟩ := List.mem_map.mp hkey
    obtain ⟨r',-,rfl⟩ := hforward e.replicas x hx
    rw [← byteOrder_injective hxkey]
    exact hx

theorem replicaDifference_eq_nil {a b : IrMulticastGroupEntry} :
    replicaDifference a b = [] ↔ ∀ port instanceId,HasReplica a port instanceId → HasReplica b port instanceId := by
  have hordered (e : IrMulticastGroupEntry) : Ordered (portInstances e) :=
    ordered_foldl_assign (fun r : IrReplica => byteOrder (replicaText r.port r.instanceId)) _ e.replicas ordered_nil
  have hmerged : Merged (portInstances a) (portInstances b)
      (setDifference (fun x y => decide (x.1 < y.1)) (portInstances a) (portInstances b)) := by
    convert merged_setDifference_key (hordered a) (hordered b)
  unfold replicaDifference
  rw [List.map_eq_nil_iff,List.eq_nil_iff_forall_not_mem]
  simp only [hmerged.deleted,mem_portInstances]
  constructor
  · rintro h port instanceId ⟨r,hr,rfl,rfl⟩
    by_contra hout
    refine h _ ⟨⟨r,hr,rfl⟩,?_⟩
    rintro ⟨r',hr',heq⟩
    obtain ⟨hport,hinstance⟩ := replicaText_injective (Prod.mk.inj heq).2
    exact hout ⟨r',hr',hport.symm,hinstance.symm⟩
  · rintro h x ⟨⟨r,hr,rfl⟩,hout⟩
    obtain ⟨r',hr',hport,hinstance⟩ := h r.port r.instanceId ⟨r,hr,rfl,rfl⟩
    exact hout ⟨r',hr',by rw [hport,hinstance]⟩

theorem comparePacketReplicationEntities_eq_nil {a b : IrMulticastGroupEntry} :
    comparePacketReplicationEntities a b = [] ↔ SamePrimaries a b := by
  unfold comparePacketReplicationEntities
  rw [List.append_eq_nil_iff,List.append_eq_nil_iff,List.map_eq_nil_iff,List.map_eq_nil_iff,replicaDifference_eq_nil,
    replicaDifference_eq_nil]
  constructor
  · rintro ⟨⟨hmetadata,hab⟩,hba⟩
    refine ⟨?_,fun port instanceId => ⟨hab port instanceId,hba port instanceId⟩⟩
    by_contra hne
    simp [hne] at hmetadata
  · intro h
    exact ⟨⟨by simp [h.metadata],fun port i => (h.replicas port i).mp⟩,fun port i => (h.replicas port i).mpr⟩

/-- The group that counts for an id: the last one. -/
def lastGroup (groups : List IrMulticastGroupEntry) (id : UInt32) : Option IrMulticastGroupEntry :=
  (groups.filter fun e => e.multicastGroupId = id).getLast?

theorem lookup_groupsById (entities : List IrEntity) (id : UInt32) :
    (groupsById entities).lookup id.toNat = lastGroup (entities.map multicastGroupEntry) id := by
  unfold groupsById lastGroup
  induction entities using List.reverseRecOn with
  | nil => rfl
  | append_singleton entities e ih =>
    rw [List.foldl_concat,lookup_assign,ih,List.map_append,List.filter_append]
    by_cases hid : id = (multicastGroupEntry e).multicastGroupId
    · simp [hid]
    · have hne : id.toNat ≠ (multicastGroupEntry e).multicastGroupId.toNat := fun h => hid (UInt32.toNat_inj.mp h)
      simp [hne,Ne.symm hid]

theorem lastGroup_mem {id : UInt32} (h : lastGroup groups id = some e) : e ∈ groups ∧ e.multicastGroupId = id := by
  have hmem := List.mem_of_getLast? h
  simpa using hmem

theorem lastGroup_isSome {id : UInt32} : (∃ e,lastGroup groups id = some e) ↔ ∃ e ∈ groups,e.multicastGroupId = id := by
  constructor
  · rintro ⟨e,he⟩
    exact ⟨e,lastGroup_mem he⟩
  · rintro ⟨e,he,hid⟩
    have hne : (groups.filter fun e => e.multicastGroupId = id) ≠ [] := List.ne_nil_of_mem (List.mem_filter.mpr ⟨he,by simpa⟩)
    exact ⟨_,List.getLast?_eq_getLast_of_ne_nil hne⟩

def SameIds (rows groups : List IrMulticastGroupEntry) : Prop :=
  ∀ id,(∃ e ∈ rows,e.multicastGroupId = id) ↔ ∃ c ∈ groups,c.multicastGroupId = id

/-- What is compared: ids, and metadata and primary replicas of the last row of an id. -/
structure AgreeOnPrimaries (rows groups : List IrMulticastGroupEntry) : Prop where
  ids : SameIds rows groups
  last : ∀ id e c,lastGroup rows id = some e → lastGroup groups id = some c → SamePrimaries e c

/-- Every row is the group of its id, and every group has a row. -/
structure SameGroups (rows groups : List IrMulticastGroupEntry) : Prop where
  ids : SameIds rows groups
  same : ∀ e ∈ rows,∀ c ∈ groups,e.multicastGroupId = c.multicastGroupId → SameGroup e c

theorem SameGroups.agree {rows : List IrMulticastGroupEntry} (h : SameGroups rows groups) : AgreeOnPrimaries rows groups where
  ids := h.ids
  last id e c he hc := by
    obtain ⟨hrow,hid⟩ := lastGroup_mem he
    obtain ⟨hgroup,hid'⟩ := lastGroup_mem hc
    exact (h.same e hrow c hgroup (hid.trans hid'.symm)).toSamePrimaries

theorem mem_groupsById {entities : List IrEntity} {n : Nat} :
    (n,e) ∈ groupsById entities ↔ ∃ id : UInt32,n = id.toNat ∧ lastGroup (entities.map multicastGroupEntry) id = some e := by
  have hordered : Ordered (groupsById entities) :=
    ordered_foldl_assign (fun e => (multicastGroupEntry e).multicastGroupId.toNat) multicastGroupEntry entities ordered_nil
  rw [← hordered.lookup_eq_some]
  constructor
  · intro h
    have hkey := (mem_keys_foldl_assign (fun e => (multicastGroupEntry e).multicastGroupId.toNat) multicastGroupEntry entities []
      n).mp (List.mem_map_of_mem (hordered.lookup_eq_some.mp h))
    obtain ⟨entity,-,rfl⟩ : ∃ entity ∈ entities,(multicastGroupEntry entity).multicastGroupId.toNat = n := by simpa using hkey
    exact ⟨_,rfl,by rwa [← lookup_groupsById]⟩
  · rintro ⟨id,rfl,h⟩
    rwa [lookup_groupsById]

private theorem comparePacketReplicationTableEntries_eq_nil {appDb cache : List IrEntity} :
    comparePacketReplicationTableEntries appDb cache = [] ↔
      AgreeOnPrimaries (appDb.map multicastGroupEntry) (cache.map multicastGroupEntry) := by
  unfold comparePacketReplicationTableEntries
  rw [List.append_eq_nil_iff,List.flatMap_eq_nil_iff,List.flatMap_eq_nil_iff]
  constructor
  · rintro ⟨hrows,hgroups⟩
    have hrow (id : UInt32) (e : IrMulticastGroupEntry) (he : lastGroup (appDb.map multicastGroupEntry) id = some e) :
        ∃ c,lastGroup (cache.map multicastGroupEntry) id = some c ∧ SamePrimaries e c := by
      have hreport := hrows (id.toNat,e) (mem_groupsById.mpr ⟨id,rfl,he⟩)
      simp only [lookup_groupsById] at hreport
      split at hreport
      · cases hreport
      · next c hc => exact ⟨c,hc,comparePacketReplicationEntities_eq_nil.mp hreport⟩
    refine ⟨fun id => ?_,fun id e c he hc => ?_⟩
    · rw [← lastGroup_isSome,← lastGroup_isSome]
      constructor
      · rintro ⟨e,he⟩
        obtain ⟨c,hc,-⟩ := hrow id e he
        exact ⟨c,hc⟩
      · rintro ⟨c,hc⟩
        have hreport := hgroups (id.toNat,c) (mem_groupsById.mpr ⟨id,rfl,hc⟩)
        simp only [lookup_groupsById] at hreport
        cases he : lastGroup (appDb.map multicastGroupEntry) id with
        | none => simp [he] at hreport
        | some e => exact ⟨e,rfl⟩
    · obtain ⟨c',hc',hsame⟩ := hrow id e he
      rw [hc] at hc'
      cases hc'
      exact hsame
  · intro h
    constructor
    · rintro ⟨n,e⟩ hmem
      obtain ⟨id,rfl,he⟩ := mem_groupsById.mp hmem
      obtain ⟨c,hc⟩ := lastGroup_isSome.mpr ((h.ids id).mp (lastGroup_isSome.mp ⟨e,he⟩))
      simp only [lookup_groupsById,hc]
      exact comparePacketReplicationEntities_eq_nil.mpr (h.last id e c he hc)
    · rintro ⟨n,c⟩ hmem
      obtain ⟨id,rfl,hc⟩ := mem_groupsById.mp hmem
      obtain ⟨e,he⟩ := lastGroup_isSome.mpr ((h.ids id).mpr (lastGroup_isSome.mp ⟨c,hc⟩))
      simp [lookup_groupsById,he]

def RowGroups (table : DbTable) (rows : List IrMulticastGroupEntry) : Prop :=
  ∃ entries,getAllAppDbPacketReplicationTableEntries table = .ok entries ∧ rows = entries.map mutableMulticastGroupEntry

/-- Failures are returned, none exactly when the rows decode to the groups of the cache. -/
def VerifiesExactly (table : DbTable) (cache : List IrEntity) : Prop :=
  ∃ failures,verifyPacketReplicationWithCacheEntities table cache = .ok failures ∧
    (failures = [] ↔ ∃ rows,RowGroups table rows ∧ SameGroups rows (cache.map multicastGroupEntry))

/-- Verification is exact when the rows decode, and agreement of what is compared leaves no
difference in backup replicas or in an earlier row of the same id. -/
theorem verifies_exactly_iff (table : DbTable) (cache : List IrEntity) : VerifiesExactly table cache ↔
    ∃ rows,RowGroups table rows ∧
      (AgreeOnPrimaries rows (cache.map multicastGroupEntry) → SameGroups rows (cache.map multicastGroupEntry)) := by
  unfold VerifiesExactly RowGroups verifyPacketReplicationWithCacheEntities
  cases hentries : getAllAppDbPacketReplicationTableEntries table with
  | error failure => cases failure <;> simp
  | ok entries =>
    have hrows : (entries.map IrEntity.packetReplicationEngineEntry).map multicastGroupEntry =
        entries.map mutableMulticastGroupEntry := by
      rw [List.map_map]
      rfl
    simp only [Except.ok.injEq,exists_eq_left',comparePacketReplicationTableEntries_eq_nil,hrows]
    simp only [↓existsAndEq,true_and]
    exact ⟨fun h hagree => h.mp hagree,fun h => ⟨h,SameGroups.agree⟩⟩

/-- A group of one replica, with or without a backup. -/
def sampleGroup (backups : List IrBackupReplica) : IrMulticastGroupEntry :=
  { multicastGroupId := 1,replicas := [⟨utf8 "Ethernet0",1,backups⟩] }

/-- The row that is written for a group. -/
def rowOf (group : IrMulticastGroupEntry) : DbTable :=
  (∅ : DbTable).insert (getRedisPacketReplicationTableKey (.multicastGroupEntry group)) ((createFieldValues group).toOption.getD [])

def cachedGroup (group : IrMulticastGroupEntry) : IrEntity := .packetReplicationEngineEntry (.multicastGroupEntry group)

theorem sample_rows_decode : getAllAppDbPacketReplicationTableEntries (rowOf (sampleGroup [])) =
    .ok [.multicastGroupEntry (sampleGroup [])] := toOption_eq_some.mp (by decide +kernel)

/-- A row that lost its backup replicas is not reported, and a row that does not decode gives no list of failures. -/
theorem lost_backups_not_reported :
    verifyPacketReplicationWithCacheEntities (rowOf (sampleGroup [])) [cachedGroup (sampleGroup [⟨utf8 "Ethernet4",1⟩])] = .ok [] ∧
      ¬ VerifiesExactly (rowOf (sampleGroup [])) [cachedGroup (sampleGroup [⟨utf8 "Ethernet4",1⟩])] ∧
      ¬ VerifiesExactly ((∅ : DbTable).insert (replicationTablePrefix ++ "group") []) [] := by
  have hempty : verifyPacketReplicationWithCacheEntities (rowOf (sampleGroup []))
      [cachedGroup (sampleGroup [⟨utf8 "Ethernet4",1⟩])] = .ok [] := by
    rw [verifyPacketReplicationWithCacheEntities,sample_rows_decode]
    exact congrArg Except.ok (by decide +kernel)
  refine ⟨hempty,?_,?_⟩
  · rintro ⟨failures,hfailures,hexact⟩
    rw [hempty] at hfailures
    cases hfailures
    obtain ⟨rows,⟨entries,hentries,rfl⟩,hsame⟩ := hexact.mp rfl
    rw [sample_rows_decode] at hentries
    cases hentries
    have hgroup : SameGroup (sampleGroup []) (sampleGroup [⟨utf8 "Ethernet4",1⟩]) :=
      hsame.same _ (List.mem_singleton_self _) _ (List.mem_singleton_self _) rfl
    obtain ⟨r,hr,-,-,hbackup⟩ := (hgroup.backups (utf8 "Ethernet0") 1 ⟨utf8 "Ethernet4",1⟩).mpr
      ⟨_,List.mem_singleton_self _,rfl,rfl,List.mem_singleton_self _⟩
    cases List.mem_singleton.mp hr
    cases hbackup
  · rw [verifies_exactly_iff]
    rintro ⟨rows,⟨entries,hentries,-⟩,-⟩
    have hnone : (getAllAppDbPacketReplicationTableEntries
        ((∅ : DbTable).insert (replicationTablePrefix ++ "group") [])).toOption = none := by decide +kernel
    rw [hentries] at hnone
    cases hnone

end SonicPins.Sonic
