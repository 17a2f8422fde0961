import SonicPins.P4rtApp.WriteStatuses
import SonicPins.Sonic.AppDbReading
import SonicPins.Sonic.AppDbRoundTrip

/-! Multicast groups come back from the rows that they are written to. -/
namespace SonicPins.P4rtApp
open Lib Pdpi Sonic

variable {j : Json} {r : Bytes × UInt32} {js : List Json} {values : List FieldValue} {u : EntityUpdate}
  {e : IrMulticastGroupEntry} {us : List EntityUpdate}

theorem replicaJson_eq (port : String) (instanceId : UInt32) : replicaJson port instanceId =
    .obj [("multicast_replica_instance",.str ("0x" ++ hexPadded 4 instanceId.toNat)),("multicast_replica_port",.str port)] := by
  have horder : "multicast_replica_instance" < "multicast_replica_port" := by decide
  simp [replicaJson,Json.set,assign,horder]

private theorem replicaJson_plain (port : String) (instanceId : UInt32) : (replicaJson port instanceId).Plain := by
  have horder : "multicast_replica_instance" < "multicast_replica_port" := by decide
  rw [replicaJson_eq,Json.Plain,Json.plainMembers_iff]
  refine ⟨List.pairwise_pair.mpr horder,?_⟩
  simp [Json.Plain]

private theorem parseJsonReplica_eq_ok {port text : String} {n : Int}
    (hport : jsonFind? j "multicast_replica_port" = some (.str port))
    (hinstance : jsonFind? j "multicast_replica_instance" = some (.str text)) (htext : simpleHexAtoiU32 text = some n) :
    parseJsonReplica j = .ok (port,UInt32.ofNat n.toNat) := by
  unfold parseJsonReplica
  rw [hport]
  simp only [getString,Json.getString?,hinstance,bind,Except.bind,htext]

theorem parseJsonReplica_replicaJson (port : String) (instanceId : UInt32) :
    parseJsonReplica (replicaJson port instanceId) = .ok (port,instanceId) := by
  rw [replicaJson_eq,parseJsonReplica_eq_ok rfl rfl (simpleHexAtoiU32_hexPadded 4 instanceId)]
  simp

def IsReplicaJson (r : Bytes × UInt32) (j : Json) : Prop := ∃ port,r.1 = utf8 port ∧ j = replicaJson port r.2

theorem replicasJson_eq_ok {rs : List (Bytes × UInt32)} {json : Json} (h : replicasJson rs = .ok json) :
    ∃ js,json = .arr js ∧ List.Forall₂ IsReplicaJson rs js := by
  obtain ⟨js,hjs,rfl⟩ := map_eq_ok.mp h
  refine ⟨js,rfl,(mapM_eq_ok.mp hjs).imp fun r j hr => ?_⟩
  obtain ⟨port,hport,rfl⟩ := map_eq_ok.mp hr
  exact ⟨port,jsonText_eq_ok hport,rfl⟩

theorem IsReplicaJson.plain (h : IsReplicaJson r j) : j.Plain := by
  obtain ⟨port,-,rfl⟩ := h
  exact replicaJson_plain port r.2

theorem replicasJson_plain {rs : List (Bytes × UInt32)} (h : List.Forall₂ IsReplicaJson rs js) : (Json.arr js).Plain := by
  rw [Json.Plain,Json.plainElems_iff]
  intro j hj
  obtain ⟨r,-,hr⟩ := exists_of_forall₂_right h hj
  exact hr.plain

private theorem appDbReplica_replicaJson (h : IsReplicaJson r j) : appDbReplica j = .ok { port := r.1,instanceId := r.2 } := by
  obtain ⟨port,hport,rfl⟩ := h
  rw [appDbReplica,parseJsonReplica_replicaJson,hport]
  rfl

private theorem appDbBackupReplica_replicaJson (h : IsReplicaJson r j) : appDbBackupReplica j = .ok ⟨r.1,r.2⟩ := by
  obtain ⟨port,hport,rfl⟩ := h
  rw [appDbBackupReplica,parseJsonReplica_replicaJson,hport]
  rfl

theorem mapM_of_forall₂ {ε α β γ : Type} {R : α → β → Prop} {f : β → Except ε γ} {g : α → γ} {l : List α} {r : List β}
    (h : List.Forall₂ R l r) (hf : ∀ a b,R a b → f b = .ok (g a)) : r.mapM f = .ok (l.map g) := by
  rw [mapM_eq_ok,List.forall₂_map_right_iff]
  exact h.flip.imp fun b a hab => hf a b hab

abbrev PartialGroup := IrMulticastGroupEntry × List (List IrBackupReplica)

/-- What a field of a row says about the group. -/
inductive GroupPart where
  | replicas (rs : List IrReplica)
  | backups (bs : List (List IrBackupReplica))
  | metadata (b : Bytes)

def GroupPart.apply (acc : PartialGroup) : GroupPart → PartialGroup
  | .replicas rs => ({ acc.1 with replicas := acc.1.replicas ++ rs },acc.2)
  | .backups bs => (acc.1,acc.2 ++ bs)
  | .metadata b => ({ acc.1 with metadata := b },acc.2)

def GroupPart.replicas? : GroupPart → Option (List IrReplica)
  | .replicas rs => some rs
  | _ => none

def GroupPart.backups? : GroupPart → Option (List (List IrBackupReplica))
  | .backups bs => some bs
  | _ => none

def GroupPart.metadata? : GroupPart → Option Bytes
  | .metadata b => some b
  | _ => none

private theorem foldl_groupParts (parts : List GroupPart) (acc : PartialGroup) : parts.foldl GroupPart.apply acc =
    ({ acc.1 with
        replicas := acc.1.replicas ++ (parts.filterMap GroupPart.replicas?).flatten,
        metadata := (parts.filterMap GroupPart.metadata?).getLastD acc.1.metadata },
      acc.2 ++ (parts.filterMap GroupPart.backups?).flatten) := by
  induction parts generalizing acc with
  | nil => simp
  | cons part parts ih =>
    rw [List.foldl_cons,ih]
    simp only [List.filterMap_cons]
    cases part with
    | replicas rs => simp [GroupPart.apply,GroupPart.replicas?,GroupPart.backups?,GroupPart.metadata?]
    | backups bs => simp [GroupPart.apply,GroupPart.replicas?,GroupPart.backups?,GroupPart.metadata?]
    | metadata b =>
      simp only [GroupPart.apply,GroupPart.replicas?,GroupPart.backups?,GroupPart.metadata?]
      rw [List.getLastD_cons]

def backupParts (e : IrMulticastGroupEntry) : List GroupPart :=
  if e.replicas.all fun r => r.backupReplicas.isEmpty then [] else [.backups (e.replicas.map IrReplica.backupReplicas)]

def metadataParts (metadata : Bytes) : List GroupPart := if metadata.isEmpty then [] else [.metadata metadata]

def groupParts (e : IrMulticastGroupEntry) : List GroupPart :=
  .replicas (e.replicas.map fun r => { r with backupReplicas := [] }) :: (backupParts e ++ metadataParts e.metadata)

/-- A field makes the change of its part. -/
def IsGroupField (field : FieldValue) (part : GroupPart) : Prop := ∀ acc,appDbReplicationField acc field = .ok (part.apply acc)

theorem parseJson_dump (h : j.Plain) : parseJson (utf8 j.dump) = .ok j := by
  rw [parseJson,ofUtf8?_utf8,Option.bind_some,Json.parse_dump h]

private theorem replicasField {rs : List IrReplica}
    (h : List.Forall₂ IsReplicaJson (rs.map fun r => (r.port,r.instanceId)) js) :
    IsGroupField (textField "replicas" (Json.arr js).dump) (.replicas (rs.map fun r => { r with backupReplicas := [] })) := by
  intro acc
  have hreplicas : js.mapM appDbReplica = .ok (rs.map fun r => { r with backupReplicas := [] }) := by
    rw [mapM_of_forall₂ h fun a b => appDbReplica_replicaJson,List.map_map]
    rfl
  simp only [appDbReplicationField,textField,if_true,parseJson_dump (replicasJson_plain h)]
  change (do
    let replicas ← js.mapM appDbReplica
    Except.ok ({ acc.1 with replicas := acc.1.replicas ++ replicas },acc.2) : Fallible PartialGroup) = _
  rw [hreplicas]
  rfl

/-- The JSON form of the backups of a replica. -/
def IsBackupsJson (r : IrReplica) (j : Json) : Prop :=
  ∃ js,j = .arr js ∧ List.Forall₂ IsReplicaJson (r.backupReplicas.map fun b => (b.port,b.instanceId)) js

theorem IsBackupsJson.read {r : IrReplica} (h : IsBackupsJson r j) :
    j.elements.mapM appDbBackupReplica = .ok r.backupReplicas := by
  obtain ⟨js,rfl,hjs⟩ := h
  rw [Json.elements,mapM_of_forall₂ hjs fun a b => appDbBackupReplica_replicaJson,List.map_map]
  exact congrArg Except.ok (List.map_id _)

private theorem backupsField {rs : List IrReplica} (h : List.Forall₂ IsBackupsJson rs js) :
    IsGroupField (textField "backups" (Json.arr js).dump) (.backups (rs.map IrReplica.backupReplicas)) := by
  intro acc
  have hplain : (Json.arr js).Plain := by
    rw [Json.Plain,Json.plainElems_iff]
    intro j hj
    obtain ⟨r,-,backups,rfl,hbackups⟩ := exists_of_forall₂_right h hj
    exact replicasJson_plain hbackups
  have hbackups : (js.mapM fun j => j.elements.mapM appDbBackupReplica) = .ok (rs.map IrReplica.backupReplicas) :=
    mapM_of_forall₂ h fun r j hr => hr.read
  simp only [appDbReplicationField,textField,if_true,parseJson_dump hplain]
  rw [if_neg (by decide)]
  change (do
    let backups ← js.mapM fun j => j.elements.mapM appDbBackupReplica
    Except.ok (acc.1,acc.2 ++ backups) : Fallible PartialGroup) = _
  rw [hbackups]
  rfl

private theorem metadataFields (metadata : Bytes) : List.Forall₂ IsGroupField (metadataField metadata) (metadataParts metadata) := by
  unfold metadataField metadataParts
  split
  · exact .nil
  · exact .cons (fun acc => rfl) .nil

private theorem forall₂_groupParts (h : createFieldValues e = .ok values) : List.Forall₂ IsGroupField values (groupParts e) := by
  obtain ⟨replicas,hreplicas,h⟩ := bind_eq_ok.mp h
  obtain ⟨backups,hbackups,h⟩ := bind_eq_ok.mp h
  obtain ⟨js,rfl,hjs⟩ := replicasJson_eq_ok hreplicas
  have hbackups : List.Forall₂ IsBackupsJson e.replicas backups :=
    (mapM_eq_ok.mp hbackups).imp fun r j hr => replicasJson_eq_ok hr
  cases h
  refine .cons (replicasField hjs) (List.rel_append ?_ (metadataFields e.metadata))
  unfold backupParts
  split
  · exact .nil
  · exact .cons (backupsField hbackups) .nil

theorem perm_parts {γ : Type} {f : GroupPart → Option γ} {parts parts' : List GroupPart} (hperm : parts'.Perm parts) {l : List γ}
    (hl : parts.filterMap f = l) (hlength : l.length ≤ 1) : parts'.filterMap f = l := by
  have hparts := hperm.filterMap f
  rw [hl] at hparts
  match l,hlength with
  | [],_ => exact List.perm_nil.mp hparts
  | [x],_ => exact List.perm_singleton.mp hparts

private theorem groupFields_read {written : List FieldValue} (h : createFieldValues e = .ok written)
    (hperm : values.Perm written) :
    values.foldlM appDbReplicationField ({ multicastGroupId := e.multicastGroupId },[]) =
      .ok ({ e with replicas := e.replicas.map fun r => { r with backupReplicas := [] } },
        if e.replicas.all fun r => r.backupReplicas.isEmpty then [] else e.replicas.map IrReplica.backupReplicas) := by
  obtain ⟨parts,hparts,hfold⟩ := foldlM_edits_perm hperm (forall₂_groupParts h) ({ multicastGroupId := e.multicastGroupId },[])
  have hreplicas : parts.filterMap GroupPart.replicas? = [e.replicas.map fun r => { r with backupReplicas := [] }] := by
    refine perm_parts hparts ?_ le_rfl
    unfold groupParts backupParts metadataParts
    split <;> split <;> rfl
  have hbackups : parts.filterMap GroupPart.backups? =
      if e.replicas.all fun r => r.backupReplicas.isEmpty then [] else [e.replicas.map IrReplica.backupReplicas] := by
    refine perm_parts hparts ?_ (by split <;> simp)
    unfold groupParts backupParts metadataParts
    split <;> split <;> rfl
  have hmetadata : parts.filterMap GroupPart.metadata? = if e.metadata.isEmpty then [] else [e.metadata] := by
    refine perm_parts hparts ?_ (by split <;> simp)
    unfold groupParts backupParts metadataParts
    split <;> split <;> rfl
  have hlast : (if e.metadata.isEmpty then [] else [e.metadata]).getLastD [] = e.metadata := by
    split
    · rename_i hempty
      exact (List.isEmpty_iff.mp hempty).symm
    · rfl
  rw [hfold,foldl_groupParts,hreplicas,hbackups,hmetadata,hlast]
  split <;> simp

private theorem addBackups_map (rs : List IrReplica) :
    addBackups (rs.map fun r => { r with backupReplicas := [] }) (rs.map IrReplica.backupReplicas) = rs := by
  induction rs with
  | nil => rfl
  | cons r rs ih =>
    unfold addBackups at ih ⊢
    rw [List.map_cons,List.map_cons,List.zipWith_cons_cons,ih]
    simp

theorem readKey (e : IrMulticastGroupEntry) :
    stripTableName (replicationTablePrefix ++ irMulticastGroupEntryToAppDbKey e) = .ok (irMulticastGroupEntryToAppDbKey e) := by
  rw [stripTableName,strDropPrefix_append]

private theorem appDbReplicationEntry_eq {key id : String} {n : UInt32} {acc : PartialGroup}
    (hkey : stripTableName key = .ok id) (hid : simpleHexAtoiU32 id = some (n.toNat : Int))
    (hfields : values.foldlM appDbReplicationField ({ multicastGroupId := n },[]) = .ok acc) :
    appDbReplicationEntry key values =
      if acc.2.isEmpty then .ok acc.1
      else if acc.1.replicas.length ≠ acc.2.length then .error (.status (invalidArgument
        ("Backup replicas size " ++ natText acc.2.length ++ " does not match replica size " ++ natText acc.1.replicas.length)))
      else .ok { acc.1 with replicas := addBackups acc.1.replicas acc.2 } := by
  unfold appDbReplicationEntry
  simp only [hkey,orFail,Except.mapError,bind,Except.bind,hid,Int.toNat_natCast,UInt32.ofNat_toNat,hfields]

private theorem appDbReplicationEntry_written {written : List FieldValue}
    (h : createFieldValues e = .ok written) (hperm : values.Perm written) :
    appDbReplicationEntry (replicationTablePrefix ++ irMulticastGroupEntryToAppDbKey e) values = .ok e := by
  have hid : simpleHexAtoiU32 (irMulticastGroupEntryToAppDbKey e) = some (e.multicastGroupId.toNat : Int) :=
    simpleHexAtoiU32_hexPadded 4 e.multicastGroupId
  rw [appDbReplicationEntry_eq (readKey e) hid (groupFields_read h hperm)]
  by_cases hnone : (e.replicas.all fun r => r.backupReplicas.isEmpty) = true
  · have hsame : (e.replicas.map fun r => ({ r with backupReplicas := [] } : IrReplica)) = e.replicas := by
      refine (List.map_congr_left fun r hr => ?_).trans (List.map_id _)
      rw [← List.isEmpty_iff.mp (List.all_eq_true.mp hnone r hr)]
      rfl
    rw [if_pos hnone,hsame]
    rfl
  · rw [if_neg hnone]
    have hne : e.replicas ≠ [] := by
      rintro hnil
      simp [hnil] at hnone
    rw [if_neg (by simpa using hne),if_neg (by simp),addBackups_map]

def rowKey (u : EntityUpdate) : String := u.appDbUpdate.update.key

/-- The update programs a multicast group. -/
structure WritesGroup (u : EntityUpdate) (e : IrMulticastGroupEntry) : Prop where
  entry : u.entry = .packetReplicationEngineEntry (.multicastGroupEntry e)
  entityKey : u.entityKey = .packetReplication ⟨.multicastGroupEntry,e.multicastGroupId⟩
  written : ∃ values,createFieldValues e = .ok values ∧
    u.appDbUpdate = ⟨.p4rt,⟨replicationTablePrefix ++ irMulticastGroupEntryToAppDbKey e,.set,values⟩⟩

def writeAll (db : AppDb) (us : List EntityUpdate) : AppDb := us.foldl (fun db u => db.apply u.appDbUpdate) db

theorem WritesGroup.rowKey_eq (h : WritesGroup u e) :
    rowKey u = replicationTablePrefix ++ irMulticastGroupEntryToAppDbKey e := by
  obtain ⟨values,-,happDb⟩ := h.written
  rw [rowKey,happDb]

theorem WritesGroup.p4rt_apply (h : WritesGroup u e) (db : AppDb) :
    (db.apply u.appDbUpdate).p4rt = db.p4rt.insert (rowKey u) u.appDbUpdate.update.values := by
  obtain ⟨values,-,happDb⟩ := h.written
  rw [rowKey,happDb]
  rfl

theorem lookup_writeAll (hgroups : ∀ u ∈ us,∃ e,WritesGroup u e) (hrows : (us.map rowKey).Nodup)
    (db : AppDb) : (∀ u ∈ us,(writeAll db us).p4rt.lookup (rowKey u) = some u.appDbUpdate.update.values) ∧
      ∀ key,key ∉ us.map rowKey → (writeAll db us).p4rt.lookup key = db.p4rt.lookup key := by
  induction us generalizing db with
  | nil => exact ⟨by simp,fun key _ => rfl⟩
  | cons u us ih =>
    obtain ⟨e,he⟩ := hgroups u List.mem_cons_self
    rw [List.map_cons,List.nodup_cons] at hrows
    obtain ⟨hwritten,hother⟩ := ih (fun x hx => hgroups x (List.mem_cons_of_mem _ hx)) hrows.2 (db.apply u.appDbUpdate)
    have hstep : writeAll db (u :: us) = writeAll (db.apply u.appDbUpdate) us := rfl
    rw [hstep]
    refine ⟨fun x hx => ?_,fun key hkey => ?_⟩
    · rcases List.mem_cons.mp hx with rfl | hx
      · rw [hother _ hrows.1,he.p4rt_apply,AList.lookup_insert]
      · exact hwritten x hx
    · rw [List.map_cons,List.mem_cons,not_or] at hkey
      rw [hother key hkey.2,he.p4rt_apply,AList.lookup_insert_ne hkey.1]

/-- The same rows, with the fields of each in any order. -/
structure SameRows (t t' : DbTable) : Prop where
  keys : ∀ key,key ∈ t' ↔ key ∈ t
  fields : ∀ key,(getRow t' key).Perm (getRow t key)

theorem mem_replicationKeys {t : DbTable} {key : String} : key ∈ getAllPacketReplicationTableEntryKeys t ↔
    key ∈ t ∧ (strDropPrefix replicationTablePrefix key).isSome = true := List.mem_filter

private theorem perm_replicationKeys (hgroups : ∀ u ∈ us,∃ e,WritesGroup u e) (hrows : (us.map rowKey).Nodup)
    {db : AppDb} (hdb : getAllPacketReplicationTableEntryKeys db.p4rt = []) {t : DbTable} (ht : SameRows (writeAll db us).p4rt t) :
    (getAllPacketReplicationTableEntryKeys t).Perm (us.map rowKey) := by
  obtain ⟨hwritten,hother⟩ := lookup_writeAll hgroups hrows db
  have hkeys : (getAllPacketReplicationTableEntryKeys t).Nodup := t.keys_nodup.filter _
  refine (List.perm_ext_iff_of_nodup hkeys hrows).mpr fun key => ?_
  rw [mem_replicationKeys,ht.keys]
  constructor
  · rintro ⟨hkey,hhead⟩
    by_contra hnew
    have hbefore : key ∈ db.p4rt := by
      rwa [← AList.lookup_isSome,← hother key hnew,AList.lookup_isSome]
    exact List.not_mem_nil (hdb ▸ mem_replicationKeys.mpr ⟨hbefore,hhead⟩)
  · intro hkey
    obtain ⟨u,hu,rfl⟩ := List.mem_map.mp hkey
    obtain ⟨e,he⟩ := hgroups u hu
    refine ⟨?_,by rw [he.rowKey_eq,strDropPrefix_append]; rfl⟩
    rw [← AList.lookup_isSome,hwritten u hu]
    rfl

private theorem replicationEntries_written (hgroups : ∀ u ∈ us,∃ e,WritesGroup u e)
    (hrows : (us.map rowKey).Nodup) {db : AppDb} (hdb : getAllPacketReplicationTableEntryKeys db.p4rt = []) {t : DbTable}
    (ht : SameRows (writeAll db us).p4rt t) : ∃ read,getAllAppDbPacketReplicationTableEntries t = .ok read ∧
      (read.map IrEntity.packetReplicationEngineEntry).Perm (us.map EntityUpdate.entry) := by
  have hread : ∀ u ∈ us,∃ e,(appDbReplicationEntry (rowKey u) (getRow t (rowKey u))).map
      IrPacketReplicationEngineEntry.multicastGroupEntry = .ok e ∧ u.entry = .packetReplicationEngineEntry e := by
    intro u hu
    obtain ⟨e,he⟩ := hgroups u hu
    obtain ⟨values,hvalues,happDb⟩ := he.written
    have hrow : (getRow t (rowKey u)).Perm values := by
      refine (ht.fields (rowKey u)).trans (.of_eq ?_)
      rw [getRow,(lookup_writeAll hgroups hrows db).1 u hu,happDb]
      rfl
    refine ⟨.multicastGroupEntry e,?_,he.entry⟩
    have hentry := appDbReplicationEntry_written hvalues hrow
    rw [← he.rowKey_eq] at hentry
    rw [hentry]
    rfl
  have hrel : List.Forall₂ (fun key entity => ∃ e,(appDbReplicationEntry key (getRow t key)).map
      IrPacketReplicationEngineEntry.multicastGroupEntry = .ok e ∧ entity = IrEntity.packetReplicationEngineEntry e)
      (us.map rowKey) (us.map EntityUpdate.entry) := by
    rw [List.forall₂_map_left_iff,List.forall₂_map_right_iff,List.forall₂_same]
    exact hread
  obtain ⟨entities,hentities,hperm⟩ := List.perm_comp_forall₂ (perm_replicationKeys hgroups hrows hdb ht) hrel
  obtain ⟨read,hmap,rfl⟩ : ∃ read,getAllAppDbPacketReplicationTableEntries t = .ok read ∧
      read.map IrEntity.packetReplicationEngineEntry = entities := by
    unfold getAllAppDbPacketReplicationTableEntries
    simp only [mapM_eq_ok]
    clear hperm
    generalize getAllPacketReplicationTableEntryKeys t = keys at hentities
    induction hentities with
    | nil => exact ⟨[],.nil,rfl⟩
    | cons hx _ ih =>
      obtain ⟨e,he,rfl⟩ := hx
      obtain ⟨read,hread,rfl⟩ := ih
      exact ⟨e :: read,.cons he hread,rfl⟩
  exact ⟨read,hmap,hperm⟩

section Accepted
variable [InetText] {info : IrP4Info} {constraints : ConstraintInfo} {translation : SwitchTranslation}

variable (info constraints translation) in
/-- The Write path accepts a multicast group, to be inserted or modified. -/
def AcceptsGroup (u : EntityUpdate) : Prop := ∃ role type g,(type = .insert ∨ type = .modify) ∧
  piUpdateToEntityUpdate info constraints translation role
    ⟨type,.packetReplicationEngineEntry (.multicastGroupEntry g)⟩ = .ok u

omit [InetText] in
private theorem groupUpdate_eq_ok {type : UpdateType} (htype : type = .insert ∨ type = .modify)
    {update : KeyOpFieldsValues} (h : createAppDbPacketReplicationTableUpdate type (.multicastGroupEntry e) = .ok update) :
    ∃ values,createFieldValues e = .ok values ∧
      update = ⟨replicationTablePrefix ++ irMulticastGroupEntryToAppDbKey e,.set,values⟩ := by
  obtain ⟨values,hvalues,rfl⟩ : ∃ values,createFieldValues e = .ok values ∧
      (⟨getRedisPacketReplicationTableKey (.multicastGroupEntry e),.set,values⟩ : KeyOpFieldsValues) = update := by
    rcases htype with rfl | rfl <;> exact map_eq_ok.mp h
  exact ⟨values,hvalues,rfl⟩

private theorem writesGroup_of_accepts (h : AcceptsGroup info constraints translation u) : ∃ e,WritesGroup u e := by
  obtain ⟨role,type,g,htype,hu⟩ := h
  obtain ⟨-,ir,hir,-,hentry,hback,happDb⟩ := piUpdateToEntityUpdate_spec hu
  obtain ⟨packet,hpacket,rfl⟩ := map_eq_ok.mp (mapError_eq_ok.mp hir)
  obtain ⟨group,hgroup,rfl⟩ := map_eq_ok.mp hpacket
  obtain ⟨translated,htranslated,hentry⟩ := map_eq_ok.mp hentry
  obtain ⟨replicas,-,rfl⟩ := map_eq_ok.mp htranslated
  obtain ⟨pi,hpi,hback⟩ := map_eq_ok.mp hback
  obtain ⟨piGroup,hpiGroup,rfl⟩ := map_eq_ok.mp hpi
  have hid : piGroup.multicastGroupId = group.multicastGroupId := by
    unfold irMulticastGroupEntryToPi at hpiGroup
    split at hpiGroup
    · cases hpiGroup
      rfl
    · obtain ⟨-,rfl⟩ := unlessInvalid_eq_ok.mp hpiGroup
      rfl
  refine ⟨_,⟨hentry.symm,?_,?_⟩⟩
  · have hkeyed := u.keyed
    rw [← hback] at hkeyed
    rw [← Except.ok.inj hkeyed,PacketReplicationEngineEntry.key,hid]
    rfl
  · rw [← hentry] at happDb
    obtain ⟨update,hupdate,happDb⟩ := map_eq_ok.mp happDb
    obtain ⟨values,hvalues,rfl⟩ := groupUpdate_eq_ok htype hupdate
    exact ⟨values,hvalues,happDb.symm⟩

omit [InetText] in
private theorem nodup_rowKey (hgroups : ∀ u ∈ us,∃ e,WritesGroup u e)
    (hkeys : (us.map EntityUpdate.entityKey).Nodup) : (us.map rowKey).Nodup := by
  rw [List.Nodup,List.pairwise_map] at hkeys ⊢
  refine hkeys.imp_of_mem fun {u v} hu hv hne hrow => hne ?_
  obtain ⟨d,hd⟩ := hgroups u hu
  obtain ⟨e,he⟩ := hgroups v hv
  rw [hd.rowKey_eq,he.rowKey_eq] at hrow
  have hid := readKey d
  rw [hrow,readKey] at hid
  have hsame := simpleHexAtoiU32_hexPadded 4 d.multicastGroupId
  have htext : "0x" ++ hexPadded 4 e.multicastGroupId.toNat = "0x" ++ hexPadded 4 d.multicastGroupId.toNat := Except.ok.inj hid
  rw [← htext,simpleHexAtoiU32_hexPadded,Option.some.injEq,Nat.cast_inj,UInt32.toNat_inj] at hsame
  rw [hd.entityKey,he.entityKey,hsame]

/-- Accepted groups with their own keys, as the cache and the check of a batch demand, come back from the rows that they are
written to, in some order; the fields of a row may be in any order. -/
theorem multicast_groups_round_trip {us : List EntityUpdate} (haccepted : ∀ u ∈ us,AcceptsGroup info constraints translation u)
    (hkeys : (us.map EntityUpdate.entityKey).Nodup) {db : AppDb} (hdb : getAllPacketReplicationTableEntryKeys db.p4rt = [])
    {t : DbTable} (hrows : SameRows (writeAll db us).p4rt t) :
    ∃ read,getAllAppDbPacketReplicationTableEntries t = .ok read ∧
      (read.map IrEntity.packetReplicationEngineEntry).Perm (us.map EntityUpdate.entry) := by
  have hgroups : ∀ u ∈ us,∃ e,WritesGroup u e := fun u hu => writesGroup_of_accepts (haccepted u hu)
  exact replicationEntries_written hgroups (nodup_rowKey hgroups hkeys) hdb hrows

end Accepted

attribute [local instance] uncompressedInet

def sampleGroups : List MulticastGroupEntry :=
  [⟨7,[⟨.port (utf8 "Ethernet0"),1,[⟨utf8 "Ethernet1",1⟩,⟨utf8 "Ethernet2",70000⟩]⟩,⟨.port (utf8 "Ethernet4"),1,[]⟩],[]⟩,
    ⟨0x12345,[],utf8 "m"⟩]

def sampleGroupUpdates : List EntityUpdate :=
  sampleGroups.filterMap fun g => (piUpdateToEntityUpdate samplePipeline.toIrP4Info noConstraints noTranslation ""
    ⟨.insert,.packetReplicationEngineEntry (.multicastGroupEntry g)⟩).toOption

theorem sample_groups_round_trip : sampleGroupUpdates.length = 2 ∧
    ∃ read,getAllAppDbPacketReplicationTableEntries (writeAll {} sampleGroupUpdates).p4rt = .ok read ∧
      (read.map IrEntity.packetReplicationEngineEntry).Perm (sampleGroupUpdates.map EntityUpdate.entry) := by
  have haccepted : ∀ u ∈ sampleGroupUpdates,AcceptsGroup samplePipeline.toIrP4Info noConstraints noTranslation u := by
    intro u hu
    obtain ⟨g,-,hg⟩ := List.mem_filterMap.mp hu
    refine ⟨"",.insert,g,.inl rfl,?_⟩
    exact toOption_eq_some.mp hg
  exact ⟨by decide,multicast_groups_round_trip haccepted (by decide) rfl ⟨fun _ => Iff.rfl,fun _ => .refl _⟩⟩

end SonicPins.P4rtApp
