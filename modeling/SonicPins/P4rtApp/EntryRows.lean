import SonicPins.Lib.PhasedChanges
import SonicPins.P4rtApp.AclTransition
import SonicPins.P4rtApp.ActionProfileAccounting
import SonicPins.Sonic.AppDbRoundTrip

/-! The rows of the AppDb as a set of keys that updates change, and which rows cannot be the same:
those of entries in a table, in its duplicate, and of definitions. -/
namespace SonicPins.P4rtApp
open Lib Pdpi Sonic

/-- A table of the AppDb and a key in it. -/
abbrev DbRow := AppDbTableType × String

def rowsOfType (db : AppDb) : AppDbTableType → DbTable
  | .p4rt => db.p4rt
  | .vrfTable => db.vrf
  | .vlanTable => db.vlan
  | .vlanMemberTable => db.vlanMember

def presentRows (db : AppDb) : Set DbRow := {row | row.2 ∈ rowsOfType db row.1}

def rowOf (u : AppDbUpdate) : DbRow := (u.table,u.update.key)

def rowChange (u : AppDbUpdate) : KeyChange DbRow :=
  match u.update.op with
  | .set => .put (rowOf u)
  | .del => .remove (rowOf u)

private theorem presentRows_apply (db : AppDb) (u : AppDbUpdate) : presentRows (db.apply u) = (rowChange u).on (presentRows db) := by
  obtain ⟨table,key,op,values⟩ := u
  ext ⟨table',key'⟩
  cases op <;> cases table <;> cases table' <;>
    simp [presentRows,rowsOfType,AppDb.apply,applyToTable,rowChange,rowOf,KeyChange.on,and_comm]

theorem presentRows_foldl (us : List AppDbUpdate) (db : AppDb) :
    presentRows (us.foldl AppDb.apply db) = (us.map rowChange).foldl KeyChange.on (presentRows db) := by
  induction us generalizing db with
  | nil => rfl
  | cons u us ih => rw [List.foldl_cons,ih,presentRows_apply,List.map_cons,List.foldl_cons]

theorem keeps_of_set {us : List AppDbUpdate} (h : ∀ u ∈ us,u.update.op = .set) (row : DbRow) :
    KeyChange.Keeps (us.map rowChange) row := by
  intro hmem
  obtain ⟨u,hu,heq⟩ := List.mem_map.mp hmem
  simp [rowChange,h u hu] at heq

theorem keeps_of_ne {us : List AppDbUpdate} {row : DbRow} (h : ∀ u ∈ us,rowOf u ≠ row) :
    KeyChange.Keeps (us.map rowChange) row := by
  intro hmem
  obtain ⟨u,hu,heq⟩ := List.mem_map.mp hmem
  unfold rowChange at heq
  split at heq
  · cases heq
  · exact h u hu (KeyChange.remove.inj heq)

/-- The row of an entry in a table with a given name. -/
structure EntryRow (tableName : String) (u : AppDbUpdate) : Prop where
  table : u.table = tableTypeOfName tableName
  key : u.table = .p4rt → ∃ (type : TableType) (json : String),
    u.update.key = asciiToUpper (type.typeName ++ "_" ++ tableName ++ ":") ++ json ∧ ∃ c ∈ json.toList,c.isLower = true

private theorem exists_lower_appDbKeyJson (priority : Int32) (fields : List (String × String)) :
    ∃ c ∈ (appDbKeyJson priority fields).dump.toList,c.isLower = true := by
  have hnames : ∀ x ∈ keyMembers priority fields,∃ c rest,x.1.toList = c :: rest ∧ (c = 'p' ∨ c = 'm') := by
    intro x hx
    rcases List.mem_append.mp hx with hx | hx
    · split at hx
      · rw [List.mem_singleton.mp hx]
        exact ⟨'p',"riority".toList,(by decide : "priority".toList = _),.inl rfl⟩
      · cases hx
    · obtain ⟨f,-,rfl⟩ := List.mem_map.mp hx
      exact ⟨'m',_,String.toList_append,.inr rfl⟩
  rw [appDbKeyJson_eq,Json.ofMembers,Json.dump,String.toList_ofList]
  split
  · exact ⟨'n',by simp [Json.chars],by decide⟩
  · rename_i hne
    generalize hmembers : (keyMembers priority fields).foldl (fun m x => assign x.1 x.2 m) [] = members
    have hkeys := @mem_keys_foldl_assign _ _ _ _ Prod.fst Prod.snd (keyMembers priority fields) []
    rw [hmembers] at hkeys
    cases members with
    | nil =>
      obtain ⟨x,hx⟩ := List.exists_mem_of_ne_nil (keyMembers priority fields) (by simpa using hne)
      cases (hkeys x.1).mpr (.inl (List.mem_map_of_mem hx))
    | cons m members =>
      obtain ⟨name,value⟩ := m
      obtain ⟨x,hx,hname⟩ := List.mem_map.mp (((hkeys name).mp List.mem_cons_self).resolve_right List.not_mem_nil)
      obtain ⟨c,rest,hc,hcase⟩ := hnames x hx
      rw [hname] at hc
      refine ⟨c,?_,by rcases hcase with rfl | rfl <;> decide⟩
      rw [Json.chars,Json.quote,hc,Json.quoteTail]
      have hescape : Json.escapeChar c = [c] := by rcases hcase with rfl | rfl <;> decide
      simp [hescape]

theorem toList_entryKey (type : TableType) (tableName json : String) :
    (asciiToUpper (type.typeName ++ "_" ++ tableName ++ ":") ++ json).toList =
      type.typeName.toList ++ '_' :: (tableName.toList.map Char.toUpper ++ ':' :: json.toList) := by
  have htype : type.typeName.toList.map Char.toUpper = type.typeName.toList := by cases type <;> decide
  have hunderscore : "_".toList.map Char.toUpper = ['_'] := by decide
  have hcolon : ":".toList.map Char.toUpper = [':'] := by decide
  simp only [String.toList_append,toList_asciiToUpper,List.map_append,htype,hunderscore,hcolon,List.append_assoc,List.cons_append,
    List.nil_append]

private theorem typeName_injective {type type' : TableType} {l l' : List Char}
    (h : type.typeName.toList ++ l = type'.typeName.toList ++ l') : type = type' ∧ l = l' := by
  have hacl : TableType.acl.typeName.toList = ['A','C','L'] := by decide
  have hfixed : TableType.fixed.typeName.toList = ['F','I','X','E','D'] := by decide
  have hext : TableType.ext.typeName.toList = ['E','X','T'] := by decide
  cases type <;> cases type' <;> simp_all

theorem EntryRow.ne_duplicate {tableName : String} {u v : AppDbUpdate} (hu : EntryRow tableName u)
    (hv : EntryRow (duplicateTableName tableName) v) : rowOf u ≠ rowOf v := by
  intro heq
  obtain ⟨htable,hkey⟩ := Prod.mk.inj heq
  have hduplicate : tableTypeOfName (duplicateTableName tableName) = .p4rt := by
    have hlast (name : String) (h : duplicateTableName tableName = name) : name.toList.getLast? = some '_' := by
      rw [← h]
      simp [duplicateTableName]
    unfold tableTypeOfName
    split_ifs with h h h
    · exact absurd (hlast _ h) (by decide)
    · exact absurd (hlast _ h) (by decide)
    · exact absurd (hlast _ h) (by decide)
    · rfl
  have hp4rt : v.table = .p4rt := hv.table.trans hduplicate
  obtain ⟨type,json,hukey,-⟩ := hu.key (htable.trans hp4rt)
  obtain ⟨type',json',hvkey,-⟩ := hv.key hp4rt
  rw [hukey,hvkey] at hkey
  have hchars := congrArg String.toList hkey
  rw [toList_entryKey,toList_entryKey] at hchars
  obtain ⟨-,hchars⟩ := typeName_injective hchars
  have hsuffix : "_duplicate_".toList.map Char.toUpper = '_' :: "DUPLICATE_".toList := by decide
  rw [duplicateTableName,String.toList_append,List.map_append,hsuffix,List.cons.injEq,List.append_assoc,
    List.append_cancel_left_eq,List.cons_append,List.cons.injEq] at hchars
  exact absurd hchars.2.1 (by decide)

theorem EntryRow.ne_definition {tableName : String} {u : AppDbUpdate} (hu : EntryRow tableName u) (other : String) :
    rowOf u ≠ (.p4rt,generateSonicDbKeyFromTableName other) := by
  intro heq
  obtain ⟨htable,hkey⟩ := Prod.mk.inj heq
  obtain ⟨type,json,hukey,c,hc,hlower⟩ := hu.key htable
  have hupper : asciiToUpper (aclTableDefinitionName ++ ":ACL_") = aclTableDefinitionName ++ ":ACL_" := by decide
  have hdefinition : generateSonicDbKeyFromTableName other = asciiToUpper (aclTableDefinitionName ++ ":ACL_" ++ other) := by
    rw [asciiToUpper_append,hupper,generateSonicDbKeyFromTableName]
  have hmem : c ∈ (generateSonicDbKeyFromTableName other).toList := by
    rw [← hkey,hukey,String.toList_append]
    exact List.mem_append_right _ hc
  rw [hdefinition,toList_asciiToUpper] at hmem
  obtain ⟨d,-,rfl⟩ := List.mem_map.mp hmem
  simp at hlower

theorem createAppDbP4rtUpdate_spec {type : UpdateType} {entry : IrTableEntry} {info : IrP4Info} {update : KeyOpFieldsValues}
    (h : createAppDbP4rtUpdate type entry info = .ok update) :
    getRedisP4rtTableKey entry info = .ok update.key ∧ update.op = if type = .delete then .del else .set := by
  obtain ⟨key,hkey,h⟩ := bind_eq_ok.mp h
  have hkey := orFail_eq_ok.mp hkey
  cases type with
  | insert | modify =>
    obtain ⟨values,-,rfl⟩ := map_eq_ok.mp h
    exact ⟨hkey,rfl⟩
  | delete =>
    cases h
    exact ⟨hkey,rfl⟩
  | unspecified | unknown n => cases h

private theorem createAppDbUpdate_op {type : UpdateType} {entity : IrEntity} {info : IrP4Info} {u : AppDbUpdate}
    (h : createAppDbUpdate type entity info = .ok u) : u.update.op = if type = .delete then .del else .set := by
  obtain ⟨update,hupdate,rfl⟩ := map_eq_ok.mp h
  cases entity with
  | packetReplicationEngineEntry e =>
    cases type with
    | insert | modify =>
      obtain ⟨values,-,rfl⟩ := map_eq_ok.mp hupdate
      rfl
    | delete =>
      cases hupdate
      rfl
    | unspecified | unknown n => cases hupdate
  | tableEntry e =>
    cases htype : tableTypeOfName e.tableName <;> simp only [htype] at hupdate
    case p4rt => exact (createAppDbP4rtUpdate_spec hupdate).2
    case vrfTable | vlanTable | vlanMemberTable =>
      obtain ⟨key,-,hupdate⟩ := bind_eq_ok.mp (orFail_eq_ok.mp hupdate)
      cases type <;> cases hupdate <;> rfl

private theorem createAppDbUpdate_entryRow {type : UpdateType} {entry : IrTableEntry} {info : IrP4Info} {u : AppDbUpdate}
    (h : createAppDbUpdate type (.tableEntry entry) info = .ok u) : EntryRow entry.tableName u := by
  obtain ⟨update,hupdate,rfl⟩ := map_eq_ok.mp h
  refine ⟨rfl,fun hp4rt => ?_⟩
  have htype : tableTypeOfName entry.tableName = .p4rt := hp4rt
  simp only [htype] at hupdate
  obtain ⟨rowType,fields,-,hkey⟩ := getRedisP4rtTableKey_eq_ok (createAppDbP4rtUpdate_spec hupdate).1
  exact ⟨rowType,_,hkey,exists_lower_appDbKeyJson _ _⟩

variable [InetText]

def irEntityTable : IrEntity → Option String
  | .tableEntry e => some e.tableName
  | .packetReplicationEngineEntry _ => none

def entityTable (info : IrP4Info) : Entity → Option String
  | .tableEntry e => (info.tablesById.lookup e.tableId).map fun t => t.preamble.aliasName
  | _ => none

theorem updateIr_tableEntry {info : IrP4Info} {type : UpdateType} {pi : TableEntry} {ir : IrEntity}
    (h : updateIr info ⟨type,.tableEntry pi⟩ = .ok ir) :
    ∃ entry table,ir = .tableEntry entry ∧ TranslatedPiEntry info (pdpiOptions type) pi entry table := by
  obtain ⟨entry,hentry,rfl⟩ := map_eq_ok.mp (mapError_eq_ok.mp h)
  obtain ⟨table,htable⟩ := piTableEntryToIr_spec hentry
  exact ⟨entry,table,rfl,htable⟩

theorem piUpdateToEntityUpdate_table {info : IrP4Info} {constraints : ConstraintInfo} {translation : SwitchTranslation} {role : String}
    {type : UpdateType} {e : Entity} {u : EntityUpdate}
    (h : piUpdateToEntityUpdate info constraints translation role ⟨type,e⟩ = .ok u) : irEntityTable u.entry = entityTable info e := by
  obtain ⟨-,ir,hir,-,hentry,-,-⟩ := piUpdateToEntityUpdate_spec h
  cases e with
  | tableEntry pi =>
    obtain ⟨irEntry,table,rfl,htable⟩ := updateIr_tableEntry hir
    obtain ⟨entry,htranslated,hentry⟩ := map_eq_ok.mp hentry
    have hname : entry.tableName = irEntry.tableName := (translateTableEntry_weights htranslated).1
    rw [← hentry,irEntityTable,hname,htable.tableName,entityTable,htable.found,Option.map_some]
  | packetReplicationEngineEntry pi =>
    obtain ⟨irEntry,-,rfl⟩ := map_eq_ok.mp (mapError_eq_ok.mp hir)
    obtain ⟨entry,-,hentry⟩ := map_eq_ok.mp hentry
    rw [← hentry]
    rfl
  | notSet => cases hir
  | other field => cases hir

variable {info : IrP4Info} {translation : SwitchTranslation} {type : UpdateType} {e : Entity} {u : AppDbUpdate}

theorem entityAppDbUpdate_op (h : entityAppDbUpdate translation info type e = .ok u) :
    u.update.op = if type = .delete then .del else .set := by
  obtain ⟨update,hupdate,rfl⟩ := map_eq_ok.mp h
  obtain ⟨-,-,-,-,-,-,hrow⟩ := piUpdateToEntityUpdate_spec hupdate
  exact createAppDbUpdate_op hrow

theorem entityAppDbUpdate_entryRow (h : entityAppDbUpdate translation info type e = .ok u) {tableName : String}
    (htable : entityTable info e = some tableName) : EntryRow tableName u := by
  obtain ⟨update,hupdate,rfl⟩ := map_eq_ok.mp h
  have hname := piUpdateToEntityUpdate_table hupdate
  obtain ⟨-,-,-,-,-,-,hrow⟩ := piUpdateToEntityUpdate_spec hupdate
  rw [htable] at hname
  cases hentry : update.entry with
  | packetReplicationEngineEntry entry =>
    rw [hentry] at hname
    cases hname
  | tableEntry entry =>
    rw [hentry] at hname hrow
    cases hname
    exact createAppDbUpdate_entryRow hrow

theorem entityTable_of_translated {pi : TableEntry} (h : entityAppDbUpdate translation info type (.tableEntry pi) = .ok u) :
    ∃ table,info.tablesById.lookup pi.tableId = some table := by
  obtain ⟨update,hupdate,-⟩ := map_eq_ok.mp h
  obtain ⟨-,ir,hir,-⟩ := piUpdateToEntityUpdate_spec hupdate
  obtain ⟨entry,table,-,htable⟩ := updateIr_tableEntry hir
  exact ⟨table,htable.found⟩

end SonicPins.P4rtApp
