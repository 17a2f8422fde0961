import SonicPins.Sonic.AclDefinition

/-! What the plan of a transition contains, compared with what differs between the two P4Infos. -/
namespace SonicPins.P4rtApp
open Lib Pdpi Sonic

variable {name : String} {t : P4InfoReconcileTransition} {l r : KeyOpFieldsValues}

def configOf (configs : List HashPacketFieldConfig) (key : String) : Option HashPacketFieldConfig := configs.find? fun c => c.key = key

def updateKeys (keys : List String) (value : String → Option HashPacketFieldConfig) (m : String → Option HashPacketFieldConfig) :
    String → Option HashPacketFieldConfig :=
  keys.foldl (fun m key => Function.update m key (value key)) m

/-- The hash settings after those to be deleted are deleted and then those to be set are set. -/
def applyHashingPlan (t : P4InfoReconcileTransition) (old new : List HashPacketFieldConfig) : String → Option HashPacketFieldConfig :=
  updateKeys t.hashingPacketFieldConfigsToSet (configOf new) (updateKeys t.hashingPacketFieldConfigsToDelete (fun _ =>
    none) (configOf old))

theorem updateKeys_apply (keys : List String) (value m : String → Option HashPacketFieldConfig) (key : String) :
    updateKeys keys value m key = if key ∈ keys then value key else m key := by
  induction keys generalizing m with
  | nil => rfl
  | cons k keys ih =>
    have hstep : updateKeys (k :: keys) value m = updateKeys keys value (Function.update m k (value k)) := rfl
    rw [hstep,ih]
    by_cases hkey : key = k
    · subst hkey
      simp
    · simp [hkey]

abbrev KeyOrdered (configs : List HashPacketFieldConfig) : Prop := configs.Pairwise fun a b => a.key < b.key

theorem configOf_eq_some {configs : List HashPacketFieldConfig} (h : KeyOrdered configs) {key : String} {c : HashPacketFieldConfig} :
    configOf configs key = some c ↔ c ∈ configs ∧ c.key = key := by
  constructor
  · intro hfind
    exact ⟨List.mem_of_find?_eq_some hfind,by simpa using List.find?_some hfind⟩
  · rintro ⟨hc,rfl⟩
    unfold configOf
    induction configs with
    | nil => cases hc
    | cons d ds ih =>
      obtain ⟨hd,hds⟩ := List.pairwise_cons.mp h
      rcases List.mem_cons.mp hc with rfl | hc
      · simp
      · rw [List.find?_cons_of_neg (by simpa using (hd c hc).ne)]
        exact ih hds hc

private theorem applyHashingPlan_eq {old new : List HashPacketFieldConfig} (hold : KeyOrdered old)
    (hnew : KeyOrdered new) (hset : ∀ key,key ∈ t.hashingPacketFieldConfigsToSet ↔ ∃ c ∈ new,c ∉ old ∧ c.key = key)
    (hdelete : ∀ key,key ∈ t.hashingPacketFieldConfigsToDelete ↔ (∃ c ∈ old,c ∉ new ∧ c.key = key) ∧ ∀ c ∈ new,c.key ≠ key)
    (key : String) : applyHashingPlan t old new key = configOf new key := by
  rw [applyHashingPlan,updateKeys_apply,updateKeys_apply]
  split_ifs with hset' hdelete'
  · rfl
  · have hgone := ((hdelete key).mp hdelete').2
    exact (List.find?_eq_none.mpr fun c hc => by simpa using hgone c hc).symm
  · -- neither set nor deleted: both lists have the same config for the key
    have hsame : ∀ c,c.key = key → (c ∈ old ↔ c ∈ new) := by
      intro c hc
      constructor
      · intro hold'
        by_contra hgone
        refine hdelete' ((hdelete key).mpr ⟨⟨c,hold',hgone,hc⟩,fun d hd hdkey => ?_⟩)
        refine hset' ((hset key).mpr ⟨d,hd,fun hdold => hgone ?_,hdkey⟩)
        have hd' := (configOf_eq_some hold).mpr ⟨hdold,hdkey⟩
        rw [(configOf_eq_some hold).mpr ⟨hold',hc⟩] at hd'
        rwa [Option.some.inj hd']
      · intro hnew'
        by_contra hadded
        exact hset' ((hset key).mpr ⟨c,hnew',hadded,hc⟩)
    refine Option.ext fun c => ?_
    rw [configOf_eq_some hold,configOf_eq_some hnew]
    exact and_congr_left fun hc => hsame c hc

/-- Rows with the same fields and values; their order has no meaning. -/
structure SameDefinition (l r : KeyOpFieldsValues) : Prop where
  key : l.key = r.key
  values : l.values.Perm r.values

/-- Rows of one key that the comparison gets wrong. Either every field of the second has its value in the first and there are
equally many, but the second repeats some in place of others; or the rows are the same and a field has two values. -/
def Mistaken (l r : KeyOpFieldsValues) : Prop :=
  l.key = r.key ∧
    ((l.values.length = r.values.length ∧ (∀ v ∈ r.values,lastField l.values v.1 = some v.2) ∧
        ∃ v,r.values.count v < l.values.count v) ∨
      (l.values.Perm r.values ∧ ∃ v ∈ r.values,lastField l.values v.1 ≠ some v.2))

private theorem kfvEq_iff (hop : l.op = r.op) : kfvEq l r = true ↔
    l.key = r.key ∧ l.values.length = r.values.length ∧ ∀ v ∈ r.values,lastField l.values v.1 = some v.2 := by
  simp [kfvEq,hop,and_assoc]

private theorem kfvEq_sameDefinition_iff (hop : l.op = r.op) : (kfvEq l r = true ↔ SameDefinition l r) ↔ ¬ Mistaken l r := by
  rw [kfvEq_iff hop]
  constructor
  · rintro hright ⟨hkey,⟨hlength,hfields,v,hv⟩ | ⟨hperm,v,hv,hvalue⟩⟩
    · have hsame := hright.mp ⟨hkey,hlength,hfields⟩
      exact hv.ne (hsame.values.count_eq v).symm
    · exact hvalue ((hright.mpr ⟨hkey,hperm⟩).2.2 v hv)
  · intro hnot
    constructor
    · rintro ⟨hkey,hlength,hfields⟩
      refine ⟨hkey,?_⟩
      have hcount : ∀ v,l.values.count v ≤ r.values.count v := by
        intro v
        by_contra hless
        exact hnot ⟨hkey,.inl ⟨hlength,hfields,v,not_le.mp hless⟩⟩
      have hsub : l.values.Subperm r.values := List.subperm_ext_iff.mpr fun v _ => hcount v
      exact hsub.perm_of_length_le hlength.ge
    · rintro ⟨hkey,hperm⟩
      refine ⟨hkey,hperm.length_eq,fun v hv => ?_⟩
      by_contra hvalue
      exact hnot ⟨hkey,.inr ⟨hperm,v,hv,hvalue⟩⟩

theorem mem_of_lastField {values : List FieldValue} {v : FieldValue} (h : lastField values v.1 = some v.2) : v ∈ values := by
  obtain ⟨x,hx,hvalue⟩ := Option.map_eq_some_iff.mp h
  have hfield : x.1 = v.1 := by simpa using List.find?_some hx
  have hsame : x = v := Prod.ext hfield hvalue
  exact hsame ▸ List.mem_reverse.mp (List.mem_of_find?_eq_some hx)

private theorem lastField_eq_some {values : List FieldValue} (hfields : (values.map Prod.fst).Nodup) {v : FieldValue} (hv : v ∈ values) :
    lastField values v.1 = some v.2 := by
  cases hlast : lastField values v.1 with
  | none =>
    rw [lastField,Option.map_eq_none_iff,List.find?_eq_none] at hlast
    exact absurd (decide_eq_true rfl) (hlast v (List.mem_reverse.mpr hv))
  | some value =>
    have hmem := mem_of_lastField (v := (v.1,value)) hlast
    have hsame : (v.1,value) = v := List.inj_on_of_nodup_map hfields hmem hv rfl
    exact congrArg (fun x : FieldValue => some x.2) hsame

private theorem not_mistaken (hfields : (r.values.map Prod.fst).Nodup) : ¬ Mistaken l r := by
  rintro ⟨-,⟨hlength,hvalues,v,hv⟩ | ⟨hperm,v,hv,hvalue⟩⟩
  · have hsub : r.values.Subperm l.values := List.subperm_of_subset hfields.of_map fun x hx => mem_of_lastField (hvalues x hx)
    exact hv.ne ((hsub.perm_of_length_le hlength.le).count_eq v)
  · have hfields' := (hperm.map Prod.fst).nodup_iff.mpr hfields
    exact hvalue (lastField_eq_some hfields' (hperm.mem_iff.mpr hv))

section Plan
variable (fs : PipelineFunctions)

def IsAclTable (info : IrP4Info) (name : String) : Prop :=
  ∃ table,info.tablesByName.lookup name = some table ∧ getTableType table = .ok .acl

/-- The rows that two P4Infos define a table by. -/
structure DefinedBy (old new : IrP4Info) (name : String) (l r : KeyOpFieldsValues) : Prop where
  old : ∃ table,old.tablesByName.lookup name = some table ∧ appDbAclTableDefinition fs table = .ok l
  new : ∃ table,new.tablesByName.lookup name = some table ∧ appDbAclTableDefinition fs table = .ok r

def DefinitionDiffers (old new : IrP4Info) (name : String) : Prop := ∃ l r,DefinedBy fs old new name l r ∧ ¬ SameDefinition l r

/-- The new table has the annotation to be installed again, once. -/
def AsksForReinstall (new : IrP4Info) (name : String) : Prop :=
  ∃ table,new.tablesByName.lookup name = some table ∧
    (getAnnotationBody "reinstall_during_upgrade" table.preamble.annotations).isOk = true

def aclTablesToModify (t : P4InfoReconcileTransition) : List String :=
  t.nonessentialAclTablesToModify ++ t.essentialAclTablesToModify

structure ExactPlan (old new : IrP4Info) (t : P4InfoReconcileTransition) : Prop where
  addDelete : t.aclTablesToAdd.Disjoint t.aclTablesToDelete
  addModify : t.aclTablesToAdd.Disjoint (aclTablesToModify t)
  deleteModify : t.aclTablesToDelete.Disjoint (aclTablesToModify t)
  add : ∀ name,name ∈ t.aclTablesToAdd ↔ IsAclTable new name ∧ ¬ IsAclTable old name
  delete : ∀ name,name ∈ t.aclTablesToDelete ↔ IsAclTable old name ∧ ¬ IsAclTable new name
  modify : ∀ name,name ∈ aclTablesToModify t ↔
    IsAclTable old name ∧ IsAclTable new name ∧ (DefinitionDiffers fs old new name ∨ AsksForReinstall new name)
  hashing : ∃ oldConfigs newConfigs,fs.extractHashPacketFieldConfigs old = .ok oldConfigs ∧
    fs.extractHashPacketFieldConfigs new = .ok newConfigs ∧ applyHashingPlan t oldConfigs newConfigs = configOf newConfigs

/-- No table of both P4Infos that is to be compared has definitions that the comparison gets wrong. -/
def ToldApart (old new : IrP4Info) : Prop :=
  ∀ name l r,IsAclTable old name → IsAclTable new name → ¬ AsksForReinstall new name → DefinedBy fs old new name l r → ¬ Mistaken l r

end Plan

theorem getAclTableNames_spec {info : IrP4Info} (hinfo : (info.tablesByName.map Prod.fst).Nodup) {names : List String}
    (h : getAclTableNames info = .ok names) : names.Pairwise (· < ·) ∧ ∀ name,name ∈ names ↔ IsAclTable info name := by
  obtain ⟨types,htypes,h⟩ := bind_eq_ok.mp h
  cases h
  have hrel := mapM_eq_ok.mp htypes
  have hnames : ((info.tablesByName.zip types).filter fun t => t.2 = .acl).map (fun t => t.1.1) =
      (((info.tablesByName.zip types).filter fun t => t.2 = .acl).map Prod.fst).map Prod.fst := by
    rw [List.map_map]
    rfl
  have hsub : (((info.tablesByName.zip types).filter fun t => t.2 = .acl).map Prod.fst).Sublist info.tablesByName := by
    have hzip := (List.filter_sublist (l := info.tablesByName.zip types) (p := fun t => t.2 = .acl)).map Prod.fst
    rwa [List.map_fst_zip hrel.length_eq.le] at hzip
  rw [hnames]
  constructor
  · have hnodup := (hinfo.sublist (hsub.map Prod.fst))
    have hsorted := List.pairwise_insertionSort (· ≤ · : String → String → Prop)
      ((((info.tablesByName.zip types).filter fun t => t.2 = .acl).map Prod.fst).map Prod.fst)
    exact hsorted.imp₂ (fun a b hle hne => lt_of_le_of_ne hle hne) ((List.perm_insertionSort _ _).nodup_iff.mpr hnodup)
  · intro name
    rw [(List.perm_insertionSort _ _).mem_iff,List.mem_map]
    constructor
    · rintro ⟨x,hx,rfl⟩
      obtain ⟨hmem,htype⟩ := (mem_filter_zip_mapM hrel).mp hx
      exact ⟨x.2,lookup_eq_some_of_mem hinfo hmem,mapError_eq_ok.mp htype⟩
    · rintro ⟨table,hlookup,htype⟩
      exact ⟨(name,table),(mem_filter_zip_mapM hrel).mpr ⟨mem_of_lookup_eq_some hlookup,mapError_eq_ok.mpr htype⟩,rfl⟩

section Modifications
variable {fs : PipelineFunctions} {old new : IrP4Info}

theorem tableNamed_eq_ok {info : IrP4Info} {table : IrTableDefinition} :
    tableNamed info name = .ok table ↔ info.tablesByName.lookup name = some table := by
  unfold tableNamed
  cases info.tablesByName.lookup name <;> simp

/-- The definition of a table changes for the comparison, or is to be installed again. -/
def IsModified (fs : PipelineFunctions) (old new : IrP4Info) (name : String) : Prop :=
  (∃ l r,DefinedBy fs old new name l r ∧ kfvEq l r = false) ∨ AsksForReinstall new name

theorem appDbAclTableDefinition_op {table : IrTableDefinition} {row : KeyOpFieldsValues}
    (h : appDbAclTableDefinition fs table = .ok row) : row.op = .set := by
  obtain ⟨key,-,h⟩ := bind_eq_ok.mp h
  obtain ⟨values,-,h⟩ := bind_eq_ok.mp h
  cases h
  rfl

theorem DefinedBy.unique {l' r' : KeyOpFieldsValues} (h : DefinedBy fs old new name l r)
    (h' : DefinedBy fs old new name l' r') : l' = l ∧ r' = r := by
  obtain ⟨⟨t,ht,hl⟩,u,hu,hr⟩ := h
  obtain ⟨⟨t',ht',hl'⟩,u',hu',hr'⟩ := h'
  cases ht.symm.trans ht'
  cases hu.symm.trans hu'
  cases hl.symm.trans hl'
  cases hr.symm.trans hr'
  exact ⟨rfl,rfl⟩

theorem DefinedBy.op_eq (h : DefinedBy fs old new name l r) : l.op = r.op := by
  obtain ⟨⟨t,-,hl⟩,u,-,hr⟩ := h
  rw [appDbAclTableDefinition_op hl,appDbAclTableDefinition_op hr]

/-- One table of both P4Infos: it is compared, and listed if it is modified. -/
theorem addModification_spec {t' : P4InfoReconcileTransition} (h : addModification fs old new t name = .ok t') :
    (∃ l r,DefinedBy fs old new name l r) ∧
      (∀ n,n ∈ aclTablesToModify t' ↔ n ∈ aclTablesToModify t ∨ (n = name ∧ IsModified fs old new name)) ∧
      t'.aclTablesToAdd = t.aclTablesToAdd ∧ t'.aclTablesToDelete = t.aclTablesToDelete ∧
      t'.hashingPacketFieldConfigsToDelete = t.hashingPacketFieldConfigsToDelete ∧
      t'.hashingPacketFieldConfigsToSet = t.hashingPacketFieldConfigsToSet := by
  obtain ⟨oldTable,hold,h⟩ := bind_eq_ok.mp h
  obtain ⟨newTable,hnew,h⟩ := bind_eq_ok.mp h
  obtain ⟨modified,hmodified,h⟩ := bind_eq_ok.mp h
  rw [tableNamed_eq_ok] at hold hnew
  have hmodified := orFail_eq_ok.mp hmodified
  obtain ⟨l,hl,hmodified⟩ := bind_eq_ok.mp hmodified
  obtain ⟨r,hr,hmodified⟩ := bind_eq_ok.mp hmodified
  obtain ⟨oldStage,-,hmodified⟩ := bind_eq_ok.mp hmodified
  obtain ⟨newStage,-,hmodified⟩ := bind_eq_ok.mp hmodified
  have hdefined : DefinedBy fs old new name l r := ⟨⟨_,hold,mapError_eq_ok.mp hl⟩,_,hnew,mapError_eq_ok.mp hr⟩
  have hvalue : modified = (!kfvEq l r || (getAnnotationBody "reinstall_during_upgrade" newTable.preamble.annotations).isOk) := by
    split at hmodified
    · cases hmodified
    · exact (Except.ok.inj hmodified).symm
  have hiff : modified = true ↔ IsModified fs old new name := by
    rw [hvalue,Bool.or_eq_true,Bool.not_eq_true']
    constructor
    · rintro (hdiffers | hreinstall)
      · exact .inl ⟨l,r,hdefined,hdiffers⟩
      · exact .inr ⟨newTable,hnew,hreinstall⟩
    · rintro (⟨l',r',hdefined',hdiffers⟩ | ⟨table,htable,hreinstall⟩)
      · obtain ⟨rfl,rfl⟩ := hdefined.unique hdefined'
        exact .inl hdiffers
      · cases hnew.symm.trans htable
        exact .inr hreinstall
  refine ⟨⟨l,r,hdefined⟩,?_⟩
  split at h
  · rename_i hsame
    cases h
    have hnot : ¬ IsModified fs old new name := by
      rw [← hiff]
      simpa using hsame
    simp [hnot]
  · rename_i hsame
    have hmod : IsModified fs old new name := hiff.mp (by simpa using hsame)
    split at h
    · cases h
      simp only [aclTablesToModify,List.mem_append,List.mem_singleton,hmod,and_true,and_self]
      tauto
    · cases h
      simp only [aclTablesToModify,List.mem_append,List.mem_singleton,hmod,and_true,and_self]
      tauto

/-- The loop over the tables of both P4Infos. -/
theorem foldlM_addModification {names : List String} {t' : P4InfoReconcileTransition}
    (h : names.foldlM (addModification fs old new) t = .ok t') :
    (∀ name ∈ names,∃ l r,DefinedBy fs old new name l r) ∧
      (∀ n,n ∈ aclTablesToModify t' ↔ n ∈ aclTablesToModify t ∨ (n ∈ names ∧ IsModified fs old new n)) ∧
      t'.aclTablesToAdd = t.aclTablesToAdd ∧ t'.aclTablesToDelete = t.aclTablesToDelete ∧
      t'.hashingPacketFieldConfigsToDelete = t.hashingPacketFieldConfigsToDelete ∧
      t'.hashingPacketFieldConfigsToSet = t.hashingPacketFieldConfigsToSet := by
  induction names generalizing t with
  | nil =>
    cases h
    simp
  | cons name names ih =>
    rw [List.foldlM_cons] at h
    obtain ⟨mid,hmid,h⟩ := bind_eq_ok.mp h
    obtain ⟨hdefined,hmodify,hadd,hdelete,hhash,hhash'⟩ := addModification_spec hmid
    obtain ⟨hdefined',hmodify',hadd',hdelete',hfields,hset⟩ := ih h
    refine ⟨?_,fun n => ?_,hadd'.trans hadd,hdelete'.trans hdelete,hfields.trans hhash,hset.trans hhash'⟩
    · rintro n (_ | ⟨_,hn⟩)
      · exact hdefined
      · exact hdefined' n hn
    · rw [hmodify',hmodify,List.mem_cons]
      constructor
      · rintro ((hn | ⟨rfl,hmod⟩) | ⟨hn,hmod⟩)
        · exact .inl hn
        · exact .inr ⟨.inl rfl,hmod⟩
        · exact .inr ⟨.inr hn,hmod⟩
      · rintro (hn | ⟨rfl | hn,hmod⟩)
        · exact .inl (.inl hn)
        · exact .inl (.inr ⟨rfl,hmod⟩)
        · exact .inr ⟨hn,hmod⟩

end Modifications

section Exactness
variable {fs : PipelineFunctions} {old new : IrP4Info}

private theorem calculateHashingDifference_spec (hordered : ∀ info configs,fs.extractHashPacketFieldConfigs info = .ok configs →
    KeyOrdered configs)
    (h : calculateHashingDifference fs old new {} = .ok t) :
    t.nonessentialAclTablesToModify = [] ∧ t.essentialAclTablesToModify = [] ∧
      ∃ oldConfigs newConfigs,fs.extractHashPacketFieldConfigs old = .ok oldConfigs ∧
        fs.extractHashPacketFieldConfigs new = .ok newConfigs ∧ applyHashingPlan t oldConfigs newConfigs = configOf newConfigs := by
  obtain ⟨oldConfigs,hold,h⟩ := bind_eq_ok.mp h
  obtain ⟨oldParams,-,h⟩ := bind_eq_ok.mp h
  obtain ⟨newConfigs,hnew,h⟩ := bind_eq_ok.mp h
  obtain ⟨newParams,-,h⟩ := bind_eq_ok.mp h
  have hold := mapError_eq_ok.mp hold
  have hnew := mapError_eq_ok.mp hnew
  have hmerged := @merged_setDifference_key _ _ _ _ HashPacketFieldConfig.key _ _ (hordered _ _ hold) (hordered _ _ hnew)
  cases h
  refine ⟨rfl,rfl,oldConfigs,newConfigs,hold,hnew,funext fun key =>
    applyHashingPlan_eq (hordered _ _ hold) (hordered _ _ hnew) (fun key => ?_) (fun key => ?_) key⟩
  · simp only [List.nil_append,List.mem_map,hmerged.added,and_assoc]
  · simp only [List.nil_append,List.mem_filter,List.mem_map,hmerged.deleted,and_assoc,decide_eq_true_eq,not_exists,not_and]

theorem calculateTransition_spec (hordered : ∀ info configs,fs.extractHashPacketFieldConfigs info = .ok configs → KeyOrdered configs)
    (hold : (old.tablesByName.map Prod.fst).Nodup) (hnew : (new.tablesByName.map Prod.fst).Nodup)
    (h : calculateTransition fs old new = .ok t) :
    (∀ name,IsAclTable old name → IsAclTable new name → ∃ l r,DefinedBy fs old new name l r) ∧
      (∀ name,name ∈ aclTablesToModify t ↔ IsAclTable old name ∧ IsAclTable new name ∧ IsModified fs old new name) ∧
      (∀ name,name ∈ t.aclTablesToAdd ↔ IsAclTable new name ∧ ¬ IsAclTable old name) ∧
      (∀ name,name ∈ t.aclTablesToDelete ↔ IsAclTable old name ∧ ¬ IsAclTable new name) ∧
      ∃ oldConfigs newConfigs,fs.extractHashPacketFieldConfigs old = .ok oldConfigs ∧
        fs.extractHashPacketFieldConfigs new = .ok newConfigs ∧ applyHashingPlan t oldConfigs newConfigs = configOf newConfigs := by
  obtain ⟨hashing,hhashing,h⟩ := bind_eq_ok.mp h
  obtain ⟨hnonessential,hessential,oldConfigs,newConfigs,holdConfigs,hnewConfigs,hplan⟩ :=
    calculateHashingDifference_spec hordered (orFail_eq_ok.mp hhashing)
  obtain ⟨oldNames,holdNames,h⟩ := bind_eq_ok.mp h
  obtain ⟨newNames,hnewNames,h⟩ := bind_eq_ok.mp h
  obtain ⟨holdSorted,holdNames⟩ := getAclTableNames_spec hold (orFail_eq_ok.mp holdNames)
  obtain ⟨hnewSorted,hnewNames⟩ := getAclTableNames_spec hnew (orFail_eq_ok.mp hnewNames)
  have hmerged := merged_setDifference holdSorted hnewSorted
  obtain ⟨hdefined,hmodify,hadd,hdelete,hhash,hhash'⟩ := foldlM_addModification h
  refine ⟨fun name ho hn => ?_,fun name => ?_,fun name => ?_,fun name => ?_,oldConfigs,newConfigs,holdConfigs,hnewConfigs,?_⟩
  · exact hdefined name ((hmerged.intersection name).mpr ⟨(holdNames name).mpr ho,(hnewNames name).mpr hn⟩)
  · rw [hmodify,hmerged.intersection,holdNames,hnewNames,and_assoc]
    simp [aclTablesToModify,hnonessential,hessential]
  · rw [hadd,hmerged.added,holdNames,hnewNames]
  · rw [hdelete,hmerged.deleted,holdNames,hnewNames]
  · rw [← hplan]
    unfold applyHashingPlan
    rw [hhash,hhash']

theorem isModified_iff (hdefined : DefinedBy fs old new name l r) (hreinstall : ¬ AsksForReinstall new name) :
    (IsModified fs old new name ↔ DefinitionDiffers fs old new name) ↔ ¬ Mistaken l r := by
  have hmodified : IsModified fs old new name ↔ kfvEq l r = false := by
    constructor
    · rintro (⟨l',r',hdefined',hdiffers⟩ | hasks)
      · obtain ⟨rfl,rfl⟩ := hdefined.unique hdefined'
        exact hdiffers
      · exact absurd hasks hreinstall
    · exact fun hdiffers => .inl ⟨l,r,hdefined,hdiffers⟩
  have hdiffers : DefinitionDiffers fs old new name ↔ ¬ SameDefinition l r := by
    constructor
    · rintro ⟨l',r',hdefined',hne⟩
      obtain ⟨rfl,rfl⟩ := hdefined.unique hdefined'
      exact hne
    · exact fun hne => ⟨l,r,hdefined,hne⟩
  rw [hmodified,hdiffers,← kfvEq_sameDefinition_iff hdefined.op_eq,← Bool.not_eq_true,not_iff_not]

theorem exactPlan_iff_toldApart (hordered : ∀ info configs,fs.extractHashPacketFieldConfigs info = .ok configs → KeyOrdered configs)
    (hold : (old.tablesByName.map Prod.fst).Nodup) (hnew : (new.tablesByName.map Prod.fst).Nodup)
    (h : calculateTransition fs old new = .ok t) : ExactPlan fs old new t ↔ ToldApart fs old new := by
  obtain ⟨hdefined,hmodify,hadd,hdelete,hhashing⟩ := calculateTransition_spec hordered hold hnew h
  constructor
  · intro hexact name l r ho hn hreinstall hrows
    refine (isModified_iff hrows hreinstall).mp ?_
    have hiff := (hmodify name).symm.trans (hexact.modify name)
    constructor
    · intro hmodified
      exact (hiff.mp ⟨ho,hn,hmodified⟩).2.2.resolve_right hreinstall
    · intro hdiffers
      exact (hiff.mpr ⟨ho,hn,.inl hdiffers⟩).2.2
  · intro happart
    refine ⟨fun name ha hd => ?_,fun name ha hm => ?_,fun name hd hm => ?_,hadd,hdelete,fun name => ?_,hhashing⟩
    · exact ((hadd name).mp ha).2 ((hdelete name).mp hd).1
    · exact ((hadd name).mp ha).2 ((hmodify name).mp hm).1
    · exact ((hdelete name).mp hd).2 ((hmodify name).mp hm).2.1
    · rw [hmodify]
      refine and_congr_right fun ho => and_congr_right fun hn => ?_
      by_cases hreinstall : AsksForReinstall new name
      · exact iff_of_true (.inr hreinstall) (.inr hreinstall)
      · obtain ⟨l,r,hrows⟩ := hdefined name ho hn
        rw [(isModified_iff hrows hreinstall).mpr (happart name l r ho hn hreinstall hrows),or_iff_left hreinstall]

private theorem toldApart_of_names {schema : AclSchema} {fs : PipelineFunctions} (hnames : ∀ name table,
    new.tablesByName.lookup name = some table → getTableType table = .ok .acl →
      (table.matchFieldsById.map fun m => m.2.matchField.name).Nodup ∧ (table.entryActions.map fun a => a.preamble.aliasName).Nodup) :
    ToldApart (sonicFunctions schema fs) old new := by
  rintro name l r _ ⟨table,hlookup,htype⟩ _ ⟨-,table',hlookup',hrow⟩
  cases hlookup.symm.trans hlookup'
  obtain ⟨hmatches,hactions⟩ := hnames name table hlookup htype
  obtain ⟨key,-,hrow⟩ := bind_eq_ok.mp hrow
  obtain ⟨values,hvalues,hrow⟩ := bind_eq_ok.mp hrow
  cases hrow
  exact not_mistaken (definition_nodup (mapError_eq_ok.mp hvalues) hmatches hactions)

/-- With the functions that the switch uses, a plan is exact exactly if no two definitions are mistaken. -/
theorem transition_plan_exact_iff (schema : AclSchema) (fs : PipelineFunctions) {old new : IrP4Info}
    (hold : (old.tablesByName.map Prod.fst).Nodup) (hnew : (new.tablesByName.map Prod.fst).Nodup) {t : P4InfoReconcileTransition}
    (h : calculateTransition (sonicFunctions schema fs) old new = .ok t) :
    ExactPlan (sonicFunctions schema fs) old new t ↔ ToldApart (sonicFunctions schema fs) old new :=
  exactPlan_iff_toldApart (fun _ _ => pairwise_extractHashPacketFieldConfigs) hold hnew h

end Exactness

def sampleSchema : AclSchema where
  isStage name := name = "INGRESS" || name = "EGRESS"
  matchFieldSchemaByName name := if name = "SAI_ACL_TABLE_ATTR_FIELD_ETHER_TYPE" then some ⟨16,"HEX_STRING"⟩ else none

def sampleFunctions : PipelineFunctions := sonicFunctions sampleSchema
  { validateP4Info := fun _ => .ok (),p4ToConstraintInfo := fun _ => .error (invalidArgument ""),
    createIrP4Info := fun _ => .error (invalidArgument ""),isEquivalent := fun _ _ => false,
    extractHashPacketFieldConfigs := fun _ => .ok [],extractHashParamConfigs := fun _ => .ok [],
    aclTableDefinitionValues := fun _ => .ok [] }

def aclAction (id : UInt32) (name saiAction : String) : IrActionDefinition :=
  { preamble := { id := id,aliasName := name,annotations := ["@sai_action(" ++ saiAction ++ ")"] } }

def dropAction : IrActionDefinition := aclAction 1 "acl_drop" "SAI_PACKET_ACTION_DROP"

def copyAction : IrActionDefinition := aclAction 2 "acl_copy" "SAI_PACKET_ACTION_COPY"

def etherType : IrMatchFieldDefinition :=
  { matchField :=
      { id := 1,name := "ether_type",bitwidth := 16,matchType := .ternary,
        annotations := ["@sai_field(SAI_ACL_TABLE_ATTR_FIELD_ETHER_TYPE)"] } }

/-- A P4Info with one ACL table that has the given actions. -/
def aclPipeline (actions : List IrActionDefinition) : IrP4Info :=
  let table : IrTableDefinition :=
    { preamble := { id := 1,aliasName := "acl_ingress_table",annotations := ["@sai_acl(INGRESS)"] },
      matchFieldsById := [(1,etherType)],matchFieldsByName := [("ether_type",etherType)],entryActions := actions }
  { tablesById := [(1,table)],tablesByName := [("acl_ingress_table",table)] }

/-- An action that is listed twice takes the place of another one unnoticed. -/
theorem repeated_action_not_modified : ¬ ∀ (old new : IrP4Info) (t : P4InfoReconcileTransition),
    (old.tablesByName.map Prod.fst).Nodup → (new.tablesByName.map Prod.fst).Nodup →
      calculateTransition sampleFunctions old new = .ok t → ExactPlan sampleFunctions old new t := by
  intro h
  have hexact := h (aclPipeline [dropAction,copyAction]) (aclPipeline [dropAction,dropAction]) {} (by decide)
    (by decide) (by decide)
  have hdiffers : DefinitionDiffers sampleFunctions (aclPipeline [dropAction,copyAction]) (aclPipeline [dropAction,dropAction])
      "acl_ingress_table" := by
    refine ⟨_,_,⟨⟨_,rfl,rfl⟩,_,rfl,rfl⟩,fun hsame => ?_⟩
    have hperm := hsame.values
    revert hperm
    decide
  have hmodified := (hexact.modify "acl_ingress_table").mpr ⟨⟨_,rfl,by decide⟩,⟨_,rfl,by decide⟩,.inl hdiffers⟩
  cases hmodified

theorem added_action_planned : ExactPlan sampleFunctions (aclPipeline [dropAction]) (aclPipeline [dropAction,copyAction])
    { essentialAclTablesToModify := ["acl_ingress_table"] } := by
  refine (transition_plan_exact_iff sampleSchema _ (by decide) (by decide) (by decide)).mpr ?_
  refine toldApart_of_names fun name table htable _ => ?_
  obtain ⟨-,hsame⟩ := Prod.mk.inj (List.mem_singleton.mp (mem_of_lookup_eq_some htable))
  rw [hsame]
  decide

end SonicPins.P4rtApp
