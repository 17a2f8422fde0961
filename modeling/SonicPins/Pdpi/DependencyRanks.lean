import Mathlib.Data.String.Basic
import SonicPins.Lib.DoubleIndex
import SonicPins.Lib.LongestPaths
import SonicPins.Pdpi.References

/-! The dependency ranks of tables: minus the length of the longest path of references
that starts at a table. -/
namespace SonicPins.Pdpi
open Lib References

def outgoingReferences (info : IrP4Info) (tableName : String) : StatusOr (List IrTableReference) :=
  if isBuiltInTable tableName then
    (findPtrOrStatus info.builtInTables tableName).map IrBuiltInTableDefinition.outgoingReferences
  else (findPtrOrStatus info.tablesByName tableName).map IrTableDefinition.outgoingReferences

def referencedTableNames (info : IrP4Info) (tableName : String) : StatusOr (List (StatusOr String)) :=
  (outgoingReferences info tableName).map fun references => references.map fun r => getNameOfTable r.destinationTable

def dependencyCycle (tableName : String) : Status :=
  invalidArgument ("Dependencies form a cycle, which includes table '" ++ tableName ++ "'. No cyclic dependencies are allowed.")

/-- The two loops, over the names of the tables and of the built-in tables in the order in
which the maps are traversed. -/
def constructDependencyRankByTableName (depth : Nat) (tables builtInTables : List String) (info : IrP4Info) :
    Option (StatusOr IrP4Info) :=
  (rankNodes (referencedTableNames info) dependencyCycle depth (tables ++ builtInTables) info.dependencyRankByTableName).map
    fun result => result.map fun ranks => { info with dependencyRankByTableName := ranks }

/-- A table or built-in table of the given name exists. -/
def isKnownTable (info : IrP4Info) (tableName : String) : Bool := (outgoingReferences info tableName).isOk

def leadsToKnownTable (info : IrP4Info) (r : IrTableReference) : Bool :=
  (getNameOfTable r.destinationTable).toOption.any (isKnownTable info)

/-- References only mention known tables. -/
structure IrP4Info.TablesKnown (info : IrP4Info) : Prop where
  tables : ∀ x ∈ info.tablesByName,isKnownTable info x.1
  builtInTables : ∀ x ∈ info.builtInTables,isKnownTable info x.1
  references : ∀ x ∈ info.tablesByName,∀ r ∈ x.2.outgoingReferences,leadsToKnownTable info r
  builtInReferences : ∀ x ∈ info.builtInTables,∀ r ∈ x.2.outgoingReferences,leadsToKnownTable info r

def RefersToTable (info : IrP4Info) (source destination : String) : Prop :=
  ∃ references,outgoingReferences info source = .ok references ∧
    ∃ r ∈ references,getNameOfTable r.destinationTable = .ok destination

def CyclicReferences (info : IrP4Info) : Prop := ∃ table,Relation.TransGen (RefersToTable info) table table

def IrP4Info.tableNames (info : IrP4Info) : List String := info.tablesByName.map Prod.fst ++ info.builtInTables.map Prod.fst

variable {info : IrP4Info}

private theorem leads_iff (source destination : String) :
    Leads (referencedTableNames info) source destination ↔ RefersToTable info source destination := by
  constructor
  · rintro ⟨names,hnames,hmem⟩
    obtain ⟨references,hreferences,rfl⟩ := map_eq_ok.mp hnames
    obtain ⟨r,hr,hname⟩ := List.mem_map.mp hmem
    exact ⟨references,hreferences,r,hr,hname⟩
  · rintro ⟨references,hreferences,r,hr,hname⟩
    exact ⟨_,map_eq_ok.mpr ⟨references,hreferences,rfl⟩,List.mem_map.mpr ⟨r,hr,hname⟩⟩

theorem leads_eq : Leads (referencedTableNames info) = RefersToTable info := by
  funext source destination
  exact propext (leads_iff source destination)

theorem outgoingReferences_eq_ok {tableName : String} {references : List IrTableReference}
    (h : outgoingReferences info tableName = .ok references) :
    (∃ table,(tableName,table) ∈ info.builtInTables ∧ table.outgoingReferences = references) ∨
      ∃ table,(tableName,table) ∈ info.tablesByName ∧ table.outgoingReferences = references := by
  unfold outgoingReferences at h
  split at h
  · obtain ⟨table,htable,hreferences⟩ := map_eq_ok.mp h
    exact .inl ⟨table,mem_of_lookup_eq_some (findPtrOrStatus_eq_ok.mp htable),hreferences⟩
  · obtain ⟨table,htable,hreferences⟩ := map_eq_ok.mp h
    exact .inr ⟨table,mem_of_lookup_eq_some (findPtrOrStatus_eq_ok.mp htable),hreferences⟩

theorem isKnownTable_iff {tableName : String} :
    isKnownTable info tableName = true ↔ ∃ references,outgoingReferences info tableName = .ok references := by
  unfold isKnownTable
  cases outgoingReferences info tableName <;> simp [Except.isOk,Except.toBool]

theorem mem_tableNames_of_known {tableName : String} (h : isKnownTable info tableName = true) : tableName ∈ info.tableNames := by
  obtain ⟨references,hreferences⟩ := isKnownTable_iff.mp h
  rw [IrP4Info.tableNames,List.mem_append]
  rcases outgoingReferences_eq_ok hreferences with ⟨table,htable,-⟩ | ⟨table,htable,-⟩
  · exact .inr (List.mem_map.mpr ⟨_,htable,rfl⟩)
  · exact .inl (List.mem_map.mpr ⟨_,htable,rfl⟩)

theorem IrP4Info.TablesKnown.leadsToKnownTable (h : info.TablesKnown) {tableName : String} {references : List IrTableReference}
    (hreferences : outgoingReferences info tableName = .ok references) : ∀ r ∈ references,leadsToKnownTable info r = true := by
  intro r hr
  rcases outgoingReferences_eq_ok hreferences with ⟨table,htable,rfl⟩ | ⟨table,htable,rfl⟩
  · exact h.builtInReferences _ htable r hr
  · exact h.references _ htable r hr

theorem leadsToKnownTable_iff {r : IrTableReference} : leadsToKnownTable info r = true ↔
    ∃ name,getNameOfTable r.destinationTable = .ok name ∧ isKnownTable info name = true := by
  unfold leadsToKnownTable
  cases getNameOfTable r.destinationTable <;> simp [Except.toOption]

theorem IrP4Info.TablesKnown.closedUnder (h : info.TablesKnown) {nodes : Finset String}
    (hnodes : ∀ name,name ∈ nodes ↔ name ∈ info.tableNames) : ClosedUnder (referencedTableNames info) nodes := by
  intro name hname
  have hknown : isKnownTable info name = true := by
    rcases List.mem_append.mp ((hnodes name).mp hname) with hname | hname
    · obtain ⟨x,hx,rfl⟩ := List.mem_map.mp hname
      exact h.tables x hx
    · obtain ⟨x,hx,rfl⟩ := List.mem_map.mp hname
      exact h.builtInTables x hx
  obtain ⟨references,hreferences⟩ := isKnownTable_iff.mp hknown
  refine ⟨_,map_eq_ok.mpr ⟨references,hreferences,rfl⟩,fun x hx => ?_⟩
  obtain ⟨r,hr,rfl⟩ := List.mem_map.mp hx
  obtain ⟨destination,hdestination,hknown⟩ := leadsToKnownTable_iff.mp (h.leadsToKnownTable hreferences r hr)
  exact ⟨destination,(hnodes destination).mpr (mem_tableNames_of_known hknown),hdestination⟩

theorem constructDependencyRankByTableName_spec (h : info.TablesKnown) (hfresh : info.dependencyRankByTableName =
    []) (tables builtInTables : List String)
    (htables : ∀ name,name ∈ tables ↔ name ∈ info.tablesByName.map Prod.fst)
    (hbuiltIn : ∀ name,name ∈ builtInTables ↔ name ∈ info.builtInTables.map Prod.fst) (depth : Nat)
    (hdepth : tables.length + builtInTables.length < depth) :
    ∃ result,constructDependencyRankByTableName depth tables builtInTables info = some result ∧
      ((∃ info',result = .ok info') ↔ ¬ CyclicReferences info) ∧
      ∀ info',result = .ok info' → (∃ ranks,info' = { info with dependencyRankByTableName := ranks }) ∧
        (∀ name ∈ info.tableNames,∃ n : Nat,info'.dependencyRankByTableName.lookup name = some (-n : Int) ∧
          IsLongest (RefersToTable info) name n) ∧
        ∀ source destination,RefersToTable info source destination →
          ∃ low high,info'.dependencyRankByTableName.lookup source = some low ∧
            info'.dependencyRankByTableName.lookup destination = some high ∧ low < high := by
  have hnodes : ∀ name,name ∈ (tables ++ builtInTables).toFinset ↔ name ∈ info.tableNames := by
    intro name
    rw [List.mem_toFinset,List.mem_append,htables,hbuiltIn,IrP4Info.tableNames,List.mem_append]
  have hcard : (tables ++ builtInTables).toFinset.card < depth := by
    refine (List.toFinset_card_le _).trans_lt ?_
    rwa [List.length_append]
  have hempty : Ranked (referencedTableNames info) (tables ++ builtInTables).toFinset info.dependencyRankByTableName := by
    rw [hfresh]
    exact ⟨by simp,by simp⟩
  have hpath : ∀ u,¬ OnPath info.dependencyRankByTableName u := by
    rw [hfresh]
    rintro u ⟨rank,hrank,-⟩
    cases hrank
  rcases rankNodes_spec dependencyCycle (h.closedUnder hnodes) (fun v hv => List.mem_toFinset.mpr hv) hempty hpath
      hcard with ⟨u,hu,hcycle⟩ | ⟨ranks,hranks,-,-,hall⟩
  · rw [leads_eq] at hcycle
    refine ⟨.error (dependencyCycle u),?_,?_,?_⟩
    · rw [constructDependencyRankByTableName,hu]
      rfl
    · exact iff_of_false (by simp) (not_not.mpr ⟨u,hcycle⟩)
    · intro info' hinfo'
      cases hinfo'
  · rw [leads_eq] at hall
    have hlongest (name : String) (hname : name ∈ info.tableNames) :
        ∃ n : Nat,ranks.lookup name = some (-n : Int) ∧ IsLongest (RefersToTable info) name n :=
      hall name (List.mem_toFinset.mp ((hnodes name).mpr hname))
    have hedge {source destination : String} (hrefers : RefersToTable info source destination) :
        source ∈ info.tableNames ∧ destination ∈ info.tableNames := by
      obtain ⟨references,hreferences,r,hr,hname⟩ := hrefers
      obtain ⟨name,hname',hknown⟩ := leadsToKnownTable_iff.mp (h.leadsToKnownTable hreferences r hr)
      cases hname.symm.trans hname'
      exact ⟨mem_tableNames_of_known (isKnownTable_iff.mpr ⟨references,hreferences⟩),mem_tableNames_of_known hknown⟩
    refine ⟨.ok { info with dependencyRankByTableName := ranks },?_,?_,?_⟩
    · rw [constructDependencyRankByTableName,hranks]
      rfl
    · refine iff_of_true ⟨_,rfl⟩ ?_
      rintro ⟨name,hcycle⟩
      obtain ⟨next,hnext,-⟩ := Relation.TransGen.head'_iff.mp hcycle
      obtain ⟨n,-,hn⟩ := hlongest name (hedge hnext).1
      exact hn.not_cyclic hcycle
    · intro info' hinfo'
      cases hinfo'
      refine ⟨⟨ranks,rfl⟩,hlongest,fun source destination hrefers => ?_⟩
      obtain ⟨hsource,hdestination⟩ := hedge hrefers
      obtain ⟨m,hm,hlongestM⟩ := hlongest source hsource
      obtain ⟨n,hn,hlongestN⟩ := hlongest destination hdestination
      have hlt : n < m := hlongestM.lt_of_edge hlongestN hrefers
      exact ⟨-m,-n,hm,hn,by omega⟩

/-- The ranks exist unless references form a cycle, and are the lengths of the longest paths. -/
theorem dependency_ranks (h : info.TablesKnown) (hfresh : info.dependencyRankByTableName = []) (tables builtInTables : List String)
    (htables : ∀ name,name ∈ tables ↔ name ∈ info.tablesByName.map Prod.fst)
    (hbuiltIn : ∀ name,name ∈ builtInTables ↔ name ∈ info.builtInTables.map Prod.fst) (depth : Nat)
    (hdepth : tables.length + builtInTables.length < depth) :
    ∃ result,constructDependencyRankByTableName depth tables builtInTables info = some result ∧
      ((∃ info',result = .ok info') ↔ ¬ CyclicReferences info) ∧
      ∀ info',result = .ok info' → (∃ ranks,info' = { info with dependencyRankByTableName := ranks }) ∧
        (∀ name ∈ info.tableNames,∃ n : Nat,info'.dependencyRankByTableName.lookup name = some (-n : Int) ∧
          IsLongest (RefersToTable info) name n) ∧
        ∀ source destination,RefersToTable info source destination →
          ∃ low high,info'.dependencyRankByTableName.lookup source = some low ∧
            info'.dependencyRankByTableName.lookup destination = some high ∧ low < high :=
  constructDependencyRankByTableName_spec h hfresh tables builtInTables htables hbuiltIn depth hdepth

/-- A table whose entries refer to another table and to multicast groups. -/
def rankedInfo : IrP4Info where
  tablesByName := [("nexthop_table",{ preamble := { id := 1,aliasName := "nexthop_table" },outgoingReferences := [
      { sourceTable := .p4Table "nexthop_table" 1,destinationTable := .p4Table "neighbor_table" 2,fieldReferences := [] },
      { sourceTable := .p4Table "nexthop_table" 1,destinationTable := .builtInTable .multicastGroupTable,fieldReferences := [] }] }),
    ("neighbor_table",{ preamble := { id := 2,aliasName := "neighbor_table" } })]
  builtInTables := [("builtin::multicast_group_table",{ outgoingReferences := [
    { sourceTable := .builtInTable .multicastGroupTable,destinationTable := .p4Table "neighbor_table" 2,fieldReferences := [] }] })]

private theorem rankedInfo_known : rankedInfo.TablesKnown where
  tables := by decide
  builtInTables := by decide
  references := by decide
  builtInReferences := by decide

/-- The references form no cycle, and the longest path leads over the multicast groups. -/
theorem nexthop_table_rank : ¬ CyclicReferences rankedInfo ∧ IsLongest (RefersToTable rankedInfo) "nexthop_table" 2 := by
  obtain ⟨result,hresult,hiff,hranks⟩ := dependency_ranks rankedInfo_known rfl ["neighbor_table","nexthop_table"]
    ["builtin::multicast_group_table"] (by simp [rankedInfo,or_comm]) (by simp [rankedInfo]) 4 (by decide)
  have hvalue : constructDependencyRankByTableName 4 ["neighbor_table","nexthop_table"] ["builtin::multicast_group_table"] rankedInfo =
      some (.ok { rankedInfo with dependencyRankByTableName :=
        [("builtin::multicast_group_table",-1),("neighbor_table",0),("nexthop_table",-2)] }) := by decide
  obtain rfl := Option.some.inj (hvalue.symm.trans hresult)
  obtain ⟨-,hlongest,-⟩ := hranks _ rfl
  obtain ⟨n,hlookup,hn⟩ := hlongest "nexthop_table" (by decide)
  have htwo : some (-2 : Int) = some (-n : Int) := Eq.trans (by decide) hlookup
  have hn2 : n = 2 := by
    have := Option.some.inj htwo
    omega
  exact ⟨hiff.mp ⟨_,rfl⟩,hn2 ▸ hn⟩

end SonicPins.Pdpi
