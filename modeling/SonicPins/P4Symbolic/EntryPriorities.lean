import SonicPins.Lib.StableSort
import SonicPins.P4Symbolic.Ir

/-! What orders the entries of a table: the type of priority that a table is said to have,
and the order in which its entries are evaluated. A map of match fields is visited in an
order of its own each time. -/
namespace SonicPins.P4Symbolic
open Lib Pdpi Ir

inductive TableEntryPriorityType where
  | positivePriority | priorityZeroWithSingleLpm | priorityZero
  deriving DecidableEq,Repr

abbrev MatchFieldDefinition := String × IrMatchFieldDefinition

def MatchFieldDefinition.matchType (field : MatchFieldDefinition) : MatchType := field.2.matchField.matchType

/-- The first field that is telling decides. -/
def getTableEntryPriorityType : List MatchFieldDefinition → TableEntryPriorityType
  | [] => .priorityZero
  | field :: rest =>
    match field.matchType with
    | .range | .ternary | .optional => .positivePriority
    | .lpm => .priorityZeroWithSingleLpm
    | _ => getTableEntryPriorityType rest

/-- Entries of a table with such a field have a priority. -/
def MatchFieldDefinition.HasPriority (field : MatchFieldDefinition) : Prop :=
  field.matchType = .range ∨ field.matchType = .ternary ∨ field.matchType = .optional

/-- A field for prefixes is visited before every one that has a priority. -/
def LpmVisitedFirst (order : List MatchFieldDefinition) : Prop :=
  ∃ before lpm after,order = before ++ lpm :: after ∧ lpm.matchType = .lpm ∧
    (∀ field ∈ before,¬ field.HasPriority) ∧ ∃ field ∈ after,field.HasPriority

/-- The matches of an entry with the lengths of their prefixes. An entry for multicast is fatal. -/
def getMatches : Ir.TableEntry → Option (List (String × Int32))
  | .concreteEntry (.tableEntry entry) _ => some (entry.matches_.map fun m => (m.name,match m.value with
      | .lpm _ prefixLength => prefixLength
      | _ => 0))
  | .concreteEntry (.packetReplicationEngineEntry _) _ => none
  | .symbolicEntry entry => some (entry.matches_.map fun m => (m.name,match m.value with
      | .lpm _ prefixLength => prefixLength
      | _ => 0))
  | .notSet => some []

def getPriority : Ir.TableEntry → Int32
  | .concreteEntry (.tableEntry entry) _ => entry.priority
  | .concreteEntry (.packetReplicationEngineEntry _) _ => 0
  | .symbolicEntry entry => entry.priority
  | .notSet => 0

/-- The first match with the name counts. -/
def getPrefixLength (lpmMatchName : String) (entry : Ir.TableEntry) : Option Int32 :=
  (getMatches entry).map fun ms => (ms.lookup lpmMatchName).getD 0

/-- What the scan of all match fields finds. -/
structure MatchKinds where
  hasTernaryOrOptional : Bool := false
  lpmMatchName : Option String := none

def MatchKinds.add (kinds : MatchKinds) (field : MatchFieldDefinition) : MatchKinds :=
  match field.matchType with
  | .ternary | .optional => { kinds with hasTernaryOrOptional := true }
  | .lpm => { kinds with lpmMatchName := some field.1 }
  | _ => kinds

/-- A sort compares every entry, unless there is only one. -/
def sortByPrefixLength (lpmMatchName : String) (entries : List Ir.TableEntry) : Option (List Ir.TableEntry) :=
  if entries.length < 2 then some entries
  else if entries.all fun entry => (getPrefixLength lpmMatchName entry).isSome then
    some (stableSort (fun entry1 entry2 =>
      (getPrefixLength lpmMatchName entry1).getD 0 > (getPrefixLength lpmMatchName entry2).getD 0) entries)
  else none

def sortedEntries (order : List MatchFieldDefinition) (entries : List Ir.TableEntry) : Option (List Ir.TableEntry) :=
  let kinds := order.foldl MatchKinds.add {}
  if kinds.hasTernaryOrOptional then some (stableSort (fun entry1 entry2 => getPriority entry1 > getPriority entry2) entries)
  else
    match kinds.lpmMatchName with
    | some name => sortByPrefixLength name entries
    | none => some entries

section PriorityTypes
variable {field : MatchFieldDefinition} {order rest : List MatchFieldDefinition}

private theorem getTableEntryPriorityType_of_hasPriority (h : field.HasPriority) :
    getTableEntryPriorityType (field :: rest) = .positivePriority := by
  rcases h with h | h | h
  · rw [getTableEntryPriorityType,h]
  · rw [getTableEntryPriorityType,h]
  · rw [getTableEntryPriorityType,h]

theorem getTableEntryPriorityType_of_lpm (h : field.matchType = .lpm) :
    getTableEntryPriorityType (field :: rest) = .priorityZeroWithSingleLpm := by
  rw [getTableEntryPriorityType,h]

theorem getTableEntryPriorityType_of_other (hpriority : ¬ field.HasPriority) (hlpm : field.matchType ≠ .lpm) :
    getTableEntryPriorityType (field :: rest) = getTableEntryPriorityType rest := by
  rw [getTableEntryPriorityType]
  unfold MatchFieldDefinition.HasPriority at hpriority
  cases htype : field.matchType with
  | lpm => exact absurd htype hlpm
  | unspecified => rfl
  | exact => rfl
  | range => exact absurd (.inl htype) hpriority
  | ternary => exact absurd (.inr (.inl htype)) hpriority
  | optional => exact absurd (.inr (.inr htype)) hpriority

theorem LpmVisitedFirst.type_eq (h : LpmVisitedFirst order) : getTableEntryPriorityType order = .priorityZeroWithSingleLpm := by
  obtain ⟨before,lpm,after,rfl,hlpm,hbefore,-⟩ := h
  induction before with
  | nil => exact getTableEntryPriorityType_of_lpm hlpm
  | cons field before ih =>
    by_cases hfield : field.matchType = .lpm
    · exact getTableEntryPriorityType_of_lpm hfield
    · rw [List.cons_append,getTableEntryPriorityType_of_other (hbefore field List.mem_cons_self) hfield]
      exact ih fun g hg => hbefore g (List.mem_cons_of_mem _ hg)

theorem LpmVisitedFirst.cons (hfield : ¬ field.HasPriority) (h : LpmVisitedFirst rest) : LpmVisitedFirst (field :: rest) := by
  obtain ⟨before,lpm,after,rfl,hlpm,hbefore,hafter⟩ := h
  exact ⟨field :: before,lpm,after,rfl,hlpm,List.forall_mem_cons.mpr ⟨hfield,hbefore⟩,hafter⟩

private theorem type_eq_positive (hfirst : ¬ LpmVisitedFirst order) (h : ∃ field ∈ order,field.HasPriority) :
    getTableEntryPriorityType order = .positivePriority := by
  induction order with
  | nil => simp at h
  | cons field rest ih =>
    by_cases hfield : field.HasPriority
    · exact getTableEntryPriorityType_of_hasPriority hfield
    · have hrest : ∃ g ∈ rest,g.HasPriority := by
        obtain ⟨g,hg,hpriority⟩ := h
        rcases List.mem_cons.mp hg with rfl | hg
        · exact absurd hpriority hfield
        · exact ⟨g,hg,hpriority⟩
      have hlpm : field.matchType ≠ .lpm := fun hlpm => hfirst ⟨[],field,rest,rfl,hlpm,by simp,hrest⟩
      rw [getTableEntryPriorityType_of_other hfield hlpm]
      exact ih (fun hlater => hfirst (hlater.cons hfield)) hrest

private theorem type_eq_lpm (h : ∀ field ∈ order,¬ field.HasPriority) (hlpm : ∃ field ∈ order,field.matchType = .lpm) :
    getTableEntryPriorityType order = .priorityZeroWithSingleLpm := by
  induction order with
  | nil => simp at hlpm
  | cons field rest ih =>
    by_cases hfield : field.matchType = .lpm
    · exact getTableEntryPriorityType_of_lpm hfield
    · rw [getTableEntryPriorityType_of_other (h field List.mem_cons_self) hfield]
      apply ih fun g hg => h g (List.mem_cons_of_mem _ hg)
      obtain ⟨g,hg,hlpm⟩ := hlpm
      rcases List.mem_cons.mp hg with rfl | hg
      · exact absurd hlpm hfield
      · exact ⟨g,hg,hlpm⟩

private theorem type_eq_zero (h : ∀ field ∈ order,¬ field.HasPriority ∧ field.matchType ≠ .lpm) :
    getTableEntryPriorityType order = .priorityZero := by
  induction order with
  | nil => rfl
  | cons field rest ih =>
    obtain ⟨hpriority,hlpm⟩ := h field List.mem_cons_self
    rw [getTableEntryPriorityType_of_other hpriority hlpm]
    exact ih fun g hg => h g (List.mem_cons_of_mem _ hg)

end PriorityTypes

section Orders
variable {order : List MatchFieldDefinition}

/-- The length that the entry is ordered by. -/
def prefixLength (lpmMatchName : String) (entry : Ir.TableEntry) : Int := ((getPrefixLength lpmMatchName entry).getD 0).toInt

/-- What a type of priority says about the order of entries. -/
def Describes (fields : List MatchFieldDefinition) (sorted : List Ir.TableEntry → Option (List Ir.TableEntry)) :
    TableEntryPriorityType → Prop
  | .positivePriority => ∀ entries,∃ result,sorted entries = some result ∧
      StablyOrdered (fun entry => (getPriority entry).toInt) entries result
  | .priorityZeroWithSingleLpm => ∃ field ∈ fields,field.matchType = .lpm ∧
      ∀ entries,(∀ entry ∈ entries,(getMatches entry).isSome) →
        ∃ result,sorted entries = some result ∧ StablyOrdered (prefixLength field.1) entries result
  | .priorityZero => ∀ entries,sorted entries = some entries

theorem stablyOrdered_by_int32 (key : Ir.TableEntry → Int32) (entries : List Ir.TableEntry) :
    StablyOrdered (fun entry => (key entry).toInt) entries (stableSort (fun a b => key a > key b) entries) := by
  have hcomp : (fun a b : Ir.TableEntry => decide (key a > key b)) = fun a b => decide ((key a).toInt > (key b).toInt) := by
    funext a b
    exact decide_eq_decide.mpr Int32.lt_iff_toInt_lt
  rw [hcomp]
  exact stablyOrdered_stableSort _ entries

theorem sortByPrefixLength_spec (lpmMatchName : String) {entries : List Ir.TableEntry}
    (h : ∀ entry ∈ entries,(getMatches entry).isSome) :
    ∃ result,sortByPrefixLength lpmMatchName entries = some result ∧ StablyOrdered (prefixLength lpmMatchName) entries result := by
  unfold sortByPrefixLength
  by_cases hshort : entries.length < 2
  · rw [if_pos hshort]
    refine ⟨entries,rfl,.refl _,?_,fun _ => rfl⟩
    match entries with
    | [] => exact .nil
    | [entry] => exact List.pairwise_singleton _ _
    | _ :: _ :: _ =>
      simp only [List.length_cons] at hshort
      omega
  · have hmatches : (entries.all fun entry => (getPrefixLength lpmMatchName entry).isSome) = true := by
      rw [List.all_eq_true]
      intro entry hentry
      rw [getPrefixLength,Option.isSome_map]
      exact h entry hentry
    rw [if_neg hshort,if_pos hmatches]
    exact ⟨_,rfl,stablyOrdered_by_int32 _ entries⟩

theorem hasTernaryOrOptional_foldl (kinds : MatchKinds) :
    (order.foldl MatchKinds.add kinds).hasTernaryOrOptional = true ↔
      kinds.hasTernaryOrOptional = true ∨ ∃ field ∈ order,field.matchType = .ternary ∨ field.matchType = .optional := by
  induction order generalizing kinds with
  | nil => simp
  | cons field rest ih =>
    rw [List.foldl_cons,ih,List.exists_mem_cons_iff,← or_assoc]
    refine or_congr_left ?_
    unfold MatchKinds.add
    cases field.matchType <;> simp

private theorem lpmMatchName_foldl (order : List MatchFieldDefinition) (kinds : MatchKinds) :
    (order.foldl MatchKinds.add kinds).lpmMatchName = kinds.lpmMatchName ∧ (∀ field ∈ order,field.matchType ≠ .lpm) ∨
      ∃ field ∈ order,field.matchType = .lpm ∧ (order.foldl MatchKinds.add kinds).lpmMatchName = some field.1 := by
  induction order generalizing kinds with
  | nil => simp
  | cons field rest ih =>
    rw [List.foldl_cons]
    rcases ih (kinds.add field) with ⟨hname,hrest⟩ | ⟨g,hg,hlpm,hname⟩
    · by_cases hfield : field.matchType = .lpm
      · refine .inr ⟨field,List.mem_cons_self,hfield,?_⟩
        rw [hname,MatchKinds.add,hfield]
      · refine .inl ⟨?_,List.forall_mem_cons.mpr ⟨hfield,hrest⟩⟩
        rw [hname,MatchKinds.add]
        cases htype : field.matchType <;> first | rfl | exact absurd htype hfield
    · exact .inr ⟨g,List.mem_cons_of_mem _ hg,hlpm,hname⟩

theorem sortedEntries_of_ternaryOrOptional (h : ∃ field ∈ order,field.matchType = .ternary ∨ field.matchType = .optional)
    (entries : List Ir.TableEntry) :
    sortedEntries order entries = some (stableSort (fun entry1 entry2 => getPriority entry1 > getPriority entry2) entries) := by
  rw [sortedEntries,if_pos ((hasTernaryOrOptional_foldl _).mpr (.inr h))]

theorem sortedEntries_of_none (h : ∀ field ∈ order,¬ (field.matchType = .ternary ∨ field.matchType = .optional)) :
    (∀ field ∈ order,field.matchType ≠ .lpm) ∧ (∀ entries,sortedEntries order entries = some entries) ∨
      ∃ field ∈ order,field.matchType = .lpm ∧ ∀ entries,sortedEntries order entries = sortByPrefixLength field.1 entries := by
  have hnone : ¬ (order.foldl MatchKinds.add {}).hasTernaryOrOptional = true := by
    rw [hasTernaryOrOptional_foldl]
    rintro (hfalse | ⟨field,hfield,htype⟩)
    · exact Bool.noConfusion hfalse
    · exact h field hfield htype
  rcases lpmMatchName_foldl order {} with ⟨hname,hlpm⟩ | ⟨field,hfield,hlpm,hname⟩
  · refine .inl ⟨hlpm,fun entries => ?_⟩
    rw [sortedEntries,if_neg hnone,hname]
  · refine .inr ⟨field,hfield,hlpm,fun entries => ?_⟩
    rw [sortedEntries,if_neg hnone,hname]

/-- Two entries without matches, the second one with the higher priority. -/
def risingPriorities : List Ir.TableEntry :=
  [.symbolicEntry { tableName := "",priority := 1 },.symbolicEntry { tableName := "",priority := 2 }]

private theorem sortedEntries_risingPriorities (h : ∀ field ∈ order,¬ (field.matchType = .ternary ∨ field.matchType = .optional)) :
    sortedEntries order risingPriorities = some risingPriorities := by
  rcases sortedEntries_of_none h with ⟨-,hsorted⟩ | ⟨field,-,-,hsorted⟩
  · exact hsorted _
  · obtain ⟨result,hresult,hordered⟩ := sortByPrefixLength_spec field.1 (show ∀ entry ∈ risingPriorities,
    (getMatches entry).isSome by decide)
    have hconst : ∀ entry ∈ risingPriorities,prefixLength field.1 entry = 0 := by
      intro entry hentry
      rcases List.mem_pair.mp hentry with rfl | rfl
      · rfl
      · rfl
    rw [hsorted,hresult,hordered.eq_of_const hconst]

private theorem sortByPrefixLength_ordered {lpmMatchName : String} {entries sorted : List Ir.TableEntry}
    (h : sortByPrefixLength lpmMatchName entries = some sorted) : StablyOrdered (prefixLength lpmMatchName) entries sorted := by
  unfold sortByPrefixLength at h
  split_ifs at h with hshort hall
  · cases h
    refine ⟨.refl _,?_,fun _ => rfl⟩
    match entries with
    | [] => exact .nil
    | [entry] => exact List.pairwise_singleton _ _
    | _ :: _ :: _ =>
      simp only [List.length_cons] at hshort
      omega
  · cases h
    exact stablyOrdered_by_int32 _ entries

/-- Of the entries that are matched, the one with the highest priority wins, or else that with the longest prefix; of several, and in a
table that has neither, the first. -/
def Wins (fields : List MatchFieldDefinition) (Matched : Ir.TableEntry → Prop) (entries : List Ir.TableEntry) (entry : Ir.TableEntry) :
    Prop :=
  (∃ field ∈ fields,field.matchType = .ternary ∨ field.matchType = .optional) ∧
      IsFirstBy (fun entry => (getPriority entry).toInt) Matched entries entry ∨
    (∀ field ∈ fields,¬ (field.matchType = .ternary ∨ field.matchType = .optional)) ∧
      ((∀ field ∈ fields,field.matchType ≠ .lpm) ∧ IsFirst Matched entries entry ∨
        ∃ field ∈ fields,field.matchType = .lpm ∧ IsFirstBy (prefixLength field.1) Matched entries entry)

theorem sortedEntries_spec {entries sorted : List Ir.TableEntry} (h : sortedEntries order entries = some sorted) :
    sorted.Perm entries ∧ ∀ Matched entry,IsFirst Matched sorted entry → Wins order Matched entries entry := by
  by_cases hfields : ∃ field ∈ order,field.matchType = .ternary ∨ field.matchType = .optional
  · rw [sortedEntries_of_ternaryOrOptional hfields] at h
    cases h
    have hordered := stablyOrdered_by_int32 getPriority entries
    exact ⟨hordered.perm,fun _ _ hfirst => .inl ⟨hfields,hordered.first hfirst⟩⟩
  · have hnone : ∀ field ∈ order,¬ (field.matchType = .ternary ∨ field.matchType = .optional) :=
      fun field hfield htype => hfields ⟨field,hfield,htype⟩
    rcases sortedEntries_of_none hnone with ⟨hlpm,hsorted⟩ | ⟨field,hfield,hlpm,hsorted⟩
    · rw [hsorted] at h
      cases h
      exact ⟨.refl _,fun _ _ hfirst => .inr ⟨hnone,.inl ⟨hlpm,hfirst⟩⟩⟩
    · rw [hsorted] at h
      have hordered := sortByPrefixLength_ordered h
      exact ⟨hordered.perm,fun _ _ hfirst => .inr ⟨hnone,.inr ⟨field,hfield,hlpm,hordered.first hfirst⟩⟩⟩

end Orders

section Agreement
variable {table : Table} {order order' : List MatchFieldDefinition}

/-- The type says which fields the table has, and how its entries are ordered. -/
structure PrioritiesAgree (table : Table) (order order' : List MatchFieldDefinition) : Prop where
  positive : getTableEntryPriorityType order = .positivePriority ↔
    ∃ field ∈ table.tableDefinition.matchFieldsByName,MatchFieldDefinition.HasPriority field
  lpm : getTableEntryPriorityType order = .priorityZeroWithSingleLpm ↔
    (∀ field ∈ table.tableDefinition.matchFieldsByName,¬ MatchFieldDefinition.HasPriority field) ∧
      ∃ field ∈ table.tableDefinition.matchFieldsByName,MatchFieldDefinition.matchType field = .lpm
  zero : getTableEntryPriorityType order = .priorityZero ↔
    ∀ field ∈ table.tableDefinition.matchFieldsByName,
      ¬ MatchFieldDefinition.HasPriority field ∧ MatchFieldDefinition.matchType field ≠ .lpm
  described : Describes table.tableDefinition.matchFieldsByName (sortedEntries order') (getTableEntryPriorityType order)

/-- A field for ranges is not the only kind of field that has a priority. -/
def RangeAccompanied (fields : List MatchFieldDefinition) : Prop :=
  (∃ field ∈ fields,field.matchType = .range) → ∃ field ∈ fields,field.matchType = .ternary ∨ field.matchType = .optional

private theorem hasPriority_iff {field : MatchFieldDefinition} :
    field.HasPriority ↔ field.matchType = .range ∨ field.matchType = .ternary ∨ field.matchType = .optional := Iff.rfl

theorem type_of_not_lpmVisitedFirst (h : ¬ LpmVisitedFirst order) :
    (getTableEntryPriorityType order = .positivePriority ∧ ∃ field ∈ order,field.HasPriority) ∨
    (getTableEntryPriorityType order = .priorityZeroWithSingleLpm ∧ (∀ field ∈ order,¬ field.HasPriority) ∧
      ∃ field ∈ order,field.matchType = .lpm) ∨
    (getTableEntryPriorityType order = .priorityZero ∧ ∀ field ∈ order,¬ field.HasPriority ∧ field.matchType ≠ .lpm) := by
  by_cases hpriority : ∃ field ∈ order,field.HasPriority
  · exact .inl ⟨type_eq_positive h hpriority,hpriority⟩
  · simp only [not_exists,not_and] at hpriority
    by_cases hlpm : ∃ field ∈ order,field.matchType = .lpm
    · exact .inr (.inl ⟨type_eq_lpm hpriority hlpm,hpriority,hlpm⟩)
    · simp only [not_exists,not_and] at hlpm
      have hnone : ∀ field ∈ order,¬ field.HasPriority ∧ field.matchType ≠ .lpm := fun field hfield =>
        ⟨hpriority field hfield,hlpm field hfield⟩
      exact .inr (.inr ⟨type_eq_zero hnone,hnone⟩)

theorem PrioritiesAgree.of_fields (hmem : ∀ field,field ∈ order ↔ field ∈ table.tableDefinition.matchFieldsByName)
    (hfirst : ¬ LpmVisitedFirst order)
    (hdescribed : Describes table.tableDefinition.matchFieldsByName (sortedEntries order') (getTableEntryPriorityType order)) :
    PrioritiesAgree table order order' := by
  rcases type_of_not_lpmVisitedFirst hfirst with ⟨htype,field,hfield,hpriority⟩ | ⟨htype,hnone,field,hfield,hlpm⟩ | ⟨htype,hnone⟩
  · have hsome := (hmem field).mp hfield
    refine ⟨?_,?_,?_,hdescribed⟩
    · exact iff_of_true htype ⟨field,hsome,hpriority⟩
    · exact iff_of_false (by rw [htype]; decide) fun h => h.1 field hsome hpriority
    · exact iff_of_false (by rw [htype]; decide) fun h => (h field hsome).1 hpriority
  · have hsome := (hmem field).mp hfield
    have hall : ∀ g ∈ table.tableDefinition.matchFieldsByName,¬ MatchFieldDefinition.HasPriority g := fun g hg =>
      hnone g ((hmem g).mpr hg)
    refine ⟨?_,?_,?_,hdescribed⟩
    · exact iff_of_false (by rw [htype]; decide) fun ⟨g,hg,hpriority⟩ => hall g hg hpriority
    · exact iff_of_true htype ⟨hall,field,hsome,hlpm⟩
    · exact iff_of_false (by rw [htype]; decide) fun h => (h field hsome).2 hlpm
  · have hall : ∀ g ∈ table.tableDefinition.matchFieldsByName,
        ¬ MatchFieldDefinition.HasPriority g ∧ MatchFieldDefinition.matchType g ≠ .lpm := fun g hg => hnone g ((hmem g).mpr hg)
    refine ⟨?_,?_,?_,hdescribed⟩
    · exact iff_of_false (by rw [htype]; decide) fun ⟨g,hg,hpriority⟩ => (hall g hg).1 hpriority
    · exact iff_of_false (by rw [htype]; decide) fun ⟨_,g,hg,hlpm⟩ => (hall g hg).2 hlpm
    · exact iff_of_true htype hall

private theorem describes_of_accompanied (hmem : ∀ field,field ∈ order ↔ field ∈ table.tableDefinition.matchFieldsByName)
    (hmem' : ∀ field,field ∈ order' ↔ field ∈ table.tableDefinition.matchFieldsByName) (hfirst : ¬ LpmVisitedFirst order)
    (hrange : RangeAccompanied table.tableDefinition.matchFieldsByName) :
    Describes table.tableDefinition.matchFieldsByName (sortedEntries order') (getTableEntryPriorityType order) := by
  have hsome : (∃ field ∈ order,field.HasPriority) → ∃ field ∈ order',field.matchType = .ternary ∨ field.matchType = .optional := by
    rintro ⟨field,hfield,hpriority⟩
    rcases hasPriority_iff.mp hpriority with htype | htype
    · obtain ⟨g,hg,htype⟩ := hrange ⟨field,(hmem field).mp hfield,htype⟩
      exact ⟨g,(hmem' g).mpr hg,htype⟩
    · exact ⟨field,(hmem' field).mpr ((hmem field).mp hfield),htype⟩
  have hnone : (∀ field ∈ order,¬ field.HasPriority) →
      ∀ field ∈ order',¬ (field.matchType = .ternary ∨ field.matchType = .optional) := fun h field hfield htype =>
    h field ((hmem field).mpr ((hmem' field).mp hfield)) (.inr htype)
  rcases type_of_not_lpmVisitedFirst hfirst with ⟨htype,hpriority⟩ | ⟨htype,hall,field,hfield,hlpm⟩ | ⟨htype,hall⟩
  · rw [htype]
    intro entries
    exact ⟨_,sortedEntries_of_ternaryOrOptional (hsome hpriority) entries,stablyOrdered_by_int32 _ entries⟩
  · rw [htype]
    rcases sortedEntries_of_none (hnone hall) with ⟨hexact,-⟩ | ⟨g,hg,hlpm,hsorted⟩
    · exact absurd hlpm (hexact field ((hmem' field).mpr ((hmem field).mp hfield)))
    · refine ⟨g,(hmem' g).mp hg,hlpm,fun entries hentries => ?_⟩
      rw [hsorted]
      exact sortByPrefixLength_spec _ hentries
  · rw [htype]
    rcases sortedEntries_of_none (hnone fun field hfield => (hall field hfield).1) with ⟨-,hsorted⟩ | ⟨g,hg,hlpm,-⟩
    · exact hsorted
    · exact absurd hlpm (hall g ((hmem g).mpr ((hmem' g).mp hg))).2

theorem PrioritiesAgree.rangeAccompanied (h : PrioritiesAgree table order order')
    (hmem' : ∀ field,field ∈ order' ↔ field ∈ table.tableDefinition.matchFieldsByName) :
    RangeAccompanied table.tableDefinition.matchFieldsByName := by
  rintro ⟨field,hfield,hrange⟩
  by_contra hnone
  simp only [not_exists,not_and] at hnone
  have hdescribed := h.described
  rw [h.positive.mpr ⟨field,hfield,.inl hrange⟩] at hdescribed
  obtain ⟨result,hresult,hordered⟩ := hdescribed risingPriorities
  rw [sortedEntries_risingPriorities fun g hg => hnone g ((hmem' g).mp hg)] at hresult
  have hdescending := hordered.descending
  rw [← Option.some.inj hresult] at hdescending
  exact absurd (List.pairwise_cons.mp hdescending).1 (by decide)

/-- The two notions agree unless a field for prefixes is visited before the first one that has a
priority, or fields for ranges are the only ones that have. -/
theorem prioritiesAgree_iff (horder : order.Perm table.tableDefinition.matchFieldsByName)
    (horder' : order'.Perm table.tableDefinition.matchFieldsByName) :
    PrioritiesAgree table order order' ↔
      ¬ LpmVisitedFirst order ∧ RangeAccompanied table.tableDefinition.matchFieldsByName := by
  constructor
  · intro h
    refine ⟨fun hfirst => ?_,h.rangeAccompanied fun field => horder'.mem_iff⟩
    have hnone := (h.lpm.mp hfirst.type_eq).1
    obtain ⟨before,lpm,after,rfl,-,-,field,hfield,hpriority⟩ := hfirst
    exact hnone field (horder.mem_iff.mp (List.mem_append_right _ (List.mem_cons_of_mem _ hfield))) hpriority
  · rintro ⟨hfirst,hrange⟩
    exact .of_fields (fun field => horder.mem_iff) hfirst
      (describes_of_accompanied (fun field => horder.mem_iff) (fun field => horder'.mem_iff) hfirst hrange)

end Agreement

def sampleField (name : String) (matchType : MatchType) : MatchFieldDefinition :=
  (name,{ matchField := { id := 1,name := name,bitwidth := 32,matchType := matchType } })

def sampleTable (fields : List MatchFieldDefinition) : Table :=
  { tableDefinition := { preamble := { id := 1,name := "ingress.t",aliasName := "t" },matchFieldsByName := fields } }

/-- An exact field, one for prefixes and a ternary one, which is visited before that for prefixes. -/
theorem ternary_before_lpm :
    PrioritiesAgree (sampleTable [sampleField "e" .exact,sampleField "p" .lpm,sampleField "t" .ternary])
      [sampleField "t" .ternary,sampleField "e" .exact,sampleField "p" .lpm]
      [sampleField "p" .lpm,sampleField "t" .ternary,sampleField "e" .exact] := by
  apply (prioritiesAgree_iff (by decide) (by decide)).mpr
  refine ⟨fun hfirst => ?_,fun _ => ⟨sampleField "t" .ternary,by decide,.inl rfl⟩⟩
  exact absurd hfirst.type_eq (by decide)

/-- With the field for prefixes first, the entries are said to have no priorities. -/
theorem lpm_before_ternary :
    ¬ PrioritiesAgree (sampleTable [sampleField "p" .lpm,sampleField "t" .ternary])
      [sampleField "p" .lpm,sampleField "t" .ternary] [sampleField "p" .lpm,sampleField "t" .ternary] := fun h =>
  absurd (h.positive.mpr ⟨sampleField "t" .ternary,by decide,.inr (.inl rfl)⟩) (by decide)

end SonicPins.P4Symbolic
