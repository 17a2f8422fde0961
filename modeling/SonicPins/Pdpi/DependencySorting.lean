import SonicPins.Lib.StableSort
import SonicPins.Pdpi.DependencyRanks

/-! Sorting updates and entities by the dependency ranks of their tables. -/
namespace SonicPins.Pdpi
open Lib References

def entityToTableName (info : IrP4Info) : Entity → StatusOr String
  | .tableEntry e =>
    (findPtrOrStatus info.tablesById e.tableId).map fun table => table.preamble.aliasName
  | .packetReplicationEngineEntry (.multicastGroupEntry _) => .ok getMulticastGroupTableName
  | .packetReplicationEngineEntry (.cloneSessionEntry _) => .ok getCloneSessionTableName
  | .packetReplicationEngineEntry .notSet => .error (invalidArgument ("Expected a `multicast_group_entry` or " ++
      "`clone_session_entry`, but got unexpected packet_replication_engine_entry: "))
  | _ => .error (invalidArgument "Expected a `table_entry` or `packet_replication_engine_entry`, but got unexpected entity:")

/-- The first entity's table comes before the second's in the dependency order. -/
def greaterThanInDependencyOrder (info : IrP4Info) (first second : Entity) : StatusOr Bool := do
  let firstTable ← entityToTableName info first
  let secondTable ← entityToTableName info second
  let firstOrder ← findPtrOrStatus info.dependencyRankByTableName firstTable
  let secondOrder ← findPtrOrStatus info.dependencyRankByTableName secondTable
  .ok (decide (secondOrder < firstOrder))

/-- The comparator that `StableSortEntities` passes to the sort. -/
def entityComesBefore (info : IrP4Info) (a b : Entity) : Bool :=
  match greaterThanInDependencyOrder info a b with
  | .error _ => false -- the error is only logged
  | .ok bMayDependOnA => bMayDependOnA

/-- The comparator that `StableSortUpdates` passes to the sort. -/
def updateComesBefore (info : IrP4Info) (reverseOrdering : Bool) (a b : Update) : Bool :=
  match greaterThanInDependencyOrder info a.entity b.entity with
  | .error _ => false
  | .ok bMayDependOnA => if reverseOrdering then !bMayDependOnA else bMayDependOnA

def stableSortEntities (info : IrP4Info) (entities : List Entity) : Status × List Entity :=
  (Status.okStatus,stableSort (entityComesBefore info) entities)

def stableSortUpdates (info : IrP4Info) (updates : List Update) (reverseOrdering : Bool) : Status × List Update :=
  (Status.okStatus,stableSort (updateComesBefore info reverseOrdering) updates)

section Purpose

def entityRank (info : IrP4Info) (entity : Entity) : StatusOr Int := do
  let table ← entityToTableName info entity
  findPtrOrStatus info.dependencyRankByTableName table

def HasKnownTable (info : IrP4Info) (entity : Entity) : Prop := ∃ rank,entityRank info entity = .ok rank

/-- The ranks allow the first entity to refer to the second. -/
def MayDependOn (info : IrP4Info) (a b : Entity) : Prop :=
  ∃ low high,entityRank info a = .ok low ∧ entityRank info b = .ok high ∧ low < high

variable {α : Type}

/-- A rearrangement in which no element comes before one it may depend on (after one, in
reverse), and elements of equal rank keep their order. -/
structure SortedByDependency (info : IrP4Info) (entity : α → Entity) (reverse : Bool) (l sorted : List α) : Prop where
  perm : sorted.Perm l
  ordered : sorted.Pairwise fun a b =>
    if reverse then ¬ MayDependOn info (entity b) (entity a) else ¬ MayDependOn info (entity a) (entity b)
  stable : ∀ rank,sorted.filter (fun a => entityRank info (entity a) = .ok rank) =
    l.filter fun a => entityRank info (entity a) = .ok rank

/-- What a sort of elements with entities is for, with the comparator it uses and its outcome. -/
structure SortsByDependency (info : IrP4Info) (entity : α → Entity) (reverse : Bool) (comp : α → α → Bool) (l : List α)
    (outcome : Status × List α) : Prop where
  known : (∀ a ∈ l,HasKnownTable info (entity a)) → StrictWeakOrderOn comp l ∧ outcome.1.isOk = true ∧
    SortedByDependency info entity reverse l outcome.2
  unknown : (∃ a ∈ l,¬ HasKnownTable info (entity a)) → outcome.1.isOk = false

end Purpose

section Ranks
variable {info : IrP4Info}

theorem greaterThanInDependencyOrder_eq_ok {a b : Entity} {ra rb : Int} (ha : entityRank info a = .ok ra)
    (hb : entityRank info b = .ok rb) : greaterThanInDependencyOrder info a b = .ok (decide (rb < ra)) := by
  obtain ⟨tableA,htableA,hrankA⟩ := bind_eq_ok.mp ha
  obtain ⟨tableB,htableB,hrankB⟩ := bind_eq_ok.mp hb
  refine bind_eq_ok.mpr ⟨tableA,htableA,bind_eq_ok.mpr ⟨tableB,htableB,?_⟩⟩
  exact bind_eq_ok.mpr ⟨ra,hrankA,bind_eq_ok.mpr ⟨rb,hrankB,rfl⟩⟩

/-- The key that the sorts go by: the highest ranks come first. -/
def sortKey (info : IrP4Info) (entity : Entity) : Int := -((entityRank info entity).toOption.getD 0)

theorem sortKey_eq {entity : Entity} {rank : Int} (h : entityRank info entity = .ok rank) : sortKey info entity = -rank := by
  rw [sortKey,h]
  rfl

private theorem mayDependOn_iff {a b : Entity} {ra rb : Int} (ha : entityRank info a = .ok ra) (hb : entityRank info b = .ok rb) :
    MayDependOn info a b ↔ ra < rb := by
  constructor
  · rintro ⟨low,high,hlow,hhigh,hlt⟩
    cases ha.symm.trans hlow
    cases hb.symm.trans hhigh
    exact hlt
  · intro hlt
    exact ⟨ra,rb,ha,hb,hlt⟩

variable {α : Type} {entity : α → Entity} {comp : α → α → Bool} {l : List α}

/-- A comparator that answers as the code's does when nothing fails. -/
def AnswersByRank (info : IrP4Info) (entity : α → Entity) (comp : α → α → Bool) : Prop :=
  ∀ a b ra rb,entityRank info (entity a) = .ok ra → entityRank info (entity b) = .ok rb → comp a b = decide (rb < ra)

theorem AnswersByRank.comparesBy (h : AnswersByRank info entity comp) (hknown : ∀ a ∈ l,HasKnownTable info (entity a)) :
    ComparesBy (fun a => sortKey info (entity a)) comp l := by
  intro a ha b hb
  obtain ⟨ra,hra⟩ := hknown a ha
  obtain ⟨rb,hrb⟩ := hknown b hb
  change comp a b = decide (sortKey info (entity a) < sortKey info (entity b))
  rw [h a b ra rb hra hrb,sortKey_eq hra,sortKey_eq hrb]
  simp

theorem AnswersByRank.sorted (h : AnswersByRank info entity comp) (hknown : ∀ a ∈ l,HasKnownTable info (entity a)) :
    SortedByDependency info entity false l (stableSort comp l) where
  perm := stableSort_perm comp l
  ordered := by
    have hmem {a : α} (ha : a ∈ stableSort comp l) : a ∈ l := (stableSort_perm comp l).mem_iff.mp ha
    refine (h.comparesBy hknown).pairwise.imp_of_mem fun {a b} ha hb hle => ?_
    obtain ⟨ra,hra⟩ := hknown a (hmem ha)
    obtain ⟨rb,hrb⟩ := hknown b (hmem hb)
    rw [sortKey_eq hra,sortKey_eq hrb] at hle
    simp only [mayDependOn_iff hra hrb]
    simpa using hle
  stable rank := by
    have hkey (l' : List α) (hl' : ∀ a ∈ l',a ∈ l) : (l'.filter fun a => entityRank info (entity a) = .ok rank) =
        l'.filter fun a => sortKey info (entity a) = -rank := by
      refine List.filter_congr fun a ha => ?_
      obtain ⟨ra,hra⟩ := hknown a (hl' a ha)
      rw [sortKey_eq hra,hra]
      simp
    rw [hkey _ fun a ha => (stableSort_perm comp l).mem_iff.mp ha,hkey l fun a ha => ha]
    exact (h.comparesBy hknown).stable (-rank)

theorem entityComesBefore_answers : AnswersByRank info id (entityComesBefore info) := by
  intro a b ra rb ha hb
  change entityRank info a = .ok ra at ha
  change entityRank info b = .ok rb at hb
  rw [entityComesBefore,greaterThanInDependencyOrder_eq_ok ha hb]

private theorem updateComesBefore_answers : AnswersByRank info Update.entity (updateComesBefore info false) := by
  intro a b ra rb ha hb
  rw [updateComesBefore,greaterThanInDependencyOrder_eq_ok ha hb]
  simp

private theorem updateComesBefore_self {u : Update} (h : HasKnownTable info u.entity) : updateComesBefore info true u u = true := by
  obtain ⟨rank,hrank⟩ := h
  rw [updateComesBefore,greaterThanInDependencyOrder_eq_ok hrank hrank]
  simp

end Ranks

variable {info : IrP4Info}

theorem sortsByDependency_iff_of_answers {α : Type} {entity : α → Entity} {comp : α → α → Bool}
    (h : AnswersByRank info entity comp) (l : List α) :
    SortsByDependency info entity false comp l (Status.okStatus,stableSort comp l) ↔ ∀ a ∈ l,HasKnownTable info (entity a) := by
  constructor
  · intro hsorts a ha
    by_contra hunknown
    exact absurd (hsorts.unknown ⟨a,ha,hunknown⟩) (by simp)
  · intro hknown
    refine ⟨fun _ => ⟨(h.comparesBy hknown).strictWeakOrderOn,rfl,h.sorted hknown⟩,?_⟩
    rintro ⟨a,ha,hunknown⟩
    exact absurd (hknown a ha) hunknown

theorem stableSortUpdates_reverse_iff (updates : List Update) :
    SortsByDependency info Update.entity true (updateComesBefore info true) updates (stableSortUpdates info updates true) ↔
      updates = [] := by
  constructor
  · intro hsorts
    cases updates with
    | nil => rfl
    | cons u us =>
      by_cases hknown : ∀ v ∈ u :: us,HasKnownTable info v.entity
      · have hirrefl := (hsorts.known hknown).1.irrefl u List.mem_cons_self
        rw [updateComesBefore_self (hknown u List.mem_cons_self)] at hirrefl
        cases hirrefl
      · simp only [not_forall] at hknown
        obtain ⟨v,hv,hunknown⟩ := hknown
        exact absurd (hsorts.unknown ⟨v,hv,hunknown⟩) (by simp [stableSortUpdates])
  · rintro rfl
    refine ⟨fun _ => ⟨⟨by simp,by simp,by simp⟩,rfl,⟨stableSort_perm _ _,?_,?_⟩⟩,by simp⟩
    · simp [stableSortUpdates,stableSort]
    · simp [stableSortUpdates,stableSort]

/-- Sorting is right when all tables are known and the order is not reversed (or there is nothing
to sort), and only then. -/
theorem sorts_by_dependency_iff (info : IrP4Info) :
    (∀ entities,SortsByDependency info id false (entityComesBefore info) entities (stableSortEntities info entities) ↔
      ∀ e ∈ entities,HasKnownTable info e) ∧
    ∀ updates reverse,SortsByDependency info Update.entity reverse (updateComesBefore info reverse) updates
        (stableSortUpdates info updates reverse) ↔
      (∀ u ∈ updates,HasKnownTable info u.entity) ∧ (reverse = false ∨ updates = []) := by
  refine ⟨fun entities => sortsByDependency_iff_of_answers entityComesBefore_answers entities,fun updates reverse => ?_⟩
  cases reverse with
  | false =>
    rw [stableSortUpdates,sortsByDependency_iff_of_answers updateComesBefore_answers]
    simp
  | true =>
    rw [stableSortUpdates_reverse_iff]
    constructor
    · rintro rfl
      simp
    · rintro ⟨-,h | h⟩
      · cases h
      · exact h

/-- One update of a ranked table, in reverse order, and one of a table without a rank. -/
theorem reverse_order_not_strict :
    ¬ (∀ info updates reverse,SortsByDependency info Update.entity reverse (updateComesBefore info reverse) updates
      (stableSortUpdates info updates reverse)) ∧
    ¬ ∀ info entities,SortsByDependency info id false (entityComesBefore info) entities (stableSortEntities info entities) := by
  constructor
  · intro h
    have hreverse := h { dependencyRankByTableName := [("builtin::multicast_group_table",0)] }
      [⟨.delete,.packetReplicationEngineEntry (.multicastGroupEntry {})⟩] true
    exact absurd ((stableSortUpdates_reverse_iff _).mp hreverse) (by simp)
  · intro h
    have hunknown : ¬ HasKnownTable {} .notSet := by
      rintro ⟨rank,hrank⟩
      cases hrank
    exact hunknown ((sortsByDependency_iff_of_answers entityComesBefore_answers _).mp (h {} [.notSet]) .notSet (by simp))

end SonicPins.Pdpi
