import Mathlib.Data.Finset.Basic
import SonicPins.Pdpi.References

/-! Minimisation of the entities on a switch that a failure needs. -/
namespace SonicPins.Dvaas
open Lib Pdpi References

variable {asked : List Question} {groups : List (List IrEntity)}

section Algorithms
variable {σ : Type}

/-- A test that may change the switch: it removes the entities if the failure stays without them. -/
abbrev TestIfEntitiesCanBeRemoved (σ : Type) := List IrEntity → σ → Fallible Bool × σ

/-- `EntityToTableName` of an IR entity. -/
def irEntityToTableName : IrEntity → String
  | .tableEntry e => e.tableName
  | .packetReplicationEngineEntry (.multicastGroupEntry _) => getMulticastGroupTableName
  | .packetReplicationEngineEntry (.cloneSessionEntry _) => getCloneSessionTableName

def removeEach (test : TestIfEntitiesCanBeRemoved σ) : List IrEntity → σ → Fallible Unit × σ
  | [],s => (.ok (),s)
  | entity :: entities,s => match test [entity] s with
    | (.error e,s) => (.error e,s)
    | (.ok _,s) => removeEach test entities s

/-- The last entity first. -/
def removeEntitiesOneByOne (test : TestIfEntitiesCanBeRemoved σ) (entities : List IrEntity) (s : σ) : Fallible Unit × σ :=
  removeEach test entities.reverse s

/-- Entities that cannot be removed together are tried in halves, the second half first. -/
def tryToDeleteAndBisect (test : TestIfEntitiesCanBeRemoved σ) (entities : List IrEntity) (s : σ) : Fallible Unit × σ :=
  if entities.length = 0 then (.ok (),s)
  else match test entities s with
    | (.error e,s) => (.error e,s)
    | (.ok canBeRemoved,s) =>
      if canBeRemoved ∨ entities.length = 1 then (.ok (),s)
      else match tryToDeleteAndBisect test (entities.drop (entities.length / 2)) s with
        | (.error e,s) => (.error e,s)
        | (.ok _,s) => tryToDeleteAndBisect test (entities.take (entities.length / 2)) s
termination_by entities.length
decreasing_by
  · rw [List.length_drop]
    omega
  · rw [List.length_take]
    omega

theorem tryToDeleteAndBisect_settled {test : TestIfEntitiesCanBeRemoved σ} {entities : List IrEntity} {s s' : σ} {canBeRemoved : Bool}
    (hne : entities.length ≠ 0) (htest : test entities s = (.ok canBeRemoved,s')) (h : canBeRemoved = true ∨ entities.length = 1) :
    tryToDeleteAndBisect test entities s = (.ok (),s') := by
  rw [tryToDeleteAndBisect,if_neg hne,htest]
  exact if_pos h

private theorem tryToDeleteAndBisect_halves {test : TestIfEntitiesCanBeRemoved σ} {entities : List IrEntity} {s s₁ s₂ : σ}
    (hlong : 2 ≤ entities.length)
    (htest : test entities s = (.ok false,s₁))
    (hsecond : tryToDeleteAndBisect test (entities.drop (entities.length / 2)) s₁ = (.ok (),s₂)) :
    tryToDeleteAndBisect test entities s = tryToDeleteAndBisect test (entities.take (entities.length / 2)) s₂ := by
  have hunsettled : ¬ (false = true ∨ entities.length = 1) := by
    rintro (h | h)
    · cases h
    · omega
  rw [tryToDeleteAndBisect,if_neg (by omega),htest]
  change (if _ then _ else _) = _
  rw [if_neg hunsettled,hsecond]

def notGroupedError : Failure :=
  .status (invalidArgument "Expected `entities_to_minimize` to be sorted by table dependency rank.")

/-- The groups so far, the tables that were met, and the table of the last entity. -/
def groupByTable : List IrEntity → List (List IrEntity) → List String → String → Fallible (List (List IrEntity))
  | [],entitiesByTable,_,_ => .ok entitiesByTable
  | entity :: entities,entitiesByTable,seenTableNames,currentTableName =>
    let tableName := irEntityToTableName entity
    if tableName = currentTableName then
      match entitiesByTable.getLast? with
      -- The name is taken to be nonempty; an empty one is the current one from the start.
      | none => .error (.thrown "back() of an empty vector")
      | some group => groupByTable entities (entitiesByTable.dropLast ++ [group ++ [entity]]) seenTableNames currentTableName
    else if tableName ∈ seenTableNames then .error notGroupedError
    else groupByTable entities (entitiesByTable ++ [[entity]]) (seenTableNames ++ [tableName]) tableName

def bisectEach (test : TestIfEntitiesCanBeRemoved σ) : List (List IrEntity) → σ → Fallible Unit × σ
  | [],s => (.ok (),s)
  | entities :: groups,s => match tryToDeleteAndBisect test entities s with
    | (.error e,s) => (.error e,s)
    | (.ok _,s) => bisectEach test groups s

def tableBasedBisection (test : TestIfEntitiesCanBeRemoved σ) (entities : List IrEntity) (s : σ) : Fallible Unit × σ :=
  match groupByTable entities [] [] "" with
  | .error e => (.error e,s)
  | .ok entitiesByTable => bisectEach test entitiesByTable.reverse s

end Algorithms

section Trials

/-- One question: what was installed, what was asked about, and the answer. -/
structure Question where
  installed : Finset IrEntity
  entities : List IrEntity
  removed : Bool

structure Trial where
  installed : Finset IrEntity
  log : List Question := []

/-- The test that answers by what is installed, and removes what it says can be removed. -/
def answering (canBeRemoved : Finset IrEntity → Finset IrEntity → Bool) : TestIfEntitiesCanBeRemoved Trial := fun entities t =>
  let removed := canBeRemoved t.installed entities.toFinset
  (.ok removed,{
    installed := if removed then t.installed \ entities.toFinset else t.installed
    log := t.log ++ [⟨t.installed,entities,removed⟩] })

/-- More can be removed if less was asked about, or more is installed. -/
def IsMonotone (canBeRemoved : Finset IrEntity → Finset IrEntity → Bool) : Prop :=
  ∀ installed installed' entities entities',installed ⊆ installed' → entities' ⊆ entities →
    canBeRemoved installed entities = true → canBeRemoved installed' entities' = true

/-- From one trial to another, by questions about these entities that are still installed: each
that stays was refused alone, and none was asked about alone twice. -/
structure Minimizes (canBeRemoved : Finset IrEntity → Finset IrEntity → Bool) (entities : List IrEntity) (t t' : Trial)
    (asked : List Question) : Prop where
  log : t'.log = t.log ++ asked
  answered : ∀ q ∈ asked,q.removed = canBeRemoved q.installed q.entities.toFinset
  about : ∀ q ∈ asked,q.entities ≠ [] ∧ ∀ e ∈ q.entities,e ∈ entities ∧ e ∈ q.installed
  shrinks : t'.installed ⊆ t.installed
  shrunk : ∀ q ∈ asked,t'.installed ⊆ q.installed
  keeps : ∀ e ∈ t.installed,e ∉ entities → e ∈ t'.installed
  refused : ∀ e ∈ entities,e ∈ t'.installed → ∃ q ∈ asked,q.entities = [e] ∧ q.removed = false
  once : ∀ e,asked.countP (fun q => q.entities = [e]) ≤ 1

variable {canBeRemoved : Finset IrEntity → Finset IrEntity → Bool} {entities : List IrEntity} {t t' : Trial}

theorem minimizes_nil (t : Trial) : Minimizes canBeRemoved [] t t [] where
  log := (List.append_nil t.log).symm
  answered := by simp
  about := by simp
  shrinks := subset_rfl
  shrunk := by simp
  keeps := fun _ he _ => he
  refused := by simp
  once := by simp

theorem Minimizes.congr {entities' : List IrEntity} (h : Minimizes canBeRemoved entities t t' asked)
    (hmem : ∀ e,e ∈ entities ↔ e ∈ entities') : Minimizes canBeRemoved entities' t t' asked where
  log := h.log
  answered := h.answered
  about := fun q hq => ⟨(h.about q hq).1,fun e he => ⟨(hmem e).mp ((h.about q hq).2 e he).1,((h.about q hq).2 e he).2⟩⟩
  shrinks := h.shrinks
  shrunk := h.shrunk
  keeps := fun e he hnot => h.keeps e he fun hin => hnot ((hmem e).mp hin)
  refused := fun e he => h.refused e ((hmem e).mpr he)
  once := h.once

theorem Minimizes.append {before after : List IrEntity} {t'' : Trial} {asked' : List Question}
    (h : Minimizes canBeRemoved before t t' asked) (h' : Minimizes canBeRemoved after t' t'' asked')
    (hdisjoint : ∀ e ∈ before,e ∉ after) : Minimizes canBeRemoved (before ++ after) t t'' (asked ++ asked') where
  log := by rw [h'.log,h.log,List.append_assoc]
  answered := by
    intro q hq
    rcases List.mem_append.mp hq with hq | hq
    · exact h.answered q hq
    · exact h'.answered q hq
  about := by
    intro q hq
    rcases List.mem_append.mp hq with hq | hq
    · exact ⟨(h.about q hq).1,fun e he => ⟨List.mem_append_left _ ((h.about q hq).2 e he).1,((h.about q hq).2 e he).2⟩⟩
    · exact ⟨(h'.about q hq).1,fun e he => ⟨List.mem_append_right _ ((h'.about q hq).2 e he).1,((h'.about q hq).2 e he).2⟩⟩
  shrinks := h'.shrinks.trans h.shrinks
  shrunk := by
    intro q hq
    rcases List.mem_append.mp hq with hq | hq
    · exact h'.shrinks.trans (h.shrunk q hq)
    · exact h'.shrunk q hq
  keeps := by
    intro e he hnot
    obtain ⟨hbefore,hafter⟩ := not_or.mp (fun hor => hnot (List.mem_append.mpr hor))
    exact h'.keeps e (h.keeps e he hbefore) hafter
  refused := by
    intro e he hstays
    rcases List.mem_append.mp he with he | he
    · obtain ⟨q,hq,hsingle⟩ := h.refused e he (h'.shrinks hstays)
      exact ⟨q,List.mem_append_left _ hq,hsingle⟩
    · obtain ⟨q,hq,hsingle⟩ := h'.refused e he hstays
      exact ⟨q,List.mem_append_right _ hq,hsingle⟩
  once := by
    intro e
    rw [List.countP_append]
    have hnone : ∀ {part : List IrEntity} {s s' : Trial} {log : List Question},Minimizes canBeRemoved part s s' log → e ∉ part →
        log.countP (fun q => q.entities = [e]) = 0 := by
      intro part s s' log hpart he
      refine List.countP_eq_zero.mpr fun q hq hsingle => he ((hpart.about q hq).2 e ?_).1
      rw [of_decide_eq_true hsingle]
      exact List.mem_singleton_self e
    by_cases he : e ∈ before
    · rw [hnone h' (hdisjoint e he)]
      exact h.once e
    · rw [hnone h he,Nat.zero_add]
      exact h'.once e

theorem minimizes_asked (hne : entities ≠ []) (hinstalled : ∀ e ∈ entities,e ∈ t.installed)
    (hsettled : canBeRemoved t.installed entities.toFinset = true ∨ entities.length = 1) :
    Minimizes canBeRemoved entities t (answering canBeRemoved entities t).2
      [⟨t.installed,entities,canBeRemoved t.installed entities.toFinset⟩] := by
  have hshrinks : (answering canBeRemoved entities t).2.installed ⊆ t.installed := by
    rw [answering]
    split_ifs
    · exact Finset.sdiff_subset
    · exact subset_rfl
  refine ⟨rfl,?_,?_,hshrinks,?_,fun e he hnot => ?_,fun e he hstays => ?_,fun e => ?_⟩
  · rintro q hq
    rw [List.mem_singleton.mp hq]
  · rintro q hq
    rw [List.mem_singleton.mp hq]
    exact ⟨hne,fun e he => ⟨he,hinstalled e he⟩⟩
  · rintro q hq
    rw [List.mem_singleton.mp hq]
    exact hshrinks
  · rw [answering]
    split_ifs
    · exact Finset.mem_sdiff.mpr ⟨he,fun hmem => hnot (List.mem_toFinset.mp hmem)⟩
    · exact he
  · cases hremoved : canBeRemoved t.installed entities.toFinset with
    | true =>
      rw [answering,hremoved,if_pos rfl] at hstays
      exact absurd (List.mem_toFinset.mpr he) (Finset.mem_sdiff.mp hstays).2
    | false =>
      obtain ⟨x,rfl⟩ := List.length_eq_one_iff.mp (hsettled.resolve_left (by simp [hremoved]))
      exact ⟨_,List.mem_singleton_self _,by rw [List.mem_singleton.mp he],rfl⟩
  · exact List.countP_le_length

theorem Minimizes.afterRefusal (hlong : 2 ≤ entities.length) (hinstalled : ∀ e ∈ entities,e ∈ t.installed)
    (hrefused : canBeRemoved t.installed entities.toFinset = false)
    (h : Minimizes canBeRemoved entities (answering canBeRemoved entities t).2 t' asked) :
    Minimizes canBeRemoved entities t t' (⟨t.installed,entities,false⟩ :: asked) := by
  have hsame : (answering canBeRemoved entities t).2.installed = t.installed := by
    rw [answering,hrefused]
    rfl
  have hlog : (answering canBeRemoved entities t).2.log = t.log ++ [⟨t.installed,entities,false⟩] := by
    rw [answering,hrefused]
  refine ⟨?_,?_,?_,hsame ▸ h.shrinks,?_,hsame ▸ h.keeps,fun e he hstays => ?_,fun e => ?_⟩
  · rw [h.log,hlog,List.append_assoc,List.singleton_append]
  · exact List.forall_mem_cons.mpr ⟨hrefused.symm,h.answered⟩
  · refine List.forall_mem_cons.mpr ⟨⟨?_,fun e he => ⟨he,hinstalled e he⟩⟩,h.about⟩
    rintro rfl
    exact absurd hlong (by decide)
  · exact List.forall_mem_cons.mpr ⟨hsame ▸ h.shrinks,h.shrunk⟩
  · obtain ⟨q,hq,hsingle⟩ := h.refused e he hstays
    exact ⟨q,List.mem_cons_of_mem _ hq,hsingle⟩
  · rw [List.countP_cons_of_neg]
    · exact h.once e
    · intro hsingle
      have hlength : entities.length = 1 := congrArg List.length (of_decide_eq_true hsingle)
      omega

end Trials

section Runs
variable {canBeRemoved : Finset IrEntity → Finset IrEntity → Bool}

/-- A run over these entities from a trial in which they are installed succeeds, and minimises them. -/
def MinimizesFrom (canBeRemoved : Finset IrEntity → Finset IrEntity → Bool) (entities : List IrEntity)
    (run : Trial → Fallible Unit × Trial) : Prop :=
  ∀ t : Trial,(∀ e ∈ entities,e ∈ t.installed) → ∃ t' asked,run t = (.ok (),t') ∧ Minimizes canBeRemoved entities t t' asked

private theorem removeEach_minimizes {entities : List IrEntity} (hnodup : entities.Nodup) :
    MinimizesFrom canBeRemoved entities (removeEach (answering canBeRemoved) entities) := by
  induction entities with
  | nil => exact fun t _ => ⟨t,[],rfl,minimizes_nil t⟩
  | cons entity entities ih =>
    intro t hinstalled
    obtain ⟨hnew,hnodup⟩ := List.nodup_cons.mp hnodup
    obtain ⟨hfirst,hrest⟩ := List.forall_mem_cons.mp hinstalled
    have hasked : Minimizes canBeRemoved [entity] t _ _ := minimizes_asked (by simp) (by simpa using hfirst) (.inr rfl)
    have hdisjoint : ∀ e ∈ [entity],e ∉ entities := by simpa using hnew
    obtain ⟨t',asked,hrun,hmin⟩ := ih hnodup (answering canBeRemoved [entity] t).2 fun e he =>
      hasked.keeps e (hrest e he) fun hmem => hdisjoint e hmem he
    exact ⟨t',_,hrun,hasked.append hmin hdisjoint⟩

private theorem tryToDeleteAndBisect_minimizes {entities : List IrEntity} (hnodup : entities.Nodup) :
    MinimizesFrom canBeRemoved entities (tryToDeleteAndBisect (answering canBeRemoved) entities) := by
  induction hn : entities.length using Nat.strong_induction_on generalizing entities with
  | _ n ih =>
    intro t hinstalled
    by_cases hempty : entities.length = 0
    · have hnil := List.length_eq_zero_iff.mp hempty
      subst hnil
      exact ⟨t,[],by rw [tryToDeleteAndBisect,if_pos hempty],minimizes_nil t⟩
    · have hne : entities ≠ [] := fun hnil => hempty (List.length_eq_zero_iff.mpr hnil)
      by_cases hsettled : canBeRemoved t.installed entities.toFinset = true ∨ entities.length = 1
      · exact ⟨_,_,tryToDeleteAndBisect_settled hempty rfl hsettled,minimizes_asked hne hinstalled hsettled⟩
      · obtain ⟨hrefused,hlong⟩ := not_or.mp hsettled
        have hlarge : 2 ≤ entities.length := by omega
        set first := entities.take (entities.length / 2) with hfirst
        set second := entities.drop (entities.length / 2) with hsecond
        have hsplit : first ++ second = entities := List.take_append_drop _ _
        have hfirstLength : first.length < n := by
          rw [hfirst,List.length_take]
          omega
        have hsecondLength : second.length < n := by
          rw [hsecond,List.length_drop]
          omega
        have hparts : (first ++ second).Nodup := hsplit ▸ hnodup
        obtain ⟨hfirstNodup,hsecondNodup,hapart⟩ := List.nodup_append.mp hparts
        have hdisjoint : ∀ e ∈ second,e ∉ first := fun e he he' => hapart e he' e he rfl
        have hmem : ∀ e,e ∈ second ++ first ↔ e ∈ entities := by
          intro e
          rw [← hsplit,List.mem_append,List.mem_append,or_comm]
        have hkept : ∀ e ∈ entities,e ∈ (answering canBeRemoved entities t).2.installed := by
          rw [answering,if_neg hrefused]
          exact hinstalled
        obtain ⟨t₁,asked₁,hrun₁,hmin₁⟩ := ih _ hsecondLength hsecondNodup rfl (answering canBeRemoved entities t).2
          fun e he => hkept e ((hmem e).mp (List.mem_append_left _ he))
        obtain ⟨t₂,asked₂,hrun₂,hmin₂⟩ := ih _ hfirstLength hfirstNodup rfl t₁
          fun e he => hmin₁.keeps e (hkept e ((hmem e).mp (List.mem_append_right _ he))) fun he' => hdisjoint e he' he
        have hanswer : answering canBeRemoved entities t = (.ok false,(answering canBeRemoved entities t).2) :=
          Prod.ext (congrArg Except.ok (Bool.eq_false_iff.mpr hrefused)) rfl
        exact ⟨t₂,_,(tryToDeleteAndBisect_halves hlarge hanswer hrun₁).trans hrun₂,
          Minimizes.afterRefusal hlarge hinstalled (Bool.eq_false_iff.mpr hrefused) ((hmin₁.append hmin₂ hdisjoint).congr hmem)⟩

private theorem bisectEach_minimizes (hnodup : groups.flatten.Nodup) :
    MinimizesFrom canBeRemoved groups.flatten (bisectEach (answering canBeRemoved) groups) := by
  induction groups with
  | nil => exact fun t _ => ⟨t,[],rfl,minimizes_nil t⟩
  | cons group groups ih =>
    intro t hinstalled
    rw [List.flatten_cons] at hnodup hinstalled ⊢
    obtain ⟨hgroup,hgroups,hapart⟩ := List.nodup_append.mp hnodup
    have hdisjoint : ∀ e ∈ group,e ∉ groups.flatten := fun e he he' => hapart e he e he' rfl
    obtain ⟨t₁,asked₁,hrun₁,hmin₁⟩ := tryToDeleteAndBisect_minimizes hgroup t fun e he => hinstalled e (List.mem_append_left _ he)
    obtain ⟨t₂,asked₂,hrun₂,hmin₂⟩ := ih hgroups t₁
      fun e he => hmin₁.keeps e (hinstalled e (List.mem_append_right _ he)) fun he' => hdisjoint e he' he
    refine ⟨t₂,_,?_,hmin₁.append hmin₂ hdisjoint⟩
    rw [bisectEach,hrun₁]
    exact hrun₂

end Runs

/-- Entities of one table are next to each other. -/
def GroupedByTable (entities : List IrEntity) : Prop :=
  ∀ before e between e' after,entities = before ++ e :: (between ++ e' :: after) → irEntityToTableName e = irEntityToTableName e' →
    ∀ b ∈ between,irEntityToTableName b = irEntityToTableName e

/-- Tables that were met come no more, but for those of the last table at the very start. -/
def Continues (currentTableName : String) (seenTableNames : List String) (entities : List IrEntity) : Prop :=
  ∀ before e after,entities = before ++ e :: after → irEntityToTableName e ∈ seenTableNames →
    irEntityToTableName e = currentTableName ∧ ∀ b ∈ before,irEntityToTableName b = currentTableName

private theorem groupByTable_flatten {entities : List IrEntity} {entitiesByTable : List (List IrEntity)} {seen : List String}
    {current : String} (h : groupByTable entities entitiesByTable seen current = .ok groups) :
    groups.flatten = entitiesByTable.flatten ++ entities := by
  induction entities generalizing entitiesByTable seen current with
  | nil =>
    cases h
    rw [List.append_nil]
  | cons entity entities ih =>
    rw [groupByTable] at h
    split_ifs at h
    · cases hlast : entitiesByTable.getLast? with
      | none =>
        rw [hlast] at h
        cases h
      | some group =>
        rw [hlast] at h
        obtain ⟨front,rfl⟩ := List.getLast?_eq_some_iff.mp hlast
        rw [ih h]
        simp
    · rw [ih h]
      simp

section Steps
variable {entity : IrEntity} {entities : List IrEntity} {seen : List String} {current : String}

theorem GroupedByTable.tail (h : GroupedByTable (entity :: entities)) : GroupedByTable entities := by
  intro before e between e' after heq
  exact h (entity :: before) e between e' after (by rw [heq]; rfl)

theorem groupedByTable_cons : GroupedByTable (entity :: entities) ↔ GroupedByTable entities ∧
    ∀ between e after,entities = between ++ e :: after → irEntityToTableName e = irEntityToTableName entity →
      ∀ b ∈ between,irEntityToTableName b = irEntityToTableName entity := by
  constructor
  · intro h
    exact ⟨h.tail,fun between e after heq hname => h [] entity between e after (by rw [heq]; rfl) hname.symm⟩
  · rintro ⟨htail,hfirst⟩ before e between e' after heq hname
    cases before with
    | nil =>
      obtain ⟨rfl,hrest⟩ := List.cons.inj heq
      exact hfirst between e' after hrest hname.symm
    | cons b before => exact htail before e between e' after (List.cons.inj heq).2 hname

theorem continues_cons : Continues current seen (entity :: entities) ↔
    (irEntityToTableName entity ∈ seen → irEntityToTableName entity = current) ∧
    ∀ before e after,entities = before ++ e :: after → irEntityToTableName e ∈ seen →
      irEntityToTableName e = current ∧ irEntityToTableName entity = current ∧ ∀ b ∈ before,irEntityToTableName b = current := by
  constructor
  · intro h
    refine ⟨fun hseen => (h [] entity entities rfl hseen).1,fun before e after heq hseen => ?_⟩
    obtain ⟨he,hbefore⟩ := h (entity :: before) e after (by rw [heq]; rfl) hseen
    exact ⟨he,List.forall_mem_cons.mp hbefore⟩
  · rintro ⟨hfirst,hrest⟩ before e after heq hseen
    cases before with
    | nil =>
      obtain ⟨rfl,-⟩ := List.cons.inj heq
      exact ⟨hfirst hseen,by simp⟩
    | cons b before =>
      obtain ⟨rfl,htail⟩ := List.cons.inj heq
      obtain ⟨he,hb,hbefore⟩ := hrest before e after htail hseen
      exact ⟨he,List.forall_mem_cons.mpr ⟨hb,hbefore⟩⟩

private theorem grouped_same (hname : irEntityToTableName entity = current) (hcurrent : current ∈ seen) :
    (GroupedByTable (entity :: entities) ∧ Continues current seen (entity :: entities)) ↔
      GroupedByTable entities ∧ Continues current seen entities := by
  rw [groupedByTable_cons,continues_cons]
  constructor
  · rintro ⟨⟨hgrouped,-⟩,-,hrest⟩
    refine ⟨hgrouped,fun before e after heq hseen => ?_⟩
    obtain ⟨he,-,hbefore⟩ := hrest before e after heq hseen
    exact ⟨he,hbefore⟩
  · rintro ⟨hgrouped,hcontinues⟩
    refine ⟨⟨hgrouped,fun between e after heq he => ?_⟩,fun _ => hname,fun before e after heq hseen => ?_⟩
    · rw [hname] at he ⊢
      exact (hcontinues between e after heq (he ▸ hcurrent)).2
    · obtain ⟨he,hbefore⟩ := hcontinues before e after heq hseen
      exact ⟨he,hname,hbefore⟩

theorem grouped_new (hnew : irEntityToTableName entity ∉ seen) :
    (GroupedByTable (entity :: entities) ∧ Continues current seen (entity :: entities)) ↔
      GroupedByTable entities ∧ Continues (irEntityToTableName entity) (seen ++ [irEntityToTableName entity]) entities := by
  rw [groupedByTable_cons,continues_cons]
  constructor
  · rintro ⟨⟨hgrouped,hfirst⟩,-,hrest⟩
    refine ⟨hgrouped,fun before e after heq hseen => ?_⟩
    rcases List.mem_append.mp hseen with hseen | hseen
    · obtain ⟨he,hentity,-⟩ := hrest before e after heq hseen
      exact absurd (hentity.trans he.symm ▸ hseen) hnew
    · have he := List.mem_singleton.mp hseen
      exact ⟨he,hfirst before e after heq he⟩
  · rintro ⟨hgrouped,hcontinues⟩
    refine ⟨⟨hgrouped,fun between e after heq he => ?_⟩,fun hseen => absurd hseen hnew,fun before e after heq hseen => ?_⟩
    · exact (hcontinues between e after heq (List.mem_append_right _ (List.mem_singleton.mpr he))).2
    · have he := (hcontinues before e after heq (List.mem_append_left _ hseen)).1
      exact absurd (he ▸ hseen) hnew

end Steps

theorem groupByTable_cases {entities : List IrEntity} {entitiesByTable : List (List IrEntity)} {seen : List String} {current : String}
    (hmet : entitiesByTable ≠ []) (hcurrent : current ∈ seen) :
    ((GroupedByTable entities ∧ Continues current seen entities) ∧
      ∃ groups,groupByTable entities entitiesByTable seen current = .ok groups) ∨
    (¬ (GroupedByTable entities ∧ Continues current seen entities) ∧
      groupByTable entities entitiesByTable seen current = .error notGroupedError) := by
  induction entities generalizing entitiesByTable seen current with
  | nil =>
    refine .inl ⟨⟨fun before e between e' after heq => ?_,fun before e after heq => ?_⟩,_,rfl⟩
    · exact absurd heq (by simp)
    · exact absurd heq (by simp)
  | cons entity entities ih =>
    rw [groupByTable]
    by_cases hname : irEntityToTableName entity = current
    · rw [if_pos hname,grouped_same hname hcurrent,List.getLast?_eq_some_getLast hmet]
      exact ih (by simp) hcurrent
    · rw [if_neg hname]
      by_cases hseen : irEntityToTableName entity ∈ seen
      · rw [if_pos hseen]
        exact .inr ⟨fun h => hname ((continues_cons.mp h.2).1 hseen),rfl⟩
      · rw [if_neg hseen,grouped_new hseen]
        exact ih (by simp) (by simp)

theorem groupByTable_start {entities : List IrEntity} (hfirst : ∀ e ∈ entities.head?,irEntityToTableName e ≠ "") :
    (GroupedByTable entities ∧ ∃ groups,groupByTable entities [] [] "" = .ok groups) ∨
    (¬ GroupedByTable entities ∧ groupByTable entities [] [] "" = .error notGroupedError) := by
  cases entities with
  | nil =>
    refine .inl ⟨fun before e between e' after heq => ?_,_,rfl⟩
    exact absurd heq (by simp)
  | cons entity entities =>
    have hiff := @grouped_new entity entities [] "" List.not_mem_nil
    have hstart : Continues "" [] (entity :: entities) := fun before e after heq hseen => absurd hseen List.not_mem_nil
    rw [and_iff_left hstart] at hiff
    rw [groupByTable,if_neg (hfirst entity rfl),if_neg List.not_mem_nil,hiff]
    exact groupByTable_cases (by simp) (by simp)

theorem GroupedByTable.of_groups {entities : List IrEntity} {groups : List (List IrEntity)}
    (hfirst : ∀ e ∈ entities.head?,irEntityToTableName e ≠ "") (h : groupByTable entities [] [] "" = .ok groups) :
    GroupedByTable entities := by
  rcases groupByTable_start hfirst with ⟨hgrouped,-⟩ | ⟨-,herror⟩
  · exact hgrouped
  · exact absurd (herror.symm.trans h) (by simp)

section Minimality
variable {canBeRemoved : Finset IrEntity → Finset IrEntity → Bool} {entities : List IrEntity}

/-- What is left of the entities after a trial cannot be removed one at a time, and the questions were of use. -/
structure LeavesMinimal (canBeRemoved : Finset IrEntity → Finset IrEntity → Bool) (entities : List IrEntity) (t : Trial) : Prop where
  about : ∀ q ∈ t.log,∀ e ∈ q.entities,e ∈ q.installed
  refused : ∀ e ∈ entities,e ∈ t.installed → ∃ q ∈ t.log,q.entities = [e] ∧ q.removed = false
  once : ∀ e,t.log.countP (fun q => q.entities = [e]) ≤ 1
  minimal : IsMonotone canBeRemoved → ∀ e ∈ entities,e ∈ t.installed → canBeRemoved t.installed {e} = false

theorem Minimizes.leavesMinimal {installed : Finset IrEntity} {t' : Trial}
    (h : Minimizes canBeRemoved entities ⟨installed,[]⟩ t' asked) : LeavesMinimal canBeRemoved entities t' := by
  have hlog : t'.log = asked := h.log
  refine ⟨fun q hq e he => ?_,?_,?_,fun hmonotone e he hstays => ?_⟩
  · exact ((h.about q (hlog ▸ hq)).2 e he).2
  · rw [hlog]
    exact h.refused
  · rw [hlog]
    exact h.once
  · obtain ⟨q,hq,hsingle,hrefused⟩ := h.refused e he hstays
    have hanswer := h.answered q hq
    rw [hsingle,hrefused] at hanswer
    -- More was installed when it was refused.
    by_contra hremovable
    have hearlier := hmonotone t'.installed q.installed {e} {e} (h.shrunk q hq) subset_rfl (by simpa using hremovable)
    exact Bool.false_ne_true (hanswer.trans hearlier)

private theorem tableBasedBisection_minimizes (hnodup : entities.Nodup)
    (hgroups : groupByTable entities [] [] "" = .ok groups) :
    MinimizesFrom canBeRemoved entities (tableBasedBisection (answering canBeRemoved) entities) := by
  have hflatten : groups.flatten = entities := groupByTable_flatten hgroups
  have hperm : groups.reverse.flatten.Perm entities := hflatten ▸ groups.reverse_perm.flatten
  intro t hinstalled
  obtain ⟨t',asked,hrun,hmin⟩ := bisectEach_minimizes (hperm.nodup_iff.mpr hnodup) t fun e he => hinstalled e (hperm.mem_iff.mp he)
  refine ⟨t',asked,?_,hmin.congr fun e => hperm.mem_iff⟩
  rw [tableBasedBisection,hgroups]
  exact hrun

private theorem removeEntitiesOneByOne_minimizes (hnodup : entities.Nodup) :
    MinimizesFrom canBeRemoved entities (removeEntitiesOneByOne (answering canBeRemoved) entities) := by
  intro t hinstalled
  obtain ⟨t',asked,hrun,hmin⟩ := removeEach_minimizes (List.nodup_reverse.mpr hnodup) t fun e he => hinstalled e (List.mem_reverse.mp he)
  exact ⟨t',asked,hrun,hmin.congr fun e => List.mem_reverse⟩

/-- Both algorithms leave a set of different entities locally minimal; the bisection refuses those that
are not grouped by table before it asks anything. -/
theorem failure_minimized {installed : Finset IrEntity} (hnodup : entities.Nodup) (hinstalled : ∀ e ∈ entities,e ∈ installed)
    (hfirst : ∀ e ∈ entities.head?,irEntityToTableName e ≠ "") :
    (∃ t,removeEntitiesOneByOne (answering canBeRemoved) entities ⟨installed,[]⟩ = (.ok (),t) ∧ LeavesMinimal canBeRemoved entities t) ∧
    (GroupedByTable entities → ∃ t,tableBasedBisection (answering canBeRemoved) entities ⟨installed,[]⟩ = (.ok (),t) ∧
      LeavesMinimal canBeRemoved entities t) ∧
    (¬ GroupedByTable entities →
      tableBasedBisection (answering canBeRemoved) entities ⟨installed,[]⟩ = (.error notGroupedError,⟨installed,[]⟩)) := by
  refine ⟨?_,fun hgrouped => ?_,fun hgrouped => ?_⟩
  · obtain ⟨t,asked,hrun,hmin⟩ := removeEntitiesOneByOne_minimizes hnodup ⟨installed,[]⟩ hinstalled
    exact ⟨t,hrun,hmin.leavesMinimal⟩
  · rcases groupByTable_start hfirst with ⟨-,groups,hgroups⟩ | ⟨hnot,-⟩
    · obtain ⟨t,asked,hrun,hmin⟩ := tableBasedBisection_minimizes hnodup hgroups ⟨installed,[]⟩ hinstalled
      exact ⟨t,hrun,hmin.leavesMinimal⟩
    · exact absurd hgrouped hnot
  · rcases groupByTable_start hfirst with ⟨hgroups,-⟩ | ⟨-,herror⟩
    · exact absurd hgroups hgrouped
    · rw [tableBasedBisection,herror]

end Minimality

def sessionEntity (id : UInt32) : IrEntity := .packetReplicationEngineEntry (.cloneSessionEntry { sessionId := id })

/-- Of two sessions, one that the failure needs. -/
theorem two_sessions_minimized :
    ∃ t,tableBasedBisection (answering fun installed entities => sessionEntity 1 ∈ installed \ entities)
      [sessionEntity 1,sessionEntity 2] ⟨{sessionEntity 1,sessionEntity 2},[]⟩ = (.ok (),t) ∧
      LeavesMinimal (fun installed entities => sessionEntity 1 ∈ installed \ entities) [sessionEntity 1,sessionEntity 2] t := by
  have hfirst : ∀ e ∈ [sessionEntity 1,sessionEntity 2].head?,irEntityToTableName e ≠ "" := by
    rintro e ⟨⟩
    decide
  have hgroups : groupByTable [sessionEntity 1,sessionEntity 2] [] [] "" = .ok [[sessionEntity 1,sessionEntity 2]] := by decide
  exact (failure_minimized (by decide) (by decide) hfirst).2.1 (GroupedByTable.of_groups hfirst hgroups)

/-- An entity that is in the list twice is asked about on its own twice, also when it is not installed any more;
a table without a name at the start ends the grouping badly. -/
theorem repeated_session_asked_twice :
    ((removeEntitiesOneByOne (answering fun _ _ => true) [sessionEntity 1,sessionEntity 1] ⟨{sessionEntity 1},[]⟩).2.log.map
      fun q => (q.installed,q.entities)) = [({sessionEntity 1},[sessionEntity 1]),(∅,[sessionEntity 1])] ∧
    (groupByTable [.tableEntry { tableName := "" }] [] [] "").toOption = none ∧
    ¬ ∀ (canBeRemoved : Finset IrEntity → Finset IrEntity → Bool) (entities : List IrEntity),IsMonotone canBeRemoved →
      GroupedByTable entities → ∃ t,removeEntitiesOneByOne (answering canBeRemoved) entities ⟨entities.toFinset,[]⟩ = (.ok (),t) ∧
        LeavesMinimal canBeRemoved entities t := by
  have hasked : ((removeEntitiesOneByOne (answering fun _ _ => true) [sessionEntity 1,sessionEntity 1] ⟨{sessionEntity 1},[]⟩).2.log.map
      fun q => (q.installed,q.entities)) = [({sessionEntity 1},[sessionEntity 1]),(∅,[sessionEntity 1])] := by decide
  refine ⟨hasked,rfl,fun h => ?_⟩
  have hgrouped : GroupedByTable [sessionEntity 1,sessionEntity 1] := by
    refine @GroupedByTable.of_groups _ [[sessionEntity 1,sessionEntity 1]] ?_ (by decide)
    rintro e ⟨⟩
    decide
  obtain ⟨t,hrun,hminimal⟩ := h (fun _ _ => true) _ (fun _ _ _ _ _ _ _ => rfl) hgrouped
  have htwice : t = (removeEntitiesOneByOne (answering fun _ _ => true) [sessionEntity 1,sessionEntity 1] ⟨{sessionEntity 1},[]⟩).2 :=
    (congrArg Prod.snd hrun).symm
  have hlast : (⟨∅,[sessionEntity 1],true⟩ : Question) ∈ t.log := by
    rw [htwice]
    exact List.mem_cons_of_mem _ List.mem_cons_self
  exact absurd (hminimal.about _ hlast (sessionEntity 1) List.mem_cons_self) (Finset.notMem_empty _)

end SonicPins.Dvaas
