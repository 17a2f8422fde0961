import SonicPins.P4Symbolic.RowMerging

/-! The matches of tables that a symbolic evaluation collects, merged on a condition or joined, and the traces that they are for an
assignment. -/
namespace SonicPins.P4Symbolic.Evaluation
open Lib Pdpi Operators SymbolicPerPacketState

variable {trace : List (String × Int)} {tableMatches trueMatches falseMatches merged lhs rhs : SymbolicTableMatches}
  {σ : Assignment} {condition : Term}

def SoundMatches (tableMatches : SymbolicTableMatches) : Prop :=
  ∀ name m,tableMatches.lookup name = some m → Sound m.matched ∧ m.entryIndex.Sound

/-- A table was executed, and an entry with an index was selected. -/
def Matched (σ : Assignment) (tableMatches : SymbolicTableMatches) (name : String) (index : Int) : Prop :=
  ∃ m,tableMatches.lookup name = some m ∧ holds m.matched σ ∧ m.entryIndex.eval σ = index

/-- The tables that were executed, each once, with the indices of the selected entries. -/
def TraceOf (σ : Assignment) (tableMatches : SymbolicTableMatches) (trace : List (String × Int)) : Prop :=
  (trace.map Prod.fst).Nodup ∧ ∀ name index,(name,index) ∈ trace ↔ Matched σ tableMatches name index

theorem mergeMatch_spec {a b m : SymbolicTableMatch} (hcondition : Sound condition) (ha : Sound a.matched ∧ a.entryIndex.Sound)
    (hb : Sound b.matched ∧ b.entryIndex.Sound) (h : mergeMatch condition a b = .ok m) : (Sound m.matched ∧ m.entryIndex.Sound) ∧
      ∀ σ,(holds m.matched σ ↔ if holds condition σ then holds a.matched σ else holds b.matched σ) ∧
        m.entryIndex.eval σ = if condition.eval σ = 0 then b.entryIndex.eval σ else a.entryIndex.eval σ := by
  obtain ⟨matched,hmatched,h⟩ := bind_eq_ok.mp h
  obtain ⟨entryIndex,hindex,h⟩ := bind_eq_ok.mp h
  cases h
  obtain ⟨hsound,hvalue⟩ := ite_value hcondition ha.1 hb.1 hmatched
  obtain ⟨hindexSound,-,heval⟩ := iteIndex_spec hcondition ha.2 hb.2 hindex
  refine ⟨⟨hsound,hindexSound⟩,fun σ => ⟨?_,heval σ⟩⟩
  have hbits : matched.eval σ = if condition.eval σ = 0 then b.matched.eval σ else a.matched.eval σ := congrArg Value.bits (hvalue σ)
  change matched.eval σ ≠ 0 ↔ _
  rw [hbits]
  by_cases hc : holds condition σ
  · rw [if_neg hc,if_pos hc]
    rfl
  · rw [if_pos (not_not.mp hc),if_neg hc]
    rfl

private theorem sound_defaultTableMatch : Sound defaultTableMatch.matched ∧ defaultTableMatch.entryIndex.Sound :=
  ⟨sound_boolVal false,trivial⟩

theorem lookup_of_mapM {α β : Type} {f : String × α → Fallible β} {l : List (String × α)} {r : List (String × β)}
    (h : l.mapM (fun x => (f x).map fun m => (x.1,m)) = .ok r) (name : String) :
    (l.lookup name = none → r.lookup name = none) ∧
      ∀ a,l.lookup name = some a → ∃ b,f (name,a) = .ok b ∧ r.lookup name = some b := by
  have hforall := mapM_eq_ok.mp h
  clear h
  induction hforall with
  | nil => exact ⟨fun _ => rfl,fun a ha => by cases ha⟩
  | @cons x y l r hx _ ih =>
    obtain ⟨b,hb,rfl⟩ := map_eq_ok.mp hx
    obtain ⟨key,a⟩ := x
    rw [lookup_cons_ite,lookup_cons_ite]
    by_cases hname : name = key
    · rw [if_pos hname,if_pos hname]
      refine ⟨fun hnone => absurd hnone (Option.some_ne_none _),fun a' ha => ?_⟩
      cases ha
      exact ⟨b,hname ▸ hb,rfl⟩
    · rw [if_neg hname,if_neg hname]
      exact ih

private theorem lookup_filter_of_key {α : Type} {p : String → Bool} (l : List (String × α)) (name : String) :
    (l.filter fun x => p x.1).lookup name = if p name then l.lookup name else none := by
  induction l with
  | nil => simp
  | cons x l ih =>
    obtain ⟨key,a⟩ := x
    rw [List.filter_cons,lookup_cons_ite]
    by_cases hname : name = key
    · rw [if_pos hname,← hname]
      split_ifs with hp
      · rw [lookup_cons_ite,if_pos rfl]
      · rw [ih,if_neg hp]
    · rw [if_neg hname]
      split_ifs with hp hkey hkey
      · rw [lookup_cons_ite,if_neg hname,ih,if_pos hkey]
      · rw [lookup_cons_ite,if_neg hname,ih,if_neg hkey]
      · rw [ih,if_pos hkey]
      · rw [ih,if_neg hkey]

theorem mergeMatchesOnCondition_spec (hcondition : Sound condition) (htrue : SoundMatches trueMatches)
    (hfalse : SoundMatches falseMatches) (h : mergeMatchesOnCondition condition trueMatches falseMatches = .ok merged) :
    SoundMatches merged ∧ ∀ σ name index,Matched σ merged name index ↔
      if holds condition σ then Matched σ trueMatches name index else Matched σ falseMatches name index := by
  obtain ⟨first,hfirst,h⟩ := bind_eq_ok.mp h
  obtain ⟨second,hsecond,h⟩ := bind_eq_ok.mp h
  cases h
  have hlookup : ∀ name,(trueMatches.lookup name = none ∧ falseMatches.lookup name = none ∧ (first ++ second).lookup name = none) ∨
      ∃ a b m,(trueMatches.lookup name = some a ∨ trueMatches.lookup name = none ∧ a = defaultTableMatch) ∧
        (falseMatches.lookup name = some b ∨ falseMatches.lookup name = none ∧ b = defaultTableMatch) ∧
        mergeMatch condition a b = .ok m ∧ (first ++ second).lookup name = some m := by
    intro name
    obtain ⟨hnone,hsome⟩ := lookup_of_mapM hfirst name
    obtain ⟨hnone',hsome'⟩ := lookup_of_mapM hsecond name
    rw [lookup_filter_of_key (p := fun key => (trueMatches.lookup key).isNone)] at hnone' hsome'
    rw [List.lookup_append]
    cases ha : trueMatches.lookup name with
    | some a =>
      obtain ⟨m,hm,hlookup⟩ := hsome a ha
      refine .inr ⟨a,_,m,.inl rfl,?_,hm,by rw [hlookup]; rfl⟩
      cases hb : falseMatches.lookup name with
      | some b => exact .inl rfl
      | none => exact .inr ⟨rfl,rfl⟩
    | none =>
      rw [ha] at hnone' hsome'
      rw [hnone ha]
      cases hb : falseMatches.lookup name with
      | some b =>
        obtain ⟨m,hm,hlookup⟩ := hsome' b hb
        exact .inr ⟨_,b,m,.inr ⟨rfl,rfl⟩,.inl rfl,hm,hlookup⟩
      | none => exact .inl ⟨rfl,rfl,hnone' hb⟩
  have hsound : ∀ {l : SymbolicTableMatches} {name : String} {a : SymbolicTableMatch},SoundMatches l →
      (l.lookup name = some a ∨ l.lookup name = none ∧ a = defaultTableMatch) → Sound a.matched ∧ a.entryIndex.Sound := by
    rintro l name a hl (ha | ⟨-,rfl⟩)
    · exact hl name a ha
    · exact sound_defaultTableMatch
  have hmatched : ∀ {l : SymbolicTableMatches} {name : String} {a : SymbolicTableMatch} {σ : Assignment} {index : Int},
      (l.lookup name = some a ∨ l.lookup name = none ∧ a = defaultTableMatch) →
        (Matched σ l name index ↔ holds a.matched σ ∧ a.entryIndex.eval σ = index) := by
    rintro l name a σ index (ha | ⟨hnone,rfl⟩)
    · constructor
      · rintro ⟨a',ha',hm⟩
        rw [ha] at ha'
        cases ha'
        exact hm
      · exact fun hm => ⟨a,ha,hm⟩
    · constructor
      · rintro ⟨a',ha',-⟩
        rw [hnone] at ha'
        cases ha'
      · exact fun hm => absurd hm.1 (not_holds_false σ)
  constructor
  · intro name m hm
    rcases hlookup name with ⟨-,-,hnone⟩ | ⟨a,b,m',ha,hb,hmerge,hsome⟩
    · rw [hnone] at hm
      cases hm
    · rw [hsome] at hm
      cases hm
      exact (mergeMatch_spec hcondition (hsound htrue ha) (hsound hfalse hb) hmerge).1
  · intro σ name index
    rcases hlookup name with ⟨htrueNone,hfalseNone,hnone⟩ | ⟨a,b,m,ha,hb,hmerge,hsome⟩
    · have hnot : ∀ {l : SymbolicTableMatches},l.lookup name = none → ¬ Matched σ l name index := by
        rintro l hl ⟨m,hm,-⟩
        rw [hl] at hm
        cases hm
      split_ifs
      · exact iff_of_false (hnot hnone) (hnot htrueNone)
      · exact iff_of_false (hnot hnone) (hnot hfalseNone)
    · obtain ⟨hholds,heval⟩ := (mergeMatch_spec hcondition (hsound htrue ha) (hsound hfalse hb) hmerge).2 σ
      rw [hmatched (.inl hsome),hholds,heval]
      by_cases hc : holds condition σ
      · rw [if_pos hc,if_pos hc,if_neg hc]
        exact (hmatched ha).symm
      · rw [if_neg hc,if_neg hc,if_pos (not_not.mp hc)]
        exact (hmatched hb).symm

theorem mergeDisjointTableMatches_spec (h : mergeDisjointTableMatches lhs rhs = .ok merged) :
    (∀ name,merged.lookup name = (lhs.lookup name).or (rhs.lookup name)) ∧
      ∀ name,(lhs.lookup name).isSome → rhs.lookup name = none := by
  rw [mergeDisjointTableMatches] at h
  induction rhs generalizing lhs with
  | nil =>
    cases h
    exact ⟨fun name => (Option.or_none).symm,fun _ _ => rfl⟩
  | cons x rhs ih =>
    obtain ⟨key,m⟩ := x
    rw [List.foldlM_cons] at h
    obtain ⟨mid,hmid,h⟩ := bind_eq_ok.mp h
    rw [insertDisjoint] at hmid
    cases hkey : lhs.lookup key with
    | some m' =>
      rw [hkey] at hmid
      cases hmid
    | none =>
      rw [hkey] at hmid
      cases hmid
      obtain ⟨hlookup,hdisjoint⟩ := ih h
      constructor
      · intro name
        rw [hlookup,lookup_cons_ite,lookup_cons_ite]
        by_cases hname : name = key
        · rw [if_pos hname,if_pos hname,hname,hkey]
          rfl
        · rw [if_neg hname,if_neg hname]
      · intro name hsome
        rw [lookup_cons_ite]
        have hname : name ≠ key := fun heq => by
          rw [heq,hkey] at hsome
          cases hsome
        rw [if_neg hname]
        apply hdisjoint
        rwa [lookup_cons_ite,if_neg hname]

theorem soundMatches_disjoint (hl : SoundMatches lhs) (hr : SoundMatches rhs) (h : mergeDisjointTableMatches lhs rhs = .ok merged) :
    SoundMatches merged := by
  intro name m hm
  rw [(mergeDisjointTableMatches_spec h).1,Option.or_eq_some_iff] at hm
  rcases hm with hm | ⟨-,hm⟩
  · exact hl name m hm
  · exact hr name m hm

theorem TraceOf.append {trace' : List (String × Int)} (hl : TraceOf σ lhs trace) (hr : TraceOf σ rhs trace')
    (h : mergeDisjointTableMatches lhs rhs = .ok merged) : TraceOf σ merged (trace ++ trace') := by
  obtain ⟨hlookup,hdisjoint⟩ := mergeDisjointTableMatches_spec h
  constructor
  · rw [List.map_append,List.nodup_append']
    refine ⟨hl.1,hr.1,fun name hname hname' => ?_⟩
    obtain ⟨⟨_,index⟩,hmem,rfl⟩ := List.mem_map.mp hname
    obtain ⟨⟨key,index'⟩,hmem',heq⟩ := List.mem_map.mp hname'
    cases heq
    obtain ⟨m,hm,-⟩ := (hl.2 _ _).mp hmem
    obtain ⟨m',hm',-⟩ := (hr.2 _ _).mp hmem'
    rw [hdisjoint _ (by rw [hm]; rfl)] at hm'
    cases hm'
  · intro name index
    rw [List.mem_append,hl.2,hr.2]
    constructor
    · rintro (⟨m,hm,hrest⟩ | ⟨m,hm,hrest⟩)
      · exact ⟨m,by rw [hlookup,hm]; rfl,hrest⟩
      · refine ⟨m,?_,hrest⟩
        cases hleft : lhs.lookup name with
        | some m' =>
          rw [hdisjoint name (by rw [hleft]; rfl)] at hm
          cases hm
        | none =>
          rw [hlookup,hleft,hm]
          rfl
    · rintro ⟨m,hm,hrest⟩
      rw [hlookup,Option.or_eq_some_iff] at hm
      rcases hm with hm | ⟨-,hm⟩
      · exact .inl ⟨m,hm,hrest⟩
      · exact .inr ⟨m,hm,hrest⟩

theorem TraceOf.perm {trace' : List (String × Int)} (h : TraceOf σ tableMatches trace)
    (hperm : trace.Perm trace') : TraceOf σ tableMatches trace' :=
  ⟨(hperm.map Prod.fst).nodup_iff.mp h.1,fun name index => hperm.mem_iff.symm.trans (h.2 name index)⟩

theorem traceOf_nil (σ : Assignment) : TraceOf σ [] [] :=
  ⟨List.nodup_nil,fun _ _ => ⟨fun h => absurd h List.not_mem_nil,fun ⟨_,hm,_⟩ => by cases hm⟩⟩

theorem TraceOf.congr {tableMatches' : SymbolicTableMatches}
    (h : TraceOf σ tableMatches trace) (hiff : ∀ name index,Matched σ tableMatches' name index ↔ Matched σ tableMatches name index) :
    TraceOf σ tableMatches' trace := ⟨h.1,fun name index => (h.2 name index).trans (hiff name index).symm⟩

theorem TraceOf.cons {name : String} {m : SymbolicTableMatch}
    (h : TraceOf σ tableMatches trace) (hm : holds m.matched σ) (hname : tableMatches.lookup name = none) :
    TraceOf σ ((name,m) :: tableMatches) ((name,m.entryIndex.eval σ) :: trace) := by
  constructor
  · rw [List.map_cons,List.nodup_cons]
    refine ⟨fun hmem => ?_,h.1⟩
    obtain ⟨⟨key,index⟩,hpair,heq⟩ := List.mem_map.mp hmem
    obtain ⟨m',hm',-⟩ := (h.2 _ _).mp hpair
    rw [show key = name from heq,hname] at hm'
    cases hm'
  · intro name' index
    rw [List.mem_cons,h.2]
    constructor
    · rintro (heq | ⟨m',hm',hrest⟩)
      · cases heq
        exact ⟨m,by rw [lookup_cons_ite,if_pos rfl],hm,rfl⟩
      · refine ⟨m',?_,hrest⟩
        rw [lookup_cons_ite,if_neg (fun heq => by rw [heq,hname] at hm'; cases hm')]
        exact hm'
    · rintro ⟨m',hm',hholds,heval⟩
      rw [lookup_cons_ite] at hm'
      by_cases heq : name' = name
      · rw [if_pos heq] at hm'
        cases hm'
        exact .inl (by rw [heq,heval])
      · rw [if_neg heq] at hm'
        exact .inr ⟨m',hm',hholds,heval⟩

end SonicPins.P4Symbolic.Evaluation
