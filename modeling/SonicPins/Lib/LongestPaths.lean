import Mathlib.Data.Finset.Card
import Mathlib.Logic.Relation
import SonicPins.Lib.SortedMap

/-! Ranks of the nodes of a graph by memoised depth-first search: minus the length of the
longest path from a node. -/
namespace SonicPins.Lib

variable {n depth : Nat}

section Paths
variable {ν : Type} (edge : ν → ν → Prop)

inductive HasPath : ν → Nat → Prop
  | nil (v : ν) : HasPath v 0
  | cons {v w : ν} {n : Nat} (h : edge v w) (p : HasPath w n) : HasPath v (n + 1)

/-- The longest path from the node has the given length. -/
def IsLongest (v : ν) (n : Nat) : Prop := HasPath edge v n ∧ ∀ k,HasPath edge v k → k ≤ n

variable {edge} {v w : ν}

theorem IsLongest.lt_of_edge {m : Nat} (hv : IsLongest edge v m) (hw : IsLongest edge w n) (h : edge v w) : n < m :=
  hv.2 (n + 1) (.cons h hw.1)

theorem HasPath.extend (h : Relation.TransGen edge v w) (p : HasPath edge w n) : ∃ k,n < k ∧ HasPath edge v k := by
  induction h using Relation.TransGen.head_induction_on with
  | single h => exact ⟨n + 1,Nat.lt_succ_self n,.cons h p⟩
  | head h _ ih =>
    obtain ⟨k,hk,q⟩ := ih
    exact ⟨k + 1,Nat.lt_succ_of_lt hk,.cons h q⟩

theorem IsLongest.not_cyclic (h : IsLongest edge v n) : ¬ Relation.TransGen edge v v := by
  intro hcycle
  obtain ⟨k,hk,p⟩ := HasPath.extend hcycle h.1
  exact absurd (h.2 k p) (Nat.not_le_of_lt hk)

theorem isLongest_of_successors (hbound : ∀ w,edge v w → ∃ k,IsLongest edge w k ∧ k < n)
    (hattained : n = 0 ∨ ∃ w k,edge v w ∧ IsLongest edge w k ∧ n = k + 1) : IsLongest edge v n := by
  constructor
  · rcases hattained with rfl | ⟨w,k,hedge,hw,rfl⟩
    · exact .nil v
    · exact .cons hedge hw.1
  · intro j p
    cases p with
    | nil => exact Nat.zero_le n
    | @cons _ w i hedge p =>
      obtain ⟨k,hk,hlt⟩ := hbound w hedge
      exact Nat.succ_le_of_lt ((hk.2 i p).trans_lt hlt)

end Paths

section Search
variable {ν ε : Type} [LinearOrder ν]

/-- The ranks of the finished nodes, and the positive marks of those on the way to them. -/
abbrev Ranks (ν : Type) := List (ν × Int)

/-- Lowers a rank by what the successors in a list have, one after another. -/
def rankBelow (visit : ν → Ranks ν → Option (Except ε (Int × Ranks ν))) :
    List (Except ε ν) → Int → Ranks ν → Option (Except ε (Int × Ranks ν))
  | [],rank,m => some (.ok (rank,m))
  | .error e :: _,_,_ => some (.error e)
  | .ok w :: ws,rank,m => match visit w m with
    | some (.ok (child,m')) => rankBelow visit ws (min rank (child - 1)) m'
    | other => other

/-- The rank of a node, with the ranks found on the way; `none` when the depth is used up. -/
def setAndReturnRank (successors : ν → Except ε (List (Except ε ν))) (cycle : ν → ε) :
    Nat → ν → Ranks ν → Option (Except ε (Int × Ranks ν))
  | 0,_,_ => none
  | depth + 1,v,m => match m.lookup v with
    | some rank => if rank ≤ 0 then some (.ok (rank,m)) else some (.error (cycle v))
    | none => match successors v with
      | .error e => some (.error e)
      | .ok ws =>
        -- the mark that a cycle comes back to
        match rankBelow (setAndReturnRank successors cycle depth) ws 0 (assign v 1 m) with
        | some (.ok (rank,m')) => some (.ok (rank,assign v rank m'))
        | other => other

/-- The ranks of the nodes of a list and of all that they lead to. -/
def rankNodes (successors : ν → Except ε (List (Except ε ν))) (cycle : ν → ε) (depth : Nat) :
    List ν → Ranks ν → Option (Except ε (Ranks ν))
  | [],m => some (.ok m)
  | v :: vs,m => match setAndReturnRank successors cycle depth v m with
    | some (.ok (_,m')) => rankNodes successors cycle depth vs m'
    | some (.error e) => some (.error e)
    | none => none

end Search

variable {ν ε : Type} [LinearOrder ν] (successors : ν → Except ε (List (Except ε ν))) (nodes : Finset ν)

/-- The edges that the search follows. -/
def Leads (v w : ν) : Prop := ∃ ws,successors v = .ok ws ∧ .ok w ∈ ws

def ClosedUnder : Prop := ∀ v ∈ nodes,∃ ws,successors v = .ok ws ∧ ∀ x ∈ ws,∃ w ∈ nodes,x = .ok w

/-- A node on the way to the one that is being visited. -/
def OnPath (m : Ranks ν) (v : ν) : Prop := ∃ rank,m.lookup v = some rank ∧ 0 < rank

/-- What is known of the ranks at any time: all but the marks are final. -/
structure Ranked (m : Ranks ν) : Prop where
  mem : ∀ v rank,m.lookup v = some rank → v ∈ nodes
  final : ∀ v rank,m.lookup v = some rank → rank ≤ 0 → ∃ n : Nat,rank = -n ∧ IsLongest (Leads successors) v n

/-- Ranks are only added, and no mark stays. -/
structure Grows (m m' : Ranks ν) : Prop where
  kept : ∀ v rank,m.lookup v = some rank → m'.lookup v = some rank
  onPath : ∀ v,OnPath m' v → OnPath m v

def unranked (m : Ranks ν) : Finset ν := nodes.filter fun v => m.lookup v = none

variable {successors nodes} {m m' : Ranks ν} {v w : ν}

theorem Grows.refl (m : Ranks ν) : Grows m m := ⟨fun _ _ h => h,fun _ h => h⟩

theorem Grows.trans {m'' : Ranks ν} (h : Grows m m') (h' : Grows m' m'') : Grows m m'' :=
  ⟨fun v rank hv => h'.kept v rank (h.kept v rank hv),fun v hv => h.onPath v (h'.onPath v hv)⟩

theorem Grows.unranked_subset (h : Grows m m') : unranked nodes m' ⊆ unranked nodes m := by
  intro v hv
  obtain ⟨hv,hnone⟩ := Finset.mem_filter.mp hv
  refine Finset.mem_filter.mpr ⟨hv,?_⟩
  cases hlookup : m.lookup v with
  | none => rfl
  | some rank => exact absurd ((h.kept v rank hlookup).symm.trans hnone) (by simp)

theorem card_unranked_assign (hv : v ∈ nodes) (hnone : m.lookup v = none) (rank : Int) :
    (unranked nodes (assign v rank m)).card < (unranked nodes m).card := by
  apply Finset.card_lt_card
  rw [Finset.ssubset_iff_of_subset]
  · exact ⟨v,Finset.mem_filter.mpr ⟨hv,hnone⟩,by simp [unranked,lookup_assign]⟩
  · intro u hu
    obtain ⟨hu,hlookup⟩ := Finset.mem_filter.mp hu
    rw [lookup_assign] at hlookup
    split at hlookup
    · cases hlookup
    · exact Finset.mem_filter.mpr ⟨hu,hlookup⟩

theorem Ranked.mark (h : Ranked successors nodes m) (hv : v ∈ nodes) : Ranked successors nodes (assign v 1 m) where
  mem u rank hu := by
    rw [lookup_assign] at hu
    split at hu
    · next heq => rwa [heq]
    · exact h.mem u rank hu
  final u rank hu hle := by
    rw [lookup_assign] at hu
    split at hu
    · cases hu
      exact absurd hle (by decide)
    · exact h.final u rank hu hle

theorem onPath_mark {u : ν} (h : OnPath (assign v 1 m) u) : u = v ∨ OnPath m u := by
  obtain ⟨rank,hrank,hpos⟩ := h
  rw [lookup_assign] at hrank
  split at hrank
  · next heq => exact .inl heq
  · exact .inr ⟨rank,hrank,hpos⟩

theorem Ranked.finish (h : Ranked successors nodes m') (hv : v ∈ nodes) (hn : IsLongest (Leads successors) v n) :
    Ranked successors nodes (assign v (-n : Int) m') where
  mem u rank hu := by
    rw [lookup_assign] at hu
    split at hu
    · next heq => rwa [heq]
    · exact h.mem u rank hu
  final u rank hu hle := by
    rw [lookup_assign] at hu
    split at hu
    · next heq =>
      cases hu
      exact ⟨n,rfl,heq ▸ hn⟩
    · exact h.final u rank hu hle

theorem Grows.finish (hnone : m.lookup v = none) (h : Grows (assign v 1 m) m') {rank : Int} (hrank : rank ≤ 0) :
    Grows m (assign v rank m') where
  kept u r hu := by
    rw [lookup_assign,if_neg]
    · refine h.kept u r ?_
      rw [lookup_assign,if_neg]
      · exact hu
      · rintro rfl
        exact absurd (hnone.symm.trans hu) (by simp)
    · rintro rfl
      exact absurd (hnone.symm.trans hu) (by simp)
  onPath u hu := by
    obtain ⟨r,hr,hpos⟩ := hu
    rw [lookup_assign] at hr
    split at hr
    · cases hr
      exact absurd hpos (Int.not_lt.mpr hrank)
    · next hne => exact (onPath_mark (h.onPath u ⟨r,hr,hpos⟩)).resolve_left hne

/-- The search stopped at a node that lies on a cycle. -/
def FoundCycle {β : Type} (successors : ν → Except ε (List (Except ε ν))) (cycle : ν → ε) (r : Option (Except ε β)) : Prop :=
  ∃ u,r = some (.error (cycle u)) ∧ Relation.TransGen (Leads successors) u u

/-- What a visit of a node does to the ranks. -/
def Visited (successors : ν → Except ε (List (Except ε ν))) (nodes : Finset ν) (v : ν) (m : Ranks ν)
    (r : Option (Except ε (Int × Ranks ν))) : Prop :=
  ∃ (n : Nat) (m' : Ranks ν),r = some (.ok (-n,m')) ∧ IsLongest (Leads successors) v n ∧ Ranked successors nodes m' ∧
    Grows m m' ∧ m'.lookup v = some (-n : Int)

/-- What the loop over successors does, from a rank on. -/
def Lowered (successors : ν → Except ε (List (Except ε ν))) (nodes : Finset ν) (ws : List (Except ε ν)) (n : Nat) (m : Ranks ν)
    (r : Option (Except ε (Int × Ranks ν))) : Prop :=
  ∃ (n' : Nat) (m' : Ranks ν),r = some (.ok (-n',m')) ∧ Ranked successors nodes m' ∧ Grows m m' ∧ n ≤ n' ∧
    (∀ w,.ok w ∈ ws → ∃ k,IsLongest (Leads successors) w k ∧ k < n') ∧
    (n' = n ∨ ∃ w k,.ok w ∈ ws ∧ IsLongest (Leads successors) w k ∧ n' = k + 1)

variable (cycle : ν → ε)

theorem rankBelow_spec {visit : ν → Ranks ν → Option (Except ε (Int × Ranks ν))}
    (hvisit : ∀ w ∈ nodes,∀ m,Ranked successors nodes m → (∀ u,OnPath m u → Relation.TransGen (Leads successors) u w) →
      (unranked nodes m).card < depth → FoundCycle successors cycle (visit w m) ∨ Visited successors nodes w m (visit w m))
    {ws : List (Except ε ν)} (hws : ∀ x ∈ ws,∃ w ∈ nodes,x = .ok w ∧ Leads successors v w) (n : Nat)
    (hm : Ranked successors nodes m) (hpath : ∀ u,OnPath m u → u = v ∨ Relation.TransGen (Leads successors) u v)
    (hdepth : (unranked nodes m).card < depth) :
    FoundCycle successors cycle (rankBelow visit ws (-n) m) ∨
      Lowered successors nodes ws n m (rankBelow visit ws (-n) m) := by
  induction ws generalizing n m with
  | nil => exact .inr ⟨n,m,rfl,hm,Grows.refl m,le_rfl,by simp,.inl rfl⟩
  | cons x ws ih =>
    obtain ⟨⟨w,hw,rfl,hedge⟩,hrest⟩ := List.forall_mem_cons.mp hws
    have hreach (u : ν) (hu : OnPath m u) : Relation.TransGen (Leads successors) u w := by
      rcases hpath u hu with rfl | h
      · exact .single hedge
      · exact h.tail hedge
    rw [rankBelow]
    rcases hvisit w hw m hm hreach hdepth with ⟨u,hu,hcycle⟩ | ⟨k,m',hk,hlongest,hm',hgrows,-⟩
    · rw [hu]
      exact .inl ⟨u,rfl,hcycle⟩
    · rw [hk]
      have hmin : min (-n : Int) (-k - 1) = -(max n (k + 1) : Nat) := by omega
      have hsmaller : (unranked nodes m').card < depth := (Finset.card_le_card hgrows.unranked_subset).trans_lt hdepth
      simp only [hmin]
      rcases ih hrest (max n (k + 1)) hm' (fun u hu => hpath u (hgrows.onPath u hu)) hsmaller with
        hcycle | ⟨n',m'',hresult,hm'',hgrows',hle,hbound,hattained⟩
      · exact .inl hcycle
      · refine .inr ⟨n',m'',hresult,hm'',hgrows.trans hgrows',(le_max_left _ _).trans hle,fun y hy => ?_,?_⟩
        · rcases List.mem_cons.mp hy with heq | hy
          · cases heq
            exact ⟨k,hlongest,(le_max_right _ _).trans hle⟩
          · exact hbound y hy
        · rcases hattained with rfl | ⟨y,j,hy,hj,rfl⟩
          · rcases max_choice n (k + 1) with hmax | hmax
            · exact .inl hmax
            · exact .inr ⟨w,k,List.mem_cons_self,hlongest,hmax⟩
          · exact .inr ⟨y,j,List.mem_cons_of_mem _ hy,hj,rfl⟩

theorem setAndReturnRank_spec (hclosed : ClosedUnder successors nodes) :
    ∀ v ∈ nodes,∀ m,Ranked successors nodes m → (∀ u,OnPath m u → Relation.TransGen (Leads successors) u v) →
      (unranked nodes m).card < depth → FoundCycle successors cycle (setAndReturnRank successors cycle depth v m) ∨
        Visited successors nodes v m (setAndReturnRank successors cycle depth v m) := by
  induction depth with
  | zero => simp
  | succ depth ih =>
    intro v hv m hm hpath hdepth
    rw [setAndReturnRank]
    cases hlookup : m.lookup v with
    | some rank =>
      by_cases hle : rank ≤ 0
      · obtain ⟨n,rfl,hn⟩ := hm.final v rank hlookup hle
        exact .inr ⟨n,m,if_pos hle,hn,hm,Grows.refl m,hlookup⟩
      · exact .inl ⟨v,if_neg hle,hpath v ⟨rank,hlookup,Int.not_le.mp hle⟩⟩
    | none =>
      obtain ⟨ws,hws,hmem⟩ := hclosed v hv
      have hsuccessors : ∀ x ∈ ws,∃ w ∈ nodes,x = .ok w ∧ Leads successors v w := by
        intro x hx
        obtain ⟨w,hw,rfl⟩ := hmem x hx
        exact ⟨w,hw,rfl,ws,hws,hx⟩
      have hmarked (u : ν) (hu : OnPath (assign v 1 m) u) : u = v ∨ Relation.TransGen (Leads successors) u v :=
        (onPath_mark hu).imp id (hpath u)
      have hsmaller : (unranked nodes (assign v 1 m)).card < depth :=
        (card_unranked_assign hv hlookup 1).trans_le (Nat.le_of_lt_succ hdepth)
      simp only [hws]
      rcases rankBelow_spec cycle ih hsuccessors 0 (hm.mark hv) hmarked hsmaller with
        ⟨u,hu,hcycle⟩ | ⟨n,m',hresult,hm',hgrows,-,hbound,hattained⟩
      · change rankBelow _ ws 0 _ = _ at hu
        rw [hu]
        exact .inl ⟨u,rfl,hcycle⟩
      · change rankBelow _ ws 0 _ = _ at hresult
        rw [hresult]
        have hlongest : IsLongest (Leads successors) v n := by
          apply isLongest_of_successors
          · rintro w ⟨ws',hws',hw⟩
            cases hws.symm.trans hws'
            exact hbound w hw
          · rcases hattained with hzero | ⟨w,k,hw,hk,hn⟩
            · exact .inl hzero
            · exact .inr ⟨w,k,⟨ws,hws,hw⟩,hk,hn⟩
        refine .inr ⟨n,assign v (-n) m',rfl,hlongest,hm'.finish hv hlongest,hgrows.finish hlookup (by omega),?_⟩
        rw [lookup_assign,if_pos rfl]

theorem rankNodes_spec (hclosed : ClosedUnder successors nodes) {vs : List ν} (hvs : ∀ v ∈ vs,v ∈ nodes)
    (hm : Ranked successors nodes m) (hpath : ∀ u,¬ OnPath m u) (hdepth : nodes.card < depth) :
    FoundCycle successors cycle (rankNodes successors cycle depth vs m) ∨
      ∃ m',rankNodes successors cycle depth vs m = some (.ok m') ∧ Ranked successors nodes m' ∧ Grows m m' ∧
        ∀ v ∈ vs,∃ n : Nat,m'.lookup v = some (-n : Int) ∧ IsLongest (Leads successors) v n := by
  induction vs generalizing m with
  | nil => exact .inr ⟨m,rfl,hm,Grows.refl m,by simp⟩
  | cons v vs ih =>
    obtain ⟨hv,hvs⟩ := List.forall_mem_cons.mp hvs
    have hcard : (unranked nodes m).card < depth := (Finset.card_filter_le _ _).trans_lt hdepth
    rw [rankNodes]
    rcases setAndReturnRank_spec cycle hclosed v hv m hm (fun u hu => absurd hu (hpath u)) hcard with
      ⟨u,hu,hcycle⟩ | ⟨n,m',hresult,hlongest,hm',hgrows,hlookup⟩
    · rw [hu]
      exact .inl ⟨u,rfl,hcycle⟩
    · rw [hresult]
      rcases ih hvs hm' (fun u hu => hpath u (hgrows.onPath u hu)) with hcycle | ⟨m'',hrest,hm'',hgrows',hall⟩
      · exact .inl hcycle
      · refine .inr ⟨m'',hrest,hm'',hgrows.trans hgrows',fun u hu => ?_⟩
        rcases List.mem_cons.mp hu with rfl | hu
        · exact ⟨n,hgrows'.kept u _ hlookup,hlongest⟩
        · exact hall u hu

end SonicPins.Lib
