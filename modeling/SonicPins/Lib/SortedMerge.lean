import SonicPins.Lib.SortedMap

/-! Merging two ordered maps: what is reported of their keys, one by one. -/
namespace SonicPins.Lib

section Merge
variable {κ α β ε : Type} [LinearOrder κ] (left : κ × α → List ε) (right : κ × β → List ε) (both : κ × α → κ × β → List ε)

/-- Merges `a :: as` with a map, where `rest` merges `as`. -/
def mergeReportsFrom (a : κ × α) (as : List (κ × α)) (rest : List (κ × β) → List ε) : List (κ × β) → List ε
  | [] => (a :: as).flatMap left
  | b :: bs =>
    if b.1 < a.1 then right b ++ mergeReportsFrom a as rest bs
    else if a.1 < b.1 then left a ++ rest (b :: bs)
    else both a b ++ rest bs

/-- Two cursors over ordered maps; the smaller key is reported first. -/
def mergeReports : List (κ × α) → List (κ × β) → List ε
  | [] => fun bs => bs.flatMap right
  | a :: as => mergeReportsFrom left right both a as (mergeReports as)

/-- What is reported of one key. -/
def reportAt (as : List (κ × α)) (bs : List (κ × β)) (k : κ) : List ε :=
  match as.lookup k,bs.lookup k with
  | some x,some y => both (k,x) (k,y)
  | some x,none => left (k,x)
  | none,some y => right (k,y)
  | none,none => []

/-- The reports of all keys of two maps, in the order of the keys. -/
def ReportsByKey (as : List (κ × α)) (bs : List (κ × β)) (reports : List ε) : Prop :=
  ∃ keys : List κ,keys.Pairwise (· < ·) ∧ (∀ k,k ∈ keys ↔ k ∈ as.map Prod.fst ∨ k ∈ bs.map Prod.fst) ∧
    reports = keys.flatMap (reportAt left right both as bs)

end Merge

variable {κ α β ε : Type} [LinearOrder κ] {left : κ × α → List ε} {right : κ × β → List ε} {both : κ × α → κ × β → List ε}

theorem reportAt_congr {as as' : List (κ × α)} {bs bs' : List (κ × β)} {k : κ} (ha : as.lookup k = as'.lookup k)
    (hb : bs.lookup k = bs'.lookup k) : reportAt left right both as bs k = reportAt left right both as' bs' k := by
  unfold reportAt
  rw [ha,hb]

/-- A key below all others is reported first. -/
theorem ReportsByKey.cons {as as' : List (κ × α)} {bs bs' : List (κ × β)} {reports : List ε} {k : κ}
    (h : ReportsByKey left right both as bs reports) (hlt : ∀ k' ∈ as.map Prod.fst ++ bs.map Prod.fst,k < k')
    (hkeys : ∀ k',k' ∈ as'.map Prod.fst ∨ k' ∈ bs'.map Prod.fst ↔ k' = k ∨ k' ∈ as.map Prod.fst ∨ k' ∈ bs.map Prod.fst)
    (ha : ∀ k',k' ≠ k → as'.lookup k' = as.lookup k') (hb : ∀ k',k' ≠ k → bs'.lookup k' = bs.lookup k') :
    ReportsByKey left right both as' bs' (reportAt left right both as' bs' k ++ reports) := by
  obtain ⟨keys,hsorted,hmem,rfl⟩ := h
  have hfirst : ∀ k' ∈ keys,k < k' := fun k' hk' => hlt k' (List.mem_append.mpr ((hmem k').mp hk'))
  refine ⟨k :: keys,List.pairwise_cons.mpr ⟨hfirst,hsorted⟩,fun k' => ?_,?_⟩
  · rw [List.mem_cons,hmem,hkeys]
  · rw [List.flatMap_cons]
    congr 1
    refine List.flatMap_congr fun k' hk' => ?_
    have hne : k' ≠ k := (hfirst k' hk').ne'
    exact (reportAt_congr (ha k' hne) (hb k' hne)).symm

theorem reportsByKey_right {bs : List (κ × β)} (hbs : Ordered bs) :
    ReportsByKey left right both ([] : List (κ × α)) bs (bs.flatMap right) := by
  refine ⟨bs.map Prod.fst,List.pairwise_map.mpr hbs,by simp,?_⟩
  rw [List.flatMap_map]
  refine List.flatMap_congr fun b hb => ?_
  have hlookup : bs.lookup b.1 = some b.2 := hbs.lookup_eq_some.mpr hb
  simp [reportAt,hlookup]

theorem reportsByKey_left {as : List (κ × α)} (has : Ordered as) :
    ReportsByKey left right both as ([] : List (κ × β)) (as.flatMap left) := by
  refine ⟨as.map Prod.fst,List.pairwise_map.mpr has,by simp,?_⟩
  rw [List.flatMap_map]
  refine List.flatMap_congr fun a ha => ?_
  have hlookup : as.lookup a.1 = some a.2 := has.lookup_eq_some.mpr ha
  simp [reportAt,hlookup]

theorem reportsByKey_mergeReportsFrom {a : κ × α} {as : List (κ × α)} (ha : ∀ x ∈ as,a.1 < x.1) (has : Ordered as)
    {rest : List (κ × β) → List ε} (hrest : ∀ bs,Ordered bs → ReportsByKey left right both as bs (rest bs))
    {bs : List (κ × β)} (hbs : Ordered bs) :
    ReportsByKey left right both (a :: as) bs (mergeReportsFrom left right both a as rest bs) := by
  induction bs with
  | nil => exact reportsByKey_left (List.pairwise_cons.mpr ⟨ha,has⟩)
  | cons b bs ih =>
    obtain ⟨hb,hordered⟩ := List.pairwise_cons.mp hbs
    have hother {γ : Type} (x : κ × γ) (m : List (κ × γ)) (k' : κ) (hne : k' ≠ x.1) : (x :: m).lookup k' = m.lookup k' := by
      rw [lookup_cons_ite,if_neg hne]
    have hself {γ : Type} (x : κ × γ) (m : List (κ × γ)) : (x :: m).lookup x.1 = some x.2 := by
      rw [lookup_cons_ite,if_pos rfl]
    unfold mergeReportsFrom
    split_ifs with hlt hgt
    · have hreport : reportAt left right both (a :: as) (b :: bs) b.1 = right b := by
        have hnone : (a :: as).lookup b.1 = none :=
          lookup_eq_none_of_lt (List.forall_mem_cons.mpr ⟨hlt,fun x hx => hlt.trans (ha x hx)⟩)
        rw [reportAt,hnone,hself]
      rw [← hreport]
      refine (ih hordered).cons ?_ (by simp; tauto) (fun _ _ => rfl) (hother b bs)
      simp only [List.mem_append,List.mem_map]
      rintro k' (⟨x,hx,rfl⟩ | ⟨x,hx,rfl⟩)
      · rcases List.mem_cons.mp hx with rfl | hx
        · exact hlt
        · exact hlt.trans (ha x hx)
      · exact hb x hx
    · have hreport : reportAt left right both (a :: as) (b :: bs) a.1 = left a := by
        have hnone : (b :: bs).lookup a.1 = none :=
          lookup_eq_none_of_lt (List.forall_mem_cons.mpr ⟨hgt,fun x hx => hgt.trans (hb x hx)⟩)
        rw [reportAt,hnone,hself]
      rw [← hreport]
      refine (hrest _ hbs).cons ?_ (by simp; tauto) (hother a as) (fun _ _ => rfl)
      simp only [List.mem_append,List.mem_map]
      rintro k' (⟨x,hx,rfl⟩ | ⟨x,hx,rfl⟩)
      · exact ha x hx
      · rcases List.mem_cons.mp hx with rfl | hx
        · exact hgt
        · exact hgt.trans (hb x hx)
    · have heq : b.1 = a.1 := le_antisymm (not_lt.mp hgt) (not_lt.mp hlt)
      have hreport : reportAt left right both (a :: as) (b :: bs) a.1 = both a b := by
        obtain ⟨kb,y⟩ := b
        obtain rfl : kb = a.1 := heq
        rw [reportAt,hself,hself (a.1,y)]
      rw [← hreport]
      refine (hrest _ hordered).cons ?_ (by simp [heq]; tauto) (hother a as) (heq ▸ hother b bs)
      simp only [List.mem_append,List.mem_map]
      rintro k' (⟨x,hx,rfl⟩ | ⟨x,hx,rfl⟩)
      · exact ha x hx
      · exact heq ▸ hb x hx

theorem reportsByKey_mergeReports {as : List (κ × α)} {bs : List (κ × β)} (has : Ordered as) (hbs : Ordered bs) :
    ReportsByKey left right both as bs (mergeReports left right both as bs) := by
  induction as generalizing bs with
  | nil => exact reportsByKey_right hbs
  | cons a as ih =>
    obtain ⟨ha,hordered⟩ := List.pairwise_cons.mp has
    exact reportsByKey_mergeReportsFrom ha hordered (fun bs h => ih hordered h) hbs

end SonicPins.Lib
