import SonicPins.JsonYang.Flattening

/-! Documents compared by their flattened maps, against their leaves: which documents the
comparison tells apart as it should. -/
namespace SonicPins.JsonYang
open Lib JsonTree

variable {ls : List (Leaf JsonScalar)} {path : String} {α : Type} {s : JsonScalar} {y j j' x : Value} {u v : List Char}
  {l : Leaf JsonScalar} {yangPathKeyNameMap : StringSetMap}

theorem ordered_fill (path : String) (ls : List (Leaf JsonScalar)) {m : StringMap} (hm : Ordered m) : Ordered (fill path ls m) :=
  ordered_foldl_assign (fun l => path ++ (written l).1) (fun l => (written l).2) ls hm

/-- No two leaves are written to one path with different texts. -/
def Consistent (ls : List (Leaf JsonScalar)) : Prop :=
  ∀ l ∈ ls,∀ l' ∈ ls,(written l).1 = (written l').1 → (written l).2 = (written l').2

theorem foldl_differences (f : α → List String) (l : List α) (answer : Bool) (differences : List String) :
    l.foldl (fun result x => (result.1 && (f x).isEmpty,result.2 ++ f x)) (answer,differences) =
      (answer && l.all fun x => (f x).isEmpty,differences ++ l.flatMap f) := by
  induction l generalizing answer differences with
  | nil => simp
  | cons x l ih =>
    rw [List.foldl_cons,ih,List.all_cons,List.flatMap_cons,Bool.and_assoc,List.append_assoc]

private theorem isSubset_iff {source target : StringMap} (hsource : Ordered source) (differences : List String) :
    (isSubset source target differences).1 = true ↔ ∀ path text,source.lookup path = some text → target.lookup path = some text := by
  have hquiet : ∀ entry,(subsetDifference target entry).isEmpty = true ↔ target.lookup entry.1 = some entry.2 := by
    intro entry
    unfold subsetDifference
    cases htarget : target.lookup entry.1 with
    | none => simp
    | some text =>
      by_cases hne : entry.2 = text
      · simp [hne]
      · simp [hne,Ne.symm hne]
  rw [isSubset,foldl_differences,Bool.true_and,List.all_eq_true]
  constructor
  · intro h path text hlookup
    exact (hquiet _).mp (h (path,text) (hsource.lookup_eq_some.mp hlookup))
  · intro h entry hentry
    exact (hquiet entry).mpr (h entry.1 entry.2 (hsource.lookup_eq_some.mpr hentry))

theorem pathDifference_isEmpty {flatLhs flatRhs : StringMap} :
    (pathDifference flatLhs flatRhs path).isEmpty = true ↔ flatLhs.lookup path = flatRhs.lookup path := by
  unfold pathDifference
  cases flatLhs.lookup path with
  | none => cases flatRhs.lookup path <;> simp
  | some lhsValue =>
    cases flatRhs.lookup path with
    | none => simp
    | some rhsValue => by_cases hne : lhsValue = rhsValue <;> simp [hne]

private theorem areJsonEqual_ok {lhs rhs : Value} {flatLhs flatRhs : StringMap}
    (hlhs : flattenJsonToMap yangPathKeyNameMap lhs false = .ok flatLhs)
    (hrhs : flattenJsonToMap yangPathKeyNameMap rhs false = .ok flatRhs) :
    ∃ answer differences,areJsonEqual lhs rhs yangPathKeyNameMap [] = .ok (answer,differences) ∧
      (answer = true ↔ ∀ path,flatLhs.lookup path = flatRhs.lookup path) ∧ (differences = [] ↔ answer = true) := by
  let allPaths := (flatLhs ++ flatRhs).foldl (fun paths entry => assign entry.1 () paths) ([] : List (String × Unit))
  have hpaths : ∀ path,path ∈ allPaths.map Prod.fst ↔ path ∈ (flatLhs ++ flatRhs).map Prod.fst := by
    intro path
    exact (mem_keys_foldl_assign (fun entry : String × String => entry.1) (fun _ => ()) (flatLhs ++ flatRhs) [] path).trans
      (or_iff_left List.not_mem_nil)
  refine ⟨allPaths.all fun entry => (pathDifference flatLhs flatRhs entry.1).isEmpty,
    allPaths.flatMap fun entry => pathDifference flatLhs flatRhs entry.1,?_,?_,?_⟩
  · rw [areJsonEqual,hlhs,hrhs]
    change Except.ok (allPaths.foldl _ _) = _
    rw [foldl_differences (fun entry : String × Unit => pathDifference flatLhs flatRhs entry.1),Bool.true_and,List.nil_append]
  · rw [List.all_eq_true]
    constructor
    · intro h path
      by_cases hmem : path ∈ (flatLhs ++ flatRhs).map Prod.fst
      · obtain ⟨entry,hentry,rfl⟩ := List.mem_map.mp ((hpaths path).mpr hmem)
        exact pathDifference_isEmpty.mp (h entry hentry)
      · rw [List.map_append,List.mem_append,not_or] at hmem
        have habsent : ∀ {m : StringMap},path ∉ m.map Prod.fst → m.lookup path = none := by
          intro m hm
          cases hlookup : m.lookup path with
          | none => rfl
          | some text => exact absurd (List.mem_map_of_mem (mem_of_lookup_eq_some hlookup)) hm
        rw [habsent hmem.1,habsent hmem.2]
    · intro h entry _
      exact pathDifference_isEmpty.mpr (h entry.1)
  · rw [List.flatMap_eq_nil_iff,List.all_eq_true]
    simp only [List.isEmpty_iff]

/-- Another order of the same elements and members; members are kept by their names. -/
structure Reordered (j j' : Value) : Prop where
  same : UpToOrder Eq j j'
  ordered : j.EveryObject fun m => Ordered m
  ordered' : j'.EveryObject fun m => Ordered m

theorem Reordered.refl (h : j.EveryObject fun m => Ordered m) : Reordered j j :=
  ⟨upToOrder_refl ⟨fun _ => rfl,Eq.symm,Eq.trans⟩ j,h,h⟩

theorem Reordered.symm (h : Reordered j j') : Reordered j' j :=
  ⟨h.same.symm ⟨fun _ => rfl,Eq.symm,Eq.trans⟩,h.ordered',h.ordered⟩

theorem Reordered.scalar (h : Reordered (.scalar s) j') : j' = .scalar s := by
  cases h.same with
  | scalar heq => rw [heq]

theorem Reordered.elem {xs : List Value} (h : Reordered (.arr xs) j') :
    ∃ ys,j' = .arr ys ∧ ∀ x ∈ xs,∃ y ∈ ys,Reordered x y := by
  cases j' with
  | arr ys =>
    refine ⟨ys,rfl,fun x hx => ?_⟩
    obtain ⟨l,hl,hperm⟩ := upToOrder_arr.mp h.same
    obtain ⟨y,hy,hxy⟩ := exists_of_forall₂_left hl hx
    have hy' := hperm.subset hy
    exact ⟨y,hy',hxy,everyObject_arr.mp h.ordered x hx,everyObject_arr.mp h.ordered' y hy'⟩
  | _ => cases h.same

theorem Reordered.member {m : List (String × Value)} (h : Reordered (.obj m) j') :
    ∃ n,j' = .obj n ∧ ∀ p ∈ m,∃ v,n.lookup p.1 = some v ∧ (p.1,v) ∈ n ∧ Reordered p.2 v := by
  cases j' with
  | obj n =>
    obtain ⟨hm,hvalues⟩ := everyObject_obj.mp h.ordered
    obtain ⟨hn,hvalues'⟩ := everyObject_obj.mp h.ordered'
    refine ⟨n,rfl,fun p hp => ?_⟩
    obtain ⟨v,hv,hsame⟩ := ((upToOrder_obj_iff hm hn).mp h.same).2 p hp
    have hmem := hn.lookup_eq_some.mp hv
    exact ⟨v,hv,hmem,hsame,hvalues p hp,hvalues' _ hmem⟩
  | _ => cases h.same

theorem keyLeaf?_eq_some {element : Value} {keyName : String} :
    keyLeaf? element keyName = some s ↔ ∃ m,element = .obj m ∧ m.lookup keyName = some (.scalar s) := by
  unfold keyLeaf? find?
  cases element with
  | obj m =>
    cases hlookup : m.lookup keyName with
    | none => simp [hlookup]
    | some value => cases value <;> simp [hlookup]
  | _ => simp

theorem Reordered.keyLeaf? (h : Reordered x y) (keyName : String) : keyLeaf? x keyName = keyLeaf? y keyName := by
  have hsome : ∀ {x y : Value},Reordered x y → ∀ s,JsonYang.keyLeaf? x keyName = some s → JsonYang.keyLeaf? y keyName = some s := by
    intro x y h s hs
    obtain ⟨m,rfl,hlookup⟩ := keyLeaf?_eq_some.mp hs
    obtain ⟨n,rfl,hvalues⟩ := h.member
    obtain ⟨v,hv,-,hsame⟩ := hvalues _ (mem_of_lookup_eq_some hlookup)
    exact keyLeaf?_eq_some.mpr ⟨n,rfl,by rw [hv,hsame.scalar]⟩
  apply Option.ext
  intro s
  exact ⟨hsome h s,hsome h.symm s⟩

theorem Reordered.stepTo (h : Reordered x y) (keyNames : List String) : stepTo keyNames x = stepTo keyNames y := by
  unfold JsonYang.stepTo
  simp only [h.keyLeaf?]
  split_ifs
  · cases x with
    | scalar s => rw [h.scalar]
    | null => cases h.same; rfl
    | arr xs => obtain ⟨ys,rfl,-⟩ := h.elem; rfl
    | obj m => obtain ⟨n,rfl,-⟩ := h.member; rfl
  · rfl

/-- A leaf by the texts of its path and of its value, integers in full. -/
def fullLeaf (l : Leaf JsonScalar) : Leaf String := l.map fullText

def SameLeaves (yangPathKeyNameMap : StringSetMap) (x y : Value) : Prop :=
  ∀ l,l ∈ (leaves yangPathKeyNameMap "" x).map fullLeaf ↔ l ∈ (leaves yangPathKeyNameMap "" y).map fullLeaf

/-- The comparison returns whether the documents have the same leaves, as the comparisons of
subsets do in both directions, and reports differences exactly when they have not. -/
structure ComparesWell (yangPathKeyNameMap : StringSetMap) (x y : Value) : Prop where
  equal : ∃ answer differences,areJsonEqual x y yangPathKeyNameMap [] = .ok (answer,differences) ∧
    (answer = true ↔ SameLeaves yangPathKeyNameMap x y) ∧ (differences = [] ↔ answer = true)
  subsets : ∃ there differences back differences',isJsonSubset x y yangPathKeyNameMap [] = .ok (there,differences) ∧
    isJsonSubset y x yangPathKeyNameMap [] = .ok (back,differences') ∧
    (there = true ∧ back = true ↔ SameLeaves yangPathKeyNameMap x y)

theorem isJsonSubset_ok (hx : Flattens yangPathKeyNameMap "" x) (hy : Flattens yangPathKeyNameMap "" y) :
    ∃ there differences,isJsonSubset x y yangPathKeyNameMap [] = .ok (there,differences) ∧ (there = true ↔
      ∀ path text,(fill "" (leaves yangPathKeyNameMap "" x) []).lookup path = some text →
        (fill "" (leaves yangPathKeyNameMap "" y) []).lookup path = some text) := by
  refine ⟨_,(isSubset (fill "" (leaves yangPathKeyNameMap "" x) []) (fill "" (leaves yangPathKeyNameMap "" y) []) []).2,?_,
    isSubset_iff (ordered_fill "" _ ordered_nil) []⟩
  rw [isJsonSubset,flattenJsonToMap_eq_ok.mpr ⟨hx,rfl⟩,flattenJsonToMap_eq_ok.mpr ⟨hy,rfl⟩]
  rfl

theorem compared (hx : Flattens yangPathKeyNameMap "" x) (hy : Flattens yangPathKeyNameMap "" y) :
    ComparesWell yangPathKeyNameMap x y ↔ ((∀ path,(fill "" (leaves yangPathKeyNameMap "" x) []).lookup path =
      (fill "" (leaves yangPathKeyNameMap "" y) []).lookup path) ↔ SameLeaves yangPathKeyNameMap x y) := by
  have hflatX := flattenJsonToMap_eq_ok.mpr ⟨hx,rfl⟩
  have hflatY := flattenJsonToMap_eq_ok.mpr ⟨hy,rfl⟩
  obtain ⟨answer,differences,hequal,hanswer,hdifferences⟩ := areJsonEqual_ok hflatX hflatY
  constructor
  · rintro ⟨⟨answer',differences',hequal',hsame,-⟩,-⟩
    obtain ⟨rfl,rfl⟩ := Prod.mk.inj (Except.ok.inj (hequal.symm.trans hequal'))
    rw [← hanswer,hsame]
  · intro h
    refine ⟨⟨answer,differences,hequal,hanswer.trans h,hdifferences⟩,?_⟩
    obtain ⟨there,differences,hthere,hthereIff⟩ := isJsonSubset_ok hx hy
    obtain ⟨back,differences',hback,hbackIff⟩ := isJsonSubset_ok hy hx
    refine ⟨there,differences,back,differences',hthere,hback,?_⟩
    rw [hthereIff,hbackIff,← h]
    constructor
    · rintro ⟨hforth,hback⟩ path
      apply Option.ext
      intro text
      exact ⟨hforth path text,hback path text⟩
    · intro heq
      exact ⟨fun path text htext => heq path ▸ htext,fun path text htext => (heq path).symm ▸ htext⟩

def FitsInt : JsonScalar → Prop
  | .int i => i.toInt32.toInt = i.toInt
  | .uint u => u.toUInt32.toNat = u.toNat
  | _ => True

/-- The scalars that stand in the path of a leaf. -/
def PathStep.keys : PathStep JsonScalar → List JsonScalar
  | .name _ => []
  | .item s => [s]
  | .entry keys => keys.map Prod.snd

theorem FitsInt.text (h : FitsInt s) : getSimpleJsonValueAsString s = fullText s := by
  cases s with
  | int i => exact congrArg decimal h
  | uint u => exact congrArg (fun n : Nat => decimal n) h
  | _ => rfl

def port (name : String) (lanes : List UInt64) : Value :=
  .obj [("lanes",.arr (lanes.map fun lane => .scalar (.uint lane))),("name",.scalar (.string name))]

def ports (ps : List (String × List UInt64)) : Value := .obj [("ports",.arr (ps.map fun p => port p.1 p.2))]

def counter (s : JsonScalar) : Value := .obj [("counter",.scalar s)]

end SonicPins.JsonYang
