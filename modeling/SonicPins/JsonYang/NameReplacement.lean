import SonicPins.Lib.DoubleIndex
import SonicPins.Lib.JsonTree
import SonicPins.Lib.Renaming
import SonicPins.Lib.SortedMap
import Mathlib.Data.String.Basic

/-! The names of the members of a JSON document, replaced by a map from old to new names: in a
copy, and in the document itself. -/
namespace SonicPins.JsonYang
open Lib JsonTree

variable {σ : Type}

/-- The members of an object, in the order of their names. -/
abbrev Members (σ : Type) := List (String × JsonTree σ)

/-- `ReplaceNamesinJsonObject`, which returns a copy. -/
def replaceNamesinJsonObject (oldNameToNewNameMap : List (String × String)) : JsonTree σ → JsonTree σ
  | .obj m => .obj ((m.map fun p => (renamed oldNameToNewNameMap p.1,replaceNamesinJsonObject oldNameToNewNameMap p.2)).foldl
      (fun target p => assign p.1 p.2 target) [])
  | .arr xs => .arr (xs.map (replaceNamesinJsonObject oldNameToNewNameMap))
  | .scalar s => .scalar s
  | .null => .null
termination_by j => sizeOf j
decreasing_by
  · exact sizeOf_lt_obj ‹_›
  · exact sizeOf_lt_arr ‹_›

/-- One name replaced: the new name gets a null, the values are swapped, the old name is erased. -/
def replaceName (root : Members σ) (pair : String × String) : Members σ :=
  if (root.lookup pair.1).isNone then root
  else
    let root := assign pair.2 .null root
    let oldValue := (root.lookup pair.1).getD .null
    let newValue := (root.lookup pair.2).getD .null
    let root := assign pair.2 oldValue (assign pair.1 newValue root)
    root.filter fun p => p.1 ≠ pair.1

private theorem mem_replaceName {root : Members σ} {pair : String × String} {p : String × JsonTree σ} (h : p ∈ replaceName root pair) :
    p.2 = .null ∨ ∃ q ∈ root,q.2 = p.2 := by
  have hvalue : ∀ {m : Members σ} {k : String},(∀ q ∈ m,q.2 = .null ∨ ∃ r ∈ root,r.2 = q.2) →
      (m.lookup k).getD .null = .null ∨ ∃ r ∈ root,r.2 = (m.lookup k).getD .null := by
    intro m k hm
    cases hk : m.lookup k with
    | none => exact .inl rfl
    | some v => exact hm (k,v) (mem_of_lookup_eq_some hk)
  unfold replaceName at h
  split at h
  · exact .inr ⟨p,h,rfl⟩
  · have hnull : ∀ q ∈ assign pair.2 .null root,q.2 = .null ∨ ∃ r ∈ root,r.2 = q.2 := by
      intro q hq
      rcases mem_assign hq with rfl | hq
      · exact .inl rfl
      · exact .inr ⟨q,hq,rfl⟩
    rcases mem_assign (List.mem_filter.mp h).1 with rfl | h
    · exact hvalue hnull
    · rcases mem_assign h with rfl | h
      · exact hvalue hnull
      · exact hnull p h

private theorem mem_foldl_replaceName {order : List (String × String)} {root : Members σ} {p : String × JsonTree σ}
    (h : p ∈ order.foldl replaceName root) : p.2 = .null ∨ ∃ q ∈ root,q.2 = p.2 := by
  induction order generalizing root with
  | nil => exact .inr ⟨p,h,rfl⟩
  | cons pair order ih =>
    rcases ih h with hnull | ⟨q,hq,hqp⟩
    · exact .inl hnull
    · rw [← hqp]
      exact mem_replaceName hq

/-- `ReplaceNamesinJsonObject`, which changes the document; `order` is the order in which the map is iterated. -/
def replaceNamesinJsonObjectInPlace (order : List (String × String)) : JsonTree σ → JsonTree σ
  | .obj m => .obj ((order.foldl replaceName m).attach.map fun p => (p.1.1,replaceNamesinJsonObjectInPlace order p.1.2))
  | .arr xs => .arr (xs.map (replaceNamesinJsonObjectInPlace order))
  | .scalar s => .scalar s
  | .null => .null
termination_by j => sizeOf j
decreasing_by
  · rcases mem_foldl_replaceName p.2 with hnull | ⟨q,hq,hqp⟩
    · have hpos : 0 < sizeOf m := by cases m <;> simp
      rw [hnull,JsonTree.null.sizeOf_spec,JsonTree.obj.sizeOf_spec]
      omega
    · rw [← hqp]
      exact sizeOf_lt_obj hq
  · exact sizeOf_lt_arr ‹_›

theorem replaceNamesinJsonObjectInPlace_obj (order : List (String × String)) (m : Members σ) :
    replaceNamesinJsonObjectInPlace order (.obj m) =
      .obj ((order.foldl replaceName m).map fun p => (p.1,replaceNamesinJsonObjectInPlace order p.2)) := by
  rw [replaceNamesinJsonObjectInPlace]
  congr 1
  exact List.attach_map_val (f := fun p : String × JsonTree σ => (p.1,replaceNamesinJsonObjectInPlace order p.2))

section Members
variable {pairs : List (String × String)} {m : Members σ}

private theorem ordered_replaceName (hm : Ordered m) (pair : String × String) : Ordered (replaceName m pair) := by
  unfold replaceName
  split
  · exact hm
  · exact (((hm.assign _ _).assign _ _).assign _ _).filter _

private theorem lookup_replaceName (m : Members σ) (pair : String × String) :
    ((replaceName m pair).lookup ·) = moveKey (m.lookup ·) pair := by
  funext k
  unfold replaceName moveKey
  by_cases hnone : (m.lookup pair.1).isNone
  · rw [if_pos hnone,if_pos hnone]
  · have hsome : ∃ v,m.lookup pair.1 = some v := by simpa [← Option.isSome_iff_exists] using hnone
    obtain ⟨v,hv⟩ := hsome
    rw [if_neg hnone,if_neg hnone]
    simp only [lookup_filter_ne,lookup_assign]
    by_cases hold : k = pair.1
    · rw [if_pos hold,if_pos hold]
    · rw [if_neg hold,if_neg hold]
      by_cases hnew : k = pair.2
      · have hne : pair.1 ≠ pair.2 := fun h => hold (hnew.trans h.symm)
        simp [hnew,hne,Ne.symm hne,hv]
      · rw [if_neg hnew,if_neg hold,if_neg hnew,if_neg hnew]

private theorem foldl_replaceName (pairs : List (String × String)) (hm : Ordered m) : Ordered (pairs.foldl replaceName m) ∧
    ((pairs.foldl replaceName m).lookup ·) = pairs.foldl moveKey (m.lookup ·) := by
  induction pairs generalizing m with
  | nil => exact ⟨hm,rfl⟩
  | cons pair pairs ih =>
    obtain ⟨hordered,hlookup⟩ := ih (ordered_replaceName hm pair)
    refine ⟨hordered,?_⟩
    rw [List.foldl_cons,hlookup,lookup_replaceName,List.foldl_cons]

theorem copied_members (hkeys : (pairs.map Prod.fst).Nodup) (hnames : (pairs.map Prod.snd).Nodup) (hm : Ordered m)
    (hclash : NoClash pairs (m.lookup ·)) (f : JsonTree σ → JsonTree σ) {n : Members σ}
    (hn : n = (m.map fun p => (renamed pairs p.1,f p.2)).foldl (fun target p => assign p.1 p.2 target) []) :
    Ordered n ∧ RenamedBy (renamed pairs) (fun k => (m.lookup k).map f) (n.lookup ·) := by
  have hpresent : ∀ p ∈ m,m.lookup p.1 ≠ none := by
    intro p hp
    rw [hm.lookup_eq_some.mpr hp]
    exact Option.some_ne_none _
  have hdistinct : ((m.map fun p => (renamed pairs p.1,f p.2)).map Prod.fst).Nodup := by
    rw [List.map_map]
    refine List.Nodup.map_on (fun p hp q hq heq => ?_) (List.Nodup.of_map _ hm.nodupKeys)
    have hname := renamed_injOn hkeys hnames hclash (hpresent p hp) (hpresent q hq) heq
    exact List.inj_on_of_nodup_map hm.nodupKeys hp hq hname
  have hordered : Ordered n := hn ▸ ordered_foldl_assign Prod.fst Prod.snd _ ordered_nil
  have hmem : ∀ k w,n.lookup k = some w ↔ ∃ p ∈ m,(renamed pairs p.1,f p.2) = (k,w) := by
    intro k w
    rw [hordered.lookup_eq_some,hn,(perm_foldl_assign hdistinct).mem_iff,List.mem_map]
  refine ⟨hordered,⟨fun k w hw => ?_,fun k w hw => ?_⟩⟩
  · obtain ⟨v,hv,rfl⟩ := Option.map_eq_some_iff.mp hw
    exact (hmem _ _).mpr ⟨(k,v),hm.lookup_eq_some.mp hv,rfl⟩
  · obtain ⟨p,hp,heq⟩ := (hmem k w).mp hw
    obtain ⟨rfl,rfl⟩ := Prod.mk.inj heq
    refine ⟨p.1,rfl,?_⟩
    rw [hm.lookup_eq_some.mpr hp,Option.map_some]

end Members

section Documents
variable {pairs : List (String × String)} {j : JsonTree σ}

/-- The path of a value once the names are replaced. -/
def renameStep (pairs : List (String × String)) : Step → Step
  | .name name => .name (renamed pairs name)
  | .index i => .index i

/-- Every value of a document stands in the other one, once, under its renamed path, and nothing else does. -/
structure CarriesEachOnce (pairs : List (String × String)) (j j' : JsonTree σ) : Prop where
  carried : ∀ path v,j.at path = some v →
    j'.at (path.map (renameStep pairs)) = some (replaceNamesinJsonObject pairs v)
  once : ∀ path,j'.at path ≠ none → ∃! path',j.at path' ≠ none ∧ path'.map (renameStep pairs) = path

/-- The documents that the renaming is about: members in the order of their names, and in no
object an old name beside another name that it is mapped to. -/
structure Renameable (pairs : List (String × String)) (j : JsonTree σ) : Prop where
  ordered : j.EveryObject fun m => Ordered m
  noClash : j.EveryObject fun m => NoClash pairs (m.lookup ·)

theorem Renameable.child (h : Renameable pairs j) {s : Step} {v : JsonTree σ} (hv : j.child s = some v) :
    Renameable pairs v := ⟨h.ordered.child hv,h.noClash.child hv⟩

theorem Renameable.elem {xs : List (JsonTree σ)} (h : Renameable pairs (.arr xs)) {x : JsonTree σ} (hx : x ∈ xs) :
    Renameable pairs x := ⟨everyObject_arr.mp h.ordered x hx,everyObject_arr.mp h.noClash x hx⟩

theorem Renameable.member {m : Members σ} (h : Renameable pairs (.obj m)) {p : String × JsonTree σ} (hp : p ∈ m) :
    Renameable pairs p.2 := ⟨(everyObject_obj.mp h.ordered).2 p hp,(everyObject_obj.mp h.noClash).2 p hp⟩

theorem child_replaced (hkeys : (pairs.map Prod.fst).Nodup) (hnames : (pairs.map Prod.snd).Nodup) (h : Renameable pairs j)
    {s' : Step} {w : JsonTree σ} : (replaceNamesinJsonObject pairs j).child s' = some w ↔
      ∃ s v,renameStep pairs s = s' ∧ j.child s = some v ∧ replaceNamesinJsonObject pairs v = w := by
  cases j with
  | null => simp [replaceNamesinJsonObject,child]
  | scalar a => simp [replaceNamesinJsonObject,child]
  | arr xs =>
    rw [replaceNamesinJsonObject]
    constructor
    · intro hw
      cases s' with
      | name name => cases hw
      | index i =>
        obtain ⟨v,hv,hvw⟩ := Option.map_eq_some_iff.mp ((List.getElem?_map ..).symm.trans hw)
        exact ⟨.index i,v,rfl,hv,hvw⟩
    · rintro ⟨s,v,rfl,hv,rfl⟩
      cases s with
      | name name => cases hv
      | index i =>
        change (xs.map _)[i]? = _
        rw [List.getElem?_map,show xs[i]? = some v from hv,Option.map_some]
  | obj m =>
    rw [replaceNamesinJsonObject]
    have hm := (everyObject_obj.mp h.ordered).1
    have hclash := (everyObject_obj.mp h.noClash).1
    obtain ⟨-,hrenamed⟩ := copied_members hkeys hnames hm hclash (replaceNamesinJsonObject pairs) rfl
    constructor
    · intro hw
      cases s' with
      | index i => cases hw
      | name name =>
        obtain ⟨k,rfl,hk⟩ := hrenamed.comes name w hw
        obtain ⟨v,hv,hvw⟩ := Option.map_eq_some_iff.mp hk
        exact ⟨.name k,v,rfl,hv,hvw⟩
    · rintro ⟨s,v,rfl,hv,rfl⟩
      cases s with
      | index i => cases hv
      | name name =>
        apply hrenamed.carries name
        rw [show m.lookup name = some v from hv,Option.map_some]

private theorem renameStep_injOn (hkeys : (pairs.map Prod.fst).Nodup) (hnames : (pairs.map Prod.snd).Nodup) (h : Renameable pairs j)
    {s t : Step} (hs : j.child s ≠ none) (ht : j.child t ≠ none) (heq : renameStep pairs s = renameStep pairs t) : s = t := by
  cases j with
  | null => exact absurd rfl hs
  | scalar a => exact absurd rfl hs
  | arr xs =>
    cases s with
    | name name => exact absurd rfl hs
    | index i =>
      cases t with
      | name name => exact absurd rfl ht
      | index k => exact heq
  | obj m =>
    cases s with
    | index i => exact absurd rfl hs
    | name name =>
      cases t with
      | index k => exact absurd rfl ht
      | name name' =>
        have hclash := (everyObject_obj.mp h.noClash).1
        rw [renamed_injOn hkeys hnames hclash hs ht (Step.name.inj heq)]

private theorem replaceNamesinJsonObject_carries (hkeys : (pairs.map Prod.fst).Nodup) (hnames : (pairs.map Prod.snd).Nodup)
    (h : Renameable pairs j) : CarriesEachOnce pairs j (replaceNamesinJsonObject pairs j) := by
  constructor
  · intro path
    induction path generalizing j with
    | nil =>
      intro v hv
      obtain rfl := Option.some.inj hv
      rfl
    | cons s path ih =>
      intro v hv
      obtain ⟨u,hu,hv⟩ := Option.bind_eq_some_iff.mp hv
      have hchild := (child_replaced hkeys hnames h).mpr ⟨s,u,rfl,hu,rfl⟩
      rw [List.map_cons,JsonTree.at,hchild,Option.bind_some]
      exact ih (h.child hu) v hv
  · intro path
    induction path generalizing j with
    | nil =>
      intro _
      refine ⟨[],⟨Option.some_ne_none _,rfl⟩,fun path' hpath => ?_⟩
      exact List.map_eq_nil_iff.mp hpath.2
    | cons s' path ih =>
      intro hw
      obtain ⟨w,hw⟩ := Option.ne_none_iff_exists'.mp hw
      obtain ⟨u',hu',hw⟩ := Option.bind_eq_some_iff.mp hw
      obtain ⟨s,u,rfl,hu,rfl⟩ := (child_replaced hkeys hnames h).mp hu'
      obtain ⟨path',⟨hpath',hrenamed⟩,honly⟩ := ih (h.child hu) (by rw [hw]; exact Option.some_ne_none w)
      refine ⟨s :: path',⟨?_,?_⟩,?_⟩
      · rw [JsonTree.at,hu,Option.bind_some]
        exact hpath'
      · rw [List.map_cons,hrenamed]
      · rintro path'' ⟨hpath'',hrenamed''⟩
        obtain ⟨t,rest,rfl,ht,hrest⟩ := List.map_eq_cons_iff.mp hrenamed''
        obtain ⟨x,hx⟩ := Option.ne_none_iff_exists'.mp hpath''
        obtain ⟨y,hy,hx⟩ := Option.bind_eq_some_iff.mp hx
        obtain rfl : t = s := by
          apply renameStep_injOn hkeys hnames h _ _ ht
          · rw [hy]
            exact Option.some_ne_none y
          · rw [hu]
            exact Option.some_ne_none u
        obtain rfl := Option.some.inj (hu.symm.trans hy)
        rw [honly rest ⟨by rw [hx]; exact Option.some_ne_none x,hrest⟩]

private theorem inPlace_eq_copy_iff (hkeys : (pairs.map Prod.fst).Nodup) (hnames : (pairs.map Prod.snd).Nodup)
    (h : Renameable pairs j) : replaceNamesinJsonObjectInPlace pairs j = replaceNamesinJsonObject pairs j ↔
      j.EveryObject fun m => MovesOnce pairs (m.lookup ·) := by
  induction j using JsonTree.induct with
  | null => simp [replaceNamesinJsonObjectInPlace,replaceNamesinJsonObject,everyObject_null]
  | scalar a => simp [replaceNamesinJsonObjectInPlace,replaceNamesinJsonObject,everyObject_scalar]
  | arr xs ih =>
    rw [replaceNamesinJsonObjectInPlace,replaceNamesinJsonObject,arr.injEq,List.map_inj_left,everyObject_arr]
    exact forall₂_congr fun x hx => ih x hx (h.elem hx)
  | obj m ih =>
    have hm := (everyObject_obj.mp h.ordered).1
    have hclash := (everyObject_obj.mp h.noClash).1
    obtain ⟨hcopied,hcopy⟩ := copied_members hkeys hnames hm hclash (replaceNamesinJsonObject pairs) rfl
    obtain ⟨hordered,hlookup⟩ := foldl_replaceName pairs hm
    have hinPlace : ∀ k,(((pairs.foldl replaceName m).map fun p => (p.1,replaceNamesinJsonObjectInPlace pairs p.2)).lookup k) =
        (pairs.foldl moveKey (m.lookup ·) k).map (replaceNamesinJsonObjectInPlace pairs) := by
      intro k
      rw [lookup_mapValues,← hlookup]
    rw [replaceNamesinJsonObjectInPlace_obj,replaceNamesinJsonObject,obj.injEq,everyObject_obj]
    constructor
    · intro heq
      have hcarried : ∀ k v,m.lookup k = some v → (pairs.foldl moveKey (m.lookup ·) (renamed pairs k)).map
          (replaceNamesinJsonObjectInPlace pairs) = some (replaceNamesinJsonObject pairs v) := by
        intro k v hv
        rw [← hinPlace,heq]
        exact hcopy.carries k _ (by rw [hv,Option.map_some])
      have hmoves : MovesOnce pairs (m.lookup ·) := by
        refine movesOnce_of_kept hkeys hnames fun k hk hnone => ?_
        obtain ⟨v,hv⟩ := Option.ne_none_iff_exists'.mp hk
        have hsome := hcarried k v hv
        rw [hnone] at hsome
        cases hsome
      refine ⟨hmoves,fun p hp => (ih p hp (h.member hp)).mp ?_⟩
      have hp' := hm.lookup_eq_some.mpr hp
      have hmoved := (renamedBy_foldl_moveKey hkeys hnames hclash hmoves).carries p.1 p.2 hp'
      have hsome := hcarried p.1 p.2 hp'
      rw [hmoved] at hsome
      exact Option.some.inj hsome
    · rintro ⟨hmoves,hvalues⟩
      have hmoved := (renamedBy_foldl_moveKey hkeys hnames hclash hmoves).map (φ := replaceNamesinJsonObjectInPlace pairs)
        (ψ := replaceNamesinJsonObject pairs) fun k v hv => by
          have hp := hm.lookup_eq_some.mp hv
          exact (ih (k,v) hp (h.member hp)).mpr (hvalues (k,v) hp)
      refine Ordered.ext (List.pairwise_map.mpr hordered) hcopied fun k => ?_
      rw [hinPlace]
      exact congrFun (hmoved.unique hcopy) k

/-- Renaming in place and renaming a copy agree, and carry every value once under its renamed
path, exactly when every name that is there moves once only. -/
theorem renaming_in_place_iff (hkeys : (pairs.map Prod.fst).Nodup) (hnames : (pairs.map Prod.snd).Nodup)
    (h : Renameable pairs j) :
    (replaceNamesinJsonObjectInPlace pairs j = replaceNamesinJsonObject pairs j ∧
      CarriesEachOnce pairs j (replaceNamesinJsonObject pairs j)) ↔ j.EveryObject fun m => MovesOnce pairs (m.lookup ·) := by
  rw [inPlace_eq_copy_iff hkeys hnames h]
  exact and_iff_left (replaceNamesinJsonObject_carries hkeys hnames h)

end Documents

private theorem renameable_single (pairs : List (String × String)) (name : String) (a : σ) :
    Renameable pairs (.obj [(name,.scalar a)]) := by
  constructor
  · refine everyObject_obj.mpr ⟨List.pairwise_singleton _ _,?_⟩
    simp [everyObject_scalar]
  · refine everyObject_obj.mpr ⟨fun o n _ ho hne => ?_,by simp [everyObject_scalar]⟩
    simp only [lookup_cons_ite] at ho ⊢
    by_cases hname : o = name
    · rw [if_neg (hname ▸ hne)]
      rfl
    · simp [hname] at ho

/-- A name that is mapped to itself is dropped in place. -/
theorem own_name_dropped : replaceNamesinJsonObject [("a","a")] (.obj [("a",.scalar 1)]) = .obj [("a",.scalar 1)] ∧
    replaceNamesinJsonObjectInPlace [("a","a")] (.obj [("a",.scalar 1)]) = .obj [] ∧
    ¬ ∀ (pairs : List (String × String)) (j : JsonTree Nat),(pairs.map Prod.fst).Nodup → (pairs.map Prod.snd).Nodup →
      Renameable pairs j → replaceNamesinJsonObjectInPlace pairs j = replaceNamesinJsonObject pairs j ∧
        CarriesEachOnce pairs j (replaceNamesinJsonObject pairs j) := by
  have hcopy : replaceNamesinJsonObject [("a","a")] (.obj [("a",.scalar 1)]) = .obj [("a",.scalar 1)] := by
    simp [replaceNamesinJsonObject,renamed,assign]
  have hinPlace : replaceNamesinJsonObjectInPlace [("a","a")] (.obj [("a",.scalar 1)]) = .obj [] := by
    simp [replaceNamesinJsonObjectInPlace_obj,replaceName,assign]
  refine ⟨hcopy,hinPlace,fun h => ?_⟩
  obtain ⟨heq,-⟩ := h [("a","a")] (.obj [("a",.scalar 1)]) (by decide) (by decide)
    (renameable_single _ _ _)
  rw [hcopy,hinPlace] at heq
  cases heq

/-- Lists of objects with names from a chain. -/
def chainedNames : JsonTree Nat := .obj [("a",.arr [.obj [("a",.scalar 1),("d",.scalar 2)],.obj [("b",.arr [.scalar 3])]])]

theorem chainedNames_everyObject {P : List (String × JsonTree Nat) → Prop} : chainedNames.EveryObject P ↔
    P [("a",.arr [.obj [("a",.scalar 1),("d",.scalar 2)],.obj [("b",.arr [.scalar 3])]])] ∧
      P [("a",.scalar 1),("d",.scalar 2)] ∧ P [("b",.arr [.scalar 3])] := by
  simp [chainedNames,everyObject_obj,everyObject_arr,everyObject_scalar]

/-- A chain of names is replaced well when its last pair comes first in the iteration. -/
theorem chain_in_order : replaceNamesinJsonObjectInPlace [("b","c"),("a","b")] chainedNames =
    replaceNamesinJsonObject [("b","c"),("a","b")] chainedNames ∧
    CarriesEachOnce [("b","c"),("a","b")] chainedNames (replaceNamesinJsonObject [("b","c"),("a","b")] chainedNames) := by
  have hrenameable : Renameable [("b","c"),("a","b")] chainedNames := by
    refine ⟨chainedNames_everyObject.mpr ⟨?_,?_,?_⟩,chainedNames_everyObject.mpr ⟨?_,?_,?_⟩⟩
    iterate 3 · decide
    all_goals
      intro o n hmem
      rcases List.mem_cons.mp hmem with h | h
      · obtain ⟨rfl,rfl⟩ := Prod.mk.inj h
        simp [lookup_cons_ite]
      · obtain ⟨rfl,rfl⟩ := Prod.mk.inj (List.mem_singleton.mp h)
        simp [lookup_cons_ite]
  refine (renaming_in_place_iff (by decide) (by decide) hrenameable).mpr (chainedNames_everyObject.mpr ⟨?_,?_,?_⟩) <;>
    simp [movesOnce_cons,movesOnce_nil]

end SonicPins.JsonYang
