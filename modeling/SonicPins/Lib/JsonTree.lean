import SonicPins.Lib.DoubleIndex

/-! JSON documents over scalars of any type: their parts, and the values under their paths. -/
namespace SonicPins.Lib

/-- A JSON document. What its scalars are is left open. -/
inductive JsonTree (σ : Type) where
  | null
  | scalar (s : σ)
  | arr (elems : List (JsonTree σ))
  | obj (members : List (String × JsonTree σ))

namespace JsonTree
variable {σ : Type}

theorem sizeOf_lt_arr [SizeOf σ] {x : JsonTree σ} {xs : List (JsonTree σ)} (h : x ∈ xs) : sizeOf x < sizeOf (JsonTree.arr xs) := by
  have hlt := List.sizeOf_lt_of_mem h
  rw [JsonTree.arr.sizeOf_spec]
  omega

theorem sizeOf_lt_obj [SizeOf σ] {p : String × JsonTree σ} {m : List (String × JsonTree σ)} (h : p ∈ m) :
    sizeOf p.2 < sizeOf (JsonTree.obj m) := by
  have hlt := List.sizeOf_lt_of_mem h
  have hpair : sizeOf p = 1 + sizeOf p.1 + sizeOf p.2 := rfl
  rw [JsonTree.obj.sizeOf_spec]
  omega

@[elab_as_elim]
theorem induct {motive : JsonTree σ → Prop} (null : motive .null) (scalar : ∀ s,motive (.scalar s))
    (arr : ∀ xs,(∀ x ∈ xs,motive x) → motive (.arr xs)) (obj : ∀ m,(∀ p ∈ m,motive p.2) → motive (.obj m))
    (j : JsonTree σ) : motive j :=
  match j with
  | .null => null
  | .scalar s => scalar s
  | .arr xs => arr xs fun x _ => induct null scalar arr obj x
  | .obj m => obj m fun p _ => induct null scalar arr obj p.2
termination_by sizeOf j
decreasing_by
  · exact sizeOf_lt_arr ‹_›
  · exact sizeOf_lt_obj ‹_›

section Parts

/-- The values at any depth of a document, itself included. -/
inductive PartOf : JsonTree σ → JsonTree σ → Prop
  | self (j : JsonTree σ) : PartOf j j
  | elem {part x : JsonTree σ} {xs : List (JsonTree σ)} (hx : x ∈ xs) (h : PartOf part x) : PartOf part (.arr xs)
  | member {part : JsonTree σ} {p : String × JsonTree σ} {m : List (String × JsonTree σ)} (hp : p ∈ m)
      (h : PartOf part p.2) : PartOf part (.obj m)

/-- What holds of the members of every object of a document. -/
def EveryObject (P : List (String × JsonTree σ) → Prop) (j : JsonTree σ) : Prop := ∀ m,PartOf (.obj m) j → P m

variable {P : List (String × JsonTree σ) → Prop}

theorem everyObject_null : EveryObject P (.null : JsonTree σ) := by
  rintro m ⟨⟩

theorem everyObject_scalar (s : σ) : EveryObject P (.scalar s) := by
  rintro m ⟨⟩

theorem everyObject_arr {xs : List (JsonTree σ)} : EveryObject P (.arr xs) ↔ ∀ x ∈ xs,EveryObject P x := by
  constructor
  · intro h x hx m hm
    exact h m (.elem hx hm)
  · intro h m hm
    cases hm with
    | elem hx hm => exact h _ hx m hm

theorem everyObject_obj {m : List (String × JsonTree σ)} :
    EveryObject P (.obj m) ↔ P m ∧ ∀ p ∈ m,EveryObject P p.2 := by
  constructor
  · intro h
    exact ⟨h m (.self _),fun p hp n hn => h n (.member hp hn)⟩
  · rintro ⟨hm,hvalues⟩ n hn
    cases hn with
    | self => exact hm
    | member hp hn => exact hvalues _ hp n hn

end Parts

/-- One step down into a document. -/
inductive Step where
  | name (name : String)
  | index (i : Nat)
  deriving DecidableEq

/-- The value one step down. -/
def child (j : JsonTree σ) (s : Step) : Option (JsonTree σ) :=
  match j,s with
  | .obj m,.name name => m.lookup name
  | .arr xs,.index i => xs[i]?
  | _,_ => none

theorem partOf_child {part v j : JsonTree σ} {s : Step} (h : j.child s = some v) (hpart : PartOf part v) : PartOf part j := by
  cases j with
  | null => cases h
  | scalar s => cases h
  | arr xs =>
    cases s with
    | name name => cases h
    | index i => exact .elem (List.mem_of_getElem? h) hpart
  | obj m =>
    cases s with
    | name name => exact .member (p := (name,v)) (mem_of_lookup_eq_some h) hpart
    | index i => cases h

theorem EveryObject.child {P : List (String × JsonTree σ) → Prop} {j v : JsonTree σ} {s : Step} (h : j.EveryObject P)
    (hv : j.child s = some v) : v.EveryObject P := fun m hm => h m (partOf_child hv hm)

/-- The value under a path. -/
def «at» (j : JsonTree σ) : List Step → Option (JsonTree σ)
  | [] => some j
  | s :: path => (j.child s).bind fun v => v.at path

end JsonTree
end SonicPins.Lib
