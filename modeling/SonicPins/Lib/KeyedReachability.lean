import Mathlib.Data.Finset.Sort
import Mathlib.Logic.Relation
import SonicPins.Lib.Layering

/-! Reachability in a graph whose edges are given by keys: a node leads to the nodes that
wait for one of the keys it offers. -/
namespace SonicPins.Lib

section Search
variable {ν : Type*} {κ ε : Type} [LinearOrder ν] [DecidableEq κ]

/-- The nodes that wait for one of the keys, except those reached, and who waits on. -/
def release (reached : Finset ν) (keys : Finset κ) (waiting : Finset (κ × ν)) : List ν × Finset (κ × ν) :=
  let hit := waiting.filter fun x => x.1 ∈ keys
  (((hit.image Prod.snd).filter fun v => v ∉ reached).sort,waiting \ hit)

def releaseAll (reached : Finset ν) : List (Except ε (Finset κ)) → Finset (κ × ν) → Except ε (List ν × Finset (κ × ν))
  | [],waiting => .ok ([],waiting)
  | .error e :: _,_ => .error e
  | .ok keys :: rest,waiting =>
    let released := release reached keys waiting
    (releaseAll reached rest released.2).map fun r => (released.1 ++ r.1,r.2)

/-- The nodes reached from a frontier, and those still waiting, within a number of steps. -/
def expandFrontier (keysOf : ν → Except ε (List (Except ε (Finset κ)))) :
    Nat → List ν → Finset ν → Finset (κ × ν) → Option (Except ε (Finset ν × Finset (κ × ν)))
  | 0,_,_,_ => none
  | _ + 1,[],reached,waiting => some (.ok (reached,waiting))
  | steps + 1,v :: frontier,reached,waiting => match keysOf v with
    | .error e => some (.error e)
    | .ok sets => match releaseAll (insert v reached) sets waiting with
      | .error e => some (.error e)
      | .ok (found,waiting') => expandFrontier keysOf steps (frontier ++ found) (insert v reached) waiting'

end Search

section Release
variable {ν : Type*} {κ ε : Type} [LinearOrder ν] [DecidableEq κ] {reached : Finset ν} {waiting : Finset (κ × ν)}

def InSets (sets : List (Except ε (Finset κ))) (k : κ) : Prop := ∃ keys,.ok keys ∈ sets ∧ k ∈ keys

omit [DecidableEq κ] in
theorem inSets_cons {keys : Finset κ} {rest : List (Except ε (Finset κ))} {k : κ} :
    InSets (.ok keys :: rest) k ↔ k ∈ keys ∨ InSets rest k := by
  constructor
  · rintro ⟨keys',hmem,hk⟩
    rcases List.mem_cons.mp hmem with heq | hmem
    · cases heq
      exact .inl hk
    · exact .inr ⟨keys',hmem,hk⟩
  · rintro (hk | ⟨keys',hmem,hk⟩)
    · exact ⟨keys,List.mem_cons_self,hk⟩
    · exact ⟨keys',List.mem_cons_of_mem _ hmem,hk⟩

theorem mem_release {keys : Finset κ} {v : ν} :
    v ∈ (release reached keys waiting).1 ↔ v ∉ reached ∧ ∃ k ∈ keys,(k,v) ∈ waiting := by
  simp only [release,Finset.mem_sort,Finset.mem_filter,Finset.mem_image,Prod.exists,exists_eq_right]
  constructor
  · rintro ⟨⟨k,hk,hkeys⟩,hv⟩
    exact ⟨hv,k,hkeys,hk⟩
  · rintro ⟨hv,k,hkeys,hk⟩
    exact ⟨⟨k,hk,hkeys⟩,hv⟩

theorem mem_release_waiting {keys : Finset κ} {x : κ × ν} :
    x ∈ (release reached keys waiting).2 ↔ x ∈ waiting ∧ x.1 ∉ keys := by
  simp only [release,Finset.mem_sdiff,Finset.mem_filter,not_and]
  exact and_congr_right fun hx => ⟨fun h => h hx,fun h _ => h⟩

theorem release_card (keys : Finset κ) :
    (release reached keys waiting).1.length + (release reached keys waiting).2.card ≤ waiting.card := by
  simp only [release,Finset.length_sort]
  have hsub : (waiting.filter fun x => x.1 ∈ keys) ⊆ waiting := Finset.filter_subset _ _
  have hfound : (((waiting.filter fun x => x.1 ∈ keys).image Prod.snd).filter fun v => v ∉ reached).card ≤
      (waiting.filter fun x => x.1 ∈ keys).card := (Finset.card_filter_le _ _).trans Finset.card_image_le
  have hrest := Finset.card_sdiff_add_card_eq_card hsub
  omega

theorem releaseAll_spec {sets : List (Except ε (Finset κ))} {found : List ν} {waiting' : Finset (κ × ν)}
    (h : releaseAll reached sets waiting = .ok (found,waiting')) :
    (∀ v,v ∈ found ↔ v ∉ reached ∧ ∃ k,InSets sets k ∧ (k,v) ∈ waiting) ∧
      (∀ x,x ∈ waiting' ↔ x ∈ waiting ∧ ¬ InSets sets x.1) ∧ found.length + waiting'.card ≤ waiting.card := by
  induction sets generalizing waiting found with
  | nil =>
    cases h
    simp [InSets]
  | cons set rest ih =>
    cases set with
    | error e => cases h
    | ok keys =>
      rw [releaseAll] at h
      cases hrest : releaseAll reached rest (release reached keys waiting).2 with
      | error e =>
        rw [hrest] at h
        cases h
      | ok r =>
        rw [hrest] at h
        obtain ⟨later,waiting''⟩ := r
        cases h
        obtain ⟨hfound,hwaiting,hcard⟩ := ih hrest
        refine ⟨fun v => ?_,fun x => ?_,?_⟩
        · rw [List.mem_append,mem_release,hfound]
          simp only [inSets_cons,mem_release_waiting]
          constructor
          · rintro (⟨hv,k,hk,hkv⟩ | ⟨hv,k,hk,hkv,-⟩)
            · exact ⟨hv,k,.inl hk,hkv⟩
            · exact ⟨hv,k,.inr hk,hkv⟩
          · rintro ⟨hv,k,hk,hkv⟩
            by_cases hkeys : k ∈ keys
            · exact .inl ⟨hv,k,hkeys,hkv⟩
            · exact .inr ⟨hv,k,hk.resolve_left hkeys,hkv,hkeys⟩
        · rw [hwaiting,mem_release_waiting,inSets_cons]
          tauto
        · have hfirst : (release reached keys waiting).1.length + (release reached keys waiting).2.card ≤ waiting.card := release_card keys
          rw [List.length_append]
          simp only at hcard ⊢
          omega

end Release

variable {ν : Type*} {κ ε : Type} [LinearOrder ν] [DecidableEq κ] (keysOf : ν → Except ε (List (Except ε (Finset κ))))

/-- A node offers a key. -/
def Offers (v : ν) (k : κ) : Prop := ∃ sets,keysOf v = .ok sets ∧ InSets sets k

/-- A node leads to another that waits for one of its keys. -/
def LeadsTo (waiting : Finset (κ × ν)) (v w : ν) : Prop := ∃ k,Offers keysOf v k ∧ (k,w) ∈ waiting

/-- Between two steps: who is reached comes from the start, and who no longer waits is reached
or on the frontier. -/
structure Expanding (start : List ν) (all : Finset (κ × ν)) (frontier : List ν) (reached : Finset ν) (waiting : Finset (κ × ν)) :
    Prop where
  sound : ∀ v,v ∈ frontier ∨ v ∈ reached → ∃ u ∈ start,Relation.ReflTransGen (LeadsTo keysOf all) u v
  start : ∀ v ∈ start,v ∈ frontier ∨ v ∈ reached
  subset : waiting ⊆ all
  released : ∀ k v,(k,v) ∈ all → (k,v) ∉ waiting → v ∈ frontier ∨ v ∈ reached
  offered : ∀ v ∈ reached,∀ k,Offers keysOf v k → ∀ w,(k,w) ∉ waiting
  only : ∀ k v,(k,v) ∈ all → (k,v) ∉ waiting → ∃ u ∈ reached,Offers keysOf u k

variable {keysOf} {start frontier : List ν} {all waiting waiting' : Finset (κ × ν)} {reached reached' : Finset ν}

omit [LinearOrder ν] [DecidableEq κ] in
theorem Expanding.init : Expanding keysOf start all start ∅ all where
  sound v hv := ⟨v,hv.resolve_right (Finset.notMem_empty v),.refl⟩
  start _ hv := .inl hv
  subset := Finset.Subset.refl all
  released _ _ hall hnot := absurd hall hnot
  offered v hv := absurd hv (Finset.notMem_empty v)
  only _ _ hall hnot := absurd hall hnot

theorem Expanding.step {v : ν} {sets : List (Except ε (Finset κ))} {found : List ν}
    (h : Expanding keysOf start all (v :: frontier) reached waiting) (hsets : keysOf v = .ok sets)
    (hrelease : releaseAll (insert v reached) sets waiting = .ok (found,waiting')) :
    Expanding keysOf start all (frontier ++ found) (insert v reached) waiting' := by
  obtain ⟨hfound,hwaiting,-⟩ := releaseAll_spec hrelease
  have hoffers (k : κ) : Offers keysOf v k ↔ InSets sets k := by
    constructor
    · rintro ⟨sets',hsets',hk⟩
      cases hsets.symm.trans hsets'
      exact hk
    · exact fun hk => ⟨sets,hsets,hk⟩
  have hkeep (w : ν) (hw : w ∈ v :: frontier ∨ w ∈ reached) : w ∈ frontier ++ found ∨ w ∈ insert v reached := by
    rw [List.mem_append,Finset.mem_insert]
    rcases hw with hw | hw
    · rcases List.mem_cons.mp hw with rfl | hw
      · exact .inr (.inl rfl)
      · exact .inl (.inl hw)
    · exact .inr (.inr hw)
  refine ⟨fun w hw => ?_,fun w hw => hkeep w (h.start w hw),?_,fun k w hall hnot => ?_,fun w hw k hk u => ?_,
    fun k w hall hnot => ?_⟩
  · rw [List.mem_append,Finset.mem_insert] at hw
    rcases hw with (hw | hw) | rfl | hw
    · exact h.sound w (.inl (List.mem_cons_of_mem _ hw))
    · obtain ⟨-,k,hk,hkw⟩ := (hfound w).mp hw
      obtain ⟨u,hu,hreach⟩ := h.sound v (.inl List.mem_cons_self)
      exact ⟨u,hu,hreach.tail ⟨k,(hoffers k).mpr hk,h.subset hkw⟩⟩
    · exact h.sound w (.inl List.mem_cons_self)
    · exact h.sound w (.inr hw)
  · exact fun x hx => h.subset ((hwaiting x).mp hx).1
  · by_cases hwait : (k,w) ∈ waiting
    · have hk : InSets sets k := by
        by_contra hk
        exact hnot ((hwaiting _).mpr ⟨hwait,hk⟩)
      by_cases hw : w ∈ insert v reached
      · exact .inr hw
      · exact .inl (List.mem_append_right _ ((hfound w).mpr ⟨hw,k,hk,hwait⟩))
    · exact hkeep w (h.released k w hall hwait)
  · intro hwait
    obtain ⟨hwait,hk'⟩ := (hwaiting _).mp hwait
    rcases Finset.mem_insert.mp hw with rfl | hw
    · exact hk' ((hoffers k).mp hk)
    · exact h.offered w hw k hk u hwait
  · by_cases hwait : (k,w) ∈ waiting
    · refine ⟨v,Finset.mem_insert_self v reached,(hoffers k).mpr ?_⟩
      by_contra hk
      exact hnot ((hwaiting _).mpr ⟨hwait,hk⟩)
    · obtain ⟨u,hu,hk⟩ := h.only k w hall hwait
      exact ⟨u,Finset.mem_insert_of_mem hu,hk⟩

theorem Expanding.done (h : Expanding keysOf start all [] reached waiting) :
    (∀ v,v ∈ reached ↔ ∃ u ∈ start,Relation.ReflTransGen (LeadsTo keysOf all) u v) ∧
      ∀ k v,(k,v) ∈ waiting ↔ (k,v) ∈ all ∧ ∀ u ∈ reached,¬ Offers keysOf u k := by
  constructor
  · intro v
    constructor
    · exact fun hv => h.sound v (.inr hv)
    · rintro ⟨u,hu,hreach⟩
      induction hreach with
      | refl => exact (h.start u hu).resolve_left List.not_mem_nil
      | tail _ hstep ih =>
        obtain ⟨k,hk,hkw⟩ := hstep
        exact (h.released k _ hkw (h.offered _ ih k hk _)).resolve_left List.not_mem_nil
  · intro k v
    constructor
    · exact fun hwait => ⟨h.subset hwait,fun u hu hk => h.offered u hu k hk v hwait⟩
    · rintro ⟨hall,hnone⟩
      by_contra hwait
      obtain ⟨u,hu,hk⟩ := h.only k v hall hwait
      exact hnone u hu hk

theorem expandFrontier_spec {steps : Nat} (h : Expanding keysOf start all frontier reached waiting)
    (hresult : expandFrontier keysOf steps frontier reached waiting = some (.ok (reached',waiting'))) :
    (∀ v,v ∈ reached' ↔ ∃ u ∈ start,Relation.ReflTransGen (LeadsTo keysOf all) u v) ∧
      ∀ k v,(k,v) ∈ waiting' ↔ (k,v) ∈ all ∧ ∀ u ∈ reached',¬ Offers keysOf u k := by
  induction steps generalizing frontier reached waiting with
  | zero => cases hresult
  | succ steps ih =>
    cases frontier with
    | nil =>
      cases hresult
      exact h.done
    | cons v frontier =>
      rw [expandFrontier] at hresult
      split at hresult
      · cases hresult
      · next sets hsets =>
        split at hresult
        · cases hresult
        · next found waiting'' hrelease => exact ih (h.step hsets hrelease) hresult

theorem expandFrontier_ends (keysOf : ν → Except ε (List (Except ε (Finset κ)))) (reached : Finset ν) {steps : Nat}
    (hsteps : frontier.length + waiting.card < steps) :
    ∃ result,expandFrontier keysOf steps frontier reached waiting = some result := by
  induction steps generalizing frontier reached waiting with
  | zero => omega
  | succ steps ih =>
    cases frontier with
    | nil => exact ⟨_,rfl⟩
    | cons v frontier =>
      rw [expandFrontier]
      split
      · exact ⟨_,rfl⟩
      · next sets hsets =>
        split
        · exact ⟨_,rfl⟩
        · next found waiting'' hrelease =>
          have hcard := (releaseAll_spec hrelease).2.2
          refine ih (insert v reached) ?_
          rw [List.length_append]
          rw [List.length_cons] at hsteps
          omega

end SonicPins.Lib
