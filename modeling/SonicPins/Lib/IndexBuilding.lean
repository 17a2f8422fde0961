import SonicPins.Lib.DoubleIndex
import SonicPins.Lib.Status

/-! Doubly indexed values that are inserted, changed and removed under both keys. -/
namespace SonicPins.Lib

/-- An insertion into a map that fails with the message when the key is in use. -/
class UniqueInsertion where
  insertIfUnique {κ α : Type} [DecidableEq κ] (m : List (κ × α)) (key : κ) (value : α) (message : String) : StatusOr (List (κ × α))
  insertIfUnique_eq_ok {κ α : Type} [DecidableEq κ] {m m' : List (κ × α)} {key : κ} {value : α} {message : String} :
    insertIfUnique m key value message = .ok m' ↔ key ∉ m.map Prod.fst ∧ m' = m ++ [(key,value)]

export UniqueInsertion (insertIfUnique insertIfUnique_eq_ok)

section Changes
variable {κ α : Type} [DecidableEq κ]

/-- The map with the value under one key changed. -/
def changeAt (key : κ) (f : α → α) (m : List (κ × α)) : List (κ × α) :=
  m.map fun x => if x.1 = key then (x.1,f x.2) else x

@[simp] theorem keys_changeAt (key : κ) (f : α → α) (m : List (κ × α)) : (changeAt key f m).map Prod.fst = m.map Prod.fst := by
  rw [changeAt,List.map_map]
  refine List.map_congr_left fun x _ => ?_
  simp only [Function.comp_apply]
  split <;> rfl

theorem mem_changeAt {key : κ} {f : α → α} {m : List (κ × α)} {y : κ × α} :
    y ∈ changeAt key f m ↔ (y.1 ≠ key ∧ y ∈ m) ∨ ∃ v,y = (key,f v) ∧ (key,v) ∈ m := by
  unfold changeAt
  rw [List.mem_map]
  constructor
  · rintro ⟨x,hx,rfl⟩
    by_cases hkey : x.1 = key
    · rw [if_pos hkey,hkey]
      exact .inr ⟨x.2,rfl,hkey ▸ hx⟩
    · rw [if_neg hkey]
      exact .inl ⟨hkey,hx⟩
  · rintro (⟨hkey,hy⟩ | ⟨v,rfl,hv⟩)
    · exact ⟨y,hy,if_neg hkey⟩
    · exact ⟨_,hv,if_pos rfl⟩

end Changes

variable {ι κ α : Type} [DecidableEq ι] [DecidableEq κ] {byId : List (ι × α)} {byName : List (κ × α)} {idOf : α → ι} {nameOf : α → κ}

/-- A value inserted under its id and under its name. -/
def insertTwice [UniqueInsertion] (byId : List (ι × α)) (byName : List (κ × α)) (id : ι) (name : κ) (value : α)
    (idMessage nameMessage : String) : StatusOr (List (ι × α) × List (κ × α)) := do
  let byId ← insertIfUnique byId id value idMessage
  let byName ← insertIfUnique byName name value nameMessage
  .ok (byId,byName)

theorem insertTwice_eq_ok [UniqueInsertion] {id : ι} {name : κ} {value : α} {idMessage nameMessage : String}
    {r : List (ι × α) × List (κ × α)} : insertTwice byId byName id name value idMessage nameMessage = .ok r ↔
      (id ∉ byId.map Prod.fst ∧ name ∉ byName.map Prod.fst) ∧ r = (byId ++ [(id,value)],byName ++ [(name,value)]) := by
  unfold insertTwice
  simp only [bind_eq_ok,insertIfUnique_eq_ok]
  constructor
  · rintro ⟨_,⟨hid,rfl⟩,_,⟨hname,rfl⟩,h⟩
    cases h
    exact ⟨⟨hid,hname⟩,rfl⟩
  · rintro ⟨⟨hid,hname⟩,rfl⟩
    exact ⟨_,⟨hid,rfl⟩,_,⟨hname,rfl⟩,rfl⟩

namespace DoubleIndex

omit [DecidableEq ι] [DecidableEq κ] in
theorem empty : DoubleIndex [] [] idOf nameOf := ⟨List.nodup_nil,List.nodup_nil,nofun,nofun⟩

omit [DecidableEq ι] [DecidableEq κ] in
theorem insert (h : DoubleIndex byId byName idOf nameOf) {value : α} (hid : idOf value ∉ byId.map Prod.fst)
    (hname : nameOf value ∉ byName.map Prod.fst) :
    DoubleIndex (byId ++ [(idOf value,value)]) (byName ++ [(nameOf value,value)]) idOf nameOf where
  idNodup := by
    rw [List.map_append,List.nodup_append_comm]
    exact List.nodup_cons.mpr ⟨hid,h.idNodup⟩
  nameNodup := by
    rw [List.map_append,List.nodup_append_comm]
    exact List.nodup_cons.mpr ⟨hname,h.nameNodup⟩
  ofId := by
    intro x hx
    rcases List.mem_append.mp hx with hx | hx
    · exact ⟨(h.ofId x hx).1,List.mem_append_left _ (h.ofId x hx).2⟩
    · cases List.mem_singleton.mp hx
      exact ⟨rfl,by simp⟩
  ofName := by
    intro x hx
    rcases List.mem_append.mp hx with hx | hx
    · exact ⟨(h.ofName x hx).1,List.mem_append_left _ (h.ofName x hx).2⟩
    · cases List.mem_singleton.mp hx
      exact ⟨rfl,by simp⟩

theorem insertTwice [UniqueInsertion] (h : DoubleIndex byId byName idOf nameOf) {id : ι} {name : κ} {value : α}
    {idMessage nameMessage : String} {r : List (ι × α) × List (κ × α)}
    (hr : Lib.insertTwice byId byName id name value idMessage nameMessage = .ok r) (hid : idOf value = id)
    (hname : nameOf value = name) : DoubleIndex r.1 r.2 idOf nameOf := by
  subst hid hname
  obtain ⟨⟨hid,hname⟩,rfl⟩ := insertTwice_eq_ok.mp hr
  exact h.insert hid hname

omit [DecidableEq κ] in
theorem eq_of_id (h : DoubleIndex byId byName idOf nameOf) {i : ι} {v w : α} (hv : (i,v) ∈ byId) (hw : (i,w) ∈ byId) : v = w :=
  Option.some.inj ((lookup_eq_some_of_mem h.idNodup hv).symm.trans (lookup_eq_some_of_mem h.idNodup hw))

private theorem ofId_changeAt (h : DoubleIndex byId byName idOf nameOf) {v : α} (hv : (idOf v,v) ∈ byId) {f : α → α}
    (hfid : idOf (f v) = idOf v) (hfname : nameOf (f v) = nameOf v) :
    ∀ x ∈ changeAt (idOf v) f byId,idOf x.2 = x.1 ∧ (nameOf x.2,x.2) ∈ changeAt (nameOf v) f byName := by
  intro x hx
  rcases mem_changeAt.mp hx with ⟨hne,hx⟩ | ⟨w,rfl,hw⟩
  · obtain ⟨hid,hname⟩ := h.ofId x hx
    refine ⟨hid,mem_changeAt.mpr (.inl ⟨fun hsame => hne ?_,hname⟩)⟩
    have hxv : x.2 = v := h.symm.eq_of_id (hsame ▸ hname) (h.ofId _ hv).2
    rw [← hid,hxv]
  · obtain rfl := h.eq_of_id hw hv
    exact ⟨hfid,mem_changeAt.mpr (.inr ⟨w,by rw [hfname],(h.ofId _ hw).2⟩)⟩

theorem changeAt (h : DoubleIndex byId byName idOf nameOf) {v : α} (hv : (idOf v,v) ∈ byId) {f : α → α}
    (hfid : idOf (f v) = idOf v) (hfname : nameOf (f v) = nameOf v) :
    DoubleIndex (changeAt (idOf v) f byId) (changeAt (nameOf v) f byName) idOf nameOf where
  idNodup := by
    rw [keys_changeAt]
    exact h.idNodup
  nameNodup := by
    rw [keys_changeAt]
    exact h.nameNodup
  ofId := ofId_changeAt h hv hfid hfname
  ofName := ofId_changeAt h.symm (h.ofId _ hv).2 hfname hfid

end DoubleIndex
end SonicPins.Lib
