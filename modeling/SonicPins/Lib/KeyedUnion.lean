import Mathlib.Data.List.Forall2
import Mathlib.Data.List.Nodup
import Mathlib.Data.List.Perm.Basic
import SonicPins.Lib.Status

/-! Unions of lists that hold one item for each key: items of one key are merged, in
the order in which they come. The result depends on which items there are only. -/
namespace SonicPins.Lib

variable {α β κ ε σ : Type}

section Accumulation

/-- An accumulator: when a step takes an item, and what the accumulator stands for after it. -/
structure Accumulates (step : σ → α → Except ε σ) (Sound : α → Prop) (Fine : α → Prop) (Compat : α → α → Prop)
    (Stands : List α → σ → Prop) : Prop where
  takes : ∀ {ys s x},Stands ys s → Sound x → ((∃ s',step s x = .ok s') ↔ Fine x ∧ ∀ y ∈ ys,Compat y x)
  stands : ∀ {ys s x s'},Stands ys s → Sound x → step s x = .ok s' → Stands (ys ++ [x]) s'

variable {step : σ → α → Except ε σ} {Sound Fine : α → Prop} {Compat : α → α → Prop} {Stands : List α → σ → Prop}

theorem Accumulates.foldlM_stands (h : Accumulates step Sound Fine Compat Stands) {xs : List α} {s s' : σ} {ys : List α}
    (hs : Stands ys s) (hxs : ∀ x ∈ xs,Sound x) (hfold : xs.foldlM step s = .ok s') : Stands (ys ++ xs) s' := by
  induction xs generalizing ys s with
  | nil =>
    cases hfold
    simpa using hs
  | cons x xs ih =>
    rw [List.foldlM_cons] at hfold
    obtain ⟨mid,hmid,hfold⟩ := bind_eq_ok.mp hfold
    have hstands := ih (h.stands hs (hxs x (by simp)) hmid) (fun y hy => hxs y (by simp [hy])) hfold
    simpa using hstands

theorem Accumulates.foldlM_takes (h : Accumulates step Sound Fine Compat Stands) {xs : List α} {s : σ} {ys : List α}
    (hs : Stands ys s) (hxs : ∀ x ∈ xs,Sound x) :
    (∃ s',xs.foldlM step s = .ok s') ↔ (∀ x ∈ xs,Fine x) ∧ (∀ y ∈ ys,∀ x ∈ xs,Compat y x) ∧ xs.Pairwise Compat := by
  induction xs generalizing ys s with
  | nil => exact iff_of_true ⟨s,rfl⟩ (by simp)
  | cons x xs ih =>
    have hx := hxs x (by simp)
    have htail : ∀ y ∈ xs,Sound y := fun y hy => hxs y (by simp [hy])
    constructor
    · rintro ⟨s',hfold⟩
      rw [List.foldlM_cons] at hfold
      obtain ⟨mid,hmid,hfold⟩ := bind_eq_ok.mp hfold
      obtain ⟨hfine,hcompat⟩ := (h.takes hs hx).mp ⟨mid,hmid⟩
      obtain ⟨hfines,hbefore,hpairs⟩ := (ih (h.stands hs hx hmid) htail).mp ⟨s',hfold⟩
      refine ⟨?_,?_,List.pairwise_cons.mpr ⟨fun y hy => hbefore x (by simp) y hy,hpairs⟩⟩
      · rintro y (_ | ⟨_,hy⟩)
        · exact hfine
        · exact hfines y hy
      · rintro y hy z (_ | ⟨_,hz⟩)
        · exact hcompat y hy
        · exact hbefore y (by simp [hy]) z hz
    · rintro ⟨hfines,hbefore,hpairs⟩
      obtain ⟨hfirst,hpairs⟩ := List.pairwise_cons.mp hpairs
      obtain ⟨mid,hmid⟩ := (h.takes hs hx).mpr ⟨hfines x (by simp),fun y hy => hbefore y hy x (by simp)⟩
      have hrest : ∃ s',xs.foldlM step mid = .ok s' := by
        refine (ih (h.stands hs hx hmid) htail).mpr ⟨fun y hy => hfines y (by simp [hy]),fun y hy z hz => ?_,hpairs⟩
        rcases List.mem_append.mp hy with hy | hy
        · exact hbefore y hy z (by simp [hz])
        · rw [List.mem_singleton.mp hy]
          exact hfirst z hz
      obtain ⟨s',hfold⟩ := hrest
      exact ⟨s',by rw [List.foldlM_cons,hmid]; exact hfold⟩

end Accumulation

section Keyed
variable [DecidableEq κ] (key : α → κ) (merge : α → α → Except ε α)

/-- One item into a list that holds one item for each key. -/
def unionItem (unioned : List α) (item : α) : Except ε (List α) :=
  match unioned with
  | [] => .ok [item]
  | r :: rest =>
    if key r = key item then (merge item r).map (· :: rest) else (unionItem rest item).map (r :: ·)

/-- All items, one after the other. -/
def unionItems (items unioned : List α) : Except ε (List α) := items.foldlM (unionItem key merge) unioned

/-- When two items of one key can be merged, and what the result stands for. -/
structure Merges (Sound : α → Prop) (Compat : α → α → Prop) (Stands : List α → α → Prop) : Prop where
  single : ∀ {x},Sound x → Stands [x] x
  takes : ∀ {ys r x},Stands ys r → ys ≠ [] → Sound x → key r = key x → ((∃ r',merge x r = .ok r') ↔ ∀ y ∈ ys,Compat y x)
  stands : ∀ {ys r x r'},Stands ys r → ys ≠ [] → Sound x → key r = key x → merge x r = .ok r' →
    key r' = key r ∧ Stands (ys ++ [x]) r'

/-- The list holds one item for each key of the items, which stands for those of its key. -/
structure UnionOf (Stands : List α → α → Prop) (ys unioned : List α) : Prop where
  nodup : (unioned.map key).Nodup
  mem_keys : ∀ k,k ∈ unioned.map key ↔ k ∈ ys.map key
  stands : ∀ r ∈ unioned,Stands (ys.filter fun y => key y = key r) r

variable {key merge} {Sound : α → Prop} {Compat : α → α → Prop} {Stands : List α → α → Prop}

theorem unionItem_absent {unioned : List α} {x : α} (h : key x ∉ unioned.map key) :
    unionItem key merge unioned x = .ok (unioned ++ [x]) := by
  induction unioned with
  | nil => rfl
  | cons r rest ih =>
    rw [List.map_cons,List.mem_cons,not_or] at h
    rw [unionItem,if_neg (Ne.symm h.1),ih h.2]
    rfl

theorem unionItem_present {l rest : List α} {r x : α} (h : key x ∉ l.map key) (hr : key r = key x) :
    unionItem key merge (l ++ r :: rest) x = (merge x r).map fun r' => l ++ r' :: rest := by
  induction l with
  | nil => simp [unionItem,hr]
  | cons a l ih =>
    rw [List.map_cons,List.mem_cons,not_or] at h
    rw [List.cons_append,unionItem,if_neg (Ne.symm h.1),ih h.2]
    cases merge x r <;> rfl

theorem filter_key_self {ys : List α} (h : (ys.map key).Nodup) {x : α} (hx : x ∈ ys) :
    (ys.filter fun y => key y = key x) = [x] := by
  induction ys with
  | nil => cases hx
  | cons y ys ih =>
    rw [List.map_cons,List.nodup_cons] at h
    have hnone : ∀ z,key z = key y → z ∉ ys := fun z hz hmem => h.1 (hz ▸ List.mem_map_of_mem hmem)
    rcases List.mem_cons.mp hx with rfl | hx
    · rw [List.filter_cons_of_pos (by simp),List.filter_eq_nil_iff.mpr fun z hz => by
        simpa using fun hkey => hnone z hkey hz]
    · have hne : key y ≠ key x := fun hkey => hnone x hkey.symm hx
      rw [List.filter_cons_of_neg (by simpa using hne),ih h.2 hx]

theorem filter_key_concat (ys : List α) {x : α} {k : κ} (h : key x = k) :
    ((ys ++ [x]).filter fun y => key y = k) = (ys.filter fun y => key y = k) ++ [x] := by
  simp [h]

theorem filter_key_concat_ne (ys : List α) {x : α} {k : κ} (h : key x ≠ k) :
    ((ys ++ [x]).filter fun y => key y = k) = ys.filter fun y => key y = k := by
  simp [h]

theorem Merges.unionOf_self (h : Merges key merge Sound Compat Stands) {xs : List α} (hkeys : (xs.map key).Nodup)
    (hxs : ∀ x ∈ xs,Sound x) : UnionOf key Stands xs xs where
  nodup := hkeys
  mem_keys _ := Iff.rfl
  stands r hr := by
    rw [filter_key_self hkeys hr]
    exact h.single (hxs r hr)

theorem UnionOf.nil : UnionOf key Stands [] [] := ⟨List.nodup_nil,fun _ => Iff.rfl,nofun⟩

theorem UnionOf.filter_ne_nil {ys unioned : List α} (h : UnionOf key Stands ys unioned) {r : α} (hr : r ∈ unioned) :
    (ys.filter fun y => key y = key r) ≠ [] := by
  obtain ⟨y,hy,hkey⟩ := List.mem_map.mp ((h.mem_keys (key r)).mp (List.mem_map_of_mem hr))
  exact List.ne_nil_of_mem (List.mem_filter.mpr ⟨hy,by simpa using hkey⟩)

theorem UnionOf.append_absent (hmerges : Merges key merge Sound Compat Stands) {ys unioned : List α} {x : α}
    (h : UnionOf key Stands ys unioned) (hx : Sound x) (habsent : key x ∉ unioned.map key) :
    UnionOf key Stands (ys ++ [x]) (unioned ++ [x]) where
  nodup := by
    rw [List.map_append,List.map_singleton,List.nodup_append]
    refine ⟨h.nodup,List.nodup_singleton _,fun k hk k' hk' heq => habsent ?_⟩
    rw [← List.mem_singleton.mp hk',← heq]
    exact hk
  mem_keys k := by
    rw [List.map_append,List.map_append,List.mem_append,List.mem_append,h.mem_keys]
  stands r hr := by
    rcases List.mem_append.mp hr with hr | hr
    · have hne : key x ≠ key r := fun hkey => habsent (hkey ▸ List.mem_map_of_mem hr)
      rw [filter_key_concat_ne ys hne]
      exact h.stands r hr
    · obtain rfl := List.mem_singleton.mp hr
      have hnil : (ys.filter fun y => key y = key r) = [] := by
        refine List.filter_eq_nil_iff.mpr fun y hy hkey => habsent ((h.mem_keys _).mpr ?_)
        exact List.mem_map.mpr ⟨y,hy,by simpa using hkey⟩
      rw [filter_key_concat ys rfl,hnil]
      exact hmerges.single hx

theorem UnionOf.replace_present {ys l rest : List α} {r r' x : α} (h : UnionOf key Stands ys (l ++ r :: rest))
    (hr : key r = key x) (hkey : key r' = key r) (hstands : Stands ((ys.filter fun y => key y = key r) ++ [x]) r') :
    UnionOf key Stands (ys ++ [x]) (l ++ r' :: rest) := by
  have hkeys : (l ++ r' :: rest).map key = (l ++ r :: rest).map key := by simp [hkey]
  refine ⟨hkeys ▸ h.nodup,fun k => ?_,fun z hz => ?_⟩
  · have hx : key x ∈ (l ++ r :: rest).map key := by simp [← hr]
    rw [hkeys,h.mem_keys,List.map_append,List.mem_append]
    refine ⟨.inl,fun hk => hk.elim id fun hk => ?_⟩
    rw [List.map_singleton,List.mem_singleton] at hk
    rw [hk]
    exact (h.mem_keys _).mp hx
  · by_cases hzr : z = r'
    · subst hzr
      rw [hkey,filter_key_concat ys hr.symm]
      exact hstands
    · -- every other item has another key than the one that was replaced
      have hother : z ∈ l ++ r :: rest ∧ key z ≠ key r := by
        have hnodup := h.nodup
        rw [List.map_append,List.map_cons,List.nodup_append,List.nodup_cons] at hnodup
        rcases List.mem_append.mp hz with hz | hz
        · exact ⟨by simp [hz],hnodup.2.2 _ (List.mem_map_of_mem hz) _ (by simp)⟩
        · have hz := (List.mem_cons.mp hz).resolve_left hzr
          exact ⟨by simp [hz],fun heq => hnodup.2.1.1 (heq ▸ List.mem_map_of_mem hz)⟩
      rw [filter_key_concat_ne ys fun hx => hother.2 (hx.symm.trans hr.symm)]
      exact h.stands z hother.1

theorem Merges.accumulates (h : Merges key merge Sound Compat Stands) :
    Accumulates (unionItem key merge) Sound (fun _ => True) (fun y x => key y = key x → Compat y x)
      (UnionOf key Stands) := by
  have hsplit : ∀ {unioned : List α} {x : α},(unioned.map key).Nodup → key x ∈ unioned.map key →
      ∃ l r rest,unioned = l ++ r :: rest ∧ key r = key x ∧ key x ∉ l.map key := by
    intro unioned x hnodup hx
    obtain ⟨r,hr,hkey⟩ := List.mem_map.mp hx
    obtain ⟨l,rest,rfl⟩ := List.append_of_mem hr
    refine ⟨l,r,rest,rfl,hkey,fun hl => ?_⟩
    rw [List.map_append,List.nodup_append] at hnodup
    exact hnodup.2.2 _ hl _ (by simp [hkey]) rfl
  constructor
  · intro ys unioned x hys hx
    rw [true_and]
    by_cases hmem : key x ∈ unioned.map key
    · obtain ⟨l,r,rest,rfl,hkey,hl⟩ := hsplit hys.nodup hmem
      have htakes := h.takes (hys.stands r (by simp)) (hys.filter_ne_nil (by simp)) hx hkey
      rw [unionItem_present hl hkey]
      constructor
      · rintro ⟨s',hs'⟩ y hy hyx
        obtain ⟨r',hr',-⟩ := map_eq_ok.mp hs'
        exact htakes.mp ⟨r',hr'⟩ y (List.mem_filter.mpr ⟨hy,by simpa [hkey] using hyx⟩)
      · intro hcompat
        obtain ⟨r',hr'⟩ := htakes.mpr fun y hy =>
          hcompat y (List.mem_filter.mp hy).1 (by simpa [hkey] using (List.mem_filter.mp hy).2)
        exact ⟨_,map_eq_ok.mpr ⟨r',hr',rfl⟩⟩
    · refine iff_of_true ⟨_,unionItem_absent hmem⟩ fun y hy hyx => absurd ((hys.mem_keys _).mpr ?_) hmem
      exact List.mem_map.mpr ⟨y,hy,hyx⟩
  · intro ys unioned x unioned' hys hx hunion
    by_cases hmem : key x ∈ unioned.map key
    · obtain ⟨l,r,rest,rfl,hkey,hl⟩ := hsplit hys.nodup hmem
      rw [unionItem_present hl hkey] at hunion
      obtain ⟨r',hr',rfl⟩ := map_eq_ok.mp hunion
      obtain ⟨hkey',hstands⟩ := h.stands (hys.stands r (by simp)) (hys.filter_ne_nil (by simp)) hx hkey hr'
      exact hys.replace_present hkey hkey' hstands
    · rw [unionItem_absent hmem] at hunion
      cases hunion
      exact hys.append_absent h hx hmem

theorem Merges.unionItems_stands (h : Merges key merge Sound Compat Stands) {ys unioned xs unioned' : List α}
    (hys : UnionOf key Stands ys unioned) (hxs : ∀ x ∈ xs,Sound x) (hunion : unionItems key merge xs unioned = .ok unioned') :
    UnionOf key Stands (ys ++ xs) unioned' := h.accumulates.foldlM_stands hys hxs hunion

theorem Merges.unionItems_takes (h : Merges key merge Sound Compat Stands) {ys unioned xs : List α}
    (hys : UnionOf key Stands ys unioned) (hxs : ∀ x ∈ xs,Sound x) (hkeys : (xs.map key).Nodup) :
    (∃ unioned',unionItems key merge xs unioned = .ok unioned') ↔ ∀ y ∈ ys,∀ x ∈ xs,key y = key x → Compat y x := by
  rw [unionItems,h.accumulates.foldlM_takes hys hxs]
  have hpairs : xs.Pairwise fun y x => key y = key x → Compat y x :=
    (List.pairwise_map.mp hkeys).imp fun hne heq => absurd heq hne
  simp [hpairs]

end Keyed

section Order

/-- The same items up to the order and up to `Same`. -/
def EqUpToOrder (Same : α → α → Prop) (xs ys : List α) : Prop := ∃ l,List.Forall₂ Same xs l ∧ l.Perm ys

variable [DecidableEq κ] {key : α → κ} {Stands : List α → α → Prop}

omit [DecidableEq κ] in
theorem eqUpToOrder_of_keys {Same : α → α → Prop} {xs ys : List α} (hxs : (xs.map key).Nodup) (hys : (ys.map key).Nodup)
    (hkeys : ∀ k,k ∈ xs.map key ↔ k ∈ ys.map key) (hsame : ∀ x ∈ xs,∀ y ∈ ys,key x = key y → Same x y) :
    EqUpToOrder Same xs ys := by
  have hfind : ∀ x ∈ xs,∃ y ∈ ys,key y = key x := fun x hx =>
    List.mem_map.mp ((hkeys _).mp (List.mem_map_of_mem hx))
  choose! f hf hkey using hfind
  refine ⟨xs.map f,?_,?_⟩
  · rw [List.forall₂_map_right_iff,List.forall₂_same]
    exact fun x hx => hsame x hx (f x) (hf x hx) (hkey x hx).symm
  · have hmap : (xs.map f).map key = xs.map key := by
      rw [List.map_map]
      exact List.map_congr_left hkey
    refine (List.perm_ext_iff_of_nodup (List.Nodup.of_map key (hmap ▸ hxs)) (List.Nodup.of_map key hys)).mpr fun y => ?_
    constructor
    · intro hy
      obtain ⟨x,hx,rfl⟩ := List.mem_map.mp hy
      exact hf x hx
    · intro hy
      obtain ⟨x,hx,hkx⟩ := List.mem_map.mp ((hkeys _).mpr (List.mem_map_of_mem hy))
      have heq : f x = y := List.inj_on_of_nodup_map hys (hf x hx) hy ((hkey x hx).trans hkx)
      exact heq ▸ List.mem_map_of_mem hx

theorem UnionOf.eqUpToOrder {Same : α → α → Prop} {ys ys' unioned unioned' : List α} (h : UnionOf key Stands ys unioned)
    (h' : UnionOf key Stands ys' unioned') (hmem : ∀ y,y ∈ ys ↔ y ∈ ys')
    (hsame : ∀ {zs zs' r r'},zs ≠ [] → (∀ z,z ∈ zs ↔ z ∈ zs') → Stands zs r → Stands zs' r' → Same r r') :
    EqUpToOrder Same unioned unioned' := by
  refine eqUpToOrder_of_keys h.nodup h'.nodup (fun k => ?_) fun r hr r' hr' hkey => ?_
  · rw [h.mem_keys,h'.mem_keys,List.mem_map,List.mem_map]
    simp only [hmem]
  · refine hsame (h.filter_ne_nil hr) (fun z => ?_) (h.stands r hr) (h'.stands r' hr')
    rw [List.mem_filter,List.mem_filter,hmem,hkey]

end Order

section Exact
variable [DecidableEq α] [DecidableEq κ] {key : α → κ}

/-- Items of one key have to be equal. -/
def exactMerge (clash : α → α → ε) (x r : α) : Except ε α := if x = r then .ok r else .error (clash x r)

omit [DecidableEq κ] in
theorem exactMerge_merges (clash : α → α → ε) :
    Merges key (exactMerge clash) (fun _ => True) Eq (fun ys r => ∀ y ∈ ys,y = r) where
  single := by simp
  takes := by
    intro ys r x hys hne _ _
    obtain ⟨y,hy⟩ := List.exists_mem_of_ne_nil ys hne
    constructor
    · rintro ⟨r',hr'⟩ z hz
      rw [exactMerge] at hr'
      split_ifs at hr' with hxr
      exact (hys z hz).trans hxr.symm
    · intro h
      have hxr : x = r := (h y hy).symm.trans (hys y hy)
      exact ⟨r,if_pos hxr⟩
  stands := by
    intro ys r x r' hys _ _ _ hr'
    rw [exactMerge] at hr'
    split_ifs at hr' with hxr
    cases hr'
    refine ⟨rfl,fun y hy => ?_⟩
    rcases List.mem_append.mp hy with hy | hy
    · exact hys y hy
    · exact (List.mem_singleton.mp hy).trans hxr

/-- A union of items that are equal where their keys are. -/
abbrev EqualUnion (key : α → κ) : List α → List α → Prop := UnionOf key fun ys r => ∀ y ∈ ys,y = r

theorem equalUnion_self {xs : List α} (h : (xs.map key).Nodup) : EqualUnion key xs xs :=
  (exactMerge_merges fun _ _ => ()).unionOf_self h fun _ _ => trivial

omit [DecidableEq α] in
theorem UnionOf.mem_iff {ys unioned : List α} (h : EqualUnion key ys unioned) (x : α) :
    x ∈ unioned ↔ x ∈ ys := by
  constructor
  · intro hx
    obtain ⟨y,hy,hkey⟩ := List.mem_map.mp ((h.mem_keys (key x)).mp (List.mem_map_of_mem hx))
    rw [← h.stands x hx y (List.mem_filter.mpr ⟨hy,by simpa using hkey⟩)]
    exact hy
  · intro hx
    obtain ⟨r,hr,hkey⟩ := List.mem_map.mp ((h.mem_keys (key x)).mpr (List.mem_map_of_mem hx))
    rw [h.stands r hr x (List.mem_filter.mpr ⟨hx,by simpa using hkey.symm⟩)]
    exact hr

omit [DecidableEq α] in
theorem UnionOf.perm {ys ys' unioned unioned' : List α} (h : EqualUnion key ys unioned) (h' : EqualUnion key ys' unioned')
    (hmem : ∀ y,y ∈ ys ↔ y ∈ ys') : unioned.Perm unioned' := by
  refine (List.perm_ext_iff_of_nodup (List.Nodup.of_map key h.nodup) (List.Nodup.of_map key h'.nodup)).mpr fun x => ?_
  rw [h.mem_iff,h'.mem_iff,hmem]

end Exact

/-- The value of all items. -/
def Shared (f : α → β) (ys : List α) (v : β) : Prop := ∀ y ∈ ys,f y = v

/-- The members that any of the items has. -/
def Gathered (f : α → List β) (ys : List α) (vs : List β) : Prop := ∀ v,v ∈ vs ↔ ∃ y ∈ ys,v ∈ f y

def Largest [LE β] (f : α → β) (ys : List α) (v : β) : Prop := (∃ y ∈ ys,f y = v) ∧ ∀ y ∈ ys,f y ≤ v

variable {f : α → β} {ys ys' : List α} {x : α} {v v' : β}

theorem Shared.single : Shared f [x] (f x) := by simp [Shared]

theorem Shared.concat (h : Shared f ys v) (hx : f x = v) : Shared f (ys ++ [x]) v := by
  intro y hy
  rcases List.mem_append.mp hy with hy | hy
  · exact h y hy
  · rw [List.mem_singleton.mp hy,hx]

theorem Shared.eq_iff (h : Shared f ys v) (hne : ys ≠ []) (w : β) : w = v ↔ ∀ y ∈ ys,f y = w := by
  obtain ⟨y,hy⟩ := List.exists_mem_of_ne_nil ys hne
  constructor
  · rintro rfl
    exact h
  · intro hw
    rw [← hw y hy,h y hy]

theorem Shared.unique (h : Shared f ys v) (h' : Shared f ys' v') (hne : ys ≠ []) (hmem : ∀ y,y ∈ ys ↔ y ∈ ys') : v = v' := by
  obtain ⟨y,hy⟩ := List.exists_mem_of_ne_nil ys hne
  rw [← h y hy,h' y ((hmem y).mp hy)]

theorem Gathered.single {f : α → List β} : Gathered f [x] (f x) := by simp [Gathered]

theorem Gathered.unique {f : α → List β} {vs vs' : List β} (h : Gathered f ys vs) (h' : Gathered f ys' vs')
    (hmem : ∀ y,y ∈ ys ↔ y ∈ ys') (v : β) : v ∈ vs ↔ v ∈ vs' := by
  rw [h v,h' v]
  simp only [hmem]

/-- A union of repeated fields as sets: new items are added at the end. -/
def setUnion [DecidableEq β] (fields unioned : List β) : List β :=
  fields.foldl (fun unioned field => if field ∈ unioned then unioned else unioned ++ [field]) unioned

theorem mem_setUnion [DecidableEq β] (fields unioned : List β) (v : β) : v ∈ setUnion fields unioned ↔ v ∈ unioned ∨ v ∈ fields := by
  unfold setUnion
  induction fields generalizing unioned with
  | nil => simp
  | cons field fields ih =>
    rw [List.foldl_cons,ih]
    split_ifs with h
    · constructor
      · exact fun hv => hv.imp id (List.mem_cons_of_mem _)
      · rintro (hv | hv)
        · exact .inl hv
        · rcases List.mem_cons.mp hv with rfl | hv
          · exact .inl h
          · exact .inr hv
    · simp [or_assoc]

theorem Gathered.setUnion [DecidableEq β] {f : α → List β} {vs : List β} (h : Gathered f ys vs) :
    Gathered f (ys ++ [x]) (setUnion (f x) vs) := by
  intro v
  rw [mem_setUnion,h v]
  simp [or_and_right,exists_or]

def stdMax [LT β] [DecidableLT β] (a b : β) : β := if a < b then b else a

theorem Largest.single [LE β] [Std.IsLinearOrder β] : Largest f [x] (f x) :=
  ⟨⟨x,by simp,rfl⟩,fun y hy => by rw [List.mem_singleton.mp hy]; exact Std.le_refl _⟩

theorem Largest.stdMax [LE β] [LT β] [DecidableLT β] [Std.IsLinearOrder β] [Std.LawfulOrderLT β] (h : Largest f ys v) :
    Largest f (ys ++ [x]) (stdMax v (f x)) := by
  obtain ⟨⟨z,hz,hzv⟩,hle⟩ := h
  unfold Lib.stdMax
  split_ifs with hlt
  · refine ⟨⟨x,by simp,rfl⟩,fun y hy => ?_⟩
    rcases List.mem_append.mp hy with hy | hy
    · exact Std.le_trans (hle y hy) (Std.le_of_lt hlt)
    · rw [List.mem_singleton.mp hy]
      exact Std.le_refl _
  · refine ⟨⟨z,by simp [hz],hzv⟩,fun y hy => ?_⟩
    rcases List.mem_append.mp hy with hy | hy
    · exact hle y hy
    · rw [List.mem_singleton.mp hy]
      exact Std.not_lt.mp hlt

theorem Largest.unique [LE β] [Std.IsLinearOrder β] (h : Largest f ys v) (h' : Largest f ys' v')
    (hmem : ∀ y,y ∈ ys ↔ y ∈ ys') : v = v' := by
  obtain ⟨⟨z,hz,rfl⟩,hle⟩ := h
  obtain ⟨⟨z',hz',rfl⟩,hle'⟩ := h'
  exact Std.le_antisymm (hle' z ((hmem z).mp hz)) (hle z' ((hmem z').mpr hz'))

end SonicPins.Lib
