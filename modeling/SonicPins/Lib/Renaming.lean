import Mathlib.Data.List.Lemmas
import Mathlib.Data.List.Nodup

/-! Renaming the keys of a finite map one after the other, and when that gives the map whose
keys are all renamed at once. -/
namespace SonicPins.Lib
variable {κ α : Type} [DecidableEq κ]

/-- The new name of a key; a key that is not renamed keeps its name. -/
def renamed (pairs : List (κ × κ)) (k : κ) : κ := (pairs.lookup k).getD k

/-- A value moves to its new key; what the new key held is lost. -/
def moveKey (f : κ → Option α) (pair : κ × κ) : κ → Option α :=
  if (f pair.1).isNone then f
  else fun k => if k = pair.1 then none else if k = pair.2 then f pair.1 else f k

/-- Every value of a map stands under the new name of its key in the other one, which holds nothing else. -/
structure RenamedBy (rename : κ → κ) (f g : κ → Option α) : Prop where
  carries : ∀ k v,f k = some v → g (rename k) = some v
  comes : ∀ k v,g k = some v → ∃ k',rename k' = k ∧ f k' = some v

/-- No key is renamed to another key that is there. -/
def NoClash (pairs : List (κ × κ)) (f : κ → Option α) : Prop :=
  ∀ o n,(o,n) ∈ pairs → f o ≠ none → n ≠ o → f n = none

/-- The new name of a key that is there is another name, which is not renamed afterwards. -/
def MovesOnce (pairs : List (κ × κ)) (f : κ → Option α) : Prop :=
  ∀ before o n after,pairs = before ++ (o,n) :: after → f o ≠ none → n ≠ o ∧ n ∉ after.map Prod.fst

variable {pairs : List (κ × κ)} {f : κ → Option α}

theorem renamed_cons (pair : κ × κ) (pairs : List (κ × κ)) (k : κ) :
    renamed (pair :: pairs) k = if k = pair.1 then pair.2 else renamed pairs k := by
  unfold renamed
  rw [List.lookup_cons]
  by_cases h : k = pair.1
  · simp [h]
  · simp [h,beq_false_of_ne h]

theorem renamed_of_notMem {k : κ} (h : k ∉ pairs.map Prod.fst) : renamed pairs k = k := by
  have hnone : pairs.lookup k = none := by
    rw [List.lookup_eq_none_iff]
    intro pair hpair
    have hne : k ≠ pair.1 := fun hk => h (hk ▸ List.mem_map_of_mem hpair)
    simpa using hne
  rw [renamed,hnone,Option.getD_none]

theorem renamed_of_mem (hkeys : (pairs.map Prod.fst).Nodup) {o n : κ} (h : (o,n) ∈ pairs) : renamed pairs o = n := by
  induction pairs with
  | nil => cases h
  | cons pair pairs ih =>
    obtain ⟨hhead,htail⟩ := List.nodup_cons.mp hkeys
    rw [renamed_cons]
    rcases List.mem_cons.mp h with rfl | h
    · simp
    · have hne : o ≠ pair.1 := fun ho => hhead (ho ▸ List.mem_map_of_mem h)
      rw [if_neg hne]
      exact ih htail h

theorem moveKey_old (f : κ → Option α) (pair : κ × κ) : moveKey f pair pair.1 = none := by
  unfold moveKey
  split
  · exact Option.isNone_iff_eq_none.mp ‹_›
  · simp

theorem moveKey_of_ne (f : κ → Option α) {pair : κ × κ} {k : κ} (hold : k ≠ pair.1) (hnew : k ≠ pair.2) :
    moveKey f pair k = f k := by
  unfold moveKey
  split
  · rfl
  · simp [hold,hnew]

theorem foldl_moveKey_none {k : κ} (hk : f k = none) (h : k ∉ pairs.map Prod.snd) : pairs.foldl moveKey f k = none := by
  induction pairs generalizing f with
  | nil => exact hk
  | cons pair pairs ih =>
    rw [List.map_cons,List.mem_cons,not_or] at h
    apply ih _ h.2
    by_cases hold : k = pair.1
    · rw [hold]
      exact moveKey_old f pair
    · rw [moveKey_of_ne f hold h.1,hk]

theorem foldl_moveKey_renamed {before after : List (κ × κ)} {k n : κ} (h : k ∉ after.map Prod.snd) :
    (before ++ (k,n) :: after).foldl moveKey f k = none := by
  rw [List.foldl_append,List.foldl_cons]
  exact foldl_moveKey_none (moveKey_old _ (k,n)) h

theorem renamedBy_id (f : κ → Option α) : RenamedBy (renamed []) f f :=
  ⟨fun _ _ hv => hv,fun k _ hv => ⟨k,rfl,hv⟩⟩

theorem RenamedBy.cons_absent {pair : κ × κ} {g : κ → Option α} (h : RenamedBy (renamed pairs) f g) (hf : f pair.1 = none) :
    RenamedBy (renamed (pair :: pairs)) f g := by
  have hkey : ∀ k v,f k = some v → renamed (pair :: pairs) k = renamed pairs k := by
    intro k v hk
    rw [renamed_cons,if_neg]
    rintro rfl
    rw [hf] at hk
    cases hk
  constructor
  · intro k v hk
    rw [hkey k v hk]
    exact h.carries k v hk
  · intro k v hk
    obtain ⟨k',rfl,hk'⟩ := h.comes k v hk
    exact ⟨k',hkey k' v hk',hk'⟩

theorem RenamedBy.cons_moved {pair : κ × κ} {g : κ → Option α} (h : RenamedBy (renamed pairs) (moveKey f pair) g)
    (hf : f pair.1 ≠ none) (hne : pair.2 ≠ pair.1) (hfree : f pair.2 = none) (hlater : pair.2 ∉ pairs.map Prod.fst) :
    RenamedBy (renamed (pair :: pairs)) f g := by
  have hmoved : moveKey f pair = fun k => if k = pair.1 then none else if k = pair.2 then f pair.1 else f k := by
    unfold moveKey
    rw [if_neg (by simpa using hf)]
  constructor
  · intro k v hk
    rw [renamed_cons]
    by_cases hold : k = pair.1
    · subst hold
      rw [if_pos rfl,← renamed_of_notMem hlater]
      apply h.carries
      simp [hmoved,hne,hk]
    · rw [if_neg hold]
      apply h.carries
      have hnew : k ≠ pair.2 := by
        rintro rfl
        rw [hfree] at hk
        cases hk
      simpa [hmoved,hold,hnew] using hk
  · intro k v hk
    obtain ⟨k',hk',hv⟩ := h.comes k v hk
    rw [hmoved] at hv
    by_cases hold : k' = pair.1
    · simp [hold] at hv
    · by_cases hnew : k' = pair.2
      · subst hnew
        refine ⟨pair.1,?_,by simpa [hne] using hv⟩
        rw [renamed_cons,if_pos rfl,← hk',renamed_of_notMem hlater]
      · refine ⟨k',?_,by simpa [hold,hnew] using hv⟩
        rw [renamed_cons,if_neg hold,hk']

omit [DecidableEq κ] in
theorem movesOnce_nil : MovesOnce [] f := by
  intro before o n after h
  cases before <;> cases h

omit [DecidableEq κ] in
theorem movesOnce_cons {o n : κ} :
    MovesOnce ((o,n) :: pairs) f ↔ (f o ≠ none → n ≠ o ∧ n ∉ pairs.map Prod.fst) ∧ MovesOnce pairs f := by
  constructor
  · intro h
    refine ⟨h [] o n pairs rfl,fun before o' n' after hpairs => ?_⟩
    exact h ((o,n) :: before) o' n' after (by rw [hpairs,List.cons_append])
  · rintro ⟨hhead,htail⟩ before o' n' after hpairs
    cases before with
    | nil =>
      obtain ⟨⟨rfl,rfl⟩,rfl⟩ := List.cons.inj hpairs |>.imp Prod.mk.inj id
      exact hhead
    | cons pair before => exact htail before o' n' after (List.cons.inj hpairs).2

theorem renamedBy_foldl_moveKey (hkeys : (pairs.map Prod.fst).Nodup) (hnames : (pairs.map Prod.snd).Nodup)
    (hclash : NoClash pairs f) (h : MovesOnce pairs f) : RenamedBy (renamed pairs) f (pairs.foldl moveKey f) := by
  induction pairs generalizing f with
  | nil => exact renamedBy_id f
  | cons pair pairs ih =>
    obtain ⟨o,n⟩ := pair
    obtain ⟨hkey,hkeys⟩ := List.nodup_cons.mp hkeys
    obtain ⟨hname,hnames⟩ := List.nodup_cons.mp hnames
    obtain ⟨hhead,hrest⟩ := movesOnce_cons.mp h
    have hclashRest : NoClash pairs f := fun o' n' hmem => hclash o' n' (List.mem_cons_of_mem _ hmem)
    by_cases hf : f o = none
    · have hsame : moveKey f (o,n) = f := if_pos (by simp [hf])
      rw [List.foldl_cons,hsame]
      exact (ih hkeys hnames hclashRest hrest).cons_absent hf
    · obtain ⟨hne,hlater⟩ := hhead hf
      have hfree := hclash o n List.mem_cons_self hf hne
      -- a key renamed later is there afterwards if and only if it was there before
      have hkept : ∀ o' n',(o',n') ∈ pairs → moveKey f (o,n) o' = f o' := by
        intro o' n' hmem
        apply moveKey_of_ne
        · exact fun ho => hkey (List.mem_map.mpr ⟨(o',n'),hmem,ho⟩)
        · exact fun ho => hlater (List.mem_map.mpr ⟨(o',n'),hmem,ho⟩)
      rw [List.foldl_cons]
      refine (ih hkeys hnames ?_ ?_).cons_moved hf hne hfree hlater
      · intro o' n' hmem hf' hne'
        rw [hkept o' n' hmem] at hf'
        by_cases hold : n' = o
        · rw [hold]
          exact moveKey_old f (o,n)
        · have hnew : n' ≠ n := fun hn => hname (List.mem_map.mpr ⟨(o',n'),hmem,hn⟩)
          rw [moveKey_of_ne f hold hnew]
          exact hclashRest o' n' hmem hf' hne'
      · intro before o' n' after hpairs hf'
        have hmem : (o',n') ∈ pairs := by simp [hpairs]
        rw [hkept o' n' hmem] at hf'
        exact hrest before o' n' after hpairs hf'

theorem movesOnce_of_kept (hkeys : (pairs.map Prod.fst).Nodup) (hnames : (pairs.map Prod.snd).Nodup)
    (h : ∀ k,f k ≠ none → pairs.foldl moveKey f (renamed pairs k) ≠ none) : MovesOnce pairs f := by
  intro before o n after hpairs hf
  have hfinal := h o hf
  rw [renamed_of_mem (n := n) hkeys (by simp [hpairs])] at hfinal
  subst hpairs
  -- otherwise the value has left its new name again: that name was emptied, and no later pair fills it
  rw [List.map_append,List.map_cons] at hnames
  have hlast : n ∉ after.map Prod.snd := (List.nodup_cons.mp hnames.of_append_right).1
  constructor
  · rintro rfl
    exact hfinal (foldl_moveKey_renamed hlast)
  · intro hlater
    obtain ⟨⟨k,n'⟩,hmem,rfl⟩ := List.mem_map.mp hlater
    obtain ⟨mid,rest,rfl⟩ := List.append_of_mem hmem
    have hrest : k ∉ rest.map Prod.snd := fun hk => hlast (by simp [List.mem_map.mp hk])
    have hsplit : before ++ (o,k) :: (mid ++ (k,n') :: rest) = (before ++ (o,k) :: mid) ++ (k,n') :: rest := by simp
    rw [hsplit] at hfinal
    exact hfinal (foldl_moveKey_renamed hrest)

theorem renamed_injOn (hkeys : (pairs.map Prod.fst).Nodup) (hnames : (pairs.map Prod.snd).Nodup) (hclash : NoClash pairs f)
    {k k' : κ} (hk : f k ≠ none) (hk' : f k' ≠ none) (h : renamed pairs k = renamed pairs k') : k = k' := by
  -- a key that is renamed is not renamed to a key that is there
  have hmixed : ∀ {o k : κ},f o ≠ none → f k ≠ none → o ∈ pairs.map Prod.fst → k ∉ pairs.map Prod.fst →
      renamed pairs o = renamed pairs k → o = k := by
    intro o k ho hk hmem hnot heq
    obtain ⟨⟨o,n⟩,hpair,rfl⟩ := List.mem_map.mp hmem
    rw [renamed_of_mem hkeys hpair,renamed_of_notMem hnot] at heq
    subst heq
    by_contra hne
    exact hk (hclash o n hpair ho (Ne.symm hne))
  by_cases hmem : k ∈ pairs.map Prod.fst
  · by_cases hmem' : k' ∈ pairs.map Prod.fst
    · obtain ⟨⟨o,n⟩,hpair,rfl⟩ := List.mem_map.mp hmem
      obtain ⟨⟨o',n'⟩,hpair',rfl⟩ := List.mem_map.mp hmem'
      rw [renamed_of_mem hkeys hpair,renamed_of_mem hkeys hpair'] at h
      subst h
      exact congrArg Prod.fst (List.inj_on_of_nodup_map hnames hpair hpair' rfl)
    · exact hmixed hk hk' hmem hmem' h
  · by_cases hmem' : k' ∈ pairs.map Prod.fst
    · exact (hmixed hk' hk hmem' hmem h.symm).symm
    · rwa [renamed_of_notMem hmem,renamed_of_notMem hmem'] at h

omit [DecidableEq κ] in
theorem RenamedBy.map {β : Type} {rename : κ → κ} {f g : κ → Option α} (h : RenamedBy rename f g) {φ ψ : α → β}
    (hvalues : ∀ k v,f k = some v → φ v = ψ v) : RenamedBy rename (fun k => (f k).map ψ) (fun k => (g k).map φ) := by
  constructor
  · intro k w hw
    obtain ⟨v,hv,rfl⟩ := Option.map_eq_some_iff.mp hw
    rw [h.carries k v hv,Option.map_some,hvalues k v hv]
  · intro k w hw
    obtain ⟨v,hv,rfl⟩ := Option.map_eq_some_iff.mp hw
    obtain ⟨k',hk,hv⟩ := h.comes k v hv
    exact ⟨k',hk,by rw [hv,Option.map_some,hvalues k' v hv]⟩

omit [DecidableEq κ] in
theorem RenamedBy.unique {rename : κ → κ} {f g g' : κ → Option α} (h : RenamedBy rename f g) (h' : RenamedBy rename f g') :
    g = g' := by
  have hsome : ∀ {g g' : κ → Option α},RenamedBy rename f g → RenamedBy rename f g' → ∀ k v,g k = some v → g' k = some v := by
    intro g g' h h' k v hk
    obtain ⟨k',rfl,hk'⟩ := h.comes k v hk
    exact h'.carries k' v hk'
  funext k
  apply Option.ext
  intro v
  exact ⟨hsome h h' k v,hsome h' h k v⟩

end SonicPins.Lib
