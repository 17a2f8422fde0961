import Mathlib.Data.Finset.Card
import SonicPins.P4Symbolic.IdAllocator

/-! Which strings and ids an allocator knows after a sequence of calls, and when its two
directions are a bijection. -/
namespace SonicPins.P4Symbolic
open Lib Pdpi

namespace TranslationData
variable (data : TranslationData)

def staticStrings : List String := data.staticMapping.map Prod.fst
def staticIds : List UInt64 := data.staticMapping.map Prod.snd

/-- Two statically mapped pairs agree on both sides or on none. -/
def Bijective : Prop := ∀ x ∈ data.staticMapping,∀ y ∈ data.staticMapping,x.1 = y.1 ↔ x.2 = y.2

instance : Decidable data.Bijective := inferInstanceAs (Decidable (∀ x ∈ data.staticMapping,∀ y ∈ data.staticMapping,_))

/-- The strings that have an id after the given calls. -/
def KnownString (calls : List String) (s : String) : Prop :=
  s ∈ data.staticStrings ∨ data.dynamicTranslation = true ∧ s ∈ calls

instance (calls : List String) (s : String) : Decidable (data.KnownString calls s) := inferInstanceAs (Decidable (_ ∨ _))

/-- The called strings that the static mapping gives no id. -/
def newStrings (calls : List String) : Finset String :=
  if data.dynamicTranslation then calls.toFinset \ data.staticStrings.toFinset else ∅

/-- Not an id of the static mapping. -/
def FreeId (n : Nat) : Prop := UInt64.ofNat n ∉ data.staticIds

instance : DecidablePred data.FreeId := fun n => inferInstanceAs (Decidable (UInt64.ofNat n ∉ data.staticIds))

/-- The ids in use after the given calls: those of the static mapping, and as many of the
others, from the smallest on, as there are new strings. -/
def KnownId (calls : List String) (id : UInt64) : Prop :=
  id ∈ data.staticIds ∨ Nat.count data.FreeId id.toNat < (data.newStrings calls).card

instance (calls : List String) (id : UInt64) : Decidable (data.KnownId calls id) := inferInstanceAs (Decidable (_ ∨ _))

/-- No known string is the numeral of an id that is not in use, where such ids have names at all. -/
def NumeralsInUse (calls : List String) : Prop :=
  data.dynamicTranslation = true → ∀ id : UInt64,data.KnownString calls (natText id.toNat) → data.KnownId calls id

end TranslationData

/-- What an allocator holds after the given calls. -/
structure IdAllocator.Numbered (data : TranslationData) (calls : List String) (a : IdAllocator) : Prop where
  translation : a.translationData = data
  mirrored : Mirrored a.stringToIdMap a.idToStringMap
  static : ∀ x ∈ data.staticMapping,a.stringToIdMap.lookup x.1 = some x.2
  strings : ∀ s,(a.stringToIdMap.lookup s).isSome ↔ data.KnownString calls s
  ids : ∀ id,(a.idToStringMap.lookup id).isSome ↔ data.KnownId calls id
  below : ∀ id < a.nextId,(a.idToStringMap.lookup id).isSome

namespace IdAllocator
variable {data : TranslationData} {calls : List String} {a b : IdAllocator} {s : String} {id : UInt64}

@[simp] theorem store_translationData : (a.store s id).translationData = a.translationData := rfl
@[simp] theorem store_nextId : (a.store s id).nextId = a.nextId := rfl
@[simp] theorem store_stringToIdMap : (a.store s id).stringToIdMap = (s,id) :: a.stringToIdMap := rfl
@[simp] theorem store_idToStringMap : (a.store s id).idToStringMap = (id,s) :: a.idToStringMap := rfl

/-! ### The constructor -/

private theorem foldl_store (pairs : List (String × UInt64)) (a : IdAllocator) :
    let b := pairs.foldl (fun a x => a.store x.1 x.2) a
    b.translationData = a.translationData ∧ b.nextId = a.nextId ∧
      (∀ s,(b.stringToIdMap.lookup s).isSome ↔ s ∈ pairs.map Prod.fst ∨ (a.stringToIdMap.lookup s).isSome) ∧
      ∀ id,(b.idToStringMap.lookup id).isSome ↔ id ∈ pairs.map Prod.snd ∨ (a.idToStringMap.lookup id).isSome := by
  induction pairs generalizing a with
  | nil => simp
  | cons x pairs ih =>
    obtain ⟨hdata,hnext,hstrings,hids⟩ := ih (a.store x.1 x.2)
    refine ⟨hdata,hnext,fun s => ?_,fun id => ?_⟩
    · rw [List.foldl_cons,hstrings s,store_stringToIdMap,lookup_cons_eq]
      by_cases hs : s = x.1 <;> simp [hs]
    · rw [List.foldl_cons,hids id,store_idToStringMap,lookup_cons_eq]
      by_cases hid : id = x.2 <;> simp [hid]

private theorem foldl_store_mirrored {pairs written : List (String × UInt64)} {a : IdAllocator}
    (hbij : ∀ x ∈ written ++ pairs,∀ y ∈ written ++ pairs,x.1 = y.1 ↔ x.2 = y.2)
    (hm : Mirrored a.stringToIdMap a.idToStringMap) (ha : ∀ s id,a.stringToIdMap.lookup s = some id ↔ (s,id) ∈ written) :
    let b := pairs.foldl (fun a x => a.store x.1 x.2) a
    Mirrored b.stringToIdMap b.idToStringMap ∧ ∀ s id,b.stringToIdMap.lookup s = some id ↔ (s,id) ∈ written ++ pairs := by
  induction pairs generalizing written a with
  | nil => exact ⟨hm,by simpa using ha⟩
  | cons x pairs ih =>
    have hx : x ∈ written ++ x :: pairs := by simp
    have hold : ∀ y ∈ written,y ∈ written ++ x :: pairs := fun y hy => List.mem_append_left _ hy
    have hsnoc : written ++ x :: pairs = (written ++ [x]) ++ pairs := by simp
    have hm' : Mirrored (a.store x.1 x.2).stringToIdMap (a.store x.1 x.2).idToStringMap := by
      apply hm.cons
      constructor
      · intro id hid
        exact (hbij _ (hold _ ((ha _ _).mp hid)) _ hx).mp rfl
      · intro s hs
        have hs' := (ha _ _).mp ((hm _ _).mpr hs)
        exact (hbij _ (hold _ hs') _ hx).mpr rfl
    rw [hsnoc] at hbij ⊢
    apply ih hbij hm'
    intro s id
    rw [store_stringToIdMap,lookup_cons_eq,List.mem_append,List.mem_singleton]
    by_cases hs : s = x.1
    · rw [if_pos hs,hs]
      constructor
      · intro hid
        exact .inr (Prod.ext rfl (Option.some.inj hid).symm)
      · rintro (hw | heq)
        · have hagree := (hbij (x.1,id) (by simp [hw]) x (by simp)).mp rfl
          exact congrArg some hagree.symm
        · exact congrArg some (congrArg Prod.snd heq).symm
    · rw [if_neg hs,ha]
      constructor
      · exact .inl
      · rintro (hw | heq)
        · exact hw
        · exact absurd (congrArg Prod.fst heq) hs

private theorem numbered_ofData (hdata : data.Bijective) : (ofData data).Numbered data [] := by
  have hnil : ∀ s id,List.lookup s ([] : List (String × UInt64)) = some id ↔ (s,id) ∈ ([] : List (String × UInt64)) := by
    simp
  obtain ⟨hkept,hnext,hstrings,hids⟩ := foldl_store data.staticMapping { translationData := data }
  have hbij : ∀ x ∈ [] ++ data.staticMapping,∀ y ∈ [] ++ data.staticMapping,x.1 = y.1 ↔ x.2 = y.2 := hdata
  obtain ⟨hmirrored,hlookup⟩ := foldl_store_mirrored (a := { translationData := data }) hbij .nil hnil
  refine ⟨hkept,hmirrored,?_,?_,?_,?_⟩
  · intro x hx
    exact (hlookup x.1 x.2).mpr (by simpa using hx)
  · intro s
    rw [ofData,hstrings s]
    simp [TranslationData.KnownString,TranslationData.staticStrings]
  · intro id
    rw [ofData,hids id]
    simp [TranslationData.KnownId,TranslationData.staticIds,TranslationData.newStrings]
  · intro id hid
    rw [show (ofData data).nextId = 0 from hnext] at hid
    exact absurd hid (by simp)

/-! ### One call -/

theorem knownString_append : data.KnownString (calls ++ [s]) = fun t => data.KnownString calls t ∨ data.dynamicTranslation =
    true ∧ t = s := by
  funext t
  simp only [TranslationData.KnownString,List.mem_append,List.mem_singleton,eq_iff_iff]
  tauto

private theorem newStrings_append_of_known (h : data.dynamicTranslation = true → data.KnownString calls s) :
    data.newStrings (calls ++ [s]) = data.newStrings calls := by
  unfold TranslationData.newStrings
  split
  next hdyn =>
    ext t
    simp only [Finset.mem_sdiff,List.mem_toFinset,List.mem_append,List.mem_singleton]
    constructor
    · rintro ⟨ht | rfl,hstatic⟩
      · exact ⟨ht,hstatic⟩
      · rcases h hdyn with hs | ⟨-,hs⟩
        · exact absurd hs hstatic
        · exact ⟨hs,hstatic⟩
    · rintro ⟨ht,hstatic⟩
      exact ⟨.inl ht,hstatic⟩
  next => rfl

private theorem card_newStrings_append (hdyn : data.dynamicTranslation = true) (h : ¬ data.KnownString calls s) :
    (data.newStrings (calls ++ [s])).card = (data.newStrings calls).card + 1 := by
  obtain ⟨hstatic,hcalls⟩ := not_or.mp h
  have hnew : s ∉ data.newStrings calls := by
    rw [TranslationData.newStrings,if_pos hdyn]
    simp only [Finset.mem_sdiff,List.mem_toFinset]
    exact fun hs => hcalls ⟨hdyn,hs.1⟩
  rw [← Finset.card_insert_of_notMem hnew]
  congr 1
  ext t
  simp only [TranslationData.newStrings,if_pos hdyn,Finset.mem_sdiff,Finset.mem_insert,List.mem_toFinset,List.mem_append,
    List.mem_singleton]
  constructor
  · rintro ⟨ht | rfl,hs⟩
    · exact .inr ⟨ht,hs⟩
    · exact .inl rfl
  · rintro (rfl | ⟨ht,hs⟩)
    · exact ⟨.inr rfl,hstatic⟩
    · exact ⟨.inl ht,hs⟩

namespace Numbered

theorem append_of_known (h : a.Numbered data calls) (hs : data.dynamicTranslation = true → data.KnownString calls s) :
    a.Numbered data (calls ++ [s]) where
  translation := h.translation
  mirrored := h.mirrored
  static := h.static
  strings t := by
    rw [h.strings t,knownString_append]
    constructor
    · exact .inl
    · rintro (ht | ⟨hdyn,rfl⟩)
      · exact ht
      · exact hs hdyn
  ids i := by rw [h.ids i,TranslationData.KnownId,TranslationData.KnownId,newStrings_append_of_known hs]
  below := h.below

private theorem append_of_new (h : a.Numbered data calls) (hdyn : data.dynamicTranslation = true) (hs : ¬ data.KnownString calls s)
    (hid : a.idToStringMap.lookup id = none) (hbelow : ∀ j < id,(a.idToStringMap.lookup j).isSome) :
    Numbered data (calls ++ [s]) { a.store s id with nextId := id } where
  translation := h.translation
  mirrored := by
    have hnone : a.stringToIdMap.lookup s = none :=
      Option.not_isSome_iff_eq_none.mp fun hsome => hs ((h.strings s).mp hsome)
    apply h.mirrored.cons
    simp [hid,hnone]
  static x hx := by
    have hne : x.1 ≠ s := by
      rintro rfl
      exact hs (.inl (List.mem_map_of_mem hx))
    simpa [lookup_cons_eq,hne] using h.static x hx
  strings t := by
    rw [store_stringToIdMap,lookup_cons_eq,knownString_append]
    by_cases ht : t = s
    · simp [ht,hdyn]
    · simp [ht,h.strings t]
  ids i := by
    have hfree : ¬ data.KnownId calls id := fun hknown => by
      have hsome := (h.ids id).mpr hknown
      simp [hid] at hsome
    obtain ⟨hstatic,hcount⟩ := not_or.mp hfree
    have hlt : ∀ m < id.toNat,data.FreeId m → Nat.count data.FreeId m < (data.newStrings calls).card := by
      intro m hm hmfree
      have hm' : (UInt64.ofNat m).toNat = m := UInt64.toNat_ofNat_of_lt (Nat.lt_trans hm id.toNat_lt)
      have hknown := (h.ids (UInt64.ofNat m)).mp (hbelow _ (UInt64.lt_iff_toNat_lt.mpr (by rwa [hm'])))
      rcases hknown with hs | hlt
      · exact absurd hs hmfree
      · rwa [hm'] at hlt
    have hfreeId : ∀ j : UInt64,data.FreeId j.toNat ↔ j ∉ data.staticIds := by
      intro j
      rw [TranslationData.FreeId,UInt64.ofNat_toNat]
    rw [store_idToStringMap,lookup_cons_eq,TranslationData.KnownId,card_newStrings_append hdyn hs]
    by_cases hi : i ∈ data.staticIds
    · have hne : i ≠ id := fun heq => hstatic (heq ▸ hi)
      simp [hne,hi,h.ids i,TranslationData.KnownId]
    · have hiff := count_lt_succ_iff ((hfreeId id).mpr hstatic) hlt hcount ((hfreeId i).mpr hi)
      rw [hiff,UInt64.toNat_inj]
      by_cases hne : i = id
      · simp [hne]
      · simp [hne,hi,h.ids i,TranslationData.KnownId]
  below j hj := by
    have hne : j ≠ id := UInt64.ne_of_lt hj
    rw [store_idToStringMap,lookup_cons_eq,if_neg hne]
    exact hbelow j hj

end Numbered

/-! ### Runs -/

/-- What an allocator answers for a string that it has been asked for. -/
def answer (a : IdAllocator) (stringValue : String) : StatusOr UInt64 :=
  match a.stringToIdMap.lookup stringValue with
  | some id => .ok id
  | none => .error (invalidArgument ("Cannot translate string value '" ++ stringValue ++
      "' to a bitvector with the given static mapping."))

/-- Strings keep the ids that they have. -/
def Extends (b a : IdAllocator) : Prop := ∀ s id,a.stringToIdMap.lookup s = some id → b.stringToIdMap.lookup s = some id

theorem answer_eq_ok : a.answer s = .ok id ↔ a.stringToIdMap.lookup s = some id := by
  unfold answer
  cases a.stringToIdMap.lookup s <;> simp

private theorem least_unused (a : IdAllocator) : (∀ id,(a.idToStringMap.lookup id).isSome) ∨
    ∃ id,a.idToStringMap.lookup id = none ∧ ∀ j < id,(a.idToStringMap.lookup j).isSome := by
  by_cases hall : ∀ id,(a.idToStringMap.lookup id).isSome
  · exact .inl hall
  · right
    have hsome : ∃ n,∃ id : UInt64,id.toNat = n ∧ a.idToStringMap.lookup id = none := by
      obtain ⟨id,hid⟩ := not_forall.mp hall
      exact ⟨_,id,rfl,Option.not_isSome_iff_eq_none.mp hid⟩
    classical
    obtain ⟨id,hn,hid⟩ := Nat.find_spec hsome
    refine ⟨id,hid,fun j hj => ?_⟩
    by_contra hnone
    have hlt : j.toNat < Nat.find hsome := hn ▸ UInt64.lt_iff_toNat_lt.mp hj
    exact Nat.find_min hsome hlt ⟨j,rfl,Option.not_isSome_iff_eq_none.mp hnone⟩

theorem allocateId_spec (h : a.Numbered data calls) :
    (∀ b r,a.allocateId s = some (b,r) → b.Numbered data (calls ++ [s]) ∧ b.Extends a ∧ r = b.answer s) ∧
      ((∃ id,a.idToStringMap.lookup id = none) → (a.allocateId s).isSome) := by
  unfold allocateId
  cases hs : a.stringToIdMap.lookup s with
  | some id =>
    have hknown : data.KnownString calls s := (h.strings s).mp (by rw [hs]; rfl)
    refine ⟨?_,fun _ => rfl⟩
    rintro b r heq
    cases heq
    exact ⟨h.append_of_known fun _ => hknown,fun _ _ hlookup => hlookup,(answer_eq_ok.mpr hs).symm⟩
  | none =>
    have hunknown : ¬ data.KnownString calls s := fun hknown => by
      have hsome := (h.strings s).mpr hknown
      simp [hs] at hsome
    simp only [h.translation]
    by_cases hdyn : data.dynamicTranslation = true
    · rw [if_pos hdyn]
      rcases a.least_unused with hall | ⟨id,hid,hbelow⟩
      · constructor
        · intro b r heq
          obtain ⟨id,hnext,-⟩ := Option.map_eq_some_iff.mp heq
          have hused := hall id
          rw [nextUnusedId_unused hnext] at hused
          cases hused
        · rintro ⟨id,hid⟩
          have hused := hall id
          rw [hid] at hused
          cases hused
      · have hle : a.nextId ≤ id := by
          rw [← UInt64.not_lt]
          intro hlt
          have hused := h.below id hlt
          rw [hid] at hused
          cases hused
        have hrounds : id.toNat - a.nextId.toNat < 2 ^ 64 := Nat.lt_of_le_of_lt (Nat.sub_le _ _) id.toNat_lt
        rw [nextUnusedId_eq_some hid hle (fun j _ hj => hbelow j hj) hrounds]
        refine ⟨?_,fun _ => rfl⟩
        intro b r heq
        cases heq
        refine ⟨h.append_of_new hdyn hunknown hid hbelow,?_,?_⟩
        · intro t i ht
          have hne : t ≠ s := by
            rintro rfl
            rw [hs] at ht
            cases ht
          simpa [lookup_cons_eq,hne] using ht
        · symm
          rw [answer_eq_ok]
          simp
    · rw [if_neg hdyn]
      refine ⟨?_,fun _ => rfl⟩
      rintro b r heq
      cases heq
      refine ⟨h.append_of_known fun hd => absurd hd hdyn,fun _ _ hlookup => hlookup,?_⟩
      rw [answer,hs]

private theorem allocateIds_spec {rest : List String} {results : List (StatusOr UInt64)} (h : a.Numbered data calls)
    (hrun : a.allocateIds rest = some (b,results)) :
    b.Numbered data (calls ++ rest) ∧ b.Extends a ∧ results = rest.map b.answer := by
  induction rest generalizing a calls results with
  | nil =>
    cases hrun
    exact ⟨by simpa using h,fun _ _ hlookup => hlookup,rfl⟩
  | cons s rest ih =>
    obtain ⟨⟨c,r⟩,hcall,hbind⟩ := Option.bind_eq_some_iff.mp hrun
    obtain ⟨⟨b',rs⟩,hrest,heq⟩ := Option.map_eq_some_iff.mp hbind
    cases heq
    obtain ⟨hc,hext,rfl⟩ := (allocateId_spec h).1 c r hcall
    obtain ⟨hb,hextb,hrs⟩ := ih hc hrest
    refine ⟨by simpa using hb,fun t i ht => hextb t i (hext t i ht),?_⟩
    rw [List.map_cons,hrs]
    congr 1
    cases hlookup : c.stringToIdMap.lookup s with
    | some i => rw [answer_eq_ok.mpr hlookup,answer_eq_ok.mpr (hextb s i hlookup)]
    | none =>
      have hunknown : ¬ data.KnownString (calls ++ [s] ++ rest) s := by
        have hnot : ¬ (c.stringToIdMap.lookup s).isSome := by simp [hlookup]
        rw [hc.strings s] at hnot
        simpa [TranslationData.KnownString] using hnot
      rw [← hb.strings s,Option.not_isSome_iff_eq_none] at hunknown
      rw [answer,answer,hlookup,hunknown]

private theorem exists_unused (h : a.idToStringMap.length < 2 ^ 64) : ∃ id,a.idToStringMap.lookup id = none := by
  by_contra hall
  have hsub : Finset.range (2 ^ 64) ⊆ (a.idToStringMap.map fun x => x.1.toNat).toFinset := by
    intro n hn
    have hlt : n < 2 ^ 64 := Finset.mem_range.mp hn
    have hsome : a.idToStringMap.lookup (UInt64.ofNat n) ≠ none := not_exists.mp hall _
    obtain ⟨s,hs⟩ := Option.ne_none_iff_exists'.mp hsome
    rw [List.mem_toFinset,List.mem_map]
    exact ⟨_,mem_of_lookup_eq_some hs,UInt64.toNat_ofNat_of_lt hlt⟩
  have hcard := (Finset.card_le_card hsub).trans (List.toFinset_card_le _)
  rw [Finset.card_range,List.length_map] at hcard
  omega

private theorem length_foldl_store (pairs : List (String × UInt64)) (a : IdAllocator) :
    (pairs.foldl (fun a x => a.store x.1 x.2) a).idToStringMap.length = a.idToStringMap.length + pairs.length := by
  induction pairs generalizing a with
  | nil => rfl
  | cons x pairs ih =>
    rw [List.foldl_cons,ih,store_idToStringMap,List.length_cons,List.length_cons]
    omega

private theorem length_allocateId {r : StatusOr UInt64} (h : a.allocateId s = some (b,r)) :
    b.idToStringMap.length ≤ a.idToStringMap.length + 1 := by
  unfold allocateId at h
  split at h
  · cases h
    omega
  · split at h
    · obtain ⟨id,-,heq⟩ := Option.map_eq_some_iff.mp h
      cases heq
      simp
    · cases h
      omega

private theorem allocateIds_isSome {rest : List String} (h : a.Numbered data calls)
    (hroom : a.idToStringMap.length + rest.length ≤ 2 ^ 64) : (a.allocateIds rest).isSome := by
  induction rest generalizing a calls with
  | nil => rfl
  | cons s rest ih =>
    rw [List.length_cons] at hroom
    obtain ⟨⟨b,r⟩,hcall⟩ := Option.isSome_iff_exists.mp ((allocateId_spec h).2 (exists_unused (by omega)))
    have hlen := length_allocateId hcall
    have hb := ((allocateId_spec h).1 b r hcall).1
    obtain ⟨y,hy⟩ := Option.isSome_iff_exists.mp (ih hb (by omega))
    rw [allocateIds,hcall,Option.bind_some,hy]
    rfl

/-! ### Both directions -/

private theorem natText_injective {m n : Nat} (h : natText m = natText n) : m = n := by
  have hread := safeParseInt_decimal m
  rw [show decimal (m : Int) = decimal (n : Int) from h,safeParseInt_decimal] at hread
  exact_mod_cast (Option.some.inj hread).symm

theorem idToString_eq_ok : a.idToString id = .ok s ↔ a.idToStringMap.lookup id = some s ∨
    a.idToStringMap.lookup id = none ∧ a.translationData.dynamicTranslation = true ∧ s = natText id.toNat := by
  unfold idToString
  cases a.idToStringMap.lookup id with
  | some t => simp
  | none =>
    by_cases hdyn : a.translationData.dynamicTranslation = true
    · simp [hdyn,eq_comm]
    · simp [hdyn]

private theorem idToString_injective_iff (h : a.Numbered data calls) :
    (∀ i j s,a.idToString i = .ok s → a.idToString j = .ok s → i = j) ↔ data.NumeralsInUse calls := by
  have hunused : ∀ id,a.idToStringMap.lookup id = none ↔ ¬ data.KnownId calls id := fun id => by
    rw [← h.ids id,Option.not_isSome_iff_eq_none]
  constructor
  · intro hinj hdyn id hstring
    by_contra hid
    obtain ⟨i,hi⟩ := Option.isSome_iff_exists.mp ((h.strings _).mpr hstring)
    have hread : a.idToString i = .ok (natText id.toNat) := idToString_eq_ok.mpr (.inl ((h.mirrored _ _).mp hi))
    have hinvented : a.idToString id = .ok (natText id.toNat) :=
      idToString_eq_ok.mpr (.inr ⟨(hunused id).mpr hid,by rw [h.translation,hdyn],rfl⟩)
    have hlookup := (h.mirrored _ _).mp hi
    rw [hinj i id _ hread hinvented,(hunused id).mpr hid] at hlookup
    cases hlookup
  · intro hnumerals
    -- an id in use and one that is not: the invented name would be a known string
    have hmixed : ∀ i j t,a.idToStringMap.lookup i = some t → a.idToStringMap.lookup j = none →
        a.translationData.dynamicTranslation = true → t ≠ natText j.toNat := by
      rintro i j t hi hj hdyn rfl
      have hknown : data.KnownString calls (natText j.toNat) := (h.strings _).mp (by rw [(h.mirrored _ _).mpr hi]; rfl)
      exact (hunused j).mp hj (hnumerals (h.translation ▸ hdyn) j hknown)
    intro i j s hi hj
    rcases idToString_eq_ok.mp hi with hi' | ⟨hi',hdyn,rfl⟩
    · rcases idToString_eq_ok.mp hj with hj' | ⟨hj',hdyn,rfl⟩
      · exact h.mirrored.symm.injective hi' hj'
      · exact absurd rfl (hmixed i j _ hi' hj' hdyn)
    · rcases idToString_eq_ok.mp hj with hj' | ⟨-,-,htext⟩
      · exact absurd rfl (hmixed j i _ hj' hi' hdyn)
      · exact UInt64.toNat_inj.mp (natText_injective htext)

/-- Allocation as a bijection: the calls of a run, what they returned and the allocator after them. -/
structure AllocatesBijectively (data : TranslationData) (calls : List String) (a : IdAllocator)
    (results : List (StatusOr UInt64)) : Prop where
  equalStrings : ∀ x ∈ calls.zip results,∀ y ∈ calls.zip results,x.1 = y.1 → x.2 = y.2
  differentStrings : ∀ x ∈ calls.zip results,∀ y ∈ calls.zip results,∀ id,x.2 = .ok id → y.2 = .ok id → x.1 = y.1
  staticMapping : ∀ x ∈ calls.zip results,∀ id,(x.1,id) ∈ data.staticMapping → x.2 = .ok id
  readBack : ∀ x ∈ calls.zip results,∀ id,x.2 = .ok id → a.idToString id = .ok x.1
  injective : ∀ i j s,a.idToString i = .ok s → a.idToString j = .ok s → i = j

theorem mem_zip_map {α β : Type} {f : α → β} {l : List α} {x : α × β} (h : x ∈ l.zip (l.map f)) : x.2 = f x.1 := by
  induction l with
  | nil => cases h
  | cons a l ih =>
    rcases List.mem_cons.mp h with rfl | h
    · rfl
    · exact ih h

private theorem allocatesBijectively_iff (h : a.Numbered data calls) :
    AllocatesBijectively data calls a (calls.map a.answer) ↔ data.NumeralsInUse calls := by
  rw [← idToString_injective_iff h]
  refine ⟨fun hbij => hbij.injective,fun hinj => ⟨?_,?_,?_,?_,hinj⟩⟩
  · intro x hx y hy heq
    rw [mem_zip_map hx,mem_zip_map hy,heq]
  · intro x hx y hy id hxid hyid
    rw [mem_zip_map hx,answer_eq_ok] at hxid
    rw [mem_zip_map hy,answer_eq_ok] at hyid
    exact h.mirrored.injective hxid hyid
  · intro x hx id hid
    rw [mem_zip_map hx,answer_eq_ok]
    exact h.static _ hid
  · intro x hx id hid
    rw [mem_zip_map hx,answer_eq_ok] at hid
    exact idToString_eq_ok.mpr (.inl ((h.mirrored _ _).mp hid))

/-- Every run returns while there are ids left, and its allocations form a bijection exactly
when no known string is the numeral of an id that is not in use. -/
theorem id_allocation_bijective_iff (data : TranslationData) (hdata : data.Bijective) (calls : List String) :
    (data.staticMapping.length + calls.length ≤ 2 ^ 64 → ((ofData data).allocateIds calls).isSome) ∧
      ∀ a results,(ofData data).allocateIds calls = some (a,results) →
        (AllocatesBijectively data calls a results ↔ data.NumeralsInUse calls) := by
  have h := numbered_ofData hdata
  constructor
  · intro hroom
    apply allocateIds_isSome h
    rw [ofData,length_foldl_store]
    simpa using hroom
  · intro a results hrun
    obtain ⟨ha,-,rfl⟩ := allocateIds_spec h hrun
    exact allocatesBijectively_iff ha

/-- A type with one static port and one name given out. -/
theorem id_allocation_bijective_vrf :
    let data : TranslationData := { staticMapping := [("CPU",510)],dynamicTranslation := true }
    data.Bijective ∧ ∃ a results,(ofData data).allocateIds ["vrf-1","CPU"] = some (a,results) ∧
      (AllocatesBijectively data ["vrf-1","CPU"] a results ↔ data.NumeralsInUse ["vrf-1","CPU"]) :=
  ⟨by decide,_,_,by rfl,(id_allocation_bijective_iff _ (by decide) _).2 _ _ (by rfl)⟩

/-- The string "1" gets the id 0, and the unused id 1 is read back as "1" too. -/
theorem id_allocation_not_injective :
    ¬ ∀ (data : TranslationData),data.Bijective → ∀ (calls : List String) a results,
      (ofData data).allocateIds calls = some (a,results) → AllocatesBijectively data calls a results := by
  intro h
  have hbij := h { dynamicTranslation := true } (by decide) ["1"] _ _ (by rfl)
  exact absurd (hbij.injective 0 1 "1" (by decide) (by decide)) (by decide)

end IdAllocator
end SonicPins.P4Symbolic
