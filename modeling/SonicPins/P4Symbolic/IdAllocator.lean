import SonicPins.Lib.Numbering
import SonicPins.Lib.TextReading
import SonicPins.Pdpi.Values

/-! Strings of translated types as numeric ids, and back. -/
namespace SonicPins.P4Symbolic
open Lib Pdpi

structure TranslationData where
  staticMapping : List (String × UInt64) := []
  dynamicTranslation : Bool := false
  deriving DecidableEq,Repr

structure IdAllocator where
  stringToIdMap : List (String × UInt64) := []
  idToStringMap : List (UInt64 × String) := []
  translationData : TranslationData
  nextId : UInt64 := 0
  deriving DecidableEq,Repr

def IdAllocator.store (a : IdAllocator) (stringValue : String) (id : UInt64) : IdAllocator :=
  { a with stringToIdMap := (stringValue,id) :: a.stringToIdMap,idToStringMap := (id,stringValue) :: a.idToStringMap }

def IdAllocator.ofData (translationData : TranslationData) : IdAllocator :=
  translationData.staticMapping.foldl (fun a x => a.store x.1 x.2) { translationData }

/-- The loop over used ids. The ids repeat after `2 ^ 64` rounds, so the source's loop does not end when these
rounds do not end it. -/
def nextUnusedId (idToStringMap : List (UInt64 × String)) : (rounds : Nat) → (nextId : UInt64) → Option UInt64
  | 0,_ => none
  | rounds + 1,nextId =>
    if (idToStringMap.lookup nextId).isSome then nextUnusedId idToStringMap rounds (nextId + 1) else some nextId

/-- `none` where the call does not return. -/
def IdAllocator.allocateId (a : IdAllocator) (stringValue : String) : Option (IdAllocator × StatusOr UInt64) :=
  match a.stringToIdMap.lookup stringValue with
  | some id => some (a,.ok id)
  | none =>
    if a.translationData.dynamicTranslation then
      (nextUnusedId a.idToStringMap (2 ^ 64) a.nextId).map fun id => ({ a.store stringValue id with nextId := id },.ok id)
    else some (a,.error (invalidArgument ("Cannot translate string value '" ++ stringValue ++
      "' to a bitvector with the given static mapping.")))

def IdAllocator.idToString (a : IdAllocator) (value : UInt64) : StatusOr String :=
  match a.idToStringMap.lookup value with
  | some stringValue => .ok stringValue
  | none =>
    if a.translationData.dynamicTranslation then .ok (natText value.toNat)
    else .error ⟨.internal,"Cannot translate bitvector '" ++ natText value.toNat ++ "' to a string value."⟩

/-- The allocator after a sequence of calls, and what each call returned. -/
def IdAllocator.allocateIds (a : IdAllocator) : List String → Option (IdAllocator × List (StatusOr UInt64))
  | [] => some (a,[])
  | s :: rest =>
    (a.allocateId s).bind fun x => (x.1.allocateIds rest).map fun y => (y.1,x.2 :: y.2)

/-! ### One call -/

variable {m : List (UInt64 × String)}

theorem nextUnusedId_eq_some {rounds : Nat} {start id : UInt64} (hfree : m.lookup id = none) (hle : start ≤ id)
    (hused : ∀ j,start ≤ j → j < id → (m.lookup j).isSome) (hrounds : id.toNat - start.toNat < rounds) :
    nextUnusedId m rounds start = some id := by
  induction rounds generalizing start with
  | zero => omega
  | succ rounds ih =>
    by_cases heq : start = id
    · simp [nextUnusedId,heq,hfree]
    · have hlt : start < id := UInt64.lt_of_le_of_ne hle heq
      have hnat : start.toNat < id.toNat := UInt64.lt_iff_toNat_lt.mp hlt
      have hbound := id.toNat_lt
      have hsucc : (start + 1).toNat = start.toNat + 1 := by
        rw [UInt64.toNat_add]
        exact Nat.mod_eq_of_lt (by simp; omega)
      rw [nextUnusedId,if_pos (hused start (UInt64.le_refl _) hlt)]
      apply ih
      · rw [UInt64.le_iff_toNat_le,hsucc]
        omega
      · intro j hj hjid
        apply hused j _ hjid
        rw [UInt64.le_iff_toNat_le,hsucc] at hj
        rw [UInt64.le_iff_toNat_le]
        omega
      · omega

theorem nextUnusedId_unused {rounds : Nat} {start id : UInt64} (h : nextUnusedId m rounds start = some id) :
    m.lookup id = none := by
  induction rounds generalizing start with
  | zero => cases h
  | succ rounds ih =>
    rw [nextUnusedId] at h
    split at h
    next => exact ih h
    next hfree =>
      cases h
      exact Option.not_isSome_iff_eq_none.mp hfree

end SonicPins.P4Symbolic
