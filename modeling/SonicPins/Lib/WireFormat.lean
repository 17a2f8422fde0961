import Mathlib.Data.List.Basic
import SonicPins.Lib.Text

/-! The protobuf wire format of scalar and length-delimited fields: every piece
says itself where it ends, so that what follows it can be told apart. -/
namespace SonicPins.Lib.WireFormat

variable {tag tag' : UInt8}

/-- A base-128 varint, least significant group first. -/
def varint (n : ℕ) : Bytes :=
  if n < 128 then [UInt8.ofNat n] else UInt8.ofNat (n % 128 + 128) :: varint (n / 128)

def delimited (tag : UInt8) (payload : Bytes) : Bytes := tag :: (varint payload.length ++ payload)

/-- A bytes field, which is left out when empty. -/
def bytesField (tag : UInt8) (value : Bytes) : Bytes := if value = [] then [] else delimited tag value

/-- A varint field, which is left out when zero. -/
def varintField (tag : UInt8) (value : ℕ) : Bytes := if value = 0 then [] else tag :: varint value

private theorem toNat_low {n : ℕ} (h : n < 128) : (UInt8.ofNat n).toNat = n := by
  rw [UInt8.toNat_ofNat']
  omega

private theorem toNat_high (n : ℕ) : (UInt8.ofNat (n % 128 + 128)).toNat = n % 128 + 128 := by
  rw [UInt8.toNat_ofNat']
  omega

theorem varint_append_inj (m n : ℕ) (xs ys : Bytes) (h : varint m ++ xs = varint n ++ ys) : m = n ∧ xs = ys := by
  induction m using Nat.strong_induction_on generalizing n with
  | _ m ih =>
    rw [varint,varint.eq_1 n] at h
    by_cases hm : m < 128 <;> by_cases hn : n < 128 <;>
      simp only [hm,hn,if_true,if_false,List.cons_append,List.nil_append,List.cons.injEq] at h
    · have hhead := congrArg UInt8.toNat h.1
      rw [toNat_low hm,toNat_low hn] at hhead
      exact ⟨hhead,h.2⟩
    · have hhead := congrArg UInt8.toNat h.1
      rw [toNat_low hm,toNat_high] at hhead
      omega
    · have hhead := congrArg UInt8.toNat h.1
      rw [toNat_high,toNat_low hn] at hhead
      omega
    · have hhead := congrArg UInt8.toNat h.1
      rw [toNat_high,toNat_high] at hhead
      obtain ⟨hdiv,hrest⟩ := ih (m / 128) (by omega) (n / 128) h.2
      exact ⟨by omega,hrest⟩

theorem delimited_append_inj {p p' xs ys : Bytes}
    (h : delimited tag p ++ xs = delimited tag' p' ++ ys) : tag = tag' ∧ p = p' ∧ xs = ys := by
  simp only [delimited,List.cons_append,List.append_assoc,List.cons.injEq] at h
  obtain ⟨htag,h⟩ := h
  obtain ⟨hlength,h⟩ := varint_append_inj _ _ _ _ h
  obtain ⟨hpayload,hrest⟩ := List.append_inj h hlength
  exact ⟨htag,hpayload,hrest⟩

@[simp] theorem delimited_inj {p p' : Bytes} : delimited tag p = delimited tag' p' ↔ tag = tag' ∧ p = p' := by
  constructor
  · intro h
    obtain ⟨htag,hp,_⟩ := delimited_append_inj (congrArg (· ++ []) h)
    exact ⟨htag,hp⟩
  · rintro ⟨rfl,rfl⟩
    rfl

@[simp] theorem delimited_ne_nil (tag : UInt8) (p : Bytes) : delimited tag p ≠ [] := List.cons_ne_nil _ _

theorem bytesField_append_inj {tag : UInt8} {v w xs ys : Bytes} (hxs : xs.head? ≠ some tag) (hys : ys.head? ≠ some tag)
    (h : bytesField tag v ++ xs = bytesField tag w ++ ys) : v = w ∧ xs = ys := by
  by_cases hv : v = [] <;> by_cases hw : w = [] <;>
    simp only [bytesField,hv,hw,if_true,if_false,List.nil_append] at h
  · exact ⟨hv.trans hw.symm,h⟩
  · exact absurd (by rw [h]; rfl) hxs
  · exact absurd (by rw [← h]; rfl) hys
  · obtain ⟨_,hvw,hrest⟩ := delimited_append_inj h
    exact ⟨hvw,hrest⟩

theorem varintField_append_inj {tag : UInt8} {m n : ℕ} {xs ys : Bytes} (hxs : xs.head? ≠ some tag)
    (hys : ys.head? ≠ some tag) (h : varintField tag m ++ xs = varintField tag n ++ ys) : m = n ∧ xs = ys := by
  by_cases hm : m = 0 <;> by_cases hn : n = 0 <;>
    simp only [varintField,hm,hn,if_true,if_false,List.nil_append,List.cons_append,List.cons.injEq,true_and] at h
  · exact ⟨hm.trans hn.symm,h⟩
  · exact absurd (by rw [h]; rfl) hxs
  · exact absurd (by rw [← h]; rfl) hys
  · exact varint_append_inj _ _ _ _ h

@[simp] theorem head?_delimited (tag : UInt8) (p : Bytes) : (delimited tag p).head? = some tag := rfl

theorem head?_bytesField_ne (htag : tag ≠ tag') (v : Bytes) : (bytesField tag v).head? ≠ some tag' := by
  unfold bytesField
  split <;> simp [htag]

theorem head?_varintField_ne (htag : tag ≠ tag') (n : ℕ) : (varintField tag n).head? ≠ some tag' := by
  unfold varintField
  split <;> simp [htag]

theorem bytesField_injective (tag : UInt8) : Function.Injective (bytesField tag) := fun _ _ h =>
  (@bytesField_append_inj tag _ _ [] [] (by simp) (by simp) (by simpa using h)).1

theorem varintField_injective (tag : UInt8) : Function.Injective (varintField tag) := fun _ _ h =>
  (@varintField_append_inj tag _ _ [] [] (by simp) (by simp) (by simpa using h)).1

end SonicPins.Lib.WireFormat
