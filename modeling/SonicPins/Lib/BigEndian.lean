import Mathlib.Algebra.Order.Ring.Nat
import SonicPins.Lib.Text

/-! Byte strings as big-endian numbers. -/
namespace SonicPins.Lib

def bytesToNat (bytes : Bytes) : Nat := bytes.foldl (fun acc b => acc * 256 + b.toNat) 0

def natToBytes : Nat → Nat → Bytes
  | 0,_ => []
  | n + 1,v => natToBytes n (v / 256) ++ [UInt8.ofNat (v % 256)]

@[simp] theorem bytesToNat_nil : bytesToNat [] = 0 := rfl

theorem bytesToNat_concat (bs : Bytes) (b : UInt8) : bytesToNat (bs ++ [b]) = bytesToNat bs * 256 + b.toNat := by
  simp [bytesToNat]

theorem bytesToNat_append (as bs : Bytes) : bytesToNat (as ++ bs) = bytesToNat as * 256 ^ bs.length + bytesToNat bs := by
  induction bs using List.reverseRecOn with
  | nil => simp
  | append_singleton bs b ih =>
    rw [← List.append_assoc,bytesToNat_concat,ih,bytesToNat_concat,List.length_append,List.length_singleton,pow_succ]
    ring

theorem bytesToNat_cons (b : UInt8) (bs : Bytes) : bytesToNat (b :: bs) = b.toNat * 256 ^ bs.length + bytesToNat bs := by
  have h := bytesToNat_append [b] bs
  simpa [bytesToNat] using h

theorem bytesToNat_lt (bs : Bytes) : bytesToNat bs < 256 ^ bs.length := by
  induction bs using List.reverseRecOn with
  | nil => simp
  | append_singleton bs b ih =>
    have hb := b.toNat_lt
    rw [bytesToNat_concat,List.length_append,List.length_singleton,pow_succ]
    omega

@[simp] theorem length_natToBytes (n v : Nat) : (natToBytes n v).length = n := by
  induction n generalizing v with
  | zero => rfl
  | succ n ih => simp [natToBytes,ih]

theorem bytesToNat_natToBytes {n v : Nat} (h : v < 256 ^ n) : bytesToNat (natToBytes n v) = v := by
  induction n generalizing v with
  | zero =>
    obtain rfl : v = 0 := by simpa using h
    rfl
  | succ n ih =>
    have hdiv : v / 256 < 256 ^ n := by
      rw [Nat.div_lt_iff_lt_mul (by decide)]
      simpa [pow_succ] using h
    rw [natToBytes,bytesToNat_concat,ih hdiv]
    simp only [UInt8.toNat_ofNat']
    omega

theorem natToBytes_bytesToNat (bs : Bytes) : natToBytes bs.length (bytesToNat bs) = bs := by
  induction bs using List.reverseRecOn with
  | nil => rfl
  | append_singleton bs b ih =>
    have hb : b.toNat < 256 := b.toNat_lt
    have hdiv : (bytesToNat bs * 256 + b.toNat) / 256 = bytesToNat bs := by omega
    have hmod : (bytesToNat bs * 256 + b.toNat) % 256 = b.toNat := by omega
    rw [List.length_append,List.length_singleton,natToBytes,bytesToNat_concat,hdiv,hmod,ih,UInt8.ofNat_toNat]

theorem eq_natToBytes {bs : Bytes} {n v : Nat} (hlength : bs.length = n) (hvalue : bytesToNat bs = v) :
    bs = natToBytes n v := by
  subst hlength hvalue
  exact (natToBytes_bytesToNat bs).symm

theorem bytesToNat_replicate_zero (n : Nat) : bytesToNat (List.replicate n 0) = 0 := by
  induction n with
  | zero => rfl
  | succ n ih => simp [List.replicate_succ,bytesToNat_cons,ih]

theorem bytesToNat_zeros_append (n : Nat) (bs : Bytes) : bytesToNat (List.replicate n 0 ++ bs) = bytesToNat bs := by
  simp [bytesToNat_append,bytesToNat_replicate_zero]

theorem bytesToNat_eq_zero {bs : Bytes} : bytesToNat bs = 0 ↔ ∀ b ∈ bs,b = 0 := by
  induction bs using List.reverseRecOn with
  | nil => simp
  | append_singleton bs b ih =>
    have hb : b.toNat = 0 ↔ b = 0 := ⟨fun h => UInt8.toNat_inj.mp h,fun h => by simp [h]⟩
    rw [bytesToNat_concat]
    simp only [List.mem_append,List.mem_singleton,or_imp,forall_and,forall_eq,← ih,← hb]
    omega

theorem pow_256 (n : Nat) : 256 ^ n = 2 ^ (8 * n) := by
  rw [pow_mul]
  norm_num

theorem lt_pow_bytes {v w : Nat} (h : v < 2 ^ w) : v < 256 ^ ((w + 7) / 8) := by
  rw [pow_256]
  exact h.trans_le (Nat.pow_le_pow_right (by decide) (by omega))

theorem bytesToNat_zipWith_and {as bs : Bytes} (h : as.length = bs.length) :
    bytesToNat (List.zipWith (· &&& ·) as bs) = bytesToNat as &&& bytesToNat bs := by
  induction as generalizing bs with
  | nil => simp
  | cons a as ih =>
    cases bs with
    | nil => cases h
    | cons b bs =>
      have hlength : as.length = bs.length := by simpa using h
      have has := bytesToNat_lt as
      have hbs := bytesToNat_lt bs
      have hands := bytesToNat_lt (List.zipWith (· &&& ·) as bs)
      rw [List.length_zipWith,hlength,Nat.min_self,ih hlength,pow_256] at hands
      rw [hlength,pow_256] at has
      rw [pow_256] at hbs
      rw [List.zipWith_cons_cons,bytesToNat_cons,bytesToNat_cons,bytesToNat_cons,List.length_zipWith,hlength,Nat.min_self,
        ih hlength,UInt8.toNat_and,pow_256]
      apply Nat.eq_of_testBit_eq
      intro i
      rw [Nat.testBit_and]
      simp only [Nat.mul_comm _ (2 ^ _),Nat.testBit_two_pow_mul_add _ has,Nat.testBit_two_pow_mul_add _ hbs,
        Nat.testBit_two_pow_mul_add _ hands]
      split_ifs <;> simp

end SonicPins.Lib
