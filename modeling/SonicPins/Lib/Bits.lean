import SonicPins.Lib.BigEndian

/-! Bit strings, most significant bit first, as numbers, hexadecimal digits and bytes. -/
namespace SonicPins.Lib

def bitsToNat (bits : List Bool) : Nat := bits.foldl (fun acc b => acc * 2 + b.toNat) 0

def natToBits : Nat → Nat → List Bool
  | 0,_ => []
  | n + 1,v => natToBits n (v / 2) ++ [decide (v % 2 = 1)]

@[simp] theorem bitsToNat_nil : bitsToNat [] = 0 := rfl

theorem bitsToNat_concat (bits : List Bool) (b : Bool) : bitsToNat (bits ++ [b]) = bitsToNat bits * 2 + b.toNat := by
  simp [bitsToNat]

theorem bitsToNat_lt (bits : List Bool) : bitsToNat bits < 2 ^ bits.length := by
  induction bits using List.reverseRecOn with
  | nil => simp
  | append_singleton bits b ih =>
    have hb := b.toNat_le
    rw [bitsToNat_concat,List.length_append,List.length_singleton,pow_succ]
    omega

@[simp] theorem length_natToBits (n v : Nat) : (natToBits n v).length = n := by
  induction n generalizing v with
  | zero => rfl
  | succ n ih => simp [natToBits,ih]

theorem bitsToNat_natToBits {n v : Nat} (h : v < 2 ^ n) : bitsToNat (natToBits n v) = v := by
  induction n generalizing v with
  | zero =>
    obtain rfl : v = 0 := by simpa using h
    rfl
  | succ n ih =>
    have hdiv : v / 2 < 2 ^ n := by
      rw [Nat.div_lt_iff_lt_mul (by decide)]
      simpa [pow_succ] using h
    have hbit : (decide (v % 2 = 1)).toNat = v % 2 := by
      rcases Nat.mod_two_eq_zero_or_one v with h | h <;> simp [h]
    rw [natToBits,bitsToNat_concat,ih hdiv,hbit]
    omega

theorem natToBits_bitsToNat (bits : List Bool) : natToBits bits.length (bitsToNat bits) = bits := by
  induction bits using List.reverseRecOn with
  | nil => rfl
  | append_singleton bits b ih =>
    have hb := b.toNat_le
    have hdiv : (bitsToNat bits * 2 + b.toNat) / 2 = bitsToNat bits := by omega
    have hmod : decide ((bitsToNat bits * 2 + b.toNat) % 2 = 1) = b := by cases b <;> simp
    rw [List.length_append,List.length_singleton,natToBits,bitsToNat_concat,hdiv,hmod,ih]

theorem natToBits_of_length {bits : List Bool} {n : Nat} (h : bits.length = n) : natToBits n (bitsToNat bits) = bits := by
  subst h
  exact natToBits_bitsToNat bits

theorem natToBits_mod (n v : Nat) : natToBits n (v % 2 ^ n) = natToBits n v := by
  induction n generalizing v with
  | zero => rfl
  | succ n ih =>
    have hdiv : v % 2 ^ (n + 1) / 2 = v / 2 % 2 ^ n := by
      rw [pow_succ,mul_comm,Nat.mod_mul_right_div_self]
    have hmod : v % 2 ^ (n + 1) % 2 = v % 2 := Nat.mod_mod_of_dvd _ (dvd_pow_self 2 (by omega))
    rw [natToBits,natToBits,hdiv,hmod,ih]

theorem natToBits_append (n m v : Nat) : natToBits (n + m) v = natToBits n (v / 2 ^ m) ++ natToBits m v := by
  induction m generalizing v with
  | zero => simp [natToBits]
  | succ m ih =>
    rw [← Nat.add_assoc,natToBits,natToBits,ih,List.append_assoc,Nat.div_div_eq_div_mul,← pow_succ']

def bytesToBits (bytes : Bytes) : List Bool := bytes.flatMap fun b => natToBits 8 b.toNat

/-- Groups of eight bits; a last incomplete group is left out. -/
def bitsToBytes : List Bool → Bytes
  | a :: b :: c :: d :: e :: f :: g :: h :: rest => UInt8.ofNat (bitsToNat [a,b,c,d,e,f,g,h]) :: bitsToBytes rest
  | _ => []

@[simp] theorem bytesToBits_nil : bytesToBits [] = [] := rfl

theorem bytesToBits_cons (b : UInt8) (bs : Bytes) : bytesToBits (b :: bs) = natToBits 8 b.toNat ++ bytesToBits bs := rfl

theorem bytesToBits_append (as bs : Bytes) : bytesToBits (as ++ bs) = bytesToBits as ++ bytesToBits bs :=
  List.flatMap_append

@[simp] theorem length_bytesToBits (bytes : Bytes) : (bytesToBits bytes).length = 8 * bytes.length := by
  induction bytes with
  | nil => rfl
  | cons b bs ih =>
    rw [bytesToBits_cons,List.length_append,length_natToBits,ih,List.length_cons]
    omega

theorem exists_eight {l : List Bool} (h : 8 ≤ l.length) :
    ∃ a b c d e f g i rest,l = a :: b :: c :: d :: e :: f :: g :: i :: rest := by
  match l,h with
  | a :: b :: c :: d :: e :: f :: g :: i :: rest,_ => exact ⟨a,b,c,d,e,f,g,i,rest,rfl⟩

theorem bitsToBytes_append {l : List Bool} (h : l.length = 8) (rest : List Bool) :
    bitsToBytes (l ++ rest) = UInt8.ofNat (bitsToNat l) :: bitsToBytes rest := by
  obtain ⟨a,b,c,d,e,f,g,i,tail,rfl⟩ := exists_eight h.ge
  obtain rfl : tail = [] := by simpa using h
  rfl

theorem bitsToBytes_bytesToBits (bytes : Bytes) : bitsToBytes (bytesToBits bytes) = bytes := by
  induction bytes with
  | nil => rfl
  | cons b bs ih =>
    rw [bytesToBits_cons,bitsToBytes_append (length_natToBits 8 _),ih,bitsToNat_natToBits b.toNat_lt,UInt8.ofNat_toNat]

theorem bytesToBits_bitsToBytes {bits : List Bool} (h : bits.length % 8 = 0) : bytesToBits (bitsToBytes bits) = bits := by
  by_cases hnil : bits.length = 0
  · obtain rfl := List.length_eq_zero_iff.mp hnil
    rfl
  · have hlen : (bits.take 8).length = 8 := by rw [List.length_take]; omega
    have hlt := bitsToNat_lt (bits.take 8)
    rw [hlen] at hlt
    have hbyte : (UInt8.ofNat (bitsToNat (bits.take 8))).toNat = bitsToNat (bits.take 8) := by
      rw [UInt8.toNat_ofNat']
      omega
    rw [← List.take_append_drop 8 bits,bitsToBytes_append hlen,bytesToBits_cons,hbyte,natToBits_of_length hlen,
      bytesToBits_bitsToBytes (by rw [List.length_drop]; omega)]
termination_by bits.length
decreasing_by rw [List.length_drop]; omega

theorem length_bitsToBytes {bits : List Bool} (h : bits.length % 8 = 0) : 8 * (bitsToBytes bits).length = bits.length := by
  rw [← length_bytesToBits,bytesToBits_bitsToBytes h]

theorem bytesToBits_injective : Function.Injective bytesToBits :=
  Function.LeftInverse.injective bitsToBytes_bytesToBits

theorem bytesToBits_natToBytes (n v : Nat) : bytesToBits (natToBytes n v) = natToBits (8 * n) v := by
  induction n generalizing v with
  | zero => rfl
  | succ n ih =>
    have hbyte : (UInt8.ofNat (v % 256)).toNat = v % 2 ^ 8 := by
      rw [UInt8.toNat_ofNat']
      omega
    rw [natToBytes,bytesToBits_append,ih,bytesToBits_cons,bytesToBits_nil,List.append_nil,hbyte,natToBits_mod,Nat.mul_succ,
      natToBits_append]
    norm_num

/-- So many lower case digits of a number. -/
def natToHexDigits : Nat → Nat → List Char
  | 0,_ => []
  | n + 1,v => natToHexDigits n (v / 16) ++ [Nat.digitChar (v % 16)]

/-- The value of hexadecimal digits in either case. -/
def hexDigitsToNat (digits : List Char) : Nat := digits.foldl (fun acc c => acc * 16 + (digitValue c).getD 0) 0

def areHexDigits (digits : List Char) : Bool := digits.all fun c => (digitValue c).isSome

@[simp] theorem length_natToHexDigits (n v : Nat) : (natToHexDigits n v).length = n := by
  induction n generalizing v with
  | zero => rfl
  | succ n ih => simp [natToHexDigits,ih]

theorem hexDigitsToNat_concat (digits : List Char) (c : Char) :
    hexDigitsToNat (digits ++ [c]) = hexDigitsToNat digits * 16 + (digitValue c).getD 0 := by
  simp [hexDigitsToNat]

theorem hexDigitsToNat_append (as bs : List Char) :
    hexDigitsToNat (as ++ bs) = hexDigitsToNat as * 16 ^ bs.length + hexDigitsToNat bs := by
  induction bs using List.reverseRecOn with
  | nil => simp [hexDigitsToNat]
  | append_singleton bs c ih =>
    rw [← List.append_assoc,hexDigitsToNat_concat,hexDigitsToNat_concat,ih,List.length_append,List.length_singleton,pow_succ]
    ring

theorem areHexDigits_natToHexDigits (n v : Nat) : areHexDigits (natToHexDigits n v) = true := by
  induction n generalizing v with
  | zero => rfl
  | succ n ih =>
    have hd := digitValue_digitChar (v % 16) (Nat.mod_lt v (by decide))
    simpa [areHexDigits,natToHexDigits,hd] using ih (v / 16)

theorem hexDigitsToNat_natToHexDigits {n v : Nat} (h : v < 16 ^ n) : hexDigitsToNat (natToHexDigits n v) = v := by
  induction n generalizing v with
  | zero =>
    obtain rfl : v = 0 := by simpa using h
    rfl
  | succ n ih =>
    have hdiv : v / 16 < 16 ^ n := by
      rw [Nat.div_lt_iff_lt_mul (by decide)]
      simpa [pow_succ] using h
    rw [natToHexDigits,hexDigitsToNat_concat,ih hdiv,digitValue_digitChar (v % 16) (Nat.mod_lt v (by decide)),Option.getD_some]
    omega

theorem natToHexDigits_pairs (n v : Nat) : natToHexDigits (2 * n) v = (natToBytes n v).flatMap fun b =>
    [Nat.digitChar (b.toNat / 16),Nat.digitChar (b.toNat % 16)] := by
  induction n generalizing v with
  | zero => rfl
  | succ n ih =>
    have hbyte : (UInt8.ofNat (v % 256)).toNat = v % 256 := by
      rw [UInt8.toNat_ofNat']
      omega
    have hhigh : v % 256 / 16 = v / 16 % 16 := by omega
    have hlow : v % 256 % 16 = v % 16 := by omega
    rw [Nat.mul_succ,natToHexDigits,natToHexDigits,ih,natToBytes,Nat.div_div_eq_div_mul,List.flatMap_append]
    simp [hbyte,hhigh,hlow]

end SonicPins.Lib
