import SonicPins.Pdpi.TranslationSpecs
import SonicPins.Pdpi.ValueCodec

/-! The PI form that comes back from the IR form of an entry: the entry itself, with
canonical numbers. -/
namespace SonicPins.Pdpi
open Lib

variable {p : Int32} {value : MatchValue} {m : FieldMatch} {n : Bytes}
  {translated : List (IrMatchFieldDefinition × IrMatch)} {action : IrActionDefinition} {pi : TableEntry}
  {ms : List FieldMatch}

def canonicalMatchValue (format : Format) : MatchValue → MatchValue
  | .exact value => .exact (canonicalFor format value)
  | .lpm value prefixLen => .lpm (canonicalFor format value) prefixLen
  | .ternary value mask => .ternary (canonicalFor format value) (canonicalFor format mask)
  | .optional value => .optional (canonicalFor format value)
  | other => other

def canonicalMatch (table : IrTableDefinition) (m : FieldMatch) : FieldMatch :=
  match table.matchFieldsById.lookup m.fieldId with
  | some d => ⟨m.fieldId,canonicalMatchValue d.format m.value⟩
  | none => m

def canonicalParam (action : IrActionDefinition) (p : ActionParamValue) : ActionParamValue :=
  match action.paramsById.lookup p.paramId with
  | some d => ⟨p.paramId,canonicalFor d.format p.value⟩
  | none => p

def canonicalAction (info : IrP4Info) (a : Action) : Action :=
  match info.actionsById.lookup a.actionId with
  | some d => ⟨a.actionId,a.params.map (canonicalParam d)⟩
  | none => a

def canonicalMember (info : IrP4Info) (a : ActionProfileAction) : ActionProfileAction :=
  { a with action := canonicalAction info a.action }

def canonicalTableAction (info : IrP4Info) : TableAction → TableAction
  | .action a => .action (canonicalAction info a)
  | .actionProfileActionSet actions => .actionProfileActionSet (actions.map (canonicalMember info))
  | other => other

/-- The entry with the canonical form of every number in it. -/
def canonicalEntry (info : IrP4Info) (e : TableEntry) : TableEntry :=
  match info.tablesById.lookup e.tableId with
  | some table =>
    { e with matches_ := e.matches_.map (canonicalMatch table),action := e.action.map (canonicalTableAction info) }
  | none => e

section Values
variable [InetText] {format : Format} {w : Nat} {bytes : Bytes} {v : IrValue} {options : TranslationOptions}

/-- The widths that formats fix. -/
def Format.Bounded (format : Format) (w : Nat) : Prop :=
  (format = .mac → w = 48) ∧ (format = .ipv4 → w = 32) ∧ (format = .ipv6 → w ≤ 128)

omit [InetText] in
private theorem getBitwidthOfByteString_pos (h : bytes ≠ []) : 1 ≤ getBitwidthOfByteString bytes := by
  unfold getBitwidthOfByteString
  split
  · simp [h]
  · omega

omit [InetText] in
theorem normalized_pos (h : arbitraryToNormalizedByteString bytes w = .ok n) : bytes ≠ [] ∧ 1 ≤ w := by
  have hne : bytes ≠ [] := by
    rintro rfl
    cases h
  have hpos := getBitwidthOfByteString_pos (List.ne_nil_of_length_pos (isCanonical_canonical hne).length_pos)
  unfold arbitraryToNormalizedByteString at h
  rw [if_neg (by simpa using hne)] at h
  by_contra hw
  simp only [hne,ne_eq,not_false_eq_true,true_and] at hw
  rw [if_pos (by omega)] at h
  cases h

theorem accepted_ne_nil (h : arbitraryByteStringToIrValue format w bytes = .ok v) : bytes ≠ [] := by
  rintro rfl
  cases h

theorem accepted_fits (hbounded : format.Bounded w) (hnumeric : format ≠ .string)
    (h : arbitraryByteStringToIrValue format w bytes = .ok v) : format.Fits w := by
  refine ⟨hnumeric,?_,hbounded.1,hbounded.2.1,hbounded.2.2⟩
  rintro rfl
  have hne := accepted_ne_nil h
  unfold arbitraryByteStringToIrValue at h
  rw [if_neg (by simpa using hne)] at h
  obtain ⟨n,hn,-⟩ := bind_eq_ok.mp h
  exact (normalized_pos hn).2

private theorem accepted_congr (hfits : format.Fits w) {bytes' : Bytes} (hne : bytes' ≠ []) (heq : bytesToNat bytes' = bytesToNat bytes)
    (h : arbitraryByteStringToIrValue format w bytes = .ok v) : arbitraryByteStringToIrValue format w bytes' = .ok v := by
  have hne' := accepted_ne_nil h
  cases format with
  | hexString =>
    rw [hex_of_bytes hne (hfits.hex rfl),heq]
    exact (hex_of_bytes hne' (hfits.hex rfl)).mp h
  | mac =>
    rw [mac_of_bytes hne,heq]
    exact (mac_of_bytes hne').mp h
  | ipv4 =>
    rw [ipv4_of_bytes hne,heq]
    exact (ipv4_of_bytes hne').mp h
  | ipv6 =>
    rw [ipv6_of_bytes hne (hfits.ipv6 rfl),heq]
    exact (ipv6_of_bytes hne' (hfits.ipv6 rfl)).mp h
  | string => exact absurd rfl hfits.numeric

theorem accepted_canonical (hbounded : format.Bounded w) (h : arbitraryByteStringToIrValue format w bytes = .ok v) :
    arbitraryByteStringToIrValue format w (canonicalFor format bytes) = .ok v := by
  unfold canonicalFor
  split_ifs with hstring
  · exact h
  · have hne := List.ne_nil_of_length_pos (isCanonical_canonical (accepted_ne_nil h)).length_pos
    exact accepted_congr (accepted_fits hbounded hstring h) hne (canonical_value bytes) h

private theorem accepted_valid (h : arbitraryByteStringToIrValue format w bytes = .ok v) :
    (validateIrValueFormat v format options).isOk = true := by
  have hne := accepted_ne_nil h
  unfold arbitraryByteStringToIrValue at h
  rw [if_neg (by simpa using hne)] at h
  cases format with
  | hexString =>
    obtain ⟨n,-,h⟩ := bind_eq_ok.mp h
    cases h
    rfl
  | mac =>
    obtain ⟨a,-,rfl⟩ := map_eq_ok.mp h
    rfl
  | ipv4 =>
    obtain ⟨a,-,rfl⟩ := map_eq_ok.mp h
    rfl
  | ipv6 =>
    obtain ⟨a,-,h⟩ := bind_eq_ok.mp h
    split_ifs at h
    cases h
    rfl
  | string =>
    simp only at h
    split at h
    · cases h
      rfl
    · cases h

theorem accepted_bytes (hinet : InetText.Inverse) (hbounded : format.Bounded w)
    (h : arbitraryByteStringToIrValue format w bytes = .ok v) : irValueToBytes options format w v =
      .ok (if format = .string then bytes else natToBytes (format.byteCount w) (bytesToNat bytes)) := by
  unfold irValueToBytes
  simp only [accepted_valid h,Bool.not_true,Bool.false_eq_true,if_false]
  split_ifs with hstring
  · subst hstring
    have hne := accepted_ne_nil h
    unfold arbitraryByteStringToIrValue at h
    rw [if_neg (by simpa using hne)] at h
    simp only at h
    split at h
    · rename_i s hs
      cases h
      have hutf8 := utf8_of_ofUtf8? hs
      have hempty : s.isEmpty = false := by
        rw [Bool.eq_false_iff]
        intro hempty
        have hs : s = "" := by simpa using hempty
        subst hs
        exact hne hutf8.symm
      simp [irValueToNormalizedByteString,hempty,hutf8]
    · cases h
  · exact irValueToNormalizedByteString_of_bytes hinet (accepted_fits hbounded hstring h) (accepted_ne_nil h) h

theorem canonicalFor_accepted_bytes (hbounded : format.Bounded w) (h : arbitraryByteStringToIrValue format w bytes = .ok v) :
    canonicalFor format (if format = .string then bytes else natToBytes (format.byteCount w) (bytesToNat bytes)) =
      canonicalFor format bytes := by
  unfold canonicalFor
  split_ifs with hstring
  · rfl
  · have hfits := accepted_fits hbounded hstring h
    have hvalue := (arbitraryByteStringToIrValue_ok_iff hfits (accepted_ne_nil h)).mp ⟨v,h⟩
    rw [canonical_eq_iff (hfits.natToBytes_ne_nil _) (accepted_ne_nil h)]
    exact bytesToNat_natToBytes ((lt_pow_bytes hvalue).trans_le (Nat.pow_le_pow_right (by decide) hfits.byteCount_ge))

end Values

theorem toUInt32_of_nonneg (h : 0 ≤ p) : ((p.toUInt32.toNat : Nat) : Int) = p.toInt := by
  have hint : 0 ≤ p.toBitVec.toInt := by simpa using Int32.le_iff_toInt_le.mp h
  have hcond := BitVec.toInt_eq_toNat_cond p.toBitVec
  have hlt := p.toBitVec.isLt
  change ((p.toBitVec.toNat : Nat) : Int) = p.toBitVec.toInt
  split_ifs at hcond <;> omega

theorem toUInt32_of_neg (h : ¬ 0 ≤ p) : 2 ^ 31 ≤ p.toUInt32.toNat := by
  have hint : ¬ 0 ≤ p.toBitVec.toInt := fun hn => h (Int32.le_iff_toInt_le.mpr (by simpa using hn))
  have hcond := BitVec.toInt_eq_toNat_cond p.toBitVec
  change 2 ^ 31 ≤ p.toBitVec.toNat
  split_ifs at hcond <;> omega

theorem toUInt32_eq_zero : p.toUInt32.toNat = 0 ↔ p = 0 := by
  constructor
  · intro h
    apply Int32.toBitVec_inj.mp
    exact BitVec.eq_of_toNat_eq h
  · rintro rfl
    rfl

theorem length_prefixMaskBytes (n : Nat) (prefixLen : Int) : (prefixMaskBytes n prefixLen).length = n := by
  induction n generalizing prefixLen with
  | zero => rfl
  | succ n ih => simp [prefixMaskBytes,ih]

theorem length_prefixLenToMask {prefixLen : Int} {w : Nat} {mask : Bytes} (h : prefixLenToMask prefixLen w = .ok mask) :
    mask.length = (w + 7) / 8 := by
  unfold prefixLenToMask at h
  simp only at h
  split_ifs at h with hlong hpartial
  · cases h
    rw [List.length_cons,length_prefixMaskBytes]
    omega
  · cases h
    rw [length_prefixMaskBytes]
    omega

theorem intersection_eq_ok {a b c : Bytes} : intersection a b = .ok c ↔ a.length = b.length ∧ List.zipWith (· &&& ·) a b = c := by
  unfold intersection
  by_cases h : a.length = b.length <;> simp [h]

section MatchValues
variable [InetText] {d : IrMatchFieldDefinition} {options : TranslationOptions}

omit [InetText] in
theorem reasonOf_eq_ok {α : Type} {r : StatusOr α} {a : α} : reasonOf r = .ok a ↔ r = .ok a := mapError_eq_ok

theorem piLpmToIr_eq_ok {value : Bytes} {v : IrMatchValue} : piLpmToIr d value p = .ok v ↔
    ∃ mask n ir,prefixLenToMask p.toInt d.matchField.bitwidth = .ok mask ∧
      arbitraryToNormalizedByteString value d.matchField.bitwidth = .ok n ∧ intersection n mask = .ok n ∧
      arbitraryByteStringToIrValue d.format d.matchField.bitwidth n = .ok ir ∧ v = .lpm ir p := by
  unfold piLpmToIr
  simp only [bind_eq_ok,reasonOf_eq_ok]
  constructor
  · rintro ⟨mask,hmask,n,hn,common,hcommon,h⟩
    split_ifs at h with hne
    obtain ⟨ir,hir,h⟩ := bind_eq_ok.mp h
    cases h
    obtain rfl := not_not.mp hne
    exact ⟨mask,n,ir,hmask,hn,hcommon,reasonOf_eq_ok.mp hir,rfl⟩
  · rintro ⟨mask,n,ir,hmask,hn,hcommon,hir,rfl⟩
    refine ⟨mask,hmask,n,hn,n,hcommon,?_⟩
    rw [if_neg (by simp)]
    exact bind_eq_ok.mpr ⟨ir,reasonOf_eq_ok.mpr hir,rfl⟩

theorem irLpmToPi_eq_ok {value : IrValue} {m : MatchValue} : irLpmToPi options d value p = .ok m ↔
    p.toUInt32.toNat ≤ d.matchField.bitwidth ∧ p ≠ 0 ∧ ∃ n mask,
      irValueToBytes options d.format d.matchField.bitwidth value = .ok n ∧
      prefixLenToMask p.toUInt32.toNat d.matchField.bitwidth = .ok mask ∧ intersection n mask = .ok n ∧
      m = .lpm (arbitraryToCanonicalByteString n) p := by
  unfold irLpmToPi
  simp only
  constructor
  · intro h
    by_cases hlong : p.toUInt32.toNat > d.matchField.bitwidth
    · rw [if_pos hlong] at h
      cases h
    rw [if_neg hlong] at h
    obtain ⟨n,hn,h⟩ := bind_eq_ok.mp h
    by_cases hzero : p.toUInt32.toNat = 0
    · rw [if_pos hzero] at h
      cases h
    rw [if_neg hzero] at h
    obtain ⟨mask,hmask,h⟩ := bind_eq_ok.mp h
    obtain ⟨common,hcommon,h⟩ := bind_eq_ok.mp h
    split_ifs at h with hne
    cases h
    obtain rfl := not_not.mp hne
    exact ⟨Nat.le_of_not_lt hlong,fun hp => hzero (toUInt32_eq_zero.mpr hp),n,mask,reasonOf_eq_ok.mp hn,
      reasonOf_eq_ok.mp hmask,reasonOf_eq_ok.mp hcommon,rfl⟩
  · rintro ⟨hle,hzero,n,mask,hn,hmask,hcommon,rfl⟩
    rw [if_neg (Nat.not_lt.mpr hle)]
    refine bind_eq_ok.mpr ⟨n,reasonOf_eq_ok.mpr hn,?_⟩
    rw [if_neg (mt toUInt32_eq_zero.mp hzero)]
    refine bind_eq_ok.mpr ⟨mask,reasonOf_eq_ok.mpr hmask,bind_eq_ok.mpr ⟨n,reasonOf_eq_ok.mpr hcommon,?_⟩⟩
    rw [if_neg (by simp)]

theorem piTernaryToIr_eq_ok {value mask : Bytes} {v : IrMatchValue} : piTernaryToIr d value mask = .ok v ↔
    ∃ n k irValue irMask,arbitraryToNormalizedByteString value d.matchField.bitwidth = .ok n ∧
      arbitraryToNormalizedByteString mask d.matchField.bitwidth = .ok k ∧ isAllZeros k = false ∧ intersection n k = .ok n ∧
      arbitraryByteStringToIrValue d.format d.matchField.bitwidth n = .ok irValue ∧
      arbitraryByteStringToIrValue d.format d.matchField.bitwidth k = .ok irMask ∧ v = .ternary irValue irMask := by
  unfold piTernaryToIr
  constructor
  · intro h
    obtain ⟨n,hn,h⟩ := bind_eq_ok.mp h
    obtain ⟨k,hk,h⟩ := bind_eq_ok.mp h
    split_ifs at h with hzeros
    obtain ⟨common,hcommon,h⟩ := bind_eq_ok.mp h
    split_ifs at h with hne
    obtain ⟨irValue,hirValue,h⟩ := bind_eq_ok.mp h
    obtain ⟨irMask,hirMask,h⟩ := bind_eq_ok.mp h
    cases h
    obtain rfl := not_not.mp hne
    exact ⟨n,k,irValue,irMask,reasonOf_eq_ok.mp hn,reasonOf_eq_ok.mp hk,by simpa using hzeros,reasonOf_eq_ok.mp hcommon,
      reasonOf_eq_ok.mp hirValue,reasonOf_eq_ok.mp hirMask,rfl⟩
  · rintro ⟨n,k,irValue,irMask,hn,hk,hzeros,hcommon,hirValue,hirMask,rfl⟩
    refine bind_eq_ok.mpr ⟨n,reasonOf_eq_ok.mpr hn,bind_eq_ok.mpr ⟨k,reasonOf_eq_ok.mpr hk,?_⟩⟩
    rw [if_neg (by simp [hzeros])]
    refine bind_eq_ok.mpr ⟨n,reasonOf_eq_ok.mpr hcommon,?_⟩
    rw [if_neg (by simp)]
    exact bind_eq_ok.mpr ⟨irValue,reasonOf_eq_ok.mpr hirValue,bind_eq_ok.mpr ⟨irMask,reasonOf_eq_ok.mpr hirMask,rfl⟩⟩

omit [InetText] in
theorem normalized_canonical {bytes : Bytes} {w : Nat} (h : arbitraryToNormalizedByteString bytes w = .ok n) :
    arbitraryToNormalizedByteString (arbitraryToCanonicalByteString bytes) w = .ok n := by
  obtain ⟨hne,hw⟩ := normalized_pos h
  have hcanonical := List.ne_nil_of_length_pos (isCanonical_canonical hne).length_pos
  rw [arbitraryToNormalizedByteString_eq_ok hcanonical hw,canonical_value]
  exact (arbitraryToNormalizedByteString_eq_ok hne hw).mp h

/-- What an LPM match needs to come back: a length that is not negative, and a value that
has as many bytes as the mask. -/
def MatchValue.ComesBack (d : IrMatchFieldDefinition) (value : MatchValue) : Prop :=
  ∀ v p,value = .lpm v p → 0 ≤ p ∧ (d.format = .ipv6 → 120 < d.matchField.bitwidth)

inductive AcceptedMatch (d : IrMatchFieldDefinition) : MatchValue → IrMatchValue → Prop
  | exact {value : Bytes} {ir : IrValue} : d.matchField.matchType = .exact →
      arbitraryByteStringToIrValue d.format d.matchField.bitwidth value = .ok ir → AcceptedMatch d (.exact value) (.exact ir)
  | lpm {value : Bytes} {p : Int32} {v : IrMatchValue} : d.matchField.matchType = .lpm → p ≠ 0 →
      piLpmToIr d value p = .ok v → AcceptedMatch d (.lpm value p) v
  | ternary {value mask : Bytes} {v : IrMatchValue} : d.matchField.matchType = .ternary →
      piTernaryToIr d value mask = .ok v → AcceptedMatch d (.ternary value mask) v
  | optional {value : Bytes} {ir : IrValue} : d.matchField.matchType = .optional →
      arbitraryByteStringToIrValue d.format d.matchField.bitwidth value = .ok ir →
      AcceptedMatch d (.optional value) (.optional ir)

theorem piMatchValueToIr_eq_ok {v : IrMatchValue} : piMatchValueToIr d value = .ok v ↔ AcceptedMatch d value v := by
  constructor
  · intro h
    unfold piMatchValueToIr at h
    cases htype : d.matchField.matchType <;> simp only [htype] at h
    case exact =>
      split at h
      · obtain ⟨ir,hir,rfl⟩ := map_eq_ok.mp h
        exact .exact htype (reasonOf_eq_ok.mp hir)
      · cases h
    case lpm =>
      split at h
      · split_ifs at h with hzero
        · split at h <;> cases h
        · exact .lpm htype hzero h
      · cases h
    case ternary =>
      split at h
      · exact .ternary htype h
      · cases h
    case optional =>
      split at h
      · obtain ⟨ir,hir,rfl⟩ := map_eq_ok.mp h
        exact .optional htype (reasonOf_eq_ok.mp hir)
      · cases h
    all_goals cases h
  · rintro (⟨htype,h⟩ | ⟨htype,hzero,h⟩ | ⟨htype,h⟩ | ⟨htype,h⟩)
    · simp [piMatchValueToIr,htype,h,reasonOf,Except.mapError,Except.map]
    · simp [piMatchValueToIr,htype,h,hzero]
    · simp [piMatchValueToIr,htype,h]
    · simp [piMatchValueToIr,htype,h,reasonOf,Except.mapError,Except.map]

omit [InetText] in
theorem IrMatchFieldDefinition.Valid.bounded (hd : d.Valid) : d.format.Bounded d.matchField.bitwidth :=
  ⟨hd.1,hd.2.1,hd.2.2.1⟩

omit [InetText] in
theorem IrMatchFieldDefinition.Valid.numeric (hd : d.Valid)
    (htype : d.matchField.matchType = .lpm ∨ d.matchField.matchType = .ternary) : d.format ≠ .string := by
  intro hstring
  rcases hd.2.2.2.1 hstring with h | h <;> rcases htype with h' | h' <;> cases h.symm.trans h'

omit [InetText] in
theorem canonicalFor_numeric {format : Format} (h : format ≠ .string) (bytes : Bytes) :
    canonicalFor format bytes = arbitraryToCanonicalByteString bytes := if_neg h

private theorem matchValue_canonical (hd : d.Valid) {v : IrMatchValue} (h : piMatchValueToIr d value = .ok v) :
    piMatchValueToIr d (canonicalMatchValue d.format value) = .ok v := by
  rw [piMatchValueToIr_eq_ok] at h ⊢
  cases h with
  | exact htype h => exact .exact htype (accepted_canonical hd.bounded h)
  | lpm htype hzero h =>
    obtain ⟨mask,n,ir,hmask,hn,hcommon,hir,rfl⟩ := piLpmToIr_eq_ok.mp h
    rw [canonicalMatchValue,canonicalFor_numeric (hd.numeric (.inl htype))]
    exact .lpm htype hzero (piLpmToIr_eq_ok.mpr ⟨mask,n,ir,hmask,normalized_canonical hn,hcommon,hir,rfl⟩)
  | ternary htype h =>
    obtain ⟨n,k,irValue,irMask,hn,hk,hzeros,hcommon,hirValue,hirMask,rfl⟩ := piTernaryToIr_eq_ok.mp h
    have hnumeric := hd.numeric (.inr htype)
    rw [canonicalMatchValue,canonicalFor_numeric hnumeric,canonicalFor_numeric hnumeric]
    exact .ternary htype (piTernaryToIr_eq_ok.mpr ⟨n,k,irValue,irMask,normalized_canonical hn,normalized_canonical hk,hzeros,
      hcommon,hirValue,hirMask,rfl⟩)
  | optional htype h => exact .optional htype (accepted_canonical hd.bounded h)

/-- The bytes of a normalized number that was accepted, and their canonical form. -/
theorem normalized_bytes_back (options : TranslationOptions) (hinet : InetText.Inverse) (hd : d.Valid)
    (hnumeric : d.format ≠ .string) {bytes : Bytes} {ir : IrValue}
      (hn : arbitraryToNormalizedByteString bytes d.matchField.bitwidth = .ok n)
    (hir : arbitraryByteStringToIrValue d.format d.matchField.bitwidth n = .ok ir) :
    irValueToBytes options d.format d.matchField.bitwidth ir =
        .ok (natToBytes (d.format.byteCount d.matchField.bitwidth) (bytesToNat bytes)) ∧
      arbitraryToCanonicalByteString (natToBytes (d.format.byteCount d.matchField.bitwidth) (bytesToNat bytes)) =
        arbitraryToCanonicalByteString bytes := by
  obtain ⟨hne,hw⟩ := normalized_pos hn
  obtain ⟨hvalue,rfl⟩ := (arbitraryToNormalizedByteString_eq_ok hne hw).mp hn
  have hbytes : irValueToBytes options d.format d.matchField.bitwidth ir = _ := accepted_bytes hinet hd.bounded hir
  have hcanonical := canonicalFor_accepted_bytes hd.bounded hir
  rw [if_neg hnumeric,bytesToNat_natToBytes (lt_pow_bytes hvalue)] at hbytes hcanonical
  refine ⟨hbytes,?_⟩
  rw [canonicalFor_numeric hnumeric,canonicalFor_numeric hnumeric] at hcanonical
  rw [hcanonical,canonical_eq_iff (accepted_ne_nil hir) hne,bytesToNat_natToBytes (lt_pow_bytes hvalue)]

omit [InetText] in
theorem natToBytes_pad {n k v : Nat} (hle : n ≤ k) (hv : v < 256 ^ n) : natToBytes k v = List.replicate (k - n) 0 ++ natToBytes n v := by
  refine (eq_natToBytes ?_ ?_).symm
  · rw [List.length_append,List.length_replicate,length_natToBytes]
    omega
  · rw [bytesToNat_zeros_append,bytesToNat_natToBytes hv]

omit [InetText] in
theorem isAllZeros_iff {bytes : Bytes} : isAllZeros bytes = true ↔ bytesToNat bytes = 0 := by
  rw [bytesToNat_eq_zero]
  simp [isAllZeros]

omit [InetText] in
private theorem intersection_pad {n k v m : Nat} (hle : n ≤ k) (hv : v < 256 ^ n) (hm : m < 256 ^ n)
    (h : intersection (natToBytes n v) (natToBytes n m) = .ok (natToBytes n v)) :
    intersection (natToBytes k v) (natToBytes k m) = .ok (natToBytes k v) := by
  rw [intersection_eq_ok] at h ⊢
  refine ⟨by simp,?_⟩
  rw [natToBytes_pad hle hv,natToBytes_pad hle hm,List.zipWith_append rfl,h.2]
  simp

private theorem irTernaryToPi_ok {value mask : IrValue} {k : Bytes}
    (hn : irValueToBytes options d.format d.matchField.bitwidth value = .ok n)
    (hk : irValueToBytes options d.format d.matchField.bitwidth mask = .ok k) (hzeros : isAllZeros k = false)
    (hcommon : intersection n k = .ok n) : irTernaryToPi options d value mask =
      .ok (.ternary (arbitraryToCanonicalByteString n) (arbitraryToCanonicalByteString k)) := by
  have hparts : ∀ {value : IrValue} {n : Bytes},irValueToBytes options d.format d.matchField.bitwidth value = .ok n →
      (validateIrValueFormat value d.format options).isOk = true ∧
        irValueToNormalizedByteString value d.matchField.bitwidth = .ok n := by
    intro value n h
    unfold irValueToBytes at h
    simp only at h
    split_ifs at h with hvalid
    exact ⟨by simpa using hvalid,h⟩
  obtain ⟨hvalid,hn⟩ := hparts hn
  obtain ⟨hvalidMask,hk⟩ := hparts hk
  unfold irTernaryToPi
  simp only [hvalid,hvalidMask,Bool.not_true,Bool.false_eq_true,if_false]
  refine bind_eq_ok.mpr ⟨n,reasonOf_eq_ok.mpr hn,bind_eq_ok.mpr ⟨k,reasonOf_eq_ok.mpr hk,?_⟩⟩
  rw [if_neg (by simp [hzeros])]
  refine bind_eq_ok.mpr ⟨n,reasonOf_eq_ok.mpr hcommon,?_⟩
  rw [if_neg (by simp)]

private theorem matchValue_back (hinet : InetText.Inverse) (hd : d.Valid) {v : IrMatchValue}
    (h : piMatchValueToIr d value = .ok v) (hback : value.ComesBack d) :
    irMatchValueToPi options d v = .ok (canonicalMatchValue d.format value) := by
  rw [piMatchValueToIr_eq_ok] at h
  unfold irMatchValueToPi
  cases h with
  | exact htype h =>
    simp only [htype]
    exact map_eq_ok.mpr ⟨_,reasonOf_eq_ok.mpr (accepted_bytes hinet hd.bounded h),by
      rw [canonicalFor_accepted_bytes hd.bounded h,canonicalMatchValue]⟩
  | @lpm value p v htype hzero h =>
    obtain ⟨mask,n,ir,hmask,hn,hcommon,hir,rfl⟩ := piLpmToIr_eq_ok.mp h
    obtain ⟨hpos,hwide⟩ := hback value p rfl
    have hnumeric := hd.numeric (.inl htype)
    obtain ⟨hne,hw⟩ := normalized_pos hn
    obtain ⟨hvalue,rfl⟩ := (arbitraryToNormalizedByteString_eq_ok hne hw).mp hn
    obtain ⟨hbytes,hcanonical⟩ := normalized_bytes_back options hinet hd hnumeric hn hir
    have hcount : d.format.byteCount d.matchField.bitwidth = (d.matchField.bitwidth + 7) / 8 := by
      unfold Format.byteCount
      split_ifs with hipv6
      · have hle := hd.bounded.2.2 hipv6
        have hlt := hwide hipv6
        omega
      · rfl
    rw [hcount] at hbytes hcanonical
    have hlength : p.toUInt32.toNat ≤ d.matchField.bitwidth := by
      unfold prefixLenToMask at hmask
      split_ifs at hmask with hlong
      have hint := toUInt32_of_nonneg hpos
      omega
    simp only [htype]
    refine irLpmToPi_eq_ok.mpr ⟨hlength,hzero,_,mask,hbytes,?_,hcommon,?_⟩
    · rw [toUInt32_of_nonneg hpos]
      exact hmask
    · rw [canonicalMatchValue,canonicalFor_numeric hnumeric,hcanonical]
  | @ternary value mask v htype h =>
    obtain ⟨n,k,irValue,irMask,hn,hk,hzeros,hcommon,hirValue,hirMask,rfl⟩ := piTernaryToIr_eq_ok.mp h
    have hnumeric := hd.numeric (.inr htype)
    have hfits := accepted_fits hd.bounded hnumeric hirValue
    obtain ⟨hbytes,hcanonical⟩ := normalized_bytes_back options hinet hd hnumeric hn hirValue
    obtain ⟨hmaskBytes,hmaskCanonical⟩ := normalized_bytes_back options hinet hd hnumeric hk hirMask
    obtain ⟨hne,hw⟩ := normalized_pos hn
    obtain ⟨hneMask,-⟩ := normalized_pos hk
    obtain ⟨hvalue,rfl⟩ := (arbitraryToNormalizedByteString_eq_ok hne hw).mp hn
    obtain ⟨hvalueMask,rfl⟩ := (arbitraryToNormalizedByteString_eq_ok hneMask hw).mp hk
    have hcommon' := intersection_pad hfits.byteCount_ge (lt_pow_bytes hvalue) (lt_pow_bytes hvalueMask) hcommon
    have hzeros' : isAllZeros (natToBytes (d.format.byteCount d.matchField.bitwidth) (bytesToNat mask)) = false := by
      rw [Bool.eq_false_iff,ne_eq,isAllZeros_iff,natToBytes_pad hfits.byteCount_ge (lt_pow_bytes hvalueMask),
        bytesToNat_zeros_append,← isAllZeros_iff]
      simp [hzeros]
    simp only [htype]
    rw [irTernaryToPi_ok hbytes hmaskBytes hzeros' hcommon',hcanonical,hmaskCanonical,canonicalMatchValue,
      canonicalFor_numeric hnumeric,canonicalFor_numeric hnumeric]
  | optional htype h =>
    simp only [htype]
    exact map_eq_ok.mpr ⟨_,reasonOf_eq_ok.mpr (accepted_bytes hinet hd.bounded h),by
      rw [canonicalFor_accepted_bytes hd.bounded h,canonicalMatchValue]⟩

private theorem matchValue_comesBack (hinet : InetText.Inverse) (hd : d.Valid) (hwidth : d.matchField.bitwidth < 2 ^ 31)
    {x : MatchValue} {v : IrMatchValue} (h : piMatchValueToIr d value = .ok v)
    (hx : irMatchValueToPi options d v = .ok x) : value.ComesBack d := by
  rintro bytes p rfl
  rw [piMatchValueToIr_eq_ok] at h
  unfold irMatchValueToPi at hx
  cases h with
  | lpm htype hzero h =>
    obtain ⟨mask,n,ir,hmask,hn,hcommon,hir,rfl⟩ := piLpmToIr_eq_ok.mp h
    simp only [htype] at hx
    obtain ⟨hlength,-,n',mask',hbytes',hmask',hcommon',-⟩ := irLpmToPi_eq_ok.mp hx
    obtain ⟨hbytes,-⟩ := normalized_bytes_back options hinet hd (hd.numeric (.inl htype)) hn hir
    cases hbytes.symm.trans hbytes'
    constructor
    · by_contra hneg
      have hbig := toUInt32_of_neg hneg
      omega
    · intro hipv6
      have hlengths := (intersection_eq_ok.mp hcommon').1
      rw [length_natToBytes,length_prefixLenToMask hmask',Format.byteCount,if_pos hipv6] at hlengths
      omega

end MatchValues

section Matches
variable [InetText] {info : IrP4Info} {options : TranslationOptions} {table : IrTableDefinition}

theorem piMatchToIr_eq_ok {r : IrMatchFieldDefinition × IrMatch} : piMatchToIr options table m = .ok r ↔
    table.matchFieldsById.lookup m.fieldId = some r.1 ∧ unsupportedReason "Match field" r.1.isUnsupported options = [] ∧
      r.2.name = r.1.matchField.name ∧ piMatchValueToIr r.1 m.value = .ok r.2.value := by
  refine ⟨piMatchToIr_spec,?_⟩
  rintro ⟨hd,hsupported,hname,hvalue⟩
  obtain ⟨d,name,v⟩ := r
  obtain rfl : name = d.matchField.name := hname
  simp only at hd hsupported hvalue
  simp [piMatchToIr,hd,piMatchFieldToIr,hvalue,hsupported,unlessInvalid]

theorem irMatchToPi_eq_ok {m : IrMatch} {r : IrMatchFieldDefinition × FieldMatch} : irMatchToPi options table m = .ok r ↔
    table.matchFieldsByName.lookup m.name = some r.1 ∧ unsupportedReason "Match field" r.1.isUnsupported options = [] ∧
      r.2.fieldId = r.1.matchField.id ∧ irMatchValueToPi options r.1 m.value = .ok r.2.value := by
  unfold irMatchToPi irMatchFieldToPi
  constructor
  · intro h
    split at h
    · cases h
    · rename_i d hd
      split at h
      · cases h
      · rename_i pi hpi
        cases h
        simp only at hpi
        split at hpi
        · rename_i value hvalue
          obtain ⟨hreasons,rfl⟩ := unlessInvalid_eq_ok.mp hpi
          exact ⟨hd,hreasons,rfl,hvalue⟩
        · cases hpi
  · rintro ⟨hd,hsupported,hid,hvalue⟩
    obtain ⟨d,id,v⟩ := r
    obtain rfl : id = d.matchField.id := hid
    simp only at hd hsupported hvalue
    simp [hd,hvalue,hsupported,unlessInvalid]

/-- The matches of an accepted entry, each with its definition. -/
structure TranslatedMatches (options : TranslationOptions) (table : IrTableDefinition) (ms : List FieldMatch)
    (translated : List (IrMatchFieldDefinition × IrMatch)) : Prop where
  each : List.Forall₂ (fun m r => piMatchToIr options table m = .ok r) ms translated
  nodup : (ms.map FieldMatch.fieldId).Nodup

theorem piMatchesToIr_eq :
    piMatchesToIr options table ms = ([],translated) ↔ TranslatedMatches options table ms translated := by
  constructor
  · intro h
    obtain ⟨hrel,hnodup,-⟩ := partitionDistinct_nil [] (congrArg Prod.fst h)
    have hsnd := congrArg Prod.snd h
    simp only [piMatchesToIr] at hsnd
    rw [hsnd] at hrel
    exact ⟨hrel,hnodup⟩
  · intro h
    exact partitionDistinct_eq h.each h.nodup (by simp)

omit [InetText] in
theorem canonicalMatch_of_lookup {d : IrMatchFieldDefinition} (hd : table.matchFieldsById.lookup m.fieldId = some d) :
    canonicalMatch table m = ⟨m.fieldId,canonicalMatchValue d.format m.value⟩ := by
  unfold canonicalMatch
  rw [hd]

theorem TranslatedMatches.canonical (htable : table.WellFormed info)
    (h : TranslatedMatches options table ms translated) :
    TranslatedMatches options table (ms.map (canonicalMatch table)) translated := by
  have hfield : ∀ m ∈ ms,(canonicalMatch table m).fieldId = m.fieldId := by
    intro m hm
    obtain ⟨r,-,hr⟩ := exists_of_forall₂_left h.each hm
    rw [canonicalMatch_of_lookup (piMatchToIr_eq_ok.mp hr).1]
  refine ⟨?_,?_⟩
  · rw [List.forall₂_map_left_iff]
    refine h.each.imp fun m r hr => ?_
    obtain ⟨hd,hsupported,hname,hvalue⟩ := piMatchToIr_eq_ok.mp hr
    have hvalid := htable.valid _ (mem_of_lookup_eq_some hd)
    rw [canonicalMatch_of_lookup hd,piMatchToIr_eq_ok]
    exact ⟨hd,hsupported,hname,matchValue_canonical hvalid hvalue⟩
  · have hids : (ms.map (canonicalMatch table)).map FieldMatch.fieldId = ms.map FieldMatch.fieldId := by
      rw [List.map_map]
      exact List.map_congr_left hfield
    rw [hids]
    exact h.nodup

def MatchesComeBack (table : IrTableDefinition) (ms : List FieldMatch) : Prop :=
  ∀ m ∈ ms,∀ d,table.matchFieldsById.lookup m.fieldId = some d → m.value.ComesBack d

theorem TranslatedMatches.names_nodup (htable : table.WellFormed info)
    (h : TranslatedMatches options table ms translated) :
    ((translated.map Prod.snd).map IrMatch.name).Nodup := by
  rw [List.map_map]
  refine nodup_of_forall₂ h.each h.nodup fun m r m' r' hr hr' heq => ?_
  obtain ⟨hd,-,hname,-⟩ := piMatchToIr_eq_ok.mp hr
  obtain ⟨hd',-,hname',-⟩ := piMatchToIr_eq_ok.mp hr'
  obtain ⟨hid,hlookup⟩ := htable.matchFields.lookup_name hd
  obtain ⟨hid',hlookup'⟩ := htable.matchFields.lookup_name hd'
  have heq : r.1.matchField.name = r'.1.matchField.name := hname.symm.trans (heq.trans hname')
  rw [heq] at hlookup
  rw [← hid,← hid',Option.some.inj (hlookup.symm.trans hlookup')]

private theorem irMatchToPi_back (hinet : InetText.Inverse) (htable : table.WellFormed info)
    {r : IrMatchFieldDefinition × IrMatch} (hr : piMatchToIr options table m = .ok r) (hback : m.value.ComesBack r.1) :
    irMatchToPi options table r.2 = .ok (r.1,canonicalMatch table m) := by
  obtain ⟨hd,hsupported,hname,hvalue⟩ := piMatchToIr_eq_ok.mp hr
  obtain ⟨hid,hlookup⟩ := htable.matchFields.lookup_name hd
  have hvalid := htable.valid _ (mem_of_lookup_eq_some hd)
  rw [irMatchToPi_eq_ok,canonicalMatch_of_lookup hd,hname]
  exact ⟨hlookup,hsupported,hid.symm,matchValue_back hinet hvalid hvalue hback⟩

theorem TranslatedMatches.back (hinet : InetText.Inverse) (htable : table.WellFormed info)
    (h : TranslatedMatches options table ms translated)
    (hback : MatchesComeBack table ms) :
    ∃ back,irMatchesToPi options table (translated.map Prod.snd) = ([],back) ∧
      back.map Prod.snd = ms.map (canonicalMatch table) ∧ back.map Prod.fst = translated.map Prod.fst := by
  have heach : ∃ back,List.Forall₂ (fun ir r => irMatchToPi options table ir = .ok r) (translated.map Prod.snd) back ∧
      back.map Prod.snd = ms.map (canonicalMatch table) ∧ back.map Prod.fst = translated.map Prod.fst := by
    have hrel := h.each
    clear h
    induction hrel with
    | nil => exact ⟨[],.nil,rfl,rfl⟩
    | @cons m r ms translated hr _ ih =>
      obtain ⟨back,hrest,hmatches,hdefinitions⟩ := ih fun m hm => hback m (List.mem_cons_of_mem _ hm)
      have hm := hback m List.mem_cons_self r.1 (piMatchToIr_eq_ok.mp hr).1
      exact ⟨_ :: back,.cons (irMatchToPi_back hinet htable hr hm) hrest,by simp [hmatches],by simp [hdefinitions]⟩
  obtain ⟨back,hrel,hmatches,hdefinitions⟩ := heach
  exact ⟨back,partitionDistinct_eq hrel (h.names_nodup htable) (by simp),hmatches,hdefinitions⟩

theorem TranslatedMatches.comeBack (hinet : InetText.Inverse) (htable : table.WellFormed info)
    (hwidth : ∀ x ∈ table.matchFieldsById,x.2.matchField.bitwidth < 2 ^ 31)
    (h : TranslatedMatches options table ms translated)
    (hreasons : (irMatchesToPi options table (translated.map Prod.snd)).1 = []) : MatchesComeBack table ms := by
  intro m hm d hd
  obtain ⟨r,hr,hmr⟩ := exists_of_forall₂_left h.each hm
  obtain ⟨hd',-,hname,hvalue⟩ := piMatchToIr_eq_ok.mp hmr
  cases hd.symm.trans hd'
  obtain ⟨hrel,-,-⟩ := partitionDistinct_nil [] hreasons
  obtain ⟨x,-,hx⟩ := exists_of_forall₂_left hrel (List.mem_map.mpr ⟨r,hr,rfl⟩)
  obtain ⟨hlookup,-,-,hback⟩ := irMatchToPi_eq_ok.mp hx
  rw [hname,(htable.matchFields.lookup_name hd).2] at hlookup
  rw [← Option.some.inj hlookup] at hback
  have hmem := mem_of_lookup_eq_some hd
  exact matchValue_comesBack hinet (htable.valid _ hmem) (hwidth _ hmem) hvalue hback

end Matches

section Actions
variable [InetText] {info : IrP4Info} {options : TranslationOptions}

theorem piParamToIr_eq_ok {p : ActionParamValue} {ir : IrActionParam} :
    piParamToIr action p = .ok ir ↔ ∃ d,action.paramsById.lookup p.paramId = some d ∧ ir.name = d.param.name ∧
      arbitraryByteStringToIrValue d.format d.param.bitwidth p.value = .ok ir.value := by
  refine ⟨piParamToIr_spec,?_⟩
  rintro ⟨d,hd,hname,hvalue⟩
  obtain ⟨name,value⟩ := ir
  obtain rfl : name = d.param.name := hname
  simp [piParamToIr,hd,hvalue]

omit [InetText] in
theorem canonicalParam_of_lookup {p : ActionParamValue} {d : IrActionParamDefinition}
    (hd : action.paramsById.lookup p.paramId = some d) :
    canonicalParam action p = ⟨p.paramId,canonicalFor d.format p.value⟩ := by
  unfold canonicalParam
  rw [hd]

private theorem param_canonical (hwf : action.WellFormed) {p : ActionParamValue} {ir : IrActionParam}
    (h : piParamToIr action p = .ok ir) : piParamToIr action (canonicalParam action p) = .ok ir := by
  obtain ⟨d,hd,hname,hvalue⟩ := piParamToIr_eq_ok.mp h
  rw [canonicalParam_of_lookup hd,piParamToIr_eq_ok]
  exact ⟨d,hd,hname,accepted_canonical (hwf.valid _ (mem_of_lookup_eq_some hd)) hvalue⟩

private theorem param_back (hinet : InetText.Inverse) (hwf : action.WellFormed) {p : ActionParamValue}
    {ir : IrActionParam} (h : piParamToIr action p = .ok ir) :
    irParamToPi options action ir = .ok (canonicalParam action p) := by
  obtain ⟨d,hd,hname,hvalue⟩ := piParamToIr_eq_ok.mp h
  obtain ⟨hid,hlookup⟩ := hwf.params.lookup_name hd
  have hbounded : d.format.Bounded d.param.bitwidth := hwf.valid _ (mem_of_lookup_eq_some hd)
  have hbytes : irValueToBytes options d.format d.param.bitwidth ir.value = _ := accepted_bytes hinet hbounded hvalue
  rw [canonicalParam_of_lookup hd]
  simp only [irParamToPi,hname,hlookup,hbytes,canonicalFor_accepted_bytes hbounded hvalue,hid]

theorem params_names_nodup (hwf : action.WellFormed) {ps : List ActionParamValue}
    {irs : List IrActionParam} (h : List.Forall₂ (fun p ir => piParamToIr action p = .ok ir) ps irs)
    (hnodup : (ps.map ActionParamValue.paramId).Nodup) : (irs.map IrActionParam.name).Nodup := by
  refine nodup_of_forall₂ h hnodup fun p ir p' ir' hp hp' heq => ?_
  obtain ⟨d,hd,hname,-⟩ := piParamToIr_eq_ok.mp hp
  obtain ⟨d',hd',hname',-⟩ := piParamToIr_eq_ok.mp hp'
  obtain ⟨hid,hlookup⟩ := hwf.params.lookup_name hd
  obtain ⟨hid',hlookup'⟩ := hwf.params.lookup_name hd'
  have heq : d.param.name = d'.param.name := hname.symm.trans (heq.trans hname')
  rw [heq] at hlookup
  rw [← hid,← hid',Option.some.inj (hlookup.symm.trans hlookup')]

omit [InetText] in
theorem canonicalAction_of_lookup {a : Action} {d : IrActionDefinition} (hd : info.actionsById.lookup a.actionId = some d) :
    canonicalAction info a = ⟨a.actionId,a.params.map (canonicalParam d)⟩ := by
  unfold canonicalAction
  rw [hd]

theorem action_canonical (hinfo : info.WellFormed) {validActions : List IrActionDefinition} {a : Action}
    {ir : IrActionInvocation} (h : piActionToIr info options validActions a = .ok ir) :
    piActionToIr info options validActions (canonicalAction info a) = .ok ir := by
  obtain ⟨d,hd,-,-,hreasons,-⟩ := piActionToIr_spec h
  have hwf := (hinfo.action_of_id hd).2.2
  obtain ⟨hrel,hnodup,-⟩ := partitionDistinct_nil [] hreasons
  have hids : (a.params.map (canonicalParam d)).map ActionParamValue.paramId = a.params.map ActionParamValue.paramId := by
    rw [List.map_map]
    refine List.map_congr_left fun p hp => ?_
    obtain ⟨ir,-,hir⟩ := exists_of_forall₂_left hrel hp
    obtain ⟨pd,hpd,-⟩ := piParamToIr_eq_ok.mp hir
    rw [Function.comp_apply,canonicalParam_of_lookup hpd]
  have hparams : piParamsToIr d (a.params.map (canonicalParam d)) = piParamsToIr d a.params := by
    have heq : piParamsToIr d a.params = ([],(piParamsToIr d a.params).2) := Prod.ext hreasons rfl
    rw [heq]
    refine partitionDistinct_eq ?_ (hids ▸ hnodup) (by simp)
    rw [List.forall₂_map_left_iff]
    exact hrel.imp fun p ir hp => param_canonical hwf hp
  unfold piActionToIr at h ⊢
  rw [canonicalAction_of_lookup hd]
  simp only [hd,hparams] at h ⊢
  exact h

theorem action_back (hinet : InetText.Inverse) (hinfo : info.WellFormed) {table : IrTableDefinition}
    (htable : table.WellFormed info) {a : Action} {ir : IrActionInvocation}
    (h : piActionToIr info options table.entryActions a = .ok ir) :
    irActionInvocationToPi info options table.entryActions ir = .ok (canonicalAction info a) := by
  obtain ⟨d,hd,hvalid,hsupported,hreasons,hcount,hname,hirParams⟩ := piActionToIr_spec h
  obtain ⟨hid,hlookup,hwf⟩ := hinfo.action_of_id hd
  obtain ⟨hrel,hnodup,-⟩ := partitionDistinct_nil [] hreasons
  have hvalidName : (table.entryActions.any fun v => v.preamble.aliasName = d.preamble.aliasName) = true := by
    obtain ⟨v,hv,hvid⟩ := List.any_eq_true.mp hvalid
    have hentry := lookup_eq_some_of_mem hinfo.actions.idNodup (htable.entryActions v hv)
    rw [of_decide_eq_true hvid,hd] at hentry
    cases hentry
    exact List.any_eq_true.mpr ⟨d,hv,by simp⟩
  have hparams : irParamsToPi options d (piParamsToIr d a.params).2 = ([],a.params.map (canonicalParam d)) := by
    refine partitionDistinct_eq ?_ (params_names_nodup hwf hrel hnodup) (by simp)
    rw [List.forall₂_map_right_iff]
    exact (hrel.imp fun p ir hp => param_back hinet hwf hp).flip
  obtain ⟨name,params⟩ := ir
  simp only at hname hirParams
  subst hname hirParams
  rw [canonicalAction_of_lookup hd]
  simp [irActionInvocationToPi,hlookup,hvalidName,hparams,hsupported,hcount,unlessInvalid,hid]

private theorem member_canonical (hinfo : info.WellFormed) {validActions : List IrActionDefinition} {a : ActionProfileAction}
    {ir : IrActionSetInvocation} (h : piActionProfileActionToIr info options validActions a = .ok ir) :
    piActionProfileActionToIr info options validActions (canonicalMember info a) = .ok ir := by
  obtain ⟨haction,hweight,hirWeight,hirPort⟩ := piActionProfileActionToIr_spec h
  obtain ⟨irAction,weight,watchPort⟩ := ir
  simp only at haction hirWeight hirPort
  subst hirWeight hirPort
  simp [piActionProfileActionToIr,canonicalMember,action_canonical hinfo haction,hweight]

private theorem member_back (hinet : InetText.Inverse) (hinfo : info.WellFormed) {table : IrTableDefinition}
    (htable : table.WellFormed info) {a : ActionProfileAction} {ir : IrActionSetInvocation}
    (h : piActionProfileActionToIr info options table.entryActions a = .ok ir) :
    irActionSetInvocationToPi info options table.entryActions ir = .ok (canonicalMember info a) := by
  obtain ⟨haction,hweight,hirWeight,hirPort⟩ := piActionProfileActionToIr_spec h
  obtain ⟨irAction,weight,watchPort⟩ := ir
  simp only at haction hirWeight hirPort
  subst hirWeight hirPort
  simp [irActionSetInvocationToPi,canonicalMember,action_back hinet hinfo htable haction,hweight]

end Actions

section Entries
variable [InetText] {info : IrP4Info} {options : TranslationOptions} {table : IrTableDefinition}

private theorem tableAction_canonical (hinfo : info.WellFormed) {action : Option TableAction} {type : IrTableEntryType}
    (h : TranslatedPiAction info options table action type) :
    piTableActionToIr info options table (action.map (canonicalTableAction info)) = ([],type) := by
  cases h with
  | notSet hactions => simp [piTableActionToIr,hactions]
  | action hactions honeshot h =>
    simp [piTableActionToIr,hactions,honeshot,canonicalTableAction,action_canonical hinfo h]
  | @actionSet actions irs hactions honeshot hrel =>
    have hmembers : List.Forall₂ (fun a ir => piActionProfileActionToIr info options table.entryActions a = .ok ir)
        (actions.map (canonicalMember info)) irs := by
      rw [List.forall₂_map_left_iff]
      exact hrel.imp fun a ir ha => member_canonical hinfo ha
    have hset : piActionSetToIr info options table.entryActions (actions.map (canonicalMember info)) = .ok irs := by
      simp [piActionSetToIr,partitionResults_eq hmembers,unlessInvalid]
    simp [piTableActionToIr,hactions,honeshot,canonicalTableAction,hset]

private theorem tableAction_back (hinet : InetText.Inverse) (hinfo : info.WellFormed) (htable : table.WellFormed info)
    {action : Option TableAction} {type : IrTableEntryType} (h : TranslatedPiAction info options table action type) :
    irTableActionToPi info options table type = ([],action.map (canonicalTableAction info)) := by
  cases h with
  | notSet hactions => simp [irTableActionToPi,hactions]
  | action hactions honeshot h =>
    simp [irTableActionToPi,hactions,honeshot,canonicalTableAction,action_back hinet hinfo htable h]
  | @actionSet actions irs hactions honeshot hrel =>
    have hmembers : List.Forall₂ (fun ir a => irActionSetInvocationToPi info options table.entryActions ir = .ok a)
        irs (actions.map (canonicalMember info)) := by
      rw [List.forall₂_map_right_iff]
      exact (hrel.imp fun a ir ha => member_back hinet hinfo htable ha).flip
    have hset : irActionSetToPi info options table.entryActions irs = .ok (actions.map (canonicalMember info)) := by
      simp [irActionSetToPi,partitionResults_eq hmembers,unlessInvalid]
    simp [irTableActionToPi,hactions,honeshot,canonicalTableAction,hset]

omit [InetText] in
theorem canonicalEntry_of_lookup {e : TableEntry} (h : info.tablesById.lookup e.tableId = some table) :
    canonicalEntry info e =
      { e with matches_ := e.matches_.map (canonicalMatch table),action := e.action.map (canonicalTableAction info) } := by
  unfold canonicalEntry
  rw [h]

theorem TranslatedPiEntry.matches_eq {ir : IrTableEntry} (h : TranslatedPiEntry info options pi ir table) :
    piMatchesToIr options table pi.matches_ = ([],(piMatchesToIr options table pi.matches_).2) :=
  Prod.ext h.matchReasons rfl

theorem entry_canonical (hinfo : info.WellFormed) (hoptions : options.keyOnly = false) {ir : IrTableEntry}
    (h : piTableEntryToIr info pi options = .ok ir) : piTableEntryToIr info (canonicalEntry info pi) options = .ok ir := by
  obtain ⟨table,hspec⟩ := piTableEntryToIr_spec h
  have htable := (hinfo.table_of_id hspec.found).2.2
  have hmatches : piMatchesToIr options table (pi.matches_.map (canonicalMatch table)) =
      piMatchesToIr options table pi.matches_ := by
    rw [hspec.matches_eq]
    exact piMatchesToIr_eq.mpr ((piMatchesToIr_eq.mp hspec.matches_eq).canonical htable)
  have haction : piTableActionToIr info options table (pi.action.map (canonicalTableAction info)) =
      piTableActionToIr info options table pi.action := by
    rw [tableAction_canonical hinfo (piTableActionToIr_spec (hspec.actionReasons hoptions))]
    exact Prod.ext (hspec.actionReasons hoptions).symm rfl
  rw [canonicalEntry_of_lookup hspec.found]
  unfold piTableEntryToIr at h ⊢
  simp only [hspec.found,hmatches,haction] at h ⊢
  exact h

omit [InetText] in
theorem priorityReasons_text {priority : Int32} {refused : String} (h : priorityReasons table priority refused = [])
    (refused' : String) : priorityReasons table priority refused' = [] := by
  unfold priorityReasons at h ⊢
  split_ifs at h ⊢
  · rfl
  · rfl

omit [InetText] in
private theorem meterCounterReasons_text {config data : Bool} {a b : String} (h : meterCounterReasons table config data a b = [])
    (a' b' : String) : meterCounterReasons table config data a' b' = [] := by
  unfold meterCounterReasons at h ⊢
  split_ifs at h ⊢ <;> simp_all

omit [InetText] in
theorem mandatoryNames_congr {α β : Type} {l : List (IrMatchFieldDefinition × α)} {r : List (IrMatchFieldDefinition × β)}
    (h : l.map Prod.fst = r.map Prod.fst) : mandatoryNames l = mandatoryNames r := by
  have hmap : ∀ {γ : Type} (l : List (IrMatchFieldDefinition × γ)),mandatoryNames l =
      ((l.map Prod.fst).filter fun d => d.matchField.matchType = .exact).map fun d => d.matchField.name := by
    intro γ l
    rw [mandatoryNames,List.filter_map,List.map_map]
    rfl
  rw [hmap,hmap,h]

/-- What an entry needs to come back. -/
def TableEntry.ComesBack (info : IrP4Info) (pi : TableEntry) : Prop :=
  ∀ table,info.tablesById.lookup pi.tableId = some table → MatchesComeBack table pi.matches_

theorem entry_back (hinet : InetText.Inverse) (hinfo : info.WellFormed) (hoptions : options.keyOnly = false)
    {ir : IrTableEntry} (h : piTableEntryToIr info pi options = .ok ir) (hback : pi.ComesBack info) :
    irTableEntryToPi info ir options = .ok (canonicalEntry info pi) := by
  obtain ⟨table,hspec⟩ := piTableEntryToIr_spec h
  obtain ⟨hid,hlookup,htable⟩ := hinfo.table_of_id hspec.found
  obtain ⟨back,hreasons,hmatches,hdefinitions⟩ :=
    (piMatchesToIr_eq.mp hspec.matches_eq).back hinet htable (hback table hspec.found)
  have haction := tableAction_back hinet hinfo htable (piTableActionToIr_spec (hspec.actionReasons hoptions))
  have hmandatory := hspec.mandatory
  rw [← mandatoryNames_congr hdefinitions] at hmandatory
  obtain ⟨tableName,irMatches,priority,type,meterConfig,counterData,meterCounterData,metadata⟩ := ir
  obtain rfl := hspec.tableName
  obtain rfl := hspec.priority
  obtain rfl := hspec.matches_
  obtain rfl := hspec.type
  obtain rfl := hspec.meterConfig
  obtain rfl := hspec.counterData
  obtain rfl := hspec.meterCounterData
  obtain rfl := hspec.controllerMetadata
  rw [canonicalEntry_of_lookup hspec.found]
  unfold irTableEntryToPi
  simp only [hlookup,hreasons,hmandatory,hoptions,haction,Bool.false_eq_true,if_false]
  refine unlessInvalid_eq_ok.mpr ⟨?_,?_⟩
  · simp [hspec.supported,priorityReasons_text hspec.priorityReasons,hspec.meterReasons hoptions,
      meterCounterReasons_text (hspec.meterCounterReasons hoptions),hspec.counterReasons hoptions]
  · rw [hmatches,hid]

theorem entry_comesBack (hinet : InetText.Inverse) (hinfo : info.WellFormed)
    (hwidth : ∀ t ∈ info.tablesById,∀ m ∈ t.2.matchFieldsById,m.2.matchField.bitwidth < 2 ^ 31) {pi' : TableEntry}
    {ir : IrTableEntry} (h : piTableEntryToIr info pi options = .ok ir) (h' : irTableEntryToPi info ir options = .ok pi') :
    pi.ComesBack info := by
  intro table' htable'
  obtain ⟨table,hspec⟩ := piTableEntryToIr_spec h
  obtain ⟨table'',hspec'⟩ := irTableEntryToPi_spec h'
  cases htable'.symm.trans hspec.found
  obtain ⟨-,hlookup,htable⟩ := hinfo.table_of_id hspec.found
  have hfound := hspec'.found
  rw [hspec.tableName,hlookup] at hfound
  cases hfound
  have hreasons := hspec'.matchReasons
  rw [hspec.matches_] at hreasons
  exact (piMatchesToIr_eq.mp hspec.matches_eq).comeBack hinet htable (hwidth _ (mem_of_lookup_eq_some hspec.found)) hreasons

/-- The PI form of an accepted entry, as it comes back from the IR form: it has that IR
form as well, it is the entry with canonical numbers, and its key is the one of every
accepted entry that differs in leading zeros only. -/
def HasNormalForm (info : IrP4Info) (options : TranslationOptions) (pi : TableEntry) (ir : IrTableEntry) : Prop :=
  ∃ pi',irTableEntryToPi info ir options = .ok pi' ∧ piTableEntryToIr info pi' options = .ok ir ∧ pi' = canonicalEntry info pi ∧
    ∀ e irE e',piTableEntryToIr info e options = .ok irE → irTableEntryToPi info irE options = .ok e' →
      e.tableId = pi.tableId → e.priority = pi.priority →
      (canonicalEntry info e).matches_ = (canonicalEntry info pi).matches_ →
      makeEntityKey (.tableEntry e') = makeEntityKey (.tableEntry pi')

omit [InetText] in
theorem canonicalEntry_key (e : TableEntry) :
    (canonicalEntry info e).key = ⟨e.tableId,e.priority,sortMatches (canonicalEntry info e).matches_⟩ := by
  unfold canonicalEntry
  split <;> rfl

/-- Entries have a normal form, except those with an LPM match that cannot come back. -/
theorem normal_form_iff (hinet : InetText.Inverse) (hinfo : info.WellFormed)
    (hwidth : ∀ t ∈ info.tablesById,∀ m ∈ t.2.matchFieldsById,m.2.matchField.bitwidth < 2 ^ 31)
    (hoptions : options.keyOnly = false) {pi : TableEntry} {ir : IrTableEntry} (h : piTableEntryToIr info pi options = .ok ir) :
    HasNormalForm info options pi ir ↔ pi.ComesBack info := by
  constructor
  · rintro ⟨pi',h',-⟩
    exact entry_comesBack hinet hinfo hwidth h h'
  · intro hback
    refine ⟨_,entry_back hinet hinfo hoptions h hback,entry_canonical hinfo hoptions h,rfl,?_⟩
    intro e irE e' he he' htable hpriority hmatches
    have hback' := entry_back hinet hinfo hoptions he (entry_comesBack hinet hinfo hwidth he he')
    cases he'.symm.trans hback'
    simp only [makeEntityKey,canonicalEntry_key,htable,hpriority,hmatches]

end Entries

attribute [local instance] uncompressedInet

def lpmInfo (format : Format) (bitwidth : Nat) : IrP4Info :=
  let d : IrMatchFieldDefinition := { matchField := { id := 1,name := "dst",bitwidth := bitwidth,matchType := .lpm },format := format }
  let table : IrTableDefinition :=
    { preamble := { id := 1,aliasName := "routes" },matchFieldsById := [(1,d)],matchFieldsByName := [("dst",d)] }
  { tablesById := [(1,table)],tablesByName := [("routes",table)] }

def lpmEntry (value : Bytes) (prefixLen : Int32) : TableEntry := { tableId := 1,matches_ := [⟨1,.lpm value prefixLen⟩] }

def lpmIr (value : IrValue) (prefixLen : Int32) : IrTableEntry :=
  { tableName := "routes",matches_ := [⟨"dst",.lpm value prefixLen⟩] }

/-- A negative length, and an address of less than 121 bits, are accepted and do not come back. -/
theorem lpm_without_normal_form :
    ((lpmInfo .hexString 8).WellFormed ∧
      piTableEntryToIr (lpmInfo .hexString 8) (lpmEntry [0] (-1)) {} = .ok (lpmIr (.hexStr "0x00") (-1)) ∧
      ¬ HasNormalForm (lpmInfo .hexString 8) {} (lpmEntry [0] (-1)) (lpmIr (.hexStr "0x00") (-1))) ∧
    (lpmInfo .ipv6 112).WellFormed ∧
      piTableEntryToIr (lpmInfo .ipv6 112) (lpmEntry sampleGroups 112) {} =
        .ok (lpmIr (.ipv6 "2001:db8:1:2:3:4:5:0") 112) ∧
      ¬ HasNormalForm (lpmInfo .ipv6 112) {} (lpmEntry sampleGroups 112) (lpmIr (.ipv6 "2001:db8:1:2:3:4:5:0") 112) := by
  have hfails : ∀ {info : IrP4Info} {pi : TableEntry} {ir : IrTableEntry},(irTableEntryToPi info ir {}).toOption = none →
      ¬ HasNormalForm info {} pi ir := by
    rintro info pi ir hnone ⟨pi',h,-⟩
    rw [h] at hnone
    cases hnone
  exact ⟨⟨by decide,by decide,hfails (by decide)⟩,by decide,by decide,
    hfails (by decide)⟩

/-- Leading zeros are accepted, and removed from what comes back. -/
theorem lpm_normal_form : HasNormalForm (lpmInfo .hexString 12) {} (lpmEntry [0,0,10,0] 8) (lpmIr (.hexStr "0xa00") 8) ∧
    canonicalEntry (lpmInfo .hexString 12) (lpmEntry [0,0,10,0] 8) = lpmEntry [10,0] 8 := by
  refine ⟨(normal_form_iff uncompressedInet_inverse (by decide) (by decide) rfl (by decide)).mpr ?_,by decide⟩
  intro table htable m hm d hd v p hvalue
  cases htable
  obtain rfl := List.mem_singleton.mp hm
  cases hd
  cases hvalue
  exact ⟨by decide,by decide⟩

end SonicPins.Pdpi
