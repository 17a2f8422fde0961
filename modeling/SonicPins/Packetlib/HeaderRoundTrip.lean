import SonicPins.Packetlib.CrashSafety

/-! Parsing a header and writing it again. -/
namespace SonicPins.Packetlib
open Lib Pdpi

variable {data rest bits : BitString} {H : Type} {numBits n : Nat} {text : String}

private theorem consume_of_le (h : (n : Int) ≤ data.size) : data.consume n = .ok (data.take n,data.drop n) := by
  unfold BitString.consume
  rw [if_neg (by omega),if_neg (by omega),Int.toNat_natCast]

theorem size_le_length (data : BitString) : data.size ≤ data.length := int32_le _

theorem size_drop (h : (n : Int) ≤ data.size) : BitString.size (data.drop n) = data.size - n := by
  unfold BitString.size
  rw [List.length_drop]
  exact int32_sub h

theorem length_take_of_le (h : (n : Int) ≤ data.size) : (data.take n).length = n := by
  have hle := size_le_length data
  rw [List.length_take]
  omega

theorem parseText_of_le {textOf : String → String} (h : (n : Int) ≤ data.size) :
    parseText n textOf data = (textOf (BitString.toHexString (data.take n)),data.drop n) := by
  rw [parseText,BitString.consumeHexString,consume_of_le h]
  rfl

theorem parseBits_of_le (h : (n : Int) ≤ data.size) :
    parseBits n data = (BitString.toHexString (data.take n),data.drop n) := parseText_of_le h

theorem addressText_toHexString {toString : BitVec numBits → String}
    (h : bits.length = numBits) : addressText toString bits.toHexString = toString (BitVec.ofNat numBits (bitsToNat bits)) := by
  rw [addressText,hexStringToBitset_toHexString h]

section Fields
variable [InetText]

/-- The text that parsing makes of the bits of a field. -/
def FieldFormat.print : FieldFormat → BitString → String
  | .bits _,data => data.toHexString
  | .mac,data => MacAddress.toString (BitVec.ofNat 48 (bitsToNat data))
  | .ipv4,data => Ipv4Address.toString (BitVec.ofNat 32 (bitsToNat data))
  | .ipv6,data => Ipv6Address.toString (BitVec.ofNat 128 (bitsToNat data))

private theorem parseField_of_le {format : FieldFormat} (h : (format.width : Int) ≤ data.size) :
    parseField format data = (format.print (data.take format.width),data.drop format.width) := by
  cases format with
  | bits n => exact parseBits_of_le h
  | mac => exact (parseText_of_le h).trans (congrArg (·,_) (addressText_toHexString (length_take_of_le h)))
  | ipv4 => exact (parseText_of_le h).trans (congrArg (·,_) (addressText_toHexString (length_take_of_le h)))
  | ipv6 => exact (parseText_of_le h).trans (congrArg (·,_) (addressText_toHexString (length_take_of_le h)))

omit [InetText] in
theorem toNat_ofNat_bits (h : bits.length = n) : natToBits n (BitVec.ofNat n (bitsToNat bits)).toNat = bits := by
  have hlt := bitsToNat_lt bits
  rw [h] at hlt
  rw [BitVec.toNat_ofNat,Nat.mod_eq_of_lt hlt,natToBits_of_length h]

theorem serializeField_print (hinet : InetText.Inverse) {format : FieldFormat}
    (h : bits.length = format.width) : serializeField format (format.print bits) = .ok bits := by
  cases format with
  | bits n =>
    have hlen : bits.length = n := h
    simp [serializeField,FieldFormat.print,hexStringToBitset_toHexString hlen,Except.map,natToBits_of_length hlen]
  | mac =>
    rw [serializeField,FieldFormat.print,MacAddress.ofString_toString]
    exact congrArg Except.ok (toNat_ofNat_bits h)
  | ipv4 =>
    rw [serializeField,FieldFormat.print,Ipv4Address.ofString_toString]
    exact congrArg Except.ok (toNat_ofNat_bits h)
  | ipv6 =>
    rw [serializeField,FieldFormat.print,Ipv6Address.ofString,Ipv6Address.toString,hinet]
    exact congrArg Except.ok (toNat_ofNat_bits h)

/-- The texts that parsing makes of the bits of fields. -/
def printFields : List FieldSpec → BitString → List String
  | [],_ => []
  | field :: fields,data =>
    field.format.print (data.take field.format.width) :: printFields fields (data.drop field.format.width)

private theorem length_printFields (fields : List FieldSpec) (data : BitString) : (printFields fields data).length = fields.length := by
  induction fields generalizing data with
  | nil => rfl
  | cons field fields ih => simp [printFields,ih]

omit [InetText] in
theorem totalWidth_cons (field : FieldSpec) (fields : List FieldSpec) :
    totalWidth (field :: fields) = field.format.width + totalWidth fields := rfl

private theorem parseFields_of_le {fields : List FieldSpec} {data : BitString} (h : (totalWidth fields : Int) ≤ data.size) :
    parseFields fields data = (printFields fields data,data.drop (totalWidth fields)) := by
  induction fields generalizing data with
  | nil => rfl
  | cons field fields ih =>
    rw [totalWidth_cons] at h ⊢
    have hfirst : (field.format.width : Int) ≤ data.size := by omega
    have hrest := @ih (data.drop field.format.width) (by rw [size_drop hfirst]; omega)
    simp only [parseFields,printFields,parseField_of_le hfirst,hrest,List.drop_drop]

private theorem serializeFields_printFields (hinet : InetText.Inverse) {fields : List FieldSpec}
    (h : totalWidth fields ≤ data.length) :
    serializeFields fields (printFields fields data) = .ok (data.take (totalWidth fields)) := by
  induction fields generalizing data with
  | nil => rfl
  | cons field fields ih =>
    rw [totalWidth_cons] at h ⊢
    have hfirst : (data.take field.format.width).length = field.format.width := by
      rw [List.length_take]
      omega
    have hrest := @ih (data.drop field.format.width) (by rw [List.length_drop]; omega)
    simp only [serializeFields,printFields,serializeField_print hinet hfirst,hrest,bind,Except.bind,← List.take_add]

theorem serializedField {fields : List FieldSpec} {texts : List String}
    (h : serializeFields fields texts = .ok bits) {i : Nat} {field : FieldSpec} (hfield : fields[i]? = some field)
    (htext : texts[i]? = some text) : ∃ b,serializeField field.format text = .ok b := by
  induction fields generalizing texts bits i with
  | nil => cases hfield
  | cons first fields ih =>
    cases texts with
    | nil => cases htext
    | cons firstText texts =>
      obtain ⟨b,hb,h⟩ := bind_eq_ok.mp h
      obtain ⟨rest,hrest,-⟩ := bind_eq_ok.mp h
      cases i with
      | zero =>
        cases hfield
        cases htext
        exact ⟨b,hb⟩
      | succ i => exact ih hrest hfield htext

theorem hexStringToInt_of_serialized (hbits : numBits ≤ 31)
    (h : ∃ b,serializeField (.bits numBits) text = .ok b) : ∃ v : Nat,hexStringToInt text = .ok v ∧ v < 2 ^ numBits := by
  obtain ⟨b,hb⟩ := h
  obtain ⟨v,hv,-⟩ := map_eq_ok.mp hb
  obtain ⟨-,-,-,-,hlt⟩ := hexStringToBitset_eq_ok.mp hv
  exact ⟨v,hexStringToInt_of_bitset hbits hv,hlt⟩

end Fields

section Headers
variable [InetText]

/-- The header that parsing makes of enough bits. -/
def HeaderLayout.print {H : Type} (layout : HeaderLayout H) (data : BitString) : H := layout.ofTexts (printFields layout.fields data)

theorem HeaderLayout.texts_print (layout : HeaderLayout H) (data : BitString) :
    layout.texts (layout.print data) = printFields layout.fields data :=
  layout.texts_ofTexts _ (length_printFields _ _)

theorem parseLayout_of_le {layout : HeaderLayout H} (h : (layout.bitwidth : Int) ≤ data.size) :
    parseLayout layout data = .ok (layout.print data,data.drop layout.bitwidth) := by
  have hparse := @parseFields_of_le _ layout.fields data (by rw [layout.width_fields]; exact h)
  rw [parseLayout,if_neg (by omega),hparse,layout.width_fields]
  rfl

theorem serializeLayout_print (hinet : InetText.Inverse) {layout : HeaderLayout H}
    (h : layout.bitwidth ≤ data.length) : serializeLayout layout (layout.print data) = .ok (data.take layout.bitwidth) := by
  rw [serializeLayout,layout.texts_print,serializeFields_printFields hinet (by rw [layout.width_fields]; exact h),
    layout.width_fields]

theorem parseLayout_eq_ok {layout : HeaderLayout H} {header : H}
    (h : parseLayout layout data = .ok (header,rest)) : (layout.bitwidth : Int) ≤ data.size ∧
      header = layout.print data ∧ rest = data.drop layout.bitwidth := by
  by_cases hsize : data.size < layout.bitwidth
  · rw [parseLayout,if_pos hsize] at h
    cases h
  · rw [parseLayout_of_le (by omega)] at h
    cases h
    exact ⟨by omega,rfl,rfl⟩

/-- A text of options stands for the first so many bits of the data. -/
structure OptionsFrom (options : String) (data : BitString) (n : Nat) : Prop where
  size : (n : Int) ≤ data.size
  serialized : serializeOptions options = .ok (data.take n)
  measured : ∀ headerName,optionsSize headerName options = .ok n
  aligned : n % 8 = 0

omit [InetText] in
theorem toHexString_not_empty (bits : BitString) : bits.toHexString.isEmpty = false := by
  have hne := (hexText_toHexString bits).ne_empty
  simpa using hne

omit [InetText] in
theorem serializeHexString_toHexString (hsize : (n : Int) ≤ data.size) (h8 : n % 8 = 0) :
    serializeHexString (BitString.toHexString (data.take n)) = .ok (data.take n) := by
  have hlen := length_take_of_le hsize
  rw [serializeHexString,hexStringToByteString_toHexString (by rw [hlen,h8])]
  exact congrArg Except.ok (bytesToBits_bitsToBytes (by rw [hlen,h8]))

omit [InetText] in
private theorem optionsFrom_toHexString (hsize : (n : Int) ≤ data.size) (h8 : n % 8 = 0) :
    OptionsFrom (BitString.toHexString (data.take n)) data n := by
  have hlen := length_take_of_le hsize
  have hbytes := hexStringToByteString_toHexString (show (data.take n).length % 8 = 0 by rw [hlen,h8])
  refine ⟨hsize,?_,fun headerName => ?_,h8⟩
  · rw [serializeOptions,if_neg (by simp [toHexString_not_empty]),serializeHexString_toHexString hsize h8]
  · rw [optionsSize,if_neg (by simp [toHexString_not_empty]),hbytes]
    exact congrArg Except.ok ((length_bitsToBytes (by rw [hlen,h8])).trans hlen)

omit [InetText] in
private theorem optionsFrom_empty (hsize : 0 ≤ data.size) : OptionsFrom "" data 0 :=
  ⟨hsize,rfl,fun _ => rfl,rfl⟩

omit [InetText] in
private theorem parseOptions_spec {headerLength : String} {words : Nat} (hwords : hexStringToInt headerLength = .ok words)
    (hsize : 0 ≤ data.size) (h8 : data.length % 8 = 0) :
    ∃ options n,parseOptions headerLength data = (options,data.drop n) ∧ OptionsFrom options data n := by
  unfold parseOptions
  simp only [hwords]
  split
  · rename_i hmany
    obtain ⟨n,hn⟩ : ∃ n : Nat,(if data.size < 32 * ((words : Int) - 5) then data.size else 32 * ((words : Int) - 5)) = n :=
      Int.eq_ofNat_of_zero_le (by split <;> omega)
    have hle : (n : Int) ≤ data.size := by
      rw [← hn]
      split <;> omega
    have haligned : n % 8 = 0 := by
      have hmod : data.size % 8 = data.length % 8 := int32_emod_eight _
      split at hn <;> omega
    rw [hn,parseBits_of_le hle]
    exact ⟨_,n,rfl,optionsFrom_toHexString hle haligned⟩
  · exact ⟨"",0,rfl,optionsFrom_empty hsize⟩

/-- What reading a header took from the data. -/
structure ReadFrom (header : Header) (data rest : BitString) (n : Nat) : Prop where
  size : (n : Int) ≤ data.size
  rest : rest = data.drop n
  serialized : serializeHeader header = .ok (data.take n)
  measured : headerSizeInBits header = .ok n
  pos : 0 < n
  aligned : n % 8 = 0

private theorem readFrom_layout (hinet : InetText.Inverse) {layout : HeaderLayout H} {header : H → Header}
    (hserialize : ∀ h,serializeHeader (header h) = serializeLayout layout h)
    (hsize : ∀ h,headerSizeInBits (header h) = .ok layout.bitwidth) (hpos : 0 < layout.bitwidth)
    (haligned : layout.bitwidth % 8 = 0) {parsed : Header}
    (h : asHeader header (parseLayout layout data) = .ok (parsed,rest)) : ReadFrom parsed data rest layout.bitwidth := by
  obtain ⟨⟨head,tail⟩,hparse,heq⟩ := map_eq_ok.mp h
  cases heq
  obtain ⟨hle,rfl,hrest⟩ := parseLayout_eq_ok hparse
  have hlength := size_le_length data
  exact ⟨hle,hrest,by rw [hserialize,serializeLayout_print hinet (by omega)],hsize _,hpos,haligned⟩

/-- A part of a fixed size and the options after it. -/
theorem readFrom_withOptions {layoutWidth : Nat} {header : Header} {headerName options : String}
    (hsize : (layoutWidth : Int) ≤ data.size) (hfrom : OptionsFrom options (data.drop layoutWidth) n)
    (hserialize : serializeHeader header = (serializeOptions options).map (data.take layoutWidth ++ ·))
    (hmeasure : headerSizeInBits header = (optionsSize headerName options).map (layoutWidth + ·))
    (hpos : 0 < layoutWidth) (haligned : layoutWidth % 8 = 0) :
    ReadFrom header data ((data.drop layoutWidth).drop n) (layoutWidth + n) := by
  have hrest := hfrom.size
  rw [size_drop hsize] at hrest
  have hoptions := hfrom.aligned
  refine ⟨by omega,List.drop_drop,?_,?_,by omega,by omega⟩
  · rw [hserialize,hfrom.serialized,List.take_add]
    rfl
  · rw [hmeasure,hfrom.measured]
    rfl

omit [InetText] in
theorem map_eq_bind {α β : Type} (x : StatusOr α) (f : α → β) : (x >>= fun a => .ok (f a)) = x.map f := by cases x <;> rfl

theorem parseOptions_after {layoutWidth : Nat} {headerLength : String}
    (hlength : ∃ b,serializeField (.bits 4) headerLength = .ok b) (hsize : (layoutWidth : Int) ≤ data.size)
    (haligned : layoutWidth % 8 = 0) (h8 : data.length % 8 = 0) :
    ∃ options n,parseOptions headerLength (data.drop layoutWidth) = (options,(data.drop layoutWidth).drop n) ∧
      OptionsFrom options (data.drop layoutWidth) n := by
  obtain ⟨words,hwords,-⟩ := hexStringToInt_of_serialized (by decide) hlength
  refine parseOptions_spec hwords ?_ ?_
  · rw [size_drop hsize]
    omega
  · rw [List.length_drop]
    have hle := size_le_length data
    omega

private theorem parseIpv4Header_spec (hinet : InetText.Inverse) (h8 : data.length % 8 = 0) {header : Ipv4Header}
    (h : parseIpv4Header data = .ok (header,rest)) : ∃ n,ReadFrom (.ipv4Header header) data rest n := by
  obtain ⟨⟨head,tail⟩,hparse,h⟩ := bind_eq_ok.mp h
  obtain ⟨hle,rfl,rfl⟩ := parseLayout_eq_ok hparse
  have hlength := size_le_length data
  have hbits := serializeLayout_print hinet (show Ipv4Header.layout.bitwidth ≤ data.length by omega)
  have hihl := serializedField hbits (show Ipv4Header.layout.fields[1]? = some ⟨"ihl",.bits 4⟩ from rfl) rfl
  obtain ⟨options,n,hoptions,hfrom⟩ := parseOptions_after hihl hle rfl h8
  simp only [hoptions] at h
  cases h
  refine ⟨_,readFrom_withOptions hle hfrom ?_ rfl (by decide) rfl⟩
  change (do let bits ← serializeLayout Ipv4Header.layout (Ipv4Header.layout.print data); _) = _
  rw [hbits]
  exact map_eq_bind _ _

private theorem parseTcpHeader_spec (hinet : InetText.Inverse) (h8 : data.length % 8 = 0) {header : TcpHeader}
    (h : parseTcpHeader data = .ok (header,rest)) : ∃ n,ReadFrom (.tcpHeader header) data rest n := by
  obtain ⟨⟨head,tail⟩,hparse,h⟩ := bind_eq_ok.mp h
  obtain ⟨hle,rfl,rfl⟩ := parseLayout_eq_ok hparse
  have hlength := size_le_length data
  have hbits := serializeLayout_print hinet (show TcpHeader.layout.bitwidth ≤ data.length by omega)
  have hoffset := serializedField hbits (show TcpHeader.layout.fields[4]? = some ⟨"data_offset",.bits 4⟩ from rfl) rfl
  obtain ⟨options,n,hoptions,hfrom⟩ := parseOptions_after hoffset hle rfl h8
  simp only [hoptions] at h
  cases h
  refine ⟨_,readFrom_withOptions hle hfrom ?_ rfl (by decide) rfl⟩
  change (do let bits ← serializeLayout TcpHeader.layout (TcpHeader.layout.print data); _) = _
  rw [hbits]
  exact map_eq_bind _ _

theorem checksumPresent_print (data : BitString) :
    (GreHeader.layout.print data).checksumPresent = BitString.toHexString (data.take 1) := rfl

omit [InetText] in
private theorem parseGreOptionalFields_of_le {header : GreHeader} (h : ((32 : Nat) : Int) ≤ data.size) :
    parseGreOptionalFields header data = ({ header with
      checksum := BitString.toHexString (data.take 16),reserved1 := BitString.toHexString ((data.drop 16).take 16) },
      (data.drop 16).drop 16) := by
  have hchecksum : ((16 : Nat) : Int) ≤ data.size := by omega
  have hdrop := size_drop hchecksum
  have hreserved : ((16 : Nat) : Int) ≤ BitString.size (data.drop 16) := by omega
  have hmin : min data.size 16 = (16 : Nat) := by omega
  have hmin' : min (BitString.size (data.drop 16)) 16 = (16 : Nat) := by omega
  rw [parseGreOptionalFields,hmin,parseBits_of_le hchecksum]
  dsimp only
  rw [hmin',parseBits_of_le hreserved]

/-- The header with its optional fields, if its first bit announces them. -/
def printGre (data : BitString) : GreHeader :=
  if BitString.toHexString (data.take 1) = "0x1" then
    { GreHeader.layout.print data with
      checksum := BitString.toHexString ((data.drop 32).take 16)
      reserved1 := BitString.toHexString (((data.drop 32).drop 16).take 16) }
  else GreHeader.layout.print data

def greWidth (data : BitString) : Nat := if BitString.toHexString (data.take 1) = "0x1" then 64 else 32

theorem parseGreHeader_of_le (h : (greWidth data : Int) ≤ data.size) :
    parseGreHeader data = .ok (printGre data,data.drop (greWidth data)) := by
  have hle : (GreHeader.layout.bitwidth : Int) ≤ data.size := by
    have hwidth : GreHeader.layout.bitwidth = 32 := rfl
    unfold greWidth at h
    split at h <;> omega
  have hpeek : data.peekHexString 1 = .ok (BitString.toHexString (data.take 1)) := by
    have hwidth : GreHeader.layout.bitwidth = 32 := rfl
    rw [BitString.peekHexString,if_neg (by decide),if_neg (by omega)]
    rfl
  unfold greWidth at h
  rw [parseGreHeader,if_neg (by omega),hpeek,parseLayout_of_le hle]
  simp only [bind,Except.bind]
  rw [printGre,greWidth]
  by_cases hone : BitString.toHexString (data.take 1) = "0x1"
  · rw [if_pos hone] at h
    have hrest : ((32 : Nat) : Int) ≤ BitString.size (data.drop GreHeader.layout.bitwidth) := by
      rw [size_drop hle]
      have hwidth : GreHeader.layout.bitwidth = 32 := rfl
      omega
    rw [if_pos hone,if_pos hone,if_pos hone,if_neg (by rw [show GreHeader.layout.bitwidth + 32 = 64 from rfl]; omega)]
    simp only [Except.map,parseGreOptionalFields_of_le hrest,List.drop_drop]
    rfl
  · rw [if_neg hone,if_neg hone,if_neg hone]
    rfl

private theorem parseGreHeader_eq_ok {header : GreHeader} (h : parseGreHeader data = .ok (header,rest)) :
    (greWidth data : Int) ≤ data.size ∧ header = printGre data ∧ rest = data.drop (greWidth data) := by
  by_cases hsize : (greWidth data : Int) ≤ data.size
  · rw [parseGreHeader_of_le hsize] at h
    cases h
    exact ⟨hsize,rfl,rfl⟩
  · exfalso
    have hwidth : GreHeader.layout.bitwidth = 32 := rfl
    unfold parseGreHeader at h
    by_cases hshort : data.size < GreHeader.layout.bitwidth
    · rw [if_pos hshort] at h
      cases h
    · have hpeek : data.peekHexString 1 = .ok (BitString.toHexString (data.take 1)) := by
        rw [BitString.peekHexString,if_neg (by decide),if_neg (by omega)]
        rfl
      unfold greWidth at hsize
      split at hsize
      · rename_i hone
        rw [if_neg hshort,hpeek] at h
        simp only [bind,Except.bind] at h
        rw [if_pos hone,if_pos (by rw [show GreHeader.layout.bitwidth + 32 = 64 from rfl]; omega)] at h
        cases h
      · omega

private theorem parseGreHeader_spec (hinet : InetText.Inverse) {header : GreHeader}
    (h : parseGreHeader data = .ok (header,rest)) : ∃ n,ReadFrom (.greHeader header) data rest n := by
  obtain ⟨hsize,rfl,rfl⟩ := parseGreHeader_eq_ok h
  have hlength := size_le_length data
  have hwidth : GreHeader.layout.bitwidth = 32 := rfl
  unfold greWidth at hsize
  unfold printGre greWidth
  by_cases hone : BitString.toHexString (data.take 1) = "0x1"
  · simp only [if_pos hone] at hsize ⊢
    have hhead : ((32 : Nat) : Int) ≤ data.size := by omega
    have hchecksum : ((16 : Nat) : Int) ≤ BitString.size (data.drop 32) := by
      rw [size_drop hhead]
      omega
    have hreserved : ((16 : Nat) : Int) ≤ BitString.size ((data.drop 32).drop 16) := by
      rw [size_drop hchecksum,size_drop hhead]
      omega
    have hbits := serializeLayout_print hinet (show GreHeader.layout.bitwidth ≤ data.length by omega)
    refine ⟨64,hsize,rfl,?_,?_,by decide,rfl⟩
    · change (do let bits ← serializeLayout GreHeader.layout (GreHeader.layout.print data); _) = _
      rw [hbits]
      simp only [bind,Except.bind,checksumPresent_print,hone,if_true,serializeHexString_toHexString hchecksum rfl,
        serializeHexString_toHexString hreserved rfl,hwidth,← List.take_add]
      rw [List.drop_drop,← List.take_add]
    · exact congrArg (fun n => Except.ok (GreHeader.layout.bitwidth + n)) (if_pos hone)
  · simp only [if_neg hone] at hsize ⊢
    refine ⟨32,hsize,rfl,?_,?_,by decide,rfl⟩
    · have hbits := serializeLayout_print hinet (show GreHeader.layout.bitwidth ≤ data.length by omega)
      change (do let bits ← serializeLayout GreHeader.layout (GreHeader.layout.print data); _) = _
      rw [hbits]
      simp only [bind,Except.bind,checksumPresent_print,hone,if_false,hwidth]
    · exact congrArg (fun n => Except.ok (GreHeader.layout.bitwidth + n)) (if_neg hone)

theorem parseHeader_spec (hinet : InetText.Inverse) {headerCase : HeaderCase} (h8 : data.length % 8 = 0)
    {header : Header} (h : parseHeader headerCase data = .ok (header,rest)) :
    header.headerCase = headerCase ∧ ∃ n,ReadFrom header data rest n := by
  cases headerCase with
  | headerNotSet => cases h
  | ipv4Header =>
    obtain ⟨⟨head,tail⟩,hparse,heq⟩ := map_eq_ok.mp h
    cases heq
    exact ⟨rfl,parseIpv4Header_spec hinet h8 hparse⟩
  | tcpHeader =>
    obtain ⟨⟨head,tail⟩,hparse,heq⟩ := map_eq_ok.mp h
    cases heq
    exact ⟨rfl,parseTcpHeader_spec hinet h8 hparse⟩
  | greHeader =>
    obtain ⟨⟨head,tail⟩,hparse,heq⟩ := map_eq_ok.mp h
    cases heq
    exact ⟨rfl,parseGreHeader_spec hinet hparse⟩
  | _ =>
    refine ⟨?_,_,readFrom_layout hinet (fun _ => rfl) (fun _ => rfl) (by decide) rfl h⟩
    obtain ⟨⟨head,tail⟩,-,heq⟩ := map_eq_ok.mp h
    cases heq
    rfl

end Headers

variable [InetText]

theorem exists_hexStringToInt {layout : HeaderLayout H} {header : H} {i : Nat}
    {name : String} (h : serializeLayout layout header = .ok bits) (hfield : layout.fields[i]? = some ⟨name,.bits numBits⟩)
    (htext : (layout.texts header)[i]? = some text) (hbits : numBits ≤ 31) : ∃ v : Nat,hexStringToInt text = .ok v :=
  (hexStringToInt_of_serialized hbits (serializedField h hfield htext)).imp fun _ hv => hv.1

omit [InetText] in
theorem getNextHeaderForEtherType_ok {ethertype : String} (h : ∃ v : Nat,hexStringToInt ethertype = .ok v) (headerName : String) :
    ∃ next,getNextHeaderForEtherType headerName ethertype = .ok next := by
  obtain ⟨v,hv⟩ := h
  unfold getNextHeaderForEtherType
  rw [hv]
  simp only [Except.mapError,bind,Except.bind]
  split_ifs <;> exact ⟨_,rfl⟩

omit [InetText] in
private theorem udpGetNextHeader_ok {header : UdpHeader} (h : ∃ v : Nat,hexStringToInt header.destinationPort = .ok v) :
    ∃ next,header.getNextHeader = .ok next := by
  obtain ⟨v,hv⟩ := h
  unfold UdpHeader.getNextHeader
  rw [hv]
  simp only [bind,Except.bind]
  split_ifs <;> exact ⟨_,rfl⟩

omit [InetText] in
private theorem pspGetNextHeader_ok {header : PspHeader} (h : ∃ v : Nat,hexStringToInt header.cryptOffset = .ok v) :
    ∃ next,header.getNextHeader = .ok next := by
  obtain ⟨v,hv⟩ := h
  unfold PspHeader.getNextHeader
  split
  · exact ⟨_,rfl⟩
  · rw [hv]
    simp only [bind,Except.bind]
    split_ifs <;> exact ⟨_,rfl⟩

theorem getNextHeader_of_serialized {header : Header} (h : serializeHeader header = .ok bits) :
    ∃ next,getNextHeader header = .ok next := by
  cases header with
  | ethernetHeader header =>
    exact getNextHeaderForEtherType_ok
      (exists_hexStringToInt h (show EthernetHeader.layout.fields[2]? = some ⟨"ethertype",.bits 16⟩ from rfl) rfl (by decide)) _
  | vlanHeader header =>
    exact getNextHeaderForEtherType_ok
      (exists_hexStringToInt h (show VlanHeader.layout.fields[3]? = some ⟨"ethertype",.bits 16⟩ from rfl) rfl (by decide)) _
  | csigHeader header =>
    exact getNextHeaderForEtherType_ok
      (exists_hexStringToInt h (show CsigHeader.layout.fields[4]? = some ⟨"ethertype",.bits 16⟩ from rfl) rfl (by decide)) _
  | greHeader header =>
    obtain ⟨fixed,hfixed,-⟩ := bind_eq_ok.mp h
    exact getNextHeaderForEtherType_ok
      (exists_hexStringToInt hfixed (show GreHeader.layout.fields[3]? = some ⟨"protocol_type",.bits 16⟩ from rfl) rfl
        (by decide)) _
  | udpHeader header =>
    exact udpGetNextHeader_ok
      (exists_hexStringToInt h (show UdpHeader.layout.fields[1]? = some ⟨"destination_port",.bits 16⟩ from rfl) rfl (by decide))
  | pspHeader header =>
    exact pspGetNextHeader_ok
      (exists_hexStringToInt h (show PspHeader.layout.fields[3]? = some ⟨"crypt_offset",.bits 6⟩ from rfl) rfl (by decide))
  | _ => exact ⟨_,rfl⟩

end SonicPins.Packetlib
