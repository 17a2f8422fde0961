import SonicPins.Packetlib.ComputedFields

/-! Validating and completing packets: which packets they crash on. -/
namespace SonicPins.Packetlib
open Lib Pdpi

variable {α : Type} {field : String} {header : Header} {n : Nat} {overwrite : Bool} {packet : Packet}

theorem textInvalidReasons_eq_nil {parse : String → StatusOr α} {text : String} :
    textInvalidReasons parse text field = [] ↔ text ≠ "" ∧ ∃ a,parse text = .ok a := by
  unfold textInvalidReasons
  by_cases hempty : text = ""
  · simp [hempty]
  · rw [if_neg (by simpa using hempty)]
    cases parse text <;> simp [hempty]

private theorem hexStringInvalid_of_int_error {numBits : Nat} (hbits : numBits ≤ 31) {hexString : String} {s : Status}
    (h : hexStringToInt hexString = .error s) : (hexStringInvalidReasons numBits hexString field).isEmpty = false := by
  rw [List.isEmpty_eq_false_iff]
  intro hnil
  obtain ⟨-,v,hv⟩ := textInvalidReasons_eq_nil.mp hnil
  cases (hexStringToInt_of_bitset hbits hv).symm.trans h

private theorem headerAt_eq_ok {i : Nat} : headerAt packet i = .ok header ↔ packet.headers[i]? = some header := by
  unfold headerAt
  rw [if_neg (by omega),Int.toNat_natCast]
  cases packet.headers[i]? <;> simp

theorem headerAt_of_lt {i : Nat} (h : i < packet.headers.length) : headerAt packet i = .ok packet.headers[i] :=
    headerAt_eq_ok.mpr (List.getElem?_eq_getElem h)

/-- An extension header first, with more headers after it. -/
def LeadingHopByHop (packet : Packet) : Prop :=
  (packet.headers.map Header.headerCase).head? = some .hopByHopOptionsHeader ∧ 2 ≤ packet.headers.length

theorem leadingHopByHop_iff (hlt : 0 < packet.headers.length) :
    LeadingHopByHop packet ↔ packet.headers[0].headerCase = .hopByHopOptionsHeader ∧ 2 ≤ packet.headers.length := by
  unfold LeadingHopByHop
  rw [List.head?_map,List.head?_eq_getElem?,List.getElem?_eq_getElem hlt]
  simp

theorem findPrecedingIpHeader_of_lt {i : Nat} (hleading : LeadingHopByHop packet → i ≠ 1) (hpos : 1 ≤ i)
    (hlt : i < packet.headers.length) :
    ∃ j : Nat,findPrecedingIpHeader packet i = .ok (j : Int) ∧ j < packet.headers.length := by
  have hprev : headerAt packet ((i : Int) - 1) = .ok packet.headers[i - 1] := by
    rw [show (i : Int) - 1 = ((i - 1 : Nat) : Int) by omega]
    exact headerAt_of_lt _
  unfold findPrecedingIpHeader
  simp only [if_pos (show (i : Int) - 1 ≥ 0 by omega),hprev,bind,Except.bind]
  by_cases hhop : packet.headers[i - 1].headerCase = .hopByHopOptionsHeader
  · have htwo : 2 ≤ i := by
      by_contra hone
      obtain rfl : i = 1 := by omega
      exact hleading ((leadingHopByHop_iff (by omega)).mpr ⟨hhop,hlt⟩) rfl
    exact ⟨i - 2,by rw [if_pos hhop]; congr 1; omega,by omega⟩
  · exact ⟨i - 1,by rw [if_neg hhop]; congr 1; omega,by omega⟩

theorem findPrecedingIpHeader_leading (hleading : LeadingHopByHop packet) : findPrecedingIpHeader packet 1 = .ok (-1) := by
  have hlt : 0 < packet.headers.length := by
    have htwo := hleading.2
    omega
  have hat : headerAt packet ((1 : Int) - 1) = .ok packet.headers[0] := headerAt_of_lt hlt
  unfold findPrecedingIpHeader
  simp only [hat,bind,Except.bind,if_pos ((leadingHopByHop_iff hlt).mp hleading).1]
  rfl

private theorem headerCases_setHeader {i : Nat} {old new : Header} (hold : packet.headers[i]? = some old)
    (hcase : new.headerCase = old.headerCase) :
    (setHeader packet i new).headers.map Header.headerCase = packet.headers.map Header.headerCase := by
  rw [setHeader,Int.toNat_natCast,List.map_set,hcase]
  refine List.ext_getElem? fun k => ?_
  rw [List.getElem?_set]
  split
  · subst k
    rw [List.getElem?_map,hold,Option.map_some,if_pos]
    rw [List.length_map]
    exact (List.getElem?_eq_some_iff.mp hold).1
  · rfl

theorem length_setHeader (packet : Packet) (i : Int) (new : Header) :
    (setHeader packet i new).headers.length = packet.headers.length := by simp [setHeader]

theorem leadingHopByHop_setHeader {i : Nat} {old new : Header} (hold : packet.headers[i]? = some old)
    (hcase : new.headerCase = old.headerCase) : LeadingHopByHop (setHeader packet i new) ↔ LeadingHopByHop packet := by
  rw [LeadingHopByHop,LeadingHopByHop,headerCases_setHeader hold hcase,length_setHeader]

section Checksums
variable [InetText]

theorem not_thrown_udpHeaderChecksum {i : Int} (hleading : LeadingHopByHop packet → i ≠ 1) :
    ¬ Thrown (udpHeaderChecksum packet i) := by
  unfold udpHeaderChecksum
  split
  · exact not_thrown_status _
  split
  · exact not_thrown_status _
  obtain ⟨n,rfl⟩ := Int.eq_ofNat_of_zero_le (show 0 ≤ i by omega)
  have hleading' : LeadingHopByHop packet → n ≠ 1 := fun h => by exact_mod_cast hleading h
  obtain ⟨j,hj,hjlt⟩ := findPrecedingIpHeader_of_lt hleading' (show 1 ≤ n by omega) (by omega)
  have hn : headerAt packet (n : Int) = .ok packet.headers[n] := headerAt_of_lt _
  simp only [hj,headerAt_of_lt hjlt,hn,bind,Except.bind]
  cases packet.headers[n] with
  | udpHeader udp => exact not_thrown_orFail _
  | _ => exact not_thrown_status _

theorem thrown_udpHeaderChecksum (hleading : LeadingHopByHop packet) : Thrown (udpHeaderChecksum packet 1) := by
  have htwo := hleading.2
  unfold udpHeaderChecksum
  rw [if_neg (by omega),if_neg (by omega),findPrecedingIpHeader_leading hleading]
  exact thrown_bind.mpr (.inr ⟨_,rfl,thrown_bind.mpr (.inl ⟨_,rfl⟩)⟩)

theorem not_thrown_icmpHeaderChecksum {i : Int} (hleading : LeadingHopByHop packet → i ≠ 1) :
    ¬ Thrown (icmpHeaderChecksum packet i) := by
  unfold icmpHeaderChecksum
  split
  · exact not_thrown_status _
  obtain ⟨n,rfl⟩ := Int.eq_ofNat_of_zero_le (show 0 ≤ i by omega)
  have hlt : n < packet.headers.length := by omega
  have hold := List.getElem?_eq_getElem hlt
  have hn : headerAt packet (n : Int) = .ok packet.headers[n] := headerAt_of_lt _
  simp only [hn,bind,Except.bind]
  cases hheader : packet.headers[n] with
  | icmpHeader icmp =>
    rw [hheader] at hold
    have hcase : (Header.icmpHeader { icmp with checksum := "0x0000" }).headerCase = (Header.icmpHeader icmp).headerCase := rfl
    have hset : LeadingHopByHop (setHeader packet n (.icmpHeader { icmp with checksum := "0x0000" })) → n ≠ 1 := fun h => by
      exact_mod_cast hleading ((leadingHopByHop_setHeader hold hcase).mp h)
    obtain ⟨j,hj,hjlt⟩ := findPrecedingIpHeader_of_lt hset (show 1 ≤ n by omega) (by rw [length_setHeader]; exact hlt)
    simp only [hj,headerAt_of_lt hjlt]
    exact not_thrown_orFail _
  | _ => exact not_thrown_status _

theorem not_thrown_greHeaderChecksum (packet : Packet) (n : Nat) : ¬ Thrown (greHeaderChecksum packet n) := by
  unfold greHeaderChecksum
  split
  · exact not_thrown_status _
  have hn : headerAt packet (n : Int) = .ok packet.headers[n] := headerAt_of_lt _
  simp only [hn,bind,Except.bind]
  cases packet.headers[n] with
  | greHeader gre => exact not_thrown_orFail _
  | _ => exact not_thrown_status _

end Checksums

section Validation

theorem thrown_catchStatus {r : Fallible α} : Thrown (catchStatus r) ↔ Thrown r := by
  rcases r with (s | what) | a
  · exact iff_of_false (not_thrown_ok _) (not_thrown_status s)
  · exact iff_of_true ⟨what,rfl⟩ ⟨what,rfl⟩
  · exact iff_of_false (not_thrown_ok _) (not_thrown_ok a)

variable [InetText]

/-- The ethertype of every Ethernet header whose payload has a size is a number. -/
def EthertypesReadable (packet : Packet) : Prop :=
  ∀ (i : Nat) header,packet.headers[i]? = some (.ethernetHeader header) →
    (∃ size,packetSizeInBytes packet (i + 1) = .ok size) → ∃ ethertype,hexStringToInt header.ethertype = .ok ethertype

theorem thrown_ethernetHeaderInvalidReasons {header : EthernetHeader} {fieldPrefix : String} {i : Int} :
    Thrown (ethernetHeaderInvalidReasons header fieldPrefix packet i) ↔
      (∃ size,packetSizeInBytes packet (i + 1) = .ok size) ∧ ¬ ∃ ethertype,hexStringToInt header.ethertype = .ok ethertype := by
  unfold ethernetHeaderInvalidReasons
  cases packetSizeInBytes packet (i + 1) with
  | error s => simp
  | ok size =>
    cases hint : hexStringToInt header.ethertype with
    | error s => simp [hexStringInvalid_of_int_error (by decide : 16 ≤ 31) hint]
    | ok ethertype =>
      simp only [Except.ok.injEq,exists_eq',not_true_eq_false,and_false,iff_false]
      split
      · exact not_thrown_ok _
      · split <;> exact not_thrown_ok _

private theorem not_thrown_udpHeaderInvalidReasons {i : Int} (hleading : LeadingHopByHop packet → i ≠ 1)
    (header : UdpHeader) (fieldPrefix : String) : ¬ Thrown (udpHeaderInvalidReasons header fieldPrefix packet i) := by
  have hchecksum := thrown_catchStatus.not.mpr (not_thrown_udpHeaderChecksum hleading)
  unfold udpHeaderInvalidReasons
  simp only
  split
  · refine not_thrown_bind hchecksum fun caught _ => ?_
    rcases caught with s | (- | expected)
    · exact not_thrown_ok _
    · exact not_thrown_ok _
    · dsimp only
      split <;> exact not_thrown_ok _
  · exact not_thrown_ok _

private theorem not_thrown_icmpHeaderInvalidReasons (hleading : LeadingHopByHop packet → n ≠ 1)
    (header : IcmpHeader) (fieldPrefix : String) (hlt : n < packet.headers.length) :
    ¬ Thrown (icmpHeaderInvalidReasons header fieldPrefix packet n) := by
  have hleading' : LeadingHopByHop packet → (n : Int) ≠ 1 := fun h => by exact_mod_cast hleading h
  have hchecksum := thrown_catchStatus.not.mpr (not_thrown_icmpHeaderChecksum hleading')
  unfold icmpHeaderInvalidReasons
  simp only
  split
  · exact not_thrown_ok _
  obtain ⟨j,hj,hjlt⟩ := findPrecedingIpHeader_of_lt hleading (show 1 ≤ n by omega) hlt
  simp only [hj,headerAt_of_lt hjlt,bind,Except.bind]
  split
  · exact not_thrown_ok _
  · split
    · exact not_thrown_bind hchecksum fun _ _ => not_thrown_ok _
    · exact not_thrown_ok _

private theorem not_thrown_greHeaderInvalidReasons (header : GreHeader) (fieldPrefix : String) (packet : Packet) (n : Nat) :
    ¬ Thrown (greHeaderInvalidReasons header fieldPrefix packet n) := by
  have hchecksum := thrown_catchStatus.not.mpr (not_thrown_greHeaderChecksum packet n)
  unfold greHeaderInvalidReasons
  simp only
  split
  · exact not_thrown_ok _
  · split
    · exact not_thrown_ok _
    · exact not_thrown_bind hchecksum fun _ _ => not_thrown_ok _

private theorem not_thrown_saiP4BMv2PacketInHeaderInvalidReasons (header : SaiP4BMv2PacketInHeader) (fieldPrefix : String) :
    ¬ Thrown (saiP4BMv2PacketInHeaderInvalidReasons header fieldPrefix) := by
  unfold saiP4BMv2PacketInHeaderInvalidReasons
  simp only
  split
  · rename_i hvalid
    obtain ⟨-,v,hv⟩ := textInvalidReasons_eq_nil.mp (List.isEmpty_iff.mp hvalid)
    rw [hexStringToInt_of_bitset (by decide) hv]
    dsimp only
    split <;> exact not_thrown_ok _
  · exact not_thrown_ok _

/-- An extension header first, and right after it a header whose check looks for an IP header. -/
def ExtensionBeforeChecksum (packet : Packet) : Prop :=
  LeadingHopByHop packet ∧ ∃ header,packet.headers[1]? = some header ∧
    (header.headerCase = .udpHeader ∨ header.headerCase = .icmpHeader)

private theorem not_thrown_headerInvalidReasons (hextension : ¬ ExtensionBeforeChecksum packet)
    (hethertypes : EthertypesReadable packet) (hheader : packet.headers[n]? = some header)
    (fieldPrefix : String) : ¬ Thrown (headerInvalidReasons header fieldPrefix packet n) := by
  have hlt := (List.getElem?_eq_some_iff.mp hheader).1
  have hfirst (hcase : header.headerCase = .udpHeader ∨ header.headerCase = .icmpHeader) : LeadingHopByHop packet → n ≠ 1 := by
    rintro hleading rfl
    exact hextension ⟨hleading,header,hheader,hcase⟩
  cases header with
  | ethernetHeader h =>
    exact thrown_ethernetHeaderInvalidReasons.not.mpr fun ⟨hsize,hno⟩ => hno (hethertypes n h hheader hsize)
  | udpHeader h =>
    exact not_thrown_udpHeaderInvalidReasons (fun hleading => by exact_mod_cast hfirst (.inl rfl) hleading) h fieldPrefix
  | icmpHeader h => exact not_thrown_icmpHeaderInvalidReasons (hfirst (.inr rfl)) h fieldPrefix hlt
  | greHeader h => exact not_thrown_greHeaderInvalidReasons h fieldPrefix packet n
  | saiP4Bmv2PacketInHeader h => exact not_thrown_saiP4BMv2PacketInHeaderInvalidReasons h fieldPrefix
  | _ => exact not_thrown_ok _

private theorem not_thrown_headersInvalidReasons {headers : List Header} {index : Nat} {expected : HeaderCase}
    (h : ∀ k header,headers[k]? = some header → ∀ fieldPrefix,
      ¬ Thrown (headerInvalidReasons header fieldPrefix packet (index + k : Nat))) :
    ¬ Thrown (headersInvalidReasons packet index expected headers) := by
  induction headers generalizing index expected with
  | nil => exact not_thrown_ok _
  | cons header headers ih =>
    have hrest : ∀ expected,¬ Thrown (headersInvalidReasons packet (index + 1) expected headers) := fun expected =>
      ih fun k header hk fieldPrefix => by
        rw [show index + 1 + k = index + (k + 1) by omega]
        exact h (k + 1) header hk fieldPrefix
    unfold headersInvalidReasons
    refine not_thrown_bind (h 0 header rfl _) fun own _ => ?_
    split
    · exact not_thrown_bind (hrest _) fun _ _ => not_thrown_ok _
    · exact not_thrown_bind (hrest _) fun _ _ => not_thrown_ok _

theorem not_thrown_packetInvalidReasons (hextension : ¬ ExtensionBeforeChecksum packet)
    (hethertypes : EthertypesReadable packet) : ¬ Thrown (packetInvalidReasons packet) := by
  unfold packetInvalidReasons
  split
  · exact not_thrown_ok _
  · refine not_thrown_bind (not_thrown_headersInvalidReasons fun k header hk fieldPrefix => ?_) fun _ _ => not_thrown_ok _
    rw [Nat.zero_add]
    exact not_thrown_headerInvalidReasons hextension hethertypes hk fieldPrefix

omit [InetText] in
theorem catchStatus_ne_status (r : Fallible α) (s : Status) : catchStatus r ≠ .error (.status s) := by
  rcases r with (s' | what) | a <;> simp [catchStatus]

omit [InetText] in
theorem headerAt_ne_status (packet : Packet) (i : Int) (s : Status) : headerAt packet i ≠ .error (.status s) := by
  unfold headerAt
  split
  · simp
  · split <;> simp

omit [InetText] in
private theorem findPrecedingIpHeader_ne_status (packet : Packet) (i : Int) (s : Status) :
    findPrecedingIpHeader packet i ≠ .error (.status s) := by
  unfold findPrecedingIpHeader
  dsimp only
  split
  · exact bind_ne_status (headerAt_ne_status _ _ _) fun _ => by simp
  · simp

theorem headerInvalidReasons_ne_status (header : Header) (fieldPrefix : String) (packet : Packet) (i : Int) (s : Status) :
    headerInvalidReasons header fieldPrefix packet i ≠ .error (.status s) := by
  cases header with
  | ethernetHeader h =>
    unfold headerInvalidReasons ethernetHeaderInvalidReasons
    dsimp only
    split
    · simp
    · split
      · split <;> simp
      · split
        · simp
        · split <;> simp
  | udpHeader h =>
    unfold headerInvalidReasons udpHeaderInvalidReasons
    dsimp only
    split
    · refine bind_ne_status (catchStatus_ne_status _ _) fun caught => ?_
      rcases caught with s' | (- | expected)
      · simp
      · simp
      · dsimp only
        split <;> simp
    · simp
  | icmpHeader h =>
    unfold headerInvalidReasons icmpHeaderInvalidReasons
    dsimp only
    split
    · simp
    · refine bind_ne_status (findPrecedingIpHeader_ne_status _ _ _) fun j => ?_
      refine bind_ne_status (headerAt_ne_status _ _ _) fun preceding => ?_
      split
      · simp
      · split
        · exact bind_ne_status (catchStatus_ne_status _ _) fun _ => by simp
        · simp
  | greHeader h =>
    unfold headerInvalidReasons greHeaderInvalidReasons
    dsimp only
    split
    · simp
    · split
      · simp
      · exact bind_ne_status (catchStatus_ne_status _ _) fun _ => by simp
  | saiP4Bmv2PacketInHeader h =>
    unfold headerInvalidReasons saiP4BMv2PacketInHeaderInvalidReasons
    dsimp only
    split
    · split
      · simp
      · split <;> simp
    · simp
  | _ => simp [headerInvalidReasons]

theorem thrown_headersInvalidReasons {headers : List Header} {index k : Nat} {expected : HeaderCase}
    (hk : headers[k]? = some header)
    (h : ∀ fieldPrefix,Thrown (headerInvalidReasons header fieldPrefix packet (index + k : Nat))) :
    Thrown (headersInvalidReasons packet index expected headers) := by
  induction headers generalizing index k expected with
  | nil => cases hk
  | cons first headers ih =>
    unfold headersInvalidReasons
    generalize "in " ++ headerCaseName first.headerCase ++ " headers[" ++ natText index ++ "]: " = errorPrefix
    rw [thrown_bind]
    cases k with
    | zero =>
      cases hk
      exact .inl (h errorPrefix)
    | succ k =>
      cases hown : headerInvalidReasons first errorPrefix packet index with
      | error e =>
        cases e with
        | status s => exact absurd hown (headerInvalidReasons_ne_status _ _ _ _ _)
        | thrown what => exact .inl ⟨what,rfl⟩
      | ok own =>
        have hrest : ∀ expected,Thrown (headersInvalidReasons packet (index + 1) expected headers) := fun expected =>
          ih hk fun fieldPrefix => by
            rw [show index + 1 + k = index + (k + 1) by omega]
            exact h fieldPrefix
        refine .inr ⟨own,rfl,?_⟩
        split
        · exact thrown_bind.mpr (.inl (hrest _))
        · exact thrown_bind.mpr (.inl (hrest _))

private theorem ethertypesReadable_of_not_thrown (h : ¬ Thrown (packetInvalidReasons packet)) : EthertypesReadable packet := by
  intro i header hheader hsize
  by_contra hno
  have hnonempty : packet.isEmpty = false := by
    have hne : packet.headers ≠ [] := by
      intro hnil
      rw [hnil] at hheader
      cases hheader
    simp [Packet.isEmpty,hne]
  refine h ?_
  unfold packetInvalidReasons
  rw [if_neg (by simp [hnonempty])]
  refine thrown_bind.mpr (.inl (thrown_headersInvalidReasons hheader fun fieldPrefix => ?_))
  rw [Nat.zero_add]
  exact thrown_ethernetHeaderInvalidReasons.mpr ⟨hsize,hno⟩

end Validation

section Updates

theorem not_thrown_computedText {compute : Fallible String} (h : ¬ Thrown compute) :
    ¬ Thrown (computedText overwrite compute field) := by
  unfold computedText
  split
  · exact h
  · exact not_thrown_ok _

theorem not_thrown_computedOr {numBits : Nat} {compute : Fallible Int}
    (h : ¬ Thrown compute) : ¬ Thrown (computedOr overwrite numBits compute field) :=
  not_thrown_computedText (thrown_map.not.mpr h)

theorem not_thrown_checksumOr {compute : Fallible Nat} (h : ¬ Thrown compute) :
    ¬ Thrown (checksumOr overwrite compute field) := not_thrown_computedText (thrown_map.not.mpr h)

theorem not_thrown_prepended (note : String) (result : StatusOr α) : ¬ Thrown (prepended note result) :=
  not_thrown_orFail _

variable [InetText]

omit [InetText] in
private theorem not_thrown_updateEthernetHeader (packet : Packet) (overwrite : Bool) (n : Nat) (header : EthernetHeader) :
    ¬ Thrown (updateEthernetHeader packet overwrite n header) := by
  unfold updateEthernetHeader
  refine not_thrown_bind ?_ fun ethertype _ => ?_
  · unfold ethertypeValue
    split
    · exact not_thrown_ok _
    · exact not_thrown_orFail _
  · split
    · split
      · exact not_thrown_status _
      · split
        · exact not_thrown_status _
        · exact not_thrown_ok _
    · exact not_thrown_ok _

private theorem not_thrown_updateIpv4Header (packet : Packet) (overwrite : Bool) (errorPrefix : String) (n : Nat) (header : Ipv4Header) :
    ¬ Thrown (updateIpv4Header packet overwrite errorPrefix n header) := by
  unfold updateIpv4Header
  refine not_thrown_bind (not_thrown_computedText ?_) fun ihl _ => ?_
  · unfold computedIhl
    split
    · exact not_thrown_ok _
    · split
      · split
        · exact not_thrown_ok _
        · exact not_thrown_status _
      · exact not_thrown_status _
  · refine not_thrown_bind (not_thrown_computedOr (not_thrown_prepended _ _)) fun totalLength _ => ?_
    exact not_thrown_bind (not_thrown_checksumOr (not_thrown_prepended _ _)) fun _ _ => not_thrown_ok _

private theorem not_thrown_updateUdpHeader (hleading : ¬ LeadingHopByHop packet) (overwrite : Bool)
    (errorPrefix : String) {header : UdpHeader} (hheader : packet.headers[n]? = some (.udpHeader header)) :
    ¬ Thrown (updateUdpHeader packet overwrite errorPrefix n header) := by
  unfold updateUdpHeader
  refine not_thrown_bind (not_thrown_computedOr (not_thrown_prepended _ _)) fun length _ => ?_
  dsimp only
  split
  · have hset := (leadingHopByHop_setHeader hheader
      (show (Header.udpHeader { header with length }).headerCase = _ from rfl)).not.mpr hleading
    refine not_thrown_bind (thrown_catchStatus.not.mpr (not_thrown_udpHeaderChecksum fun h => absurd h hset)) fun caught _ => ?_
    rcases caught with s | (- | checksum)
    · exact not_thrown_status _
    · exact not_thrown_ok _
    · exact not_thrown_ok _
  · exact not_thrown_ok _

omit [InetText] in
private theorem not_thrown_updateTcpHeader (packet : Packet) (overwrite : Bool) (errorPrefix : String) (n : Nat) (header : TcpHeader) :
    ¬ Thrown (updateTcpHeader packet overwrite errorPrefix n header) := by
  unfold updateTcpHeader
  split
  · refine not_thrown_bind (not_thrown_prepended _ _) fun size _ => ?_
    refine not_thrown_bind (not_thrown_prepended _ _) fun payloadSize _ => ?_
    dsimp only
    split
    · exact not_thrown_status _
    · split
      · exact not_thrown_status _
      · exact not_thrown_ok _
  · exact not_thrown_ok _

private theorem not_thrown_updateGreHeader (packet : Packet) (overwrite : Bool) (n : Nat) (header : GreHeader) :
    ¬ Thrown (updateGreHeader packet overwrite n header) := by
  unfold updateGreHeader
  split
  · exact not_thrown_bind (not_thrown_checksumOr (not_thrown_greHeaderChecksum packet n)) fun _ _ => not_thrown_ok _
  · exact not_thrown_ok _

omit [InetText] in
private theorem not_thrown_updatePsampHeader (packet : Packet) (overwrite : Bool) (errorPrefix : String) (n : Nat)
    (header : PsampHeader) : ¬ Thrown (updatePsampHeader packet overwrite errorPrefix n header) := by
  unfold updatePsampHeader
  refine not_thrown_bind (not_thrown_computedOr (not_thrown_prepended _ _)) fun length _ => ?_
  exact not_thrown_bind (not_thrown_computedOr (not_thrown_prepended _ _)) fun _ _ => not_thrown_ok _

private theorem not_thrown_updateHeader (hleading : ¬ LeadingHopByHop packet) (overwrite : Bool)
    (hheader : packet.headers[n]? = some header) : ¬ Thrown (updateHeader packet overwrite n header) := by
  unfold updateHeader
  cases header with
  | ethernetHeader h =>
    rw [thrown_map]
    exact not_thrown_updateEthernetHeader packet overwrite n h
  | ipv4Header h =>
    rw [thrown_map]
    exact not_thrown_updateIpv4Header packet overwrite _ n h
  | ipv6Header h =>
    rw [thrown_map]
    exact not_thrown_bind (not_thrown_computedOr (not_thrown_prepended _ _)) fun _ _ => not_thrown_ok _
  | udpHeader h =>
    rw [thrown_map]
    exact not_thrown_updateUdpHeader hleading overwrite _ hheader
  | icmpHeader h =>
    rw [thrown_map]
    exact not_thrown_bind (not_thrown_checksumOr (not_thrown_icmpHeaderChecksum fun h => absurd h hleading)) fun _ _ => not_thrown_ok _
  | tcpHeader h =>
    rw [thrown_map]
    exact not_thrown_updateTcpHeader packet overwrite _ n h
  | greHeader h =>
    rw [thrown_map]
    exact not_thrown_updateGreHeader packet overwrite n h
  | ipfixHeader h =>
    rw [thrown_map]
    exact not_thrown_bind (not_thrown_computedOr (not_thrown_prepended _ _)) fun _ _ => not_thrown_ok _
  | psampHeader h =>
    rw [thrown_map]
    exact not_thrown_updatePsampHeader packet overwrite _ n h
  | ptpHeader h =>
    rw [thrown_map]
    exact not_thrown_bind (not_thrown_computedOr (not_thrown_prepended _ _)) fun _ _ => not_thrown_ok _
  | headerNotSet => exact not_thrown_status _
  | _ => exact not_thrown_ok _

private theorem headerCase_updateHeader {new : Header} {changed : Bool}
    (h : updateHeader packet overwrite n header = .ok (new,changed)) : new.headerCase = header.headerCase := by
  unfold updateHeader at h
  cases header with
  | headerNotSet => cases h
  | hopByHopOptionsHeader _ => cases h; rfl
  | arpHeader _ => cases h; rfl
  | saiP4Bmv2PacketInHeader _ => cases h; rfl
  | vlanHeader _ => cases h; rfl
  | csigHeader _ => cases h; rfl
  | pspHeader _ => cases h; rfl
  | _ =>
    obtain ⟨_,-,hnew⟩ := map_eq_ok.mp h
    cases hnew
    rfl

private theorem not_thrown_updateHeaders (hleading : ¬ LeadingHopByHop packet) (overwrite changes : Bool)
    (hn : n ≤ packet.headers.length) : ¬ Thrown (updateHeaders overwrite n packet changes) := by
  induction n generalizing packet changes with
  | zero => exact not_thrown_ok _
  | succ n ih =>
    have hat : headerAt packet (n : Int) = .ok packet.headers[n] := headerAt_of_lt (by omega)
    have hheader := List.getElem?_eq_getElem (show n < packet.headers.length by omega)
    simp only [updateHeaders,hat,bind,Except.bind]
    refine not_thrown_bind (not_thrown_updateHeader hleading overwrite hheader) ?_
    rintro ⟨new,changed⟩ hupdate
    have hset := (leadingHopByHop_setHeader hheader (headerCase_updateHeader hupdate)).not.mpr hleading
    exact ih hset _ (by rw [length_setHeader]; omega)

theorem not_thrown_updateComputedFields (hleading : ¬ LeadingHopByHop packet) (overwrite : Bool) :
    ¬ Thrown (updateComputedFields packet overwrite) := not_thrown_updateHeaders hleading overwrite false le_rfl

end Updates

section Main
variable [InetText]

/-- Validation, completion and both checksums, at any index, end with a result or a status. -/
structure NeverCrashes (packet : Packet) : Prop where
  invalidReasons : ¬ Thrown (packetInvalidReasons packet)
  missingFields : ¬ Thrown (updateMissingComputedFields packet)
  allFields : ¬ Thrown (updateAllComputedFields packet)
  udpChecksum : ∀ i,¬ Thrown (udpHeaderChecksum packet i)
  icmpChecksum : ∀ i,¬ Thrown (icmpHeaderChecksum packet i)

/-- A packet crashes none of these functions exactly if it does not start with an extension
header that others follow, and its ethertypes are numbers where payload sizes are known. -/
theorem neverCrashes_iff (packet : Packet) :
    NeverCrashes packet ↔ ¬ LeadingHopByHop packet ∧ EthertypesReadable packet := by
  constructor
  · intro h
    exact ⟨fun hleading => h.udpChecksum 1 (thrown_udpHeaderChecksum hleading),
      ethertypesReadable_of_not_thrown h.invalidReasons⟩
  · rintro ⟨hleading,hethertypes⟩
    exact {
      invalidReasons := not_thrown_packetInvalidReasons (fun h => hleading h.1) hethertypes
      missingFields := not_thrown_updateComputedFields hleading false
      allFields := not_thrown_updateComputedFields hleading true
      udpChecksum := fun i => not_thrown_udpHeaderChecksum fun h => absurd h hleading
      icmpChecksum := fun i => not_thrown_icmpHeaderChecksum fun h => absurd h hleading }

end Main

attribute [local instance] uncompressedInet

/-- A packet without an ethertype. -/
theorem missing_ethertype_crashes : ¬ NeverCrashes { headers := [.ethernetHeader {}] } := by
  intro h
  exact h.invalidReasons ⟨"StatusOr: no value",by decide +kernel⟩

end SonicPins.Packetlib
