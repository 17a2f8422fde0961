import SonicPins.Dvaas.TestRunValidation

/-! When comparing sorted outputs finds the pairing of packets and packet-ins that makes an
output acceptable: sorting looks at whole messages, also at what the comparison ignores. -/
namespace SonicPins.Dvaas
open Lib Pdpi

variable {what : String} {α κ : Type} {m : IrPacketMetadata} {p : PacketIn Parsed}

section Meaning
variable {Parsed FieldDescriptor : Type} (msgs : PacketMessages Parsed FieldDescriptor)
  (params : SwitchOutputDiffParams FieldDescriptor)

/-! ### What is acceptable -/

/-- Equal up to the reasons for invalidity and the ignored fields. -/
def SameParsed (p q : Option Parsed) : Prop :=
  msgs.compare (msgs.reasonsInvalid :: params.ignoredPacketlibFields) (p.getD msgs.defaultInstance)
    (q.getD msgs.defaultInstance)

def SamePacket (p q : Packet Parsed) : Prop := p.port = q.port ∧ SameParsed msgs params p.parsed q.parsed

/-- The map from metadata names to values, without the ignored names. -/
def metadataValue (p : PacketIn Parsed) (name : String) : Option IrValue :=
  if name ∈ params.ignoredPacketInMetadata then none
  else (getPacketInMetadataByName p name).map (·.getValue)

def SamePacketIn (p q : PacketIn Parsed) : Prop :=
  SameParsed msgs params p.parsed q.parsed ∧ metadataValue params p = metadataValue params q

/-- The packets, and unless they are to be ignored the packet-ins, can be paired off. -/
structure OutputMatches (actual expected : SwitchOutput Parsed) : Prop where
  packets : Paired (SamePacket msgs params) actual.packets expected.packets
  packetIns : params.treatExpectedAndActualOutputsAsHavingNoPacketIns = false →
    Paired (SamePacketIn msgs params) actual.packetIns expected.packetIns

/-- The comparison accepts exactly the outputs that match an acceptable one. -/
def ExactComparison (orders : MessageOrders Parsed) (acceptable : List (SwitchOutput Parsed))
    (actual : SwitchOutput Parsed) : Prop :=
  compareSwitchOutputs msgs params orders acceptable actual = none ↔
    ∃ expected ∈ acceptable,OutputMatches msgs params actual expected

/-- Metadata as a packet-in has it: every field is named, and once only. -/
structure PacketIn.WellFormed (p : PacketIn Parsed) : Prop where
  distinct : (p.metadata.map (·.name)).Nodup
  named : "" ∉ p.metadata.map (·.name)

def PacketIn.emptied (p : PacketIn Parsed) : PacketIn Parsed :=
  { p with
    metadata := p.metadata.map fun metadata => if metadata.name ∈ params.ignoredPacketInMetadata then {} else metadata }

/-- Two lists that hold the same messages, or whose messages are all the same up to what is
ignored: every order of the messages aligns them. -/
def Alignable {α : Type} (Same : α → α → Prop) (as bs : List α) : Prop :=
  as.Perm bs ∨ ∀ a ∈ as ++ bs,∀ b ∈ as ++ bs,Same a b

/-- Sorting aligns two outputs; the packet-ins still have their emptied metadata, under the
empty name. -/
structure Aligned (actual expected : SwitchOutput Parsed) : Prop where
  packets : Alignable (SamePacket msgs params) actual.packets expected.packets
  packetIns : params.treatExpectedAndActualOutputsAsHavingNoPacketIns = false →
    Alignable (SamePacketIn msgs params) (actual.packetIns.map (·.emptied params)) (expected.packetIns.map (·.emptied params))

end Meaning

section Code
variable {Parsed FieldDescriptor : Type} {msgs : PacketMessages Parsed FieldDescriptor}
  {params : SwitchOutputDiffParams FieldDescriptor}

/-! ### What the code compares -/

theorem compareParsed_ok {actual expected : Parsed} :
    compareParsed msgs params what actual expected = .ok () ↔ msgs.compare (ignoredFields msgs params) expected actual := by
  unfold compareParsed
  split <;> simp_all

theorem compareEach_ok {compareAt : Nat → α → α → Except String Unit} {R : α → α → Prop}
    {actuals expecteds : List α} (hR : ∀ i a,∀ e ∈ expecteds,compareAt i a e = .ok () ↔ R a e)
    (hlen : actuals.length = expecteds.length) (i : Nat) :
    compareEach compareAt i actuals expecteds = .ok () ↔ List.Forall₂ R actuals expecteds := by
  induction actuals generalizing expecteds i with
  | nil =>
    obtain rfl := List.length_eq_zero_iff.mp hlen.symm
    simp [compareEach]
  | cons a actuals ih =>
    cases expecteds with
    | nil => simp at hlen
    | cons e expecteds =>
      have hrest := ih (fun i a e he => hR i a e (List.mem_cons_of_mem _ he)) (by simpa using hlen) (i + 1)
      rw [compareEach,then_eq_ok,List.forall₂_cons,← hR i a e List.mem_cons_self,← hrest]

private theorem checkExpectedMetadata_ok {actual : PacketIn Parsed} {metadata : List IrPacketMetadata} :
    checkExpectedMetadata msgs params what actual metadata = .ok () ↔
      ∀ m ∈ metadata,m.name ∉ params.ignoredPacketInMetadata →
        ∃ a,getPacketInMetadataByName actual m.name = some a ∧ m.getValue = a.getValue := by
  induction metadata with
  | nil => simp [checkExpectedMetadata]
  | cons m metadata ih =>
    unfold checkExpectedMetadata
    rw [List.forall_mem_cons,← ih]
    by_cases hignored : m.name ∈ params.ignoredPacketInMetadata
    · simp [hignored]
    · rw [if_neg hignored]
      cases hget : getPacketInMetadataByName actual m.name with
      | none => simp [hignored]
      | some a =>
        by_cases hvalue : m.getValue = a.getValue
        · simp [hignored,hvalue]
        · simp [hignored,hvalue]

private theorem checkAdditionalMetadata_ok {expected : PacketIn Parsed} {metadata : List IrPacketMetadata} :
    checkAdditionalMetadata params what expected metadata = .ok () ↔
      ∀ m ∈ metadata,m.name ∉ params.ignoredPacketInMetadata →
        (getPacketInMetadataByName expected m.name).isSome := by
  induction metadata with
  | nil => simp [checkAdditionalMetadata]
  | cons m metadata ih =>
    unfold checkAdditionalMetadata
    rw [List.forall_mem_cons,← ih]
    by_cases hignored : m.name ∈ params.ignoredPacketInMetadata
    · simp [hignored]
    · rw [if_neg hignored]
      cases hget : getPacketInMetadataByName expected m.name <;> simp [hignored]

section NoPayloadCheck
variable (hpayload : params.manualPayloadCheck = none)
include hpayload

private theorem comparePacket_ok (i : Nat) (actual expected : Packet Parsed) :
    comparePacket msgs params i actual expected = .ok () ↔ SamePacket msgs params expected actual := by
  have hfields : ignoredFields msgs params = msgs.reasonsInvalid :: params.ignoredPacketlibFields := by
    simp [ignoredFields,hpayload]
  unfold comparePacket
  rw [then_eq_ok,compareParsed_ok,hfields,SamePacket,SameParsed]
  by_cases hport : expected.port = actual.port <;> simp [hport,checkPayload,hpayload,bind,Except.bind]

private theorem comparePacketIn_ok (i : Nat) (actual expected : PacketIn Parsed) :
    comparePacketIn msgs params i actual expected = .ok () ↔ SameParsed msgs params expected.parsed actual.parsed ∧
      (∀ m ∈ expected.metadata,m.name ∉ params.ignoredPacketInMetadata →
        ∃ a,getPacketInMetadataByName actual m.name = some a ∧ m.getValue = a.getValue) ∧
      ∀ m ∈ actual.metadata,m.name ∉ params.ignoredPacketInMetadata →
        (getPacketInMetadataByName expected m.name).isSome := by
  have hfields : ignoredFields msgs params = msgs.reasonsInvalid :: params.ignoredPacketlibFields := by
    simp [ignoredFields,hpayload]
  unfold comparePacketIn
  simp only [then_eq_ok,compareParsed_ok,hfields,checkPayload,hpayload,SameParsed,checkExpectedMetadata_ok,
    checkAdditionalMetadata_ok,true_and]

end NoPayloadCheck

/-! ### Keys -/

theorem sameParsed_iff {p q : Option Parsed} :
    SameParsed msgs params p q ↔
      msgs.compare (msgs.reasonsInvalid :: params.ignoredPacketlibFields) (p.getD msgs.defaultInstance) =
        msgs.compare (msgs.reasonsInvalid :: params.ignoredPacketlibFields) (q.getD msgs.defaultInstance) := by
  obtain ⟨hrefl,hsymm,htrans⟩ := msgs.compare_equivalence (msgs.reasonsInvalid :: params.ignoredPacketlibFields)
  constructor
  · intro h
    funext r
    exact Bool.eq_iff_iff.mpr ⟨htrans (hsymm h),htrans h⟩
  · intro h
    rw [SameParsed,h]
    exact hrefl _

/-- What the comparison sees of a packet. -/
def packetKey (msgs : PacketMessages Parsed FieldDescriptor) (params : SwitchOutputDiffParams FieldDescriptor)
    (p : Packet Parsed) : String × (Parsed → Bool) :=
  (p.port,msgs.compare (msgs.reasonsInvalid :: params.ignoredPacketlibFields) (p.parsed.getD msgs.defaultInstance))

/-- What the comparison sees of a packet-in. -/
def packetInKey (msgs : PacketMessages Parsed FieldDescriptor) (params : SwitchOutputDiffParams FieldDescriptor)
    (p : PacketIn Parsed) : (Parsed → Bool) × (String → Option IrValue) :=
  (msgs.compare (msgs.reasonsInvalid :: params.ignoredPacketlibFields) (p.parsed.getD msgs.defaultInstance),
    metadataValue params p)

theorem samePacket_iff {p q : Packet Parsed} : SamePacket msgs params p q ↔ packetKey msgs params p = packetKey msgs params q := by
  rw [SamePacket,sameParsed_iff,packetKey,packetKey,Prod.mk.injEq]

theorem samePacketIn_iff {p q : PacketIn Parsed} :
    SamePacketIn msgs params p q ↔ packetInKey msgs params p = packetInKey msgs params q := by
  rw [SamePacketIn,sameParsed_iff,packetInKey,packetInKey,Prod.mk.injEq]

/-- A packet-in whose metadata are a map. -/
def PacketIn.Functional (p : PacketIn Parsed) : Prop :=
  ∀ m ∈ p.metadata,∀ m' ∈ p.metadata,m.name = m'.name → m.getValue = m'.getValue

theorem getPacketInMetadataByName_mem {name : String}
    (h : getPacketInMetadataByName p name = some m) : m ∈ p.metadata ∧ m.name = name :=
  ⟨List.mem_of_find?_eq_some h,by simpa using List.find?_some h⟩

theorem getPacketInMetadataByName_isSome (hm : m ∈ p.metadata) : ∃ m',getPacketInMetadataByName p m.name = some m' := by
  apply Option.isSome_iff_exists.mp
  exact List.find?_isSome.mpr ⟨m,hm,by simp⟩

private theorem metadataValue_of_mem (h : p.Functional) (hm : m ∈ p.metadata)
    (hname : m.name ∉ params.ignoredPacketInMetadata) : metadataValue params p m.name = some m.getValue := by
  obtain ⟨m',hget⟩ := getPacketInMetadataByName_isSome hm
  obtain ⟨hmem,heq⟩ := getPacketInMetadataByName_mem hget
  rw [metadataValue,if_neg hname,hget,Option.map_some,h m' hmem m hm heq]

private theorem metadata_checks_iff {actual expected : PacketIn Parsed} (h : expected.Functional) :
    ((∀ m ∈ expected.metadata,m.name ∉ params.ignoredPacketInMetadata →
        ∃ a,getPacketInMetadataByName actual m.name = some a ∧ m.getValue = a.getValue) ∧
      ∀ m ∈ actual.metadata,m.name ∉ params.ignoredPacketInMetadata →
        (getPacketInMetadataByName expected m.name).isSome) ↔
      metadataValue params expected = metadataValue params actual := by
  constructor
  · rintro ⟨hexpected,hactual⟩
    funext name
    unfold metadataValue
    by_cases hignored : name ∈ params.ignoredPacketInMetadata
    · rw [if_pos hignored,if_pos hignored]
    · rw [if_neg hignored,if_neg hignored]
      cases hget : getPacketInMetadataByName expected name with
      | some m =>
        obtain ⟨hmem,rfl⟩ := getPacketInMetadataByName_mem hget
        obtain ⟨a,ha,hvalue⟩ := hexpected m hmem hignored
        simp [ha,hvalue]
      | none =>
        cases hget' : getPacketInMetadataByName actual name with
        | none => rfl
        | some a =>
          obtain ⟨hmem,rfl⟩ := getPacketInMetadataByName_mem hget'
          have hsome := hactual a hmem hignored
          simp [hget] at hsome
  · intro heq
    refine ⟨fun m hm hname => ?_,fun m hm hname => ?_⟩
    · have hvalue := metadataValue_of_mem h hm hname
      rw [heq,metadataValue,if_neg hname] at hvalue
      obtain ⟨a,ha,hva⟩ := Option.map_eq_some_iff.mp hvalue
      exact ⟨a,ha,hva.symm⟩
    · obtain ⟨m',hget⟩ := getPacketInMetadataByName_isSome hm
      have hvalue := congrFun heq m.name
      unfold metadataValue at hvalue
      rw [if_neg hname,if_neg hname,hget,Option.map_some] at hvalue
      obtain ⟨a,ha,-⟩ := Option.map_eq_some_iff.mp hvalue
      simp [ha]

/-! ### Emptied metadata -/

private theorem remove_eq_emptied (packetIns : List (PacketIn Parsed)) :
    params.ignoredPacketInMetadata.foldl (fun packetIns field => removeIgnoredMetadataFromPacketIns field packetIns) packetIns =
      packetIns.map (·.emptied params) := by
  unfold PacketIn.emptied
  induction params.ignoredPacketInMetadata generalizing packetIns with
  | nil => simp
  | cons field fields ih =>
    rw [List.foldl_cons,ih,removeIgnoredMetadataFromPacketIns,List.map_map]
    refine List.map_congr_left fun p _ => ?_
    simp only [Function.comp_apply,List.map_map,PacketIn.mk.injEq,and_true]
    refine List.map_congr_left fun m _ => ?_
    simp only [Function.comp_apply,List.mem_cons]
    by_cases hfield : m.name = field <;> simp [hfield]

private theorem emptied_functional (h : p.WellFormed) : (p.emptied params).Functional := by
  intro m hm m' hm' hname
  obtain ⟨n,hn,rfl⟩ := List.mem_map.mp hm
  obtain ⟨n',hn',rfl⟩ := List.mem_map.mp hm'
  have hne : ∀ n ∈ p.metadata,n.name ≠ "" := fun n hn heq => h.named (heq ▸ List.mem_map_of_mem hn)
  split_ifs at hname ⊢ with h1 h2
  · rfl
  · exact absurd hname.symm (hne n' hn')
  · exact absurd hname (hne n hn)
  · rw [List.inj_on_of_nodup_map h.distinct hn hn' hname]

theorem metadataValue_emptied (p : PacketIn Parsed) {name : String} (hne : name ≠ "") :
    metadataValue params (p.emptied params) name = metadataValue params p name := by
  unfold metadataValue
  by_cases hignored : name ∈ params.ignoredPacketInMetadata
  · rw [if_pos hignored,if_pos hignored]
  · rw [if_neg hignored,if_neg hignored]
    congr 1
    unfold getPacketInMetadataByName PacketIn.emptied
    simp only
    induction p.metadata with
    | nil => rfl
    | cons m metadata ih =>
      rw [List.map_cons,List.find?_cons,List.find?_cons,ih]
      by_cases hm : m.name ∈ params.ignoredPacketInMetadata
      · have hother : m.name ≠ name := fun heq => hignored (heq ▸ hm)
        simp [hm,hother,Ne.symm hne]
      · simp [hm]

theorem metadataValue_empty (h : p.WellFormed) : metadataValue params p "" = none := by
  unfold metadataValue
  split
  · rfl
  · cases hget : getPacketInMetadataByName p "" with
    | none => rfl
    | some m =>
      obtain ⟨hm,hname⟩ := getPacketInMetadataByName_mem hget
      exact absurd (List.mem_map.mpr ⟨m,hm,hname⟩) h.named

private theorem samePacketIn_of_emptied {p q : PacketIn Parsed} (hp : p.WellFormed) (hq : q.WellFormed)
    (h : SamePacketIn msgs params (p.emptied params) (q.emptied params)) : SamePacketIn msgs params p q := by
  refine ⟨h.1,funext fun name => ?_⟩
  by_cases hne : name = ""
  · rw [hne,metadataValue_empty hp,metadataValue_empty hq]
  · rw [← metadataValue_emptied p hne,h.2,metadataValue_emptied q hne]

/-! ### The comparison of two outputs -/

/-- What sorting and comparing position by position finds out about two lists. -/
def SortedMatch {α : Type} (o : TotalOrder α) (Same : α → α → Prop) (as bs : List α) : Prop :=
  as.length = bs.length ∧ List.Forall₂ (fun a b => Same b a) (o.sort as) (o.sort bs)

theorem sortedMatch_iff {o : TotalOrder α} {Same : α → α → Prop} {key : α → κ}
    (hkey : ∀ a b,Same a b ↔ key a = key b) {as bs : List α} :
    SortedMatch o Same as bs ↔ (o.sort as).map key = (o.sort bs).map key := by
  have hforall : List.Forall₂ (fun a b => Same b a) (o.sort as) (o.sort bs) ↔ (o.sort as).map key = (o.sort bs).map key := by
    rw [← forall₂_eq_map]
    exact ⟨fun h => h.imp fun _ _ h => ((hkey _ _).mp h).symm,fun h => h.imp fun _ _ h => (hkey _ _).mpr h.symm⟩
  rw [SortedMatch,hforall]
  refine ⟨fun h => h.2,fun h => ⟨?_,h⟩⟩
  simpa using (o.keys_perm_of_sorted h).length_eq

theorem compareSwitchOutput_ok (hpayload : params.manualPayloadCheck = none) (orders : MessageOrders Parsed)
    {actual expected : SwitchOutput Parsed} (hexpected : ∀ p ∈ expected.packetIns,p.WellFormed) :
    compareSwitchOutput msgs params orders actual expected = .ok () ↔
      SortedMatch orders.packets (SamePacket msgs params) actual.packets expected.packets ∧
        (params.treatExpectedAndActualOutputsAsHavingNoPacketIns = false →
          SortedMatch orders.packetIns (SamePacketIn msgs params) (actual.packetIns.map (·.emptied params))
            (expected.packetIns.map (·.emptied params))) := by
  have hpacketIn : ∀ i a,∀ e ∈ orders.packetIns.sort (expected.packetIns.map (·.emptied params)),
      comparePacketIn msgs params i a e = .ok () ↔ SamePacketIn msgs params e a := by
    intro i a e he
    obtain ⟨p,hp,rfl⟩ := List.mem_map.mp ((orders.packetIns.sort_perm _).subset he)
    rw [comparePacketIn_ok hpayload,metadata_checks_iff (emptied_functional (hexpected p hp)),SamePacketIn]
  have hsortLength : ∀ {α : Type} (o : TotalOrder α) (l : List α),(o.sort l).length = l.length :=
    fun o l => (o.sort_perm l).length_eq
  unfold compareSwitchOutput SortedMatch
  simp only [remove_eq_emptied]
  by_cases hlen : actual.packets.length = expected.packets.length
  · have hlenPackets : (orders.packets.sort actual.packets).length = (orders.packets.sort expected.packets).length := by
      rw [hsortLength,hsortLength,hlen]
    have hpacket : ∀ i a,∀ e ∈ orders.packets.sort expected.packets,
        comparePacket msgs params i a e = .ok () ↔ SamePacket msgs params e a :=
      fun i a e _ => comparePacket_ok hpayload i a e
    have hpackets := compareEach_ok hpacket hlenPackets 0
    cases htreat : params.treatExpectedAndActualOutputsAsHavingNoPacketIns with
    | true => simp [hlen,then_eq_ok,hpackets,pure,Except.pure]
    | false =>
      by_cases hlenIns : actual.packetIns.length = expected.packetIns.length
      · have hlenPacketIns : (orders.packetIns.sort (actual.packetIns.map (·.emptied params))).length =
            (orders.packetIns.sort (expected.packetIns.map (·.emptied params))).length := by
          rw [hsortLength,hsortLength,List.length_map,List.length_map,hlenIns]
        have hpacketIns := compareEach_ok hpacketIn hlenPacketIns 0
        simp [hlen,hlenIns,then_eq_ok,hpackets,hpacketIns]
      · simp [hlen,hlenIns,bind,Except.bind]
  · simp [hlen,bind,Except.bind]

theorem compareSwitchOutputs_none {orders : MessageOrders Parsed} {acceptable : List (SwitchOutput Parsed)}
    {actual : SwitchOutput Parsed} : compareSwitchOutputs msgs params orders acceptable actual = none ↔
      ∃ expected ∈ acceptable,compareSwitchOutput msgs params orders actual expected = .ok () := by
  unfold compareSwitchOutputs
  generalize 0 = i,"" = listener
  induction acceptable generalizing i listener with
  | nil => simp [explainMismatches]
  | cons expected acceptable ih =>
    unfold explainMismatches
    cases hcompare : compareSwitchOutput msgs params orders actual expected with
    | ok u => simp [hcompare]
    | error explanation => simp [hcompare,ih]

/-! ### When sorting finds the pairing -/

theorem alignable_iff {Same : α → α → Prop} {key : α → κ} (hkey : ∀ a b,Same a b ↔ key a = key b)
    {as bs : List α} (hpaired : (as.map key).Perm (bs.map key)) :
    (∀ o : TotalOrder α,SortedMatch o Same as bs) ↔ Alignable Same as bs := by
  simp only [sortedMatch_iff hkey,sorted_keys_iff hpaired,Alignable,hkey]

theorem paired_of_sortedMatch {o : TotalOrder α} {Same : α → α → Prop} {key : α → κ}
    (hkey : ∀ a b,Same a b ↔ key a = key b) {as bs : List α} (h : SortedMatch o Same as bs) :
    (as.map key).Perm (bs.map key) :=
  o.keys_perm_of_sorted ((sortedMatch_iff hkey).mp h)

theorem Alignable.keys_perm {Same : α → α → Prop} {key : α → κ} (hkey : ∀ a b,Same a b ↔ key a = key b)
    {as bs : List α} (hlen : as.length = bs.length) (h : Alignable Same as bs) : (as.map key).Perm (bs.map key) := by
  rcases h with hperm | hone
  · exact hperm.map key
  · refine List.Perm.of_eq (forall₂_eq_map.mp (List.forall₂_iff_get.mpr ⟨hlen,fun i hi hi' => ?_⟩))
    exact (hkey _ _).mp (hone _ (List.mem_append_left _ (List.get_mem _ _)) _ (List.mem_append_right _ (List.get_mem _ _)))

section Outputs
variable (hpayload : params.manualPayloadCheck = none) {actual expected : SwitchOutput Parsed}
  (hactual : ∀ p ∈ actual.packetIns,p.WellFormed) (hexpected : ∀ p ∈ expected.packetIns,p.WellFormed)
include hpayload hactual hexpected

theorem matches_of_accepted {orders : MessageOrders Parsed}
    (h : compareSwitchOutput msgs params orders actual expected = .ok ()) : OutputMatches msgs params actual expected := by
  obtain ⟨hpackets,hpacketIns⟩ := (compareSwitchOutput_ok hpayload orders hexpected).mp h
  refine ⟨?_,fun htreat => ?_⟩
  · have hperm := paired_of_sortedMatch (fun _ _ => samePacket_iff) hpackets
    exact (paired_key.mpr hperm).imp fun _ _ _ _ => samePacket_iff.mpr
  · have hperm := paired_of_sortedMatch (fun _ _ => samePacketIn_iff) (hpacketIns htreat)
    rw [List.map_map,List.map_map] at hperm
    refine (paired_key.mpr hperm).imp fun p hp q hq heq => ?_
    exact samePacketIn_of_emptied (hactual p hp) (hexpected q hq) (samePacketIn_iff.mpr heq)

omit hactual in
theorem accepted_iff_aligned (hmatches : OutputMatches msgs params actual expected) :
    (∀ orders,compareSwitchOutput msgs params orders actual expected = .ok ()) ↔ Aligned msgs params actual expected := by
  have hpackets : (actual.packets.map (packetKey msgs params)).Perm (expected.packets.map (packetKey msgs params)) :=
    paired_key.mp (hmatches.packets.imp fun _ _ _ _ => samePacket_iff.mp)
  simp only [compareSwitchOutput_ok hpayload _ hexpected]
  constructor
  · intro h
    have order := fun α => (exists_order_by_rank fun _ : α => 0).nonempty
    refine ⟨(alignable_iff (fun _ _ => samePacket_iff) hpackets).mp fun o => (h ⟨o,(order _).some⟩).1,fun htreat => ?_⟩
    have hmatch := fun o => (h ⟨(order _).some,o⟩).2 htreat
    exact (alignable_iff (fun _ _ => samePacketIn_iff)
      (paired_of_sortedMatch (fun _ _ => samePacketIn_iff) (hmatch (order _).some))).mp hmatch
  · intro h orders
    refine ⟨(alignable_iff (fun _ _ => samePacket_iff) hpackets).mpr h.packets orders.packets,fun htreat => ?_⟩
    have hkeys := (h.packetIns htreat).keys_perm (fun _ _ => samePacketIn_iff)
      (by simpa using (hmatches.packetIns htreat).length_eq)
    exact (alignable_iff (fun _ _ => samePacketIn_iff) hkeys).mpr (h.packetIns htreat) orders.packetIns

end Outputs
end Code

/-- The comparison is exact, by whatever order messages are sorted, if some acceptable output
that matches is also aligned; for a single acceptable output this is the exact condition. -/
theorem comparison_exact {Parsed FieldDescriptor : Type} (msgs : PacketMessages Parsed FieldDescriptor)
    (params : SwitchOutputDiffParams FieldDescriptor) (hpayload : params.manualPayloadCheck = none)
    (acceptable : List (SwitchOutput Parsed)) (actual : SwitchOutput Parsed)
    (hactual : ∀ p ∈ actual.packetIns,p.WellFormed)
    (hacceptable : ∀ expected ∈ acceptable,∀ p ∈ expected.packetIns,p.WellFormed) :
    (((∃ expected ∈ acceptable,OutputMatches msgs params actual expected) →
        ∃ expected ∈ acceptable,OutputMatches msgs params actual expected ∧ Aligned msgs params actual expected) →
      ∀ orders,ExactComparison msgs params orders acceptable actual) ∧
    ∀ expected ∈ acceptable,(∀ orders,ExactComparison msgs params orders [expected] actual) ↔
      (OutputMatches msgs params actual expected → Aligned msgs params actual expected) := by
  constructor
  · intro haligned orders
    rw [ExactComparison,compareSwitchOutputs_none]
    constructor
    · rintro ⟨expected,hmem,haccepted⟩
      exact ⟨expected,hmem,matches_of_accepted hpayload hactual (hacceptable expected hmem) haccepted⟩
    · intro hmatching
      obtain ⟨expected,hmem,hmatches,halign⟩ := haligned hmatching
      exact ⟨expected,hmem,(accepted_iff_aligned hpayload (hacceptable expected hmem) hmatches).mpr halign orders⟩
  · intro expected hmem
    have hexpected := hacceptable expected hmem
    simp only [ExactComparison,compareSwitchOutputs_none,List.mem_singleton,exists_eq_left]
    constructor
    · intro h hmatches
      exact (accepted_iff_aligned hpayload hexpected hmatches).mp fun orders => (h orders).mpr hmatches
    · intro h orders
      exact ⟨matches_of_accepted hpayload hactual hexpected,
        fun hmatches => (accepted_iff_aligned hpayload hexpected hmatches).mpr (h hmatches) orders⟩

private inductive SampleField where
  | ethertype | payload | reasonsInvalid
  deriving DecidableEq

private structure SampleParsed where
  ethertype : String := ""
  payload : String := ""
  reasonsInvalid : List String := []

/-- The fields of a parsed packet that are compared. -/
private def SampleParsed.compared (ignored : List SampleField) (p : SampleParsed) :
    Option String × Option String × Option (List String) :=
  (if .ethertype ∈ ignored then none else some p.ethertype,if .payload ∈ ignored then none else some p.payload,
    if .reasonsInvalid ∈ ignored then none else some p.reasonsInvalid)

private def sampleMessages : PacketMessages SampleParsed SampleField where
  defaultInstance := {}
  payload := (·.payload)
  reasonsInvalid := .reasonsInvalid
  payloadField := .payload
  compare ignored p q := decide (p.compared ignored = q.compared ignored)
  compare_equivalence ignored := by
    simp only [decide_eq_true_eq]
    exact ⟨fun _ => rfl,fun h => h.symm,fun h h' => h.trans h'⟩
  reportDifferences _ _ _ := "modified"
  reportValueDifferences _ _ := "modified"

private def puntedFrom (port : String) : PacketIn SampleParsed where
  metadata := [{ name := "ingress_port",value := some (.str port) }]
  parsed := some { ethertype := "0x0800" }

private def forwardedTo (port : String) : Packet SampleParsed := { port,parsed := some { ethertype := "0x0800" } }

private def acceptableOutput : SwitchOutput SampleParsed :=
  { packets := [forwardedTo "2",forwardedTo "1"],packetIns := [puntedFrom "3",puntedFrom "4"] }

private def swappedOutput : SwitchOutput SampleParsed :=
  { packets := [forwardedTo "1",forwardedTo "2"],packetIns := [puntedFrom "4",puntedFrom "3"] }

theorem swapped_outputs_exact : Aligned sampleMessages {} swappedOutput acceptableOutput ∧
    ∀ orders,ExactComparison sampleMessages {} orders [acceptableOutput] swappedOutput := by
  have hwf : ∀ port,(puntedFrom port).WellFormed := fun port => ⟨by simp [puntedFrom],by simp [puntedFrom]⟩
  have haligned : Aligned sampleMessages {} swappedOutput acceptableOutput :=
    ⟨.inl (List.Perm.swap ..),fun _ => .inl (List.Perm.swap ..)⟩
  refine ⟨haligned,(comparison_exact sampleMessages {} rfl _ _ ?_ ?_).1 ?_⟩
  · simp [hwf,swappedOutput]
  · simp [hwf,acceptableOutput]
  · rintro ⟨expected,hmem,hmatches⟩
    cases List.mem_singleton.mp hmem
    exact ⟨_,hmem,hmatches,haligned⟩

/-- A packet-in that has a metadata field to be ignored is not taken for one without it. -/
theorem ignored_metadata_compared : ¬ ∃ orders,ExactComparison sampleMessages
    { ignoredPacketInMetadata := ["ingress_port"] } orders [{ packetIns := [puntedFrom "3"] }]
    { packetIns := [{ parsed := some { ethertype := "0x0800" } }] } := by
  rintro ⟨orders,h⟩
  have hmatches : OutputMatches sampleMessages { ignoredPacketInMetadata := ["ingress_port"] }
      { packetIns := [{ parsed := some { ethertype := "0x0800" } }] } { packetIns := [puntedFrom "3"] } := by
    refine ⟨⟨[],.nil,List.Perm.refl _⟩,fun _ => ⟨_,.cons ⟨by simp [SameParsed,sampleMessages,puntedFrom],?_⟩ .nil,List.Perm.refl _⟩⟩
    funext name
    by_cases hname : name = "ingress_port"
    · simp [metadataValue,hname]
    · simp [metadataValue,hname,getPacketInMetadataByName,puntedFrom,Ne.symm hname]
  have haccepted := h.mpr ⟨_,List.mem_singleton.mpr rfl,hmatches⟩
  simp [compareSwitchOutputs,explainMismatches,compareSwitchOutput,removeIgnoredMetadataFromPacketIns,puntedFrom,
    TotalOrder.sort,compareEach,comparePacketIn,compareParsed,checkPayload,checkExpectedMetadata,getPacketInMetadataByName,
    sampleMessages,bind,Except.bind] at haccepted

end SonicPins.Dvaas
