import Mathlib.Data.Finset.Sort
import SonicPins.Pdpi.IrToPd

/-! Entries that v1model targets need besides the given ones, and the keys that they add.
Debug texts of messages are left out. -/
namespace SonicPins.SaiP4
open Lib Pdpi

/-- The default entry if another field is set. -/
def tableEntryOf : IrEntity → IrTableEntry
  | .tableEntry e => e
  | .packetReplicationEngineEntry _ => { tableName := "" }

def actionOf (entry : IrTableEntry) : IrActionInvocation :=
  match entry.type with
  | .action a => a
  | _ => {}

def hexStr (value : IrValue) : String := irValueToFormattedString value .hexString
def str (value : IrValue) : String := irValueToFormattedString value .string
def mac (value : IrValue) : String := irValueToFormattedString value .mac

def lastParam (params : List IrActionParam) (name : String) : Option IrValue :=
  params.foldl (fun found param => if param.name = name then some param.value else found) none

inductive TaggingMode where
  | tagged | untagged
  deriving DecidableEq,Repr

def membershipMatches (vlanId port : String) : List IrMatch :=
  [⟨"vlan_id",.exact (.hexStr vlanId)⟩,⟨"port",.exact (.str port)⟩]

def createVlanMembershipTableEntry (vlanId port : String) (taggingMode : TaggingMode) (auxiliaryTable : Bool) : IrEntity :=
  .tableEntry {
    tableName := if auxiliaryTable then "v1model_auxiliary_vlan_membership_table" else "vlan_membership_table",
    matches_ := membershipMatches vlanId port,
    type := .action ⟨match taggingMode with
      | .tagged => if auxiliaryTable then "v1model_auxiliary_make_tagged_member" else "make_tagged_member"
      | .untagged => if auxiliaryTable then "v1model_auxiliary_make_untagged_member" else "make_untagged_member",[]⟩ }

def admitMatches (inPort dstMac : String) : List IrMatch :=
  [⟨"in_port",.optional (.str inPort)⟩,⟨"dst_mac",.ternary (.mac dstMac) (.mac "ff:ff:ff:ff:ff:ff")⟩]

/-- The lowest priority. -/
def createL3AdmitTableEntry (inPort dstMac : String) : IrEntity :=
  .tableEntry {
    tableName := "l3_admit_table",matches_ := admitMatches inPort dstMac,priority := 1,
    type := .action ⟨"admit_to_l3",[]⟩ }

def createEgressPortLoopbackTableEntry (port : String) : IrEntity :=
  .tableEntry {
    tableName := "egress_port_loopback_table",matches_ := [⟨"out_port",.exact (.str port)⟩],
    type := .action ⟨"egress_loopback",[]⟩ }

/-- The ports are a set, in the order of their ids. -/
def createEgressPortLoopbackTableEntriesForPortsInLoopbackMode (loopbackModePorts : Finset String) : List IrEntity :=
  (loopbackModePorts.sort (· ≤ ·)).map createEgressPortLoopbackTableEntry

/-- The last match of each name counts. -/
def readMembershipMatch : Option String × Option String → IrMatch → StatusOr (Option String × Option String)
  | (vlanId,port),m =>
    if m.name = "vlan_id" then .ok (some (hexStr m.value.exactValue),port)
    else if m.name = "port" then .ok (vlanId,some (str m.value.exactValue))
    else .error ⟨.failedPrecondition,"Unexpected match '" ++ m.name ++ "' in vlan_membership_table, got "⟩

def expectedIn (kind name : String) (entry : IrTableEntry) : Status :=
  ⟨.failedPrecondition,"Expected " ++ kind ++ " `" ++ name ++ "` in " ++ entry.tableName ++ ", but got "⟩

def vlanAndPortOfMatches (entry : IrTableEntry) : StatusOr (String × String) := do
  match ← entry.matches_.foldlM readMembershipMatch (none,none) with
  | (none,_) => .error (expectedIn "match on field" "vlan_id" entry)
  | (some _,none) => .error (expectedIn "match on field" "port" entry)
  | (some vlanId,some port) => .ok (vlanId,port)

def taggingModeOf (entry : IrTableEntry) : TaggingMode :=
  if (actionOf entry).name = "make_tagged_member" then .tagged else .untagged

def isVlanMembership (entry : IrTableEntry) : Bool := entry.tableName = "vlan_membership_table"

def createV1ModelAuxiliaryVlanMembershipTableEntries (irEntities : List IrEntity) : StatusOr (List IrEntity) :=
  ((irEntities.map tableEntryOf).filter isVlanMembership).mapM fun entry => do
    let (vlanId,port) ← vlanAndPortOfMatches entry
    .ok (createVlanMembershipTableEntry vlanId port (taggingModeOf entry) true)

def isSubPortRif (entry : IrTableEntry) : Bool :=
  entry.tableName = "router_interface_table" ∧ (actionOf entry).name = "unicast_set_port_and_src_mac_and_vlan_id"

def vlanAndPortOfParams (entry : IrTableEntry) : StatusOr (String × String) :=
  match lastParam (actionOf entry).params "vlan_id",lastParam (actionOf entry).params "port" with
  | none,_ => .error (expectedIn "param" "vlan_id" entry)
  | some _,none => .error (expectedIn "param" "port" entry)
  | some vlanId,some port => .ok (hexStr vlanId,str port)

def createVlanMembershipTableEntriesForSubPortRifs (irEntities : List IrEntity) : StatusOr (List IrEntity) := do
  let entries ← ((irEntities.map tableEntryOf).filter isSubPortRif).mapM fun entry => do
    let (vlanId,port) ← vlanAndPortOfParams entry
    .ok [createVlanMembershipTableEntry vlanId port .tagged false,createVlanMembershipTableEntry vlanId port .tagged true]
  .ok entries.flatten

def isPortRif (entry : IrTableEntry) : Bool :=
  entry.tableName = "router_interface_table" ∧ (actionOf entry).name = "set_port_and_src_mac"

def portAndSrcMac (entry : IrTableEntry) : StatusOr (String × String) :=
  match lastParam (actionOf entry).params "port",lastParam (actionOf entry).params "src_mac" with
  | none,_ => .error ⟨.failedPrecondition,"Missing param `port` in "⟩
  | some _,none => .error ⟨.failedPrecondition,"Missing param `src_mac` in "⟩
  | some port,some srcMac => .ok (str port,mac srcMac)

def createL3AdmitTableEntriesForRifs (irEntities : List IrEntity) : StatusOr (List IrEntity) :=
  ((irEntities.map tableEntryOf).filter isPortRif).mapM fun entry => do
    let (port,srcMac) ← portAndSrcMac entry
    .ok (createL3AdmitTableEntry port srcMac)

/-- The ports in loopback mode are read from the switch, which may fail. -/
def createV1ModelAuxiliaryEntities (irEntities : List IrEntity) (loopbackModePorts : StatusOr (Finset String)) :
    StatusOr (List IrEntity) := do
  let ports ← loopbackModePorts
  let vlanMembershipEntities ← createV1ModelAuxiliaryVlanMembershipTableEntries irEntities
  let subPortRifsEntities ← createVlanMembershipTableEntriesForSubPortRifs irEntities
  let l3AdmitEntities ← createL3AdmitTableEntriesForRifs irEntities
  .ok (createEgressPortLoopbackTableEntriesForPortsInLoopbackMode ports ++ vlanMembershipEntities ++ subPortRifsEntities ++
    l3AdmitEntities)

/-- What tells the entities of a switch apart; the order of the matches is not part of it. -/
inductive EntityKey where
  | tableEntry (tableName : String) (matches_ : Multiset IrMatch) (priority : Int32)
  | multicastGroup (id : UInt32)
  | cloneSession (id : UInt32)
  deriving DecidableEq

def entityKey : IrEntity → EntityKey
  | .tableEntry e => .tableEntry e.tableName e.matches_ e.priority
  | .packetReplicationEngineEntry (.multicastGroupEntry e) => .multicastGroup e.multicastGroupId
  | .packetReplicationEngineEntry (.cloneSessionEntry e) => .cloneSession e.sessionId

def loopbackKey (port : String) : EntityKey := .tableEntry "egress_port_loopback_table" {⟨"out_port",.exact (.str port)⟩} 0

def membershipKey (tableName : String) (vlanAndPort : String × String) : EntityKey :=
  .tableEntry tableName (membershipMatches vlanAndPort.1 vlanAndPort.2) 0

def admitKey (portAndMac : String × String) : EntityKey :=
  .tableEntry "l3_admit_table" (admitMatches portAndMac.1 portAndMac.2) 1

structure Membership where
  vlanAndPort : String × String
  taggingMode : TaggingMode

/-- The members that are given as entries. -/
def givenMemberships (irEntities : List IrEntity) : List Membership :=
  ((irEntities.map tableEntryOf).filter isVlanMembership).filterMap fun entry =>
    (vlanAndPortOfMatches entry).toOption.map fun vlanAndPort => ⟨vlanAndPort,taggingModeOf entry⟩

/-- The members that sub-port router interfaces imply. -/
def impliedMemberships (irEntities : List IrEntity) : List Membership :=
  ((irEntities.map tableEntryOf).filter isSubPortRif).filterMap fun entry =>
    (vlanAndPortOfParams entry).toOption.map fun vlanAndPort => ⟨vlanAndPort,.tagged⟩

def memberships (irEntities : List IrEntity) : List Membership := givenMemberships irEntities ++ impliedMemberships irEntities

/-- The port and the MAC address of each port router interface. -/
def portRifs (irEntities : List IrEntity) : List (String × String) :=
  ((irEntities.map tableEntryOf).filter isPortRif).filterMap fun entry => (portAndSrcMac entry).toOption

def isAuxiliaryMembership (vlanAndPort : String × String) (entity : IrEntity) : Bool :=
  (tableEntryOf entity).tableName = "v1model_auxiliary_vlan_membership_table" ∧
    ⟨"vlan_id",.exact (.hexStr vlanAndPort.1)⟩ ∈ (tableEntryOf entity).matches_ ∧
    ⟨"port",.exact (.str vlanAndPort.2)⟩ ∈ (tableEntryOf entity).matches_

def auxiliaryTaggingMode (entity : IrEntity) : Option TaggingMode :=
  if (actionOf (tableEntryOf entity)).name = "v1model_auxiliary_make_tagged_member" then some .tagged
  else if (actionOf (tableEntryOf entity)).name = "v1model_auxiliary_make_untagged_member" then some .untagged
  else none

/-- All entities can be installed side by side, and each membership has one auxiliary entry of its mode. -/
structure Installable (given auxiliary : List IrEntity) : Prop where
  keys : ((given ++ auxiliary).map entityKey).Nodup
  members : ∀ m ∈ memberships given,
    ((given ++ auxiliary).filter (isAuxiliaryMembership m.vlanAndPort)).map auxiliaryTaggingMode = [some m.taggingMode]

/-- No two interfaces or memberships meet in one auxiliary entry, and none of the auxiliary entries is given. -/
structure Separate (given : List IrEntity) (loopbackModePorts : Finset String) : Prop where
  memberships : ((memberships given).map Membership.vlanAndPort).Nodup
  rifs : (portRifs given).Nodup
  auxiliary : ∀ m ∈ SaiP4.memberships given,∀ e ∈ given,isAuxiliaryMembership m.vlanAndPort e = false
  admits : ∀ rif ∈ portRifs given,∀ e ∈ given,entityKey e ≠ admitKey rif
  loopbacks : ∀ port ∈ loopbackModePorts,∀ e ∈ given,entityKey e ≠ loopbackKey port

theorem mapM_read {α β γ : Type} (read : α → StatusOr β) (build : α → β → γ) {l : List α} {r : List γ}
    (h : (l.mapM fun a => do let b ← read a; .ok (build a b)) = .ok r) :
    r = l.filterMap fun a => (read a).toOption.map (build a) := by
  have hrel := mapM_eq_ok.mp h
  clear h
  induction hrel with
  | nil => rfl
  | @cons a c l r hac _ ih =>
    obtain ⟨b,hb,hc⟩ := bind_eq_ok.mp hac
    rw [List.filterMap_cons,hb,← ih,← Except.ok.inj hc]
    rfl

def Membership.entry (auxiliaryTable : Bool) (m : Membership) : IrEntity :=
  createVlanMembershipTableEntry m.vlanAndPort.1 m.vlanAndPort.2 m.taggingMode auxiliaryTable

private theorem auxiliaryVlanMembership_eq {given entries : List IrEntity}
    (h : createV1ModelAuxiliaryVlanMembershipTableEntries given = .ok entries) :
    entries = (givenMemberships given).map (Membership.entry true) := by
  have hread := mapM_read vlanAndPortOfMatches
    (fun entry vp => createVlanMembershipTableEntry vp.1 vp.2 (taggingModeOf entry) true) h
  rw [hread,givenMemberships,List.map_filterMap]
  simp only [Option.map_map]
  rfl

private theorem subPortRifs_eq {given entries : List IrEntity} (h : createVlanMembershipTableEntriesForSubPortRifs given = .ok entries) :
    entries = (impliedMemberships given).flatMap fun m => [m.entry false,m.entry true] := by
  obtain ⟨pairs,hpairs,hentries⟩ := bind_eq_ok.mp h
  have hread := mapM_read vlanAndPortOfParams (fun _ vp =>
    [createVlanMembershipTableEntry vp.1 vp.2 .tagged false,createVlanMembershipTableEntry vp.1 vp.2 .tagged true]) hpairs
  rw [← Except.ok.inj hentries,hread,impliedMemberships,List.flatMap_def,List.map_filterMap]
  simp only [Option.map_map]
  rfl

private theorem l3Admit_eq {given entries : List IrEntity} (h : createL3AdmitTableEntriesForRifs given = .ok entries) :
    entries = (portRifs given).map fun rif => createL3AdmitTableEntry rif.1 rif.2 := by
  have hread := mapM_read portAndSrcMac (fun _ rif => createL3AdmitTableEntry rif.1 rif.2) h
  rw [hread,portRifs,List.map_filterMap]

theorem created_perm {given auxiliary : List IrEntity} {ports : Finset String}
    (h : createV1ModelAuxiliaryEntities given (.ok ports) = .ok auxiliary) :
    auxiliary.Perm ((ports.sort (· ≤ ·)).map createEgressPortLoopbackTableEntry ++ (memberships given).map (Membership.entry true) ++
      (impliedMemberships given).map (Membership.entry false) ++
      (portRifs given).map fun rif => createL3AdmitTableEntry rif.1 rif.2) := by
  obtain ⟨_,hports,h⟩ := bind_eq_ok.mp h
  cases hports
  obtain ⟨members,hmembers,h⟩ := bind_eq_ok.mp h
  obtain ⟨subPorts,hsubPorts,h⟩ := bind_eq_ok.mp h
  obtain ⟨admits,hadmits,h⟩ := bind_eq_ok.mp h
  have hsplit : ((impliedMemberships given).flatMap fun m => [m.entry false,m.entry true]).Perm
      ((impliedMemberships given).map (Membership.entry true) ++ (impliedMemberships given).map (Membership.entry false)) := by
    have hperm := List.flatMap_append_perm (impliedMemberships given) (fun m => [m.entry false]) fun m => [m.entry true]
    simp only [← List.map_eq_flatMap] at hperm
    exact hperm.symm.trans List.perm_append_comm
  rw [← Except.ok.inj h,auxiliaryVlanMembership_eq hmembers,subPortRifs_eq hsubPorts,l3Admit_eq hadmits,memberships,
    List.map_append]
  refine List.Perm.append_right _ ?_
  simp only [List.append_assoc]
  refine List.Perm.append_left _ (List.Perm.append_left _ ?_)
  exact hsplit

theorem membershipKey_injective (tableName : String) : Function.Injective (membershipKey tableName) := by
  intro a b h
  simp only [membershipKey,EntityKey.tableEntry.injEq,Multiset.coe_eq_coe,and_true,true_and] at h
  have hvlan := h.mem_iff (a := ⟨"vlan_id",.exact (.hexStr a.1)⟩)
  have hport := h.mem_iff (a := ⟨"port",.exact (.str a.2)⟩)
  simp [membershipMatches] at hvlan hport
  exact Prod.ext hvlan hport

private theorem admitKey_injective : Function.Injective admitKey := by
  intro a b h
  simp only [admitKey,EntityKey.tableEntry.injEq,Multiset.coe_eq_coe,and_true,true_and] at h
  have hport := h.mem_iff (a := ⟨"in_port",.optional (.str a.1)⟩)
  have hmac := h.mem_iff (a := ⟨"dst_mac",.ternary (.mac a.2) (.mac "ff:ff:ff:ff:ff:ff")⟩)
  simp [admitMatches] at hport hmac
  exact Prod.ext hport hmac

private theorem loopbackKey_injective : Function.Injective loopbackKey := by
  intro a b h
  simpa [loopbackKey] using h

def createdKeys (given : List IrEntity) (ports : Finset String) : List EntityKey :=
  (ports.sort (· ≤ ·)).map loopbackKey ++
    ((memberships given).map Membership.vlanAndPort).map (membershipKey "v1model_auxiliary_vlan_membership_table") ++
    ((impliedMemberships given).map Membership.vlanAndPort).map (membershipKey "vlan_membership_table") ++
    (portRifs given).map admitKey

private theorem created_keys {given auxiliary : List IrEntity} {ports : Finset String}
    (h : createV1ModelAuxiliaryEntities given (.ok ports) = .ok auxiliary) :
    (auxiliary.map entityKey).Perm (createdKeys given ports) := by
  have hperm := (created_perm h).map entityKey
  simp only [List.map_append,List.map_map] at hperm
  simp only [createdKeys,List.map_map]
  exact hperm

def EntityKey.table : EntityKey → String
  | .tableEntry tableName _ _ => tableName
  | _ => ""

theorem nodup_append_table (tableName : String) {keys keys' : List EntityKey} (h : ∀ k ∈ keys,k.table ≠ tableName)
    (h' : ∀ k ∈ keys',k.table = tableName) : (keys ++ keys').Nodup ↔ keys.Nodup ∧ keys'.Nodup := by
  rw [List.nodup_append]
  refine ⟨fun hnodup => ⟨hnodup.1,hnodup.2.1⟩,fun hnodup => ⟨hnodup.1,hnodup.2,?_⟩⟩
  rintro k hk k' hk' rfl
  exact h k hk (h' k hk')

theorem createdKeys_nodup {given : List IrEntity} {ports : Finset String} :
    (createdKeys given ports).Nodup ↔ ((memberships given).map Membership.vlanAndPort).Nodup ∧ (portRifs given).Nodup := by
  have hloopbacks : ∀ k ∈ (ports.sort (· ≤ ·)).map loopbackKey,k.table = "egress_port_loopback_table" :=
    List.forall_mem_map.mpr fun _ _ => rfl
  have hmembers : ∀ (tableName : String) (pairs : List (String × String)),∀ k ∈ pairs.map (membershipKey tableName),
      k.table = tableName := fun _ _ => List.forall_mem_map.mpr fun _ _ => rfl
  have hadmits : ∀ k ∈ (portRifs given).map admitKey,k.table = "l3_admit_table" := List.forall_mem_map.mpr fun _ _ => rfl
  have hfirst : ∀ k ∈ (ports.sort (· ≤ ·)).map loopbackKey ++
      ((memberships given).map Membership.vlanAndPort).map (membershipKey "v1model_auxiliary_vlan_membership_table"),
      k.table = "egress_port_loopback_table" ∨ k.table = "v1model_auxiliary_vlan_membership_table" := by
    intro k hk
    exact (List.mem_append.mp hk).imp (hloopbacks k) (hmembers _ _ k)
  rw [createdKeys,nodup_append_table "l3_admit_table" ?_ hadmits,
    nodup_append_table "vlan_membership_table" ?_ (hmembers _ _),
    nodup_append_table "v1model_auxiliary_vlan_membership_table" ?_ (hmembers _ _),
    List.nodup_map_iff loopbackKey_injective,List.nodup_map_iff (membershipKey_injective _),
    List.nodup_map_iff (membershipKey_injective _),List.nodup_map_iff admitKey_injective]
  · constructor
    · rintro ⟨⟨⟨-,hnodup⟩,-⟩,hrifs⟩
      exact ⟨hnodup,hrifs⟩
    · rintro ⟨hnodup,hrifs⟩
      refine ⟨⟨⟨Finset.sort_nodup ports _,hnodup⟩,?_⟩,hrifs⟩
      rw [memberships,List.map_append] at hnodup
      exact hnodup.of_append_right
  · intro k hk
    rw [hloopbacks k hk]
    decide
  · intro k hk
    rcases hfirst k hk with hk | hk <;> rw [hk] <;> decide
  · intro k hk
    rcases List.mem_append.mp hk with hk | hk
    · rcases hfirst k hk with hk | hk <;> rw [hk] <;> decide
    · rw [hmembers _ _ k hk]
      decide

variable {given auxiliary : List IrEntity} {ports : Finset String}

private theorem perm_pair {α : Type} {l : List α} {a b : α} (h : l.Perm [a,b]) : l = [a,b] ∨ l = [b,a] := by
  obtain ⟨x,y,rfl⟩ := List.length_eq_two.mp h.length_eq
  have hx : x = a ∨ x = b := by simpa using h.subset List.mem_cons_self
  rcases hx with rfl | rfl
  · rw [List.perm_cons,List.perm_singleton] at h
    exact .inl (by rw [h])
  · have hswap := h.trans (List.Perm.swap x a [])
    rw [List.perm_cons,List.perm_singleton] at hswap
    exact .inr (by rw [hswap])

theorem entityKey_eq_table {e : IrEntity} {tableName : String} {ms : Multiset IrMatch} {priority : Int32}
    (h : entityKey e = .tableEntry tableName ms priority) :
    (tableEntryOf e).tableName = tableName ∧ ((tableEntryOf e).matches_ : Multiset IrMatch) = ms := by
  cases e with
  | tableEntry e =>
    obtain ⟨hname,hmatches,-⟩ := EntityKey.tableEntry.inj h
    exact ⟨hname,hmatches⟩
  | packetReplicationEngineEntry e => cases e <;> cases h

private theorem given_of_key {e : IrEntity} (he : e ∈ given) {vlanAndPort : String × String}
    (h : entityKey e = membershipKey "vlan_membership_table" vlanAndPort) :
    vlanAndPort ∈ (givenMemberships given).map Membership.vlanAndPort := by
  obtain ⟨hname,hmatches⟩ := entityKey_eq_table h
  have hread : vlanAndPortOfMatches (tableEntryOf e) = .ok vlanAndPort := by
    rcases perm_pair (Multiset.coe_eq_coe.mp hmatches) with hms | hms <;> rw [vlanAndPortOfMatches,hms] <;> rfl
  refine List.mem_map.mpr ⟨⟨vlanAndPort,taggingModeOf (tableEntryOf e)⟩,?_,rfl⟩
  refine List.mem_filterMap.mpr ⟨tableEntryOf e,List.mem_filter.mpr ⟨List.mem_map_of_mem he,?_⟩,?_⟩
  · simpa [isVlanMembership] using hname
  · rw [hread]
    rfl

private theorem isAuxiliaryMembership_of_key {e : IrEntity} {vlanAndPort : String × String}
    (h : entityKey e = membershipKey "v1model_auxiliary_vlan_membership_table" vlanAndPort) :
    isAuxiliaryMembership vlanAndPort e = true := by
  obtain ⟨hname,hmatches⟩ := entityKey_eq_table h
  have hmem := fun m => (Multiset.coe_eq_coe.mp hmatches).mem_iff (a := m)
  simp [isAuxiliaryMembership,hname,hmem,membershipMatches]

private theorem isAuxiliaryMembership_entry (vlanAndPort : String × String) (m : Membership) :
    isAuxiliaryMembership vlanAndPort (m.entry true) = decide (m.vlanAndPort = vlanAndPort) := by
  have hentry : isAuxiliaryMembership vlanAndPort (m.entry true) = true ↔
      vlanAndPort.1 = m.vlanAndPort.1 ∧ vlanAndPort.2 = m.vlanAndPort.2 := by
    simp [isAuxiliaryMembership,Membership.entry,createVlanMembershipTableEntry,tableEntryOf,membershipMatches]
  rw [Bool.eq_iff_iff,hentry,decide_eq_true_eq,← Prod.ext_iff,eq_comm]

private theorem auxiliaryTaggingMode_entry (m : Membership) : auxiliaryTaggingMode (m.entry true) = some m.taggingMode := by
  obtain ⟨vp,mode⟩ := m
  cases mode <;> rfl

private theorem filter_created (h : createV1ModelAuxiliaryEntities given (.ok ports) = .ok auxiliary) (vlanAndPort : String × String) :
    (auxiliary.filter (isAuxiliaryMembership vlanAndPort)).Perm
      (((memberships given).filter fun m => decide (m.vlanAndPort = vlanAndPort)).map (Membership.entry true)) := by
  have hother : ∀ {α : Type} (f : α → IrEntity) (l : List α),
      (∀ a,(tableEntryOf (f a)).tableName ≠ "v1model_auxiliary_vlan_membership_table") →
      (l.map f).filter (isAuxiliaryMembership vlanAndPort) = [] := by
    intro α f l hne
    refine List.filter_eq_nil_iff.mpr (List.forall_mem_map.mpr fun a _ => ?_)
    simp [isAuxiliaryMembership,hne a]
  have hloopbacks := hother createEgressPortLoopbackTableEntry (ports.sort (· ≤ ·)) fun _ => by
    simp [tableEntryOf,createEgressPortLoopbackTableEntry]
  have hplain := hother (Membership.entry false) (impliedMemberships given) fun _ => by
    simp [tableEntryOf,Membership.entry,createVlanMembershipTableEntry]
  have hadmits := hother (fun rif : String × String => createL3AdmitTableEntry rif.1 rif.2) (portRifs given) fun _ => by
    simp [tableEntryOf,createL3AdmitTableEntry]
  have hperm := (created_perm h).filter (isAuxiliaryMembership vlanAndPort)
  rw [List.filter_append,List.filter_append,List.filter_append,hloopbacks,hplain,hadmits,List.nil_append,List.append_nil,
    List.append_nil,List.filter_map] at hperm
  have hentry : isAuxiliaryMembership vlanAndPort ∘ Membership.entry true = fun m => decide (m.vlanAndPort = vlanAndPort) :=
    funext (isAuxiliaryMembership_entry vlanAndPort)
  rw [hentry] at hperm
  exact hperm

private theorem filter_memberships {ms : List Membership} (hnodup : (ms.map Membership.vlanAndPort).Nodup) {m : Membership} (hm : m ∈ ms) :
    ms.filter (fun m' => decide (m'.vlanAndPort = m.vlanAndPort)) = [m] := by
  induction ms with
  | nil => cases hm
  | cons m' ms ih =>
    obtain ⟨hnew,hrest⟩ := List.nodup_cons.mp (List.map_cons ▸ hnodup)
    rcases List.mem_cons.mp hm with rfl | hm
    · rw [List.filter_cons_of_pos (by simp),List.filter_eq_nil_iff.mpr]
      intro m' hm' heq
      exact hnew (of_decide_eq_true heq ▸ List.mem_map_of_mem hm')
    · have hne : ¬ m'.vlanAndPort = m.vlanAndPort := fun heq => hnew (heq ▸ List.mem_map_of_mem hm)
      rw [List.filter_cons_of_neg (by simpa using hne),ih hrest hm]

theorem members_iff (h : createV1ModelAuxiliaryEntities given (.ok ports) = .ok auxiliary)
    (hnodup : ((memberships given).map Membership.vlanAndPort).Nodup) {m : Membership} (hm : m ∈ memberships given) :
    ((given ++ auxiliary).filter (isAuxiliaryMembership m.vlanAndPort)).map auxiliaryTaggingMode = [some m.taggingMode] ↔
      ∀ e ∈ given,isAuxiliaryMembership m.vlanAndPort e = false := by
  have hperm := filter_created h m.vlanAndPort
  rw [filter_memberships hnodup hm,List.map_singleton,List.perm_singleton] at hperm
  rw [List.filter_append,hperm,List.map_append,List.map_singleton,auxiliaryTaggingMode_entry]
  constructor
  · intro hone e he
    have hnil : given.filter (isAuxiliaryMembership m.vlanAndPort) = [] := by
      simpa using congrArg List.length hone
    exact Bool.eq_false_iff.mpr (List.filter_eq_nil_iff.mp hnil e he)
  · intro hnone
    rw [List.filter_eq_nil_iff.mpr fun e he => by simp [hnone e he],List.map_nil,List.nil_append]

theorem mem_createdKeys {k : EntityKey} : k ∈ createdKeys given ports ↔
    (∃ port ∈ ports,loopbackKey port = k) ∨
    (∃ m ∈ memberships given,membershipKey "v1model_auxiliary_vlan_membership_table" m.vlanAndPort = k) ∨
    (∃ m ∈ impliedMemberships given,membershipKey "vlan_membership_table" m.vlanAndPort = k) ∨
    ∃ rif ∈ portRifs given,admitKey rif = k := by
  simp only [createdKeys,List.map_map,List.mem_append,List.mem_map,Finset.mem_sort,Function.comp_apply,or_assoc]

/-- The auxiliary entries can be installed beside the given ones exactly if nothing meets in one of them. -/
theorem installable_iff_separate (hkeys : (given.map entityKey).Nodup)
    (h : createV1ModelAuxiliaryEntities given (.ok ports) = .ok auxiliary) :
    Installable given auxiliary ↔ Separate given ports := by
  have hcreated := created_keys h
  have hkeys_iff : ((given ++ auxiliary).map entityKey).Nodup ↔ (createdKeys given ports).Nodup ∧
      ∀ e ∈ given,∀ k ∈ createdKeys given ports,entityKey e ≠ k := by
    rw [List.map_append,List.nodup_append,hcreated.nodup_iff]
    simp only [hkeys,true_and,List.forall_mem_map,hcreated.mem_iff]
  constructor
  · rintro ⟨hall,hmembers⟩
    obtain ⟨hnodup,hne⟩ := hkeys_iff.mp hall
    obtain ⟨hmemberships,hrifs⟩ := createdKeys_nodup.mp hnodup
    refine ⟨hmemberships,hrifs,fun m hm => (members_iff h hmemberships hm).mp (hmembers m hm),?_,?_⟩
    · intro rif hrif e he
      exact hne e he _ (mem_createdKeys.mpr (.inr (.inr (.inr ⟨rif,hrif,rfl⟩))))
    · intro port hport e he
      exact hne e he _ (mem_createdKeys.mpr (.inl ⟨port,hport,rfl⟩))
  · intro hseparate
    refine ⟨hkeys_iff.mpr ⟨createdKeys_nodup.mpr ⟨hseparate.memberships,hseparate.rifs⟩,?_⟩,
      fun m hm => (members_iff h hseparate.memberships hm).mpr (hseparate.auxiliary m hm)⟩
    intro e he k hk heq
    rcases mem_createdKeys.mp hk with ⟨port,hport,rfl⟩ | ⟨m,hm,rfl⟩ | ⟨m,hm,rfl⟩ | ⟨rif,hrif,rfl⟩
    · exact hseparate.loopbacks port hport e he heq
    · have hfree := hseparate.auxiliary m hm e he
      rw [isAuxiliaryMembership_of_key heq] at hfree
      cases hfree
    · -- The entry would be a membership of its own, besides the one that the interface implies.
      have hdistinct := hseparate.memberships
      rw [memberships,List.map_append,List.nodup_append] at hdistinct
      exact hdistinct.2.2 _ (given_of_key he heq) _ (List.mem_map_of_mem hm) rfl
    · exact hseparate.admits rif hrif e he heq

def subPortRif (id vlanId port : String) : IrEntity :=
  .tableEntry {
    tableName := "router_interface_table",matches_ := [⟨"router_interface_id",.exact (.str id)⟩],
    type := .action ⟨"unicast_set_port_and_src_mac_and_vlan_id",[⟨"vlan_id",.hexStr vlanId⟩,⟨"port",.str port⟩]⟩ }

def portRif (id port srcMac : String) : IrEntity :=
  .tableEntry {
    tableName := "router_interface_table",matches_ := [⟨"router_interface_id",.exact (.str id)⟩],
    type := .action ⟨"set_port_and_src_mac",[⟨"port",.str port⟩,⟨"src_mac",.mac srcMac⟩]⟩ }

def sampleEntities : List IrEntity :=
  [createVlanMembershipTableEntry "0x002" "2" .untagged false,subPortRif "rif-1" "0x001" "1",
    portRif "rif-2" "2" "02:2a:10:00:00:03"]

theorem created_without_loopbacks {members subPorts admits : List IrEntity}
    (hmembers : createV1ModelAuxiliaryVlanMembershipTableEntries given = .ok members)
    (hsubPorts : createVlanMembershipTableEntriesForSubPortRifs given = .ok subPorts)
    (hadmits : createL3AdmitTableEntriesForRifs given = .ok admits) :
    createV1ModelAuxiliaryEntities given (.ok ∅) = .ok (members ++ subPorts ++ admits) := by
  have hports : createEgressPortLoopbackTableEntriesForPortsInLoopbackMode ∅ = [] := by
    rw [createEgressPortLoopbackTableEntriesForPortsInLoopbackMode,Finset.sort_empty,List.map_nil]
  rw [createV1ModelAuxiliaryEntities,hmembers,hsubPorts,hadmits]
  change Except.ok (createEgressPortLoopbackTableEntriesForPortsInLoopbackMode ∅ ++ members ++ subPorts ++ admits) = _
  rw [hports,List.nil_append]

theorem sample_entities_installable :
    Installable sampleEntities [createVlanMembershipTableEntry "0x002" "2" .untagged true,
      createVlanMembershipTableEntry "0x001" "1" .tagged false,createVlanMembershipTableEntry "0x001" "1" .tagged true,
      createL3AdmitTableEntry "2" "02:2a:10:00:00:03"] := by
  have hcreated : createV1ModelAuxiliaryEntities sampleEntities (.ok ∅) = .ok
      [createVlanMembershipTableEntry "0x002" "2" .untagged true,createVlanMembershipTableEntry "0x001" "1" .tagged false,
        createVlanMembershipTableEntry "0x001" "1" .tagged true,createL3AdmitTableEntry "2" "02:2a:10:00:00:03"] :=
    @created_without_loopbacks sampleEntities [createVlanMembershipTableEntry "0x002" "2" .untagged true]
      [createVlanMembershipTableEntry "0x001" "1" .tagged false,createVlanMembershipTableEntry "0x001" "1" .tagged true]
      [createL3AdmitTableEntry "2" "02:2a:10:00:00:03"] rfl rfl rfl
  refine (installable_iff_separate (by decide) hcreated).mpr ⟨?_,?_,?_,?_,?_⟩
  · decide
  · decide
  · decide
  · decide
  · simp

def interfacesOnOnePort : List IrEntity :=
  [portRif "rif-1" "1" "02:2a:10:00:00:03",portRif "rif-2" "1" "02:2a:10:00:00:03"]

/-- Two interfaces of one port with one MAC address are admitted twice. -/
theorem admitted_twice : (interfacesOnOnePort.map entityKey).Nodup ∧
    ∃ auxiliary,createV1ModelAuxiliaryEntities interfacesOnOnePort (.ok ∅) = .ok auxiliary ∧
      ¬ Installable interfacesOnOnePort auxiliary := by
  refine ⟨by decide,_,created_without_loopbacks rfl rfl rfl,fun h => ?_⟩
  exact absurd h.keys (by decide)

end SonicPins.SaiP4
