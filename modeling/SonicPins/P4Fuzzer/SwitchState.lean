import SonicPins.P4rtApp.ResourceUtilization
import SonicPins.Pdpi.P4InfoConsistency

/-! The fuzzer's picture of a switch: the entries of every table in two maps, the
multicast groups, and current and peak resource statistics. Sums are exact. -/
namespace SonicPins.P4Fuzzer
open Lib Pdpi P4rtApp

structure ResourceStatistics where
  entries : Int := 0
  totalMembers : Int := 0
  totalWeight : Int := 0
  deriving DecidableEq

structure PeakResourceStatistics where
  entries : Int := 0
  totalMembers : Int := 0
  maxMembersPerGroup : Int := 0
  totalWeight : Int := 0
  maxGroupWeight : Int := 0
  deriving DecidableEq

/-- The ordered and the unordered copy of the entries of one table, with its
statistics. -/
structure EntryTable (κ ε : Type) where
  ordered : AList (fun _ : κ => ε) := ∅
  unordered : AList (fun _ : κ => ε) := ∅
  current : ResourceStatistics := {}
  peak : PeakResourceStatistics := {}

/-- The members of `SwitchState`, by table. Only the tables of the P4Info are in the
maps; looking up any other one ends the process. -/
structure SwitchState where
  irP4Info : AcceptedP4Info
  tables : UInt32 → EntryTable TableEntryKey TableEntry := fun _ => {}
  multicast : EntryTable UInt32 MulticastGroupEntry := {}
  currentEntries : Int := 0
  peakEntriesSeen : Int := 0

/-- How a call ends: with a state and a status, or with the process. -/
abbrev Outcome := Option (SwitchState × Status)

/-- `RETURN_IF_ERROR` between two parts of a call. -/
def Outcome.andThen (o : Outcome) (next : SwitchState → Outcome) : Outcome :=
  match o with
  | none => none
  | some (s,status) => if status.isOk then next s else some (s,status)

def EntryTable.clear {κ ε : Type} (t : EntryTable κ ε) : EntryTable κ ε := { peak := t.peak }

def SwitchState.clearTableEntries (s : SwitchState) : SwitchState :=
  { s with tables := fun id => (s.tables id).clear,multicast := s.multicast.clear,currentEntries := 0 }

section Canonical
variable [InetText]

/-- A translation to IR and back. -/
def canonicalizeEntity (info : IrP4Info) (entity : Entity) (keyOnly : Bool) : StatusOr Entity := do
  let ir ← (piEntityToIr info entity { keyOnly := keyOnly }).mapError (·.annotate "Could not canonicalize: PiToIr Error\n")
  (irEntityToPi info ir { keyOnly := keyOnly }).mapError (·.annotate "Could not canonicalize: IrToPi Error\n")

def canonicalizeTableEntry (info : IrP4Info) (entry : TableEntry) (keyOnly : Bool) : StatusOr TableEntry := do
  let ir ← (piTableEntryToIr info entry { keyOnly := keyOnly }).mapError
    (·.annotate "Could not canonicalize: PiToIr Error\n")
  (irTableEntryToPi info ir { keyOnly := keyOnly }).mapError (·.annotate "Could not canonicalize: IrToPi Error\n")

end Canonical

section Statistics

/-- The fuzzer's `ActionProfileResources`. -/
structure GroupResources where
  actions : Int := 0
  totalWeight : Int := 0
  deriving DecidableEq

def getAllActionProfileResourceForTableEntry (e : TableEntry) : GroupResources :=
  ⟨(piActionSetWeights e).length,weightSum (piActionSetWeights e)⟩

def ResourceStatistics.add (c : ResourceStatistics) (sign : Int) (group : Option GroupResources) : ResourceStatistics :=
  match group with
  | none => { c with entries := c.entries + sign }
  | some g => ⟨c.entries + sign,c.totalMembers + sign * g.actions,c.totalWeight + sign * g.totalWeight⟩

/-- The peaks after the current statistics changed, with the group that changed them. -/
def PeakResourceStatistics.observe (p : PeakResourceStatistics) (c : ResourceStatistics) (group : Option GroupResources) :
    PeakResourceStatistics :=
  match group with
  | none => { p with entries := max p.entries c.entries }
  | some g => ⟨max p.entries c.entries,max p.totalMembers c.totalMembers,max p.maxMembersPerGroup g.actions,
      max p.totalWeight c.totalWeight,max p.maxGroupWeight g.totalWeight⟩

def EntryTable.record {κ ε : Type} (t : EntryTable κ ε) (sign : Int) (group : Option GroupResources) : EntryTable κ ε :=
  { t with current := t.current.add sign group,peak := t.peak.observe (t.current.add sign group) group }

/-- An entry more or less, in its table and in total. -/
def SwitchState.recordEntry (s : SwitchState) (id : UInt32) (sign : Int) (group : Option GroupResources) : SwitchState :=
  { s with
    tables := Function.update s.tables id ((s.tables id).record sign group),
    currentEntries := s.currentEntries + sign,
    peakEntriesSeen := max s.peakEntriesSeen (s.currentEntries + sign) }

def nonExistentStatistics (type kind : String) : Status :=
  invalidArgument (" Cannot update resource statistics for " ++ type ++ " of non-existent " ++ kind ++ ". ")

def unspecifiedStatistics (type : UpdateType) : Status :=
  ⟨.internal,"Update type must be specified when updating resource statistics." ++ Sonic.UpdateType.typeName type⟩

variable (s : SwitchState)

def groupOf (table : IrTableDefinition) (e : TableEntry) : Option GroupResources :=
  if table.usesOneshot then some (getAllActionProfileResourceForTableEntry e) else none

def insertStatistics (table : IrTableDefinition) (entry : TableEntry) : SwitchState :=
  s.recordEntry entry.tableId 1 (groupOf table entry)

/-- The resources of a group are those of the stored entry. -/
def deleteStatistics (table : IrTableDefinition) (entry : TableEntry) : SwitchState × Status :=
  if table.usesOneshot then
    match (s.tables entry.tableId).unordered.lookup entry.key with
    | none => (s,nonExistentStatistics "DELETE" "table entry")
    | some stored => (s.recordEntry entry.tableId (-1) (groupOf table stored),.okStatus)
  else (s.recordEntry entry.tableId (-1) none,.okStatus)

def updateResourceStatistics (entry : TableEntry) (type : UpdateType) : Outcome :=
  match s.irP4Info.tablesById.lookup entry.tableId with
  | none => none
  | some table => match type with
    | .insert => some (insertStatistics s table entry,.okStatus)
    | .delete => some (deleteStatistics s table entry)
    | .modify => match (s.tables entry.tableId).unordered.lookup entry.key with
      | none => some (s,nonExistentStatistics "MODIFY" "table entry")
      | some stored => Outcome.andThen (some (deleteStatistics s table stored)) fun s =>
          some (insertStatistics s table entry,.okStatus)
    | other => some (s,unspecifiedStatistics other)

/-- The statistics of multicast groups have no weights. -/
def EntryTable.recordGroup {κ ε : Type} (t : EntryTable κ ε) (sign replicas seen : Int) : EntryTable κ ε :=
  let current := { t.current with entries := t.current.entries + sign,totalMembers := t.current.totalMembers + sign * replicas }
  { t with
    current := current,
    peak := { t.peak with
      entries := max t.peak.entries current.entries,
      totalMembers := max t.peak.totalMembers current.totalMembers,
      maxMembersPerGroup := max t.peak.maxMembersPerGroup seen } }

def SwitchState.recordMulticast (sign replicas seen : Int) : SwitchState :=
  { s with
    multicast := s.multicast.recordGroup sign replicas seen,
    currentEntries := s.currentEntries + sign,
    peakEntriesSeen := max s.peakEntriesSeen (s.currentEntries + sign) }

def insertMulticastStatistics (entry : MulticastGroupEntry) : SwitchState :=
  s.recordMulticast 1 entry.replicas.length entry.replicas.length

def deleteMulticastStatistics (entry : MulticastGroupEntry) : SwitchState × Status :=
  match s.multicast.unordered.lookup entry.multicastGroupId with
  | none => (s,nonExistentStatistics "DELETE" "multicast group table entry")
  | some stored => (s.recordMulticast (-1) stored.replicas.length entry.replicas.length,.okStatus)

def updateMulticastResourceStatistics (entry : MulticastGroupEntry) (type : UpdateType) : SwitchState × Status :=
  match type with
  | .insert => (insertMulticastStatistics s entry,.okStatus)
  | .delete => deleteMulticastStatistics s entry
  | .modify => match s.multicast.unordered.lookup entry.multicastGroupId with
    | none => (s,nonExistentStatistics "MODIFY" "multicast group table entry")
    | some stored =>
      let (s,status) := deleteMulticastStatistics s stored
      if status.isOk then (insertMulticastStatistics s entry,.okStatus) else (s,status)
  | other => (s,unspecifiedStatistics other)

end Statistics

def outOfSync (inOrdered inUnordered : Bool) : Status :=
  let presence (present : Bool) := if present then "present" else "not present"
  ⟨.internal,"Ordered Table and Unordered Table out of sync. Entry " ++ presence inOrdered ++ " in Ordered Table but " ++
    presence inUnordered ++ " in Unordered Table.\n"⟩

/-- `insert` of a map, which keeps an entry that is there. -/
def insertNew {κ ε : Type} [DecidableEq κ] (m : AList (fun _ : κ => ε)) (k : κ) (e : ε) : AList (fun _ : κ => ε) :=
  if (m.lookup k).isSome then m else m.insert k e

/-- The change of both copies, and whether the entry had to be there. -/
def EntryTable.store {κ ε : Type} [DecidableEq κ] (t : EntryTable κ ε) (type : UpdateType) (k : κ) (e : ε) :
    Option (EntryTable κ ε × Status) :=
  let inOrdered := (t.ordered.lookup k).isSome
  let inUnordered := (t.unordered.lookup k).isSome
  let checked (t : EntryTable κ ε) (fails : Bool) (status : Status) : EntryTable κ ε × Status :=
    (t,if inOrdered ≠ inUnordered then outOfSync inOrdered inUnordered else if fails then status else .okStatus)
  match type with
  | .insert => some (checked { t with ordered := insertNew t.ordered k e,unordered := insertNew t.unordered k e } inOrdered
      (invalidArgument "Cannot install the same table entry multiple times. Update: "))
  | .delete => some (checked { t with ordered := t.ordered.erase k,unordered := t.unordered.erase k } (!inOrdered)
      (invalidArgument "Cannot erase non-existent table entries. Update: "))
  | .modify => some (checked { t with ordered := t.ordered.insert k e,unordered := t.unordered.insert k e } (!inOrdered)
      (invalidArgument "Cannot modify a non-existing update. Update: "))
  | _ => none

variable [InetText]

/-- `canonical_entity.packet_replication_engine_entry().multicast_group_entry()`. -/
def multicastGroupEntry : Entity → MulticastGroupEntry
  | .packetReplicationEngineEntry (.multicastGroupEntry e) => e
  | _ => {}

def SwitchState.applyMulticastUpdate (s : SwitchState) (update : Update) : Outcome :=
  match canonicalizeEntity s.irP4Info.toIrP4Info update.entity (update.type = .delete) with
  | .error status => some (s,status)
  | .ok canonical =>
    let entry := multicastGroupEntry canonical
    Outcome.andThen (some (updateMulticastResourceStatistics s entry update.type)) fun s =>
      (s.multicast.store update.type entry.multicastGroupId entry).map fun r => ({ s with multicast := r.1 },r.2)

def SwitchState.applyTableUpdate (s : SwitchState) (type : UpdateType) (entry : TableEntry) : Outcome :=
  match s.irP4Info.tablesById.lookup entry.tableId with
  | none => none
  | some _ => match canonicalizeTableEntry s.irP4Info.toIrP4Info entry (type = .delete) with
    | .error status => some (s,status)
    | .ok canonical => Outcome.andThen (updateResourceStatistics s canonical type) fun s =>
        ((s.tables entry.tableId).store type canonical.key canonical).map fun r =>
          ({ s with tables := Function.update s.tables entry.tableId r.1 },r.2)

def SwitchState.applyUpdate (s : SwitchState) (update : Update) : Outcome :=
  match update.entity with
  | .packetReplicationEngineEntry (.multicastGroupEntry _) => s.applyMulticastUpdate update
  | entity => s.applyTableUpdate update.type (entityTableEntry entity)

def SwitchState.insertAll (s : SwitchState) : List Entity → Outcome
  | [] => some (s,.okStatus)
  | entity :: entities => Outcome.andThen (s.applyUpdate ⟨.insert,entity⟩) fun s => s.insertAll entities

def SwitchState.setEntities (s : SwitchState) (entities : List Entity) : Outcome := s.clearTableEntries.insertAll entities

end SonicPins.P4Fuzzer
