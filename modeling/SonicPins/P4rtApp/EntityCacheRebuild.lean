import SonicPins.P4rtApp.Write
import SonicPins.Sonic.AppDbReading

/-! The entity cache, rebuilt from the contents of the AppDb. -/
namespace SonicPins.P4rtApp
open Lib Pdpi Sonic

def cacheEntity (cache : EntityCache) (e : Entity) : Fallible EntityCache :=
  match h : makeEntityKey e with
  | .error status => .error (.status status)
  | .ok key => .ok (cache.insert key e h)

variable [InetText] (info : IrP4Info) (translation : SwitchTranslation)

/-- The PI form of an entry of the AppDb, with the prefix of the library in its errors. -/
def irTableEntryToCached (ir : IrTableEntry) : Fallible TableEntry :=
  orFail ((irTableEntryToPi info ir {}).mapError fun s => ⟨s.code,"[P4RT/PDPI] " ++ s.message⟩)

def translateForController (ir : IrTableEntry) : Fallible IrTableEntry :=
  orFail (translateTableEntry (translation.options .forController info) ir)

/-- Counters are not cached. -/
def cacheP4TableEntry (db : AppDb) (cache : EntityCache) (key : String) : Fallible EntityCache := do
  let read ← readP4TableEntry info db key
  let ir ← translateForController info translation read
  let pi ← irTableEntryToCached info ir
  cacheEntity cache (.tableEntry { pi with counterData := none,meterCounterData := none })

def cacheVrfEntry (cache : EntityCache) (ir : IrTableEntry) : Fallible EntityCache := do
  let pi ← irTableEntryToCached info ir
  cacheEntity cache (.tableEntry pi)

/-- Entries of the VLAN tables, with what the caller adds to a failed translation. -/
def cacheTranslatedEntry (added : Status → Status) (cache : EntityCache) (ir : IrTableEntry) : Fallible EntityCache := do
  let ir ← orFail ((translateTableEntry (translation.options .forController info) ir).mapError added)
  let pi ← irTableEntryToCached info ir
  cacheEntity cache (.tableEntry pi)

def cacheVlanEntry : EntityCache → IrTableEntry → Fallible EntityCache :=
  cacheTranslatedEntry info translation fun s => s.annotate " Entry: "

def cacheVlanMemberEntry : EntityCache → IrTableEntry → Fallible EntityCache := cacheTranslatedEntry info translation id

def cacheReplicationEntry (cache : EntityCache) (ir : IrPacketReplicationEngineEntry) : Fallible EntityCache := do
  let ir ← orFail (translatePacketReplicationEntry (translation.options .forController info) ir)
  let pi ← orFail ((irPacketReplicationEngineEntryToPi ir {}).mapError fun s => ⟨s.code,"[P4RT/PDPI] " ++ s.message⟩)
  cacheEntity cache (.packetReplicationEngineEntry pi)

def emptyCache : EntityCache where
  entries := ∅
  keyed := by
    intro k e h
    cases h

def rebuildEntityEntryCache (db : AppDb) : Fallible EntityCache := do
  let cache ← (getAllP4TableEntryKeys db.p4rt).foldlM (cacheP4TableEntry info translation db) emptyCache
  let cache ← (getAllAppDbVrfTableEntries db.vrf).foldlM (cacheVrfEntry info) cache
  let vlans ← orFail (getAllAppDbVlanTableEntries db.vlan)
  let cache ← vlans.foldlM (cacheVlanEntry info translation) cache
  let members ← orFail (getAllAppDbVlanMemberTableEntries db.vlanMember)
  let cache ← members.foldlM (cacheVlanMemberEntry info translation) cache
  let groups ← getAllAppDbPacketReplicationTableEntries db.p4rt
  groups.foldlM (cacheReplicationEntry info translation) cache

end SonicPins.P4rtApp
