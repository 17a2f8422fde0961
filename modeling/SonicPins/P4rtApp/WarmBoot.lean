import SonicPins.P4rtApp.PipelineConfig

/-! The software state of the switch, restored after a warm boot. -/
namespace SonicPins.P4rtApp
open Lib Pdpi Sonic

section Maps
variable {α β : Type}

theorem nodup_append_new {l : List α} (h : l.Nodup) {a : α} (ha : a ∉ l) : (l ++ [a]).Nodup :=
  h.append (List.nodup_singleton a) (List.disjoint_singleton.mpr ha)

theorem not_mem_of_lookup_eq_none [DecidableEq α] {l : List (α × β)} {a : α} (h : l.lookup a = none) : a ∉ l.map Prod.fst := by
  intro hmem
  obtain ⟨p,hp,rfl⟩ := List.mem_map.mp hmem
  simpa using List.lookup_eq_none_iff.mp h p hp

theorem not_mem_snd_of_lookup_eq_none [DecidableEq β] {l : List (α × β)} {b : β} (h : (l.map Prod.swap).lookup b = none) :
    b ∉ l.map Prod.snd := by
  simpa [Function.comp_def] using not_mem_of_lookup_eq_none h

end Maps

def PortMap.erase (m : PortMap) (portName : String) : PortMap where
  entries := m.entries.filter fun p => p.1 ≠ portName
  leftNodup := m.leftNodup.sublist (List.filter_sublist.map Prod.fst)
  rightNodup := m.rightNodup.sublist (List.filter_sublist.map Prod.snd)

/-- Insertion into the two-way map, which refuses a pair without a word if one of its sides is known. -/
def PortMap.insert (m : PortMap) (portName portId : String) : PortMap :=
  match hname : m.left portName,hid : m.right portId with
  | none,none => {
      entries := m.entries ++ [(portName,portId)]
      leftNodup := by
        rw [List.map_append]
        exact nodup_append_new m.leftNodup (not_mem_of_lookup_eq_none hname)
      rightNodup := by
        rw [List.map_append]
        exact nodup_append_new m.rightNodup (not_mem_snd_of_lookup_eq_none hid) }
  | _,_ => m

/-- The map without a name that it may not have. -/
def PortMap.drop (m : PortMap) (portName : String) : PortMap :=
  if (m.left portName).isSome then m.erase portName else m

/-- `AddPortTranslation` on the map: adds a pair, moves a name to a free id, or refuses an id that is in use. -/
def addPortTranslation (m : PortMap) (portName portId : String) : StatusOr PortMap :=
  let cannotAdd := "Cannot add port translation \x7b'" ++ portName ++ "', '" ++ portId ++ "'\x7d"
  if portName.isEmpty then .error (invalidArgument (cannotAdd ++ " without a port name."))
  else if portId.isEmpty then .error (invalidArgument (cannotAdd ++ " without a port ID."))
  else if m.left portName = some portId then .ok m
  else match m.right portId with
    | some name => .error ⟨.alreadyExists,cannotAdd ++ ". Port ID is already in use for translation \x7b'" ++ name ++ "', '" ++
        portId ++ "'\x7d."⟩
    | none => .ok ((m.drop portName).insert portName portId)

def addPortTranslations : List (String × String) → PortMap → PortMap × StatusOr Unit
  | [],m => (m,.ok ())
  | (portName,portId) :: rest,m => match addPortTranslation m portName portId with
    | .error status => (m,.error status)
    | .ok m => addPortTranslations rest m

/-- The translator with a queue whose name and id are new. -/
def QueueTranslator.extend (t : QueueTranslator) (name : String) (id : Int32) (hname : t.nameToId name = none)
    (hid : t.idToName id = none) : QueueTranslator where
  entries := t.entries ++ [(name,id)]
  nameNodup := by
    rw [List.map_append]
    exact nodup_append_new t.nameNodup (not_mem_of_lookup_eq_none hname)
  idNodup := by
    rw [List.map_append]
    exact nodup_append_new t.idNodup (not_mem_snd_of_lookup_eq_none hid)

def QueueTranslator.empty : QueueTranslator := ⟨[],List.nodup_nil,List.nodup_nil⟩

def addQueue (t : QueueTranslator) (pair : String × String) : StatusOr QueueTranslator :=
  match simpleAtoi32 pair.2 with
  | none => .error (invalidArgument ("Non-integer ID for Queue Name/ID pair: [" ++ pair.1 ++ " : " ++ pair.2 ++ "]"))
  | some n => match hname : t.nameToId pair.1 with
    | some _ => .error (invalidArgument ("Duplicate IDs found for Queue Name '" ++ pair.1 ++ "'"))
    | none => match hid : t.idToName (Int32.ofInt n) with
      | some _ => .error (invalidArgument ("Duplicate Names found for Queue ID '" ++ decimal n ++ "'"))
      | none => .ok (t.extend pair.1 (Int32.ofInt n) hname hid)

def QueueTranslator.create (nameIdPairs : List (String × String)) : StatusOr QueueTranslator := nameIdPairs.foldlM addQueue .empty

/-- What is restored from the databases: whether a P4Info was configured, the ids of ports and queues, the device id. -/
structure WarmBootState where
  configPresent : Bool := true
  portIds : List (String × String) := []
  cpuQueueIds : List (String × String) := []
  frontPanelQueueIds : List (String × String) := []
  deviceId : Option UInt64 := none

/-- Two steps, the second of which is taken if the first ends well. -/
def andThen {α : Type} (r : ServerState × Fallible α) (next : ServerState → α → ServerState × Fallible Unit) :
    ServerState × Fallible Unit :=
  match r with
  | (s,.error failure) => (s,.error failure)
  | (s,.ok a) => next s a

def restorePorts (boot : WarmBootState) (s : ServerState) : ServerState × Fallible Unit :=
  let r := addPortTranslations boot.portIds s.translation.portTranslationMap
  ({ s with translation := { s.translation with portTranslationMap := r.1 } },orFail r.2)

/-- A translator is replaced only by queues that are configured. -/
def restoreTranslator (queueIds : List (String × String)) (assign : QueueTranslator → SwitchTranslation) (s : ServerState) :
    ServerState × Fallible Unit :=
  if queueIds.isEmpty then (s,.ok ())
  else match QueueTranslator.create queueIds with
    | .error status => (s,.error (.status status))
    | .ok translator => ({ s with translation := assign translator },.ok ())

def restoreDeviceId (boot : WarmBootState) (s : ServerState) : ServerState × Fallible Unit :=
  match boot.deviceId with
  | none => (s,.ok ())
  | some id => ({ s with controllers := (setDeviceId id s.controllers).1 },ofStatus (setDeviceId id s.controllers).2)

/-- The members that the databases of the configuration hold. -/
def restoreMembers (boot : WarmBootState) (s : ServerState) : ServerState × Fallible Unit :=
  andThen (restorePorts boot s) fun s _ =>
    andThen (restoreTranslator boot.cpuQueueIds (fun t => { s.translation with cpuQueueTranslator := t }) s) fun s _ =>
      andThen (restoreTranslator boot.frontPanelQueueIds (fun t => { s.translation with frontPanelQueueTranslator := t }) s) fun s _ =>
        restoreDeviceId boot s

variable [InetText] (fs : PushFunctions) (env : PushEnvironment)

/-- The config of the saved file, adopted without telling the lower layers. -/
def restoreConfig (path : String) (s : ServerState) (db : DbSession) : ServerState × Fallible DbSession :=
  match env.readProtoFromFile path with
  | .error status => (s,.error (.status status))
  | .ok saved =>
    let r := reconcileAndCommitPipelineConfig fs env false (some saved) s db
    (r.1,r.2.mapError fun
      | .status status => .status ⟨.internal,status.message⟩
      | .thrown what => .thrown what)

/-- Restores the pipeline from the saved config, and the entity cache from the AppDb. -/
def rebuildSwStateAfterWarmboot (boot : WarmBootState) (s : ServerState) (db : DbSession) : ServerState × Fallible Unit :=
  if !boot.configPresent then (s,.ok ())
  else match env.forwardingConfigFullPath with
    | none => (s,.error (.status ⟨.failedPrecondition,"p4info file path is not set during warm reboot reconciliation"⟩))
    | some path => andThen (restoreConfig fs env path s db) fun s db =>
        andThen (restoreMembers boot s) fun s _ => rebuildCache s db.db

end SonicPins.P4rtApp
