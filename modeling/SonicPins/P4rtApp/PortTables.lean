import SonicPins.P4rtApp.TranslationInverse
import SonicPins.P4rtApp.WarmBoot

/-! The port translation of the server, and the two port tables that follow it. -/
namespace SonicPins.P4rtApp
open Lib Pdpi Sonic

/-- `Table::set` for one field: a row keeps its other fields. -/
def setField (row : List FieldValue) (field : FieldValue) : List FieldValue :=
  if row.any fun f => f.1 = field.1 then row.map fun f => if f.1 = field.1 then field else f
  else row ++ [field]

def setRow (t : DbTable) (key : String) (values : List FieldValue) : DbTable :=
  t.insert key (values.foldl setField (getRow t key))

structure PortState where
  portTranslationMap : PortMap := ⟨[],List.nodup_nil,List.nodup_nil⟩
  appDb : DbTable := ∅
  appStateDb : DbTable := ∅

namespace PortState

/-- Both port tables hold the id of a port, for the component that reads them. -/
def setPort (s : PortState) (portName portId : String) : PortState :=
  { s with
    appDb := setRow s.appDb portName [("id",utf8 portId)]
    appStateDb := setRow s.appStateDb portName [("id",utf8 portId)] }

def addPortTranslation (s : PortState) (portName portId : String) (updateDbs : Bool) : PortState × Status :=
  match P4rtApp.addPortTranslation s.portTranslationMap portName portId with
  | .error status => (s,status)
  | .ok portMap =>
    let s := { s with portTranslationMap := portMap }
    (if updateDbs then s.setPort portName portId else s,.okStatus)

def removePortTranslation (s : PortState) (portName : String) : PortState × Status :=
  if portName.isEmpty then (s,invalidArgument "Cannot remove port translation without the port name.")
  else
    ({ portTranslationMap := s.portTranslationMap.drop portName,appDb := s.appDb.erase portName,
       appStateDb := s.appStateDb.erase portName },.okStatus)

/-- `ConfigDbPortTableEventHandler::HandleEvent`: a port without an id is removed. -/
def handleEvent (s : PortState) (operation key : String) (values : List (String × String)) : PortState × Status :=
  let portId := ((values.find? fun f => f.1 = "id").map Prod.snd).getD ""
  if portId.isEmpty then s.removePortTranslation key
  else if operation = "DEL" then s.removePortTranslation key
  else if operation = "SET" then s.addPortTranslation key portId true
  else (s,invalidArgument ("unexpected event: " ++ operation ++ " on " ++ key))

end PortState

/-- What the server is asked to do with its ports. -/
inductive PortCall where
  | add (portName portId : String)
  | remove (portName : String)
  | event (operation key : String) (values : List (String × String))

def PortState.perform (s : PortState) : PortCall → PortState × Status
  | .add portName portId => s.addPortTranslation portName portId true
  | .remove portName => s.removePortTranslation portName
  | .event operation key values => s.handleEvent operation key values

def performCalls (calls : List PortCall) : PortState := calls.foldl (fun s call => (s.perform call).1) {}

section Maps
variable {m : PortMap} {portName portId : String}

theorem PortMap.left_erase (m : PortMap) (portName name : String) :
    (m.erase portName).left name = if name = portName then none else m.left name := lookup_filter_ne m.entries portName name

theorem PortMap.right_eq_none {m : PortMap} {portId : String} : m.right portId = none ↔ ∀ name,m.left name ≠ some portId := by
  simp only [← PortMap.right_eq_some,Option.eq_none_iff_forall_ne_some,ne_eq]

theorem PortMap.insert_entries (hname : m.left portName = none) (hid : m.right portId = none) :
    (m.insert portName portId).entries = m.entries ++ [(portName,portId)] := by
  unfold PortMap.insert
  split
  · rfl
  · rename_i hother
    exact absurd hid (hother hname)

theorem PortMap.left_insert (hname : m.left portName = none) (hid : m.right portId = none) (name : String) :
    (m.insert portName portId).left name = if name = portName then some portId else m.left name := by
  rw [PortMap.left,PortMap.insert_entries hname hid,List.lookup_append]
  by_cases hn : name = portName
  · subst hn
    rw [if_pos rfl,show m.entries.lookup name = none from hname]
    simp
  · rw [if_neg hn,List.lookup_cons,beq_false_of_ne hn]
    simp [PortMap.left]

theorem PortMap.left_drop (m : PortMap) (portName name : String) :
    (m.drop portName).left name = if name = portName then none else m.left name := by
  unfold PortMap.drop
  split_ifs with hknown hn hn
  · rw [PortMap.left_erase,if_pos hn]
  · rw [PortMap.left_erase,if_neg hn]
  · rw [hn]
    exact Option.not_isSome_iff_eq_none.mp hknown
  · rfl

theorem PortMap.right_drop (hid : m.right portId = none) : (m.drop portName).right portId = none := by
  refine PortMap.right_eq_none.mpr fun n => ?_
  rw [PortMap.left_drop]
  split_ifs
  · simp
  · exact PortMap.right_eq_none.mp hid n

theorem PortMap.left_move (hid : m.right portId = none) (name : String) :
    ((m.drop portName).insert portName portId).left name = if name = portName then some portId else m.left name := by
  rw [PortMap.left_insert (by rw [PortMap.left_drop,if_pos rfl]) (PortMap.right_drop hid),PortMap.left_drop]
  split_ifs <;> rfl

end Maps

section Outcomes
variable {s : PortState} {portName portId : String}

def PortState.left (s : PortState) (name : String) : Option String := s.portTranslationMap.left name

def PortState.Admits (s : PortState) (portName portId : String) : Prop := ∀ other,s.left other = some portId → other = portName

/-- What the server knows of its ports: pairs that are one-to-one, and in both tables a row for each. -/
structure PortState.InStep (s : PortState) : Prop where
  nonempty : ∀ name id,s.left name = some id → name ≠ "" ∧ id ≠ ""
  twoWay : ∀ name id,s.left name = some id ↔ s.portTranslationMap.right id = some name
  oneToOne : ∀ name other id,s.left name = some id → s.left other = some id → name = other
  appDb : ∀ name,s.appDb.lookup name = (s.left name).map fun id => [("id",utf8 id)]
  appStateDb : ∀ name,s.appStateDb.lookup name = (s.left name).map fun id => [("id",utf8 id)]

private theorem addPortTranslation_refused (h : ¬ (portName ≠ "" ∧ portId ≠ "" ∧ s.Admits portName portId)) :
    ∃ e : Status,e.isOk = false ∧ addPortTranslation s.portTranslationMap portName portId = .error e := by
  unfold addPortTranslation
  by_cases hname : portName = ""
  · exact ⟨_,rfl,if_pos (by simpa using hname)⟩
  · rw [if_neg (by simpa using hname)]
    by_cases hid : portId = ""
    · exact ⟨_,rfl,if_pos (by simpa using hid)⟩
    · rw [if_neg (by simpa using hid)]
      obtain ⟨other,hother,hne⟩ : ∃ other,s.left other = some portId ∧ other ≠ portName := by
        by_contra hnone
        push Not at hnone
        exact h ⟨hname,hid,hnone⟩
      have hright : s.portTranslationMap.right portId = some other := PortMap.right_eq_some.mpr hother
      have hleft : s.portTranslationMap.left portName ≠ some portId := by
        intro hsame
        exact hne (Option.some_inj.mp (hright.symm.trans (PortMap.right_eq_some.mpr hsame)))
      rw [if_neg hleft,hright]
      exact ⟨_,rfl,rfl⟩

theorem add_refused (h : ¬ (portName ≠ "" ∧ portId ≠ "" ∧ s.Admits portName portId)) :
    ∃ e : Status,e.isOk = false ∧ s.addPortTranslation portName portId true = (s,e) := by
  obtain ⟨e,he,hrefused⟩ := addPortTranslation_refused h
  exact ⟨e,he,by rw [PortState.addPortTranslation,hrefused]⟩

theorem add_accepted (hname : portName ≠ "") (hid : portId ≠ "") (hfree : s.Admits portName portId) :
    ∃ portMap : PortMap,(∀ name,portMap.left name = if name = portName then some portId else s.left name) ∧
      s.addPortTranslation portName portId true =
        (PortState.setPort { s with portTranslationMap := portMap } portName portId,.okStatus) := by
  unfold PortState.addPortTranslation addPortTranslation
  simp only [String.isEmpty_iff,if_neg hname,if_neg hid,if_true]
  by_cases hleft : s.portTranslationMap.left portName = some portId
  · refine ⟨s.portTranslationMap,fun name => ?_,by rw [if_pos hleft]⟩
    split_ifs with hn
    · rw [hn]
      exact hleft
    · rfl
  · have hright : s.portTranslationMap.right portId = none := by
      refine PortMap.right_eq_none.mpr fun other hother => hleft ?_
      rw [← hfree other hother]
      exact hother
    rw [if_neg hleft,hright]
    exact ⟨_,PortMap.left_move hright,rfl⟩

theorem lookup_setRow {t : DbTable} {ids : String → Option String} (ht : ∀ name,t.lookup name = (ids name).map fun id => [("id",utf8 id)])
    (portName portId name : String) : (setRow t portName [("id",utf8 portId)]).lookup name =
      (if name = portName then some portId else ids name).map fun id => [("id",utf8 id)] := by
  have hrow : [("id",utf8 portId)].foldl setField (getRow t portName) = [("id",utf8 portId)] := by
    rw [getRow,ht portName]
    cases ids portName <;> rfl
  rw [setRow,hrow]
  split_ifs with hn
  · rw [hn,AList.lookup_insert]
    rfl
  · rw [AList.lookup_insert_ne hn]
    exact ht name

private theorem inStep_assign (h : s.InStep) (hname : portName ≠ "") (hid : portId ≠ "") {portMap : PortMap}
    (hmap : ∀ name,portMap.left name = if name = portName then some portId else s.left name) :
    (PortState.setPort { s with portTranslationMap := portMap } portName portId).InStep := by
  refine ⟨fun name id hleft => ?_,fun name id => PortMap.right_eq_some.symm,fun name other id hleft hother => ?_,fun name =>
    ?_,fun name => ?_⟩
  · rw [PortState.left,PortState.setPort,hmap] at hleft
    split_ifs at hleft with hn
    · rw [hn,← Option.some_inj.mp hleft]
      exact ⟨hname,hid⟩
    · exact h.nonempty name id hleft
  · exact Option.some_inj.mp ((PortMap.right_eq_some.mpr hleft).symm.trans (PortMap.right_eq_some.mpr hother))
  · rw [PortState.left,PortState.setPort,hmap]
    exact lookup_setRow h.appDb portName portId name
  · rw [PortState.left,PortState.setPort,hmap]
    exact lookup_setRow h.appStateDb portName portId name

private theorem inStep_remove (h : s.InStep) (portName : String) : PortState.InStep {
    portTranslationMap := s.portTranslationMap.drop portName,appDb := s.appDb.erase portName,
    appStateDb := s.appStateDb.erase portName } := by
  have herase : ∀ t : DbTable,(∀ name,t.lookup name = (s.left name).map fun id => [("id",utf8 id)]) → ∀ name,
      (t.erase portName).lookup name = ((s.portTranslationMap.drop portName).left name).map fun id => [("id",utf8 id)] := by
    intro t ht name
    rw [PortMap.left_drop]
    split_ifs with hn
    · rw [hn,AList.lookup_erase]
      rfl
    · rw [AList.lookup_erase_ne hn]
      exact ht name
  refine ⟨fun name id hleft => ?_,fun name id => PortMap.right_eq_some.symm,fun name other id hleft hother => ?_,
    herase s.appDb h.appDb,herase s.appStateDb h.appStateDb⟩
  · rw [PortState.left,PortMap.left_drop] at hleft
    split_ifs at hleft
    exact h.nonempty name id hleft
  · exact Option.some_inj.mp ((PortMap.right_eq_some.mpr hleft).symm.trans (PortMap.right_eq_some.mpr hother))

theorem add_isOk_iff : (s.addPortTranslation portName portId true).2.isOk = true ↔
    portName ≠ "" ∧ portId ≠ "" ∧ s.Admits portName portId := by
  constructor
  · intro hok
    by_contra h
    obtain ⟨e,he,hadd⟩ := add_refused h
    rw [hadd] at hok
    exact Bool.false_ne_true (he.symm.trans hok)
  · rintro ⟨hname,hid,hfree⟩
    obtain ⟨portMap,-,hadd⟩ := add_accepted hname hid hfree
    rw [hadd]
    rfl

private theorem left_of_add (hok : (s.addPortTranslation portName portId true).2.isOk = true) (name : String) :
    (s.addPortTranslation portName portId true).1.left name = if name = portName then some portId else s.left name := by
  obtain ⟨hname,hid,hfree⟩ := add_isOk_iff.mp hok
  obtain ⟨portMap,hmap,hadd⟩ := add_accepted hname hid hfree
  rw [hadd]
  exact hmap name

theorem remove_eq (hname : portName ≠ "") : s.removePortTranslation portName = ({
    portTranslationMap := s.portTranslationMap.drop portName,appDb := s.appDb.erase portName,
    appStateDb := s.appStateDb.erase portName },.okStatus) := if_neg (by simpa using hname)

private theorem left_of_remove (hname : portName ≠ "") (name : String) :
    (s.removePortTranslation portName).1.left name = if name = portName then none else s.left name := by
  rw [remove_eq hname]
  exact PortMap.left_drop s.portTranslationMap portName name

end Outcomes

/-- A call keeps everything in step, and changes nothing if it fails. -/
def KeepsInStep (call : PortState → PortState × Status) : Prop :=
  ∀ s : PortState,((call s).2.isOk = false → (call s).1 = s) ∧ (s.InStep → (call s).1.InStep)

theorem add_keepsInStep (portName portId : String) : KeepsInStep fun s => s.addPortTranslation portName portId true := by
  intro s
  by_cases h : portName ≠ "" ∧ portId ≠ "" ∧ s.Admits portName portId
  · obtain ⟨portMap,hmap,hadd⟩ := add_accepted h.1 h.2.1 h.2.2
    simp only [hadd]
    exact ⟨fun hfail => absurd hfail (by decide),fun hs => inStep_assign hs h.1 h.2.1 hmap⟩
  · obtain ⟨e,-,hadd⟩ := add_refused h
    simp only [hadd]
    exact ⟨fun _ => trivial,id⟩

theorem remove_keepsInStep (portName : String) : KeepsInStep fun s => s.removePortTranslation portName := by
  intro s
  by_cases hname : portName = ""
  · have hrefused : (s.removePortTranslation portName).1 = s := by
      rw [PortState.removePortTranslation,if_pos (by simpa using hname)]
    simp only [hrefused]
    exact ⟨fun _ => trivial,id⟩
  · simp only [remove_eq hname]
    exact ⟨fun hfail => absurd hfail (by decide),fun hs => inStep_remove hs portName⟩

private theorem handleEvent_keepsInStep (operation key : String) (values : List (String × String)) :
    KeepsInStep fun s => s.handleEvent operation key values := by
  intro s
  simp only [PortState.handleEvent]
  split_ifs
  · exact remove_keepsInStep key s
  · exact remove_keepsInStep key s
  · exact add_keepsInStep key _ s
  · exact ⟨fun _ => rfl,id⟩

theorem perform_keepsInStep (call : PortCall) : KeepsInStep fun s => s.perform call := by
  cases call with
  | add portName portId => exact add_keepsInStep portName portId
  | remove portName => exact remove_keepsInStep portName
  | event operation key values => exact handleEvent_keepsInStep operation key values

private theorem performCalls_inStep (calls : List PortCall) : (performCalls calls).InStep := by
  have hrun : ∀ s : PortState,s.InStep → (calls.foldl (fun s call => (s.perform call).1) s).InStep := by
    induction calls with
    | nil => exact fun s hs => hs
    | cons call calls ih => exact fun s hs => ih _ ((perform_keepsInStep call s).2 hs)
  refine hrun {} ⟨?_,fun _ _ => PortMap.right_eq_some.symm,?_,fun _ => rfl,fun _ => rfl⟩
  · intro name id h
    cases h
  · intro name other id h
    cases h

/-- After any calls: the ports are in step, a call that fails changes nothing, an id is refused exactly if
it is empty or another name has it, and a name can take an id over from one that was removed or moved. -/
theorem port_translation_in_step (calls : List PortCall) :
    (performCalls calls).InStep ∧
    (∀ call,((performCalls calls).perform call).2.isOk = false → ((performCalls calls).perform call).1 = performCalls calls) ∧
    (∀ portName portId,portName ≠ "" → (((performCalls calls).perform (.add portName portId)).2.isOk = false ↔
      portId = "" ∨ ∃ other,other ≠ portName ∧ (performCalls calls).left other = some portId)) ∧
    (∀ portName portId holder,portName ≠ "" → (performCalls calls).left holder = some portId →
      (((((performCalls calls).perform (.remove holder)).1).perform (.add portName portId)).2.isOk = true ∧
      ∀ newId,newId ≠ portId → ((performCalls calls).perform (.add holder newId)).2.isOk = true →
        ((((performCalls calls).perform (.add holder newId)).1).perform (.add portName portId)).2.isOk = true)) := by
  have hs := performCalls_inStep calls
  generalize performCalls calls = s at hs
  refine ⟨hs,fun call => (perform_keepsInStep call s).1,fun portName portId hname => ?_,fun portName portId holder hname hholder => ?_⟩
  · have hiff : (s.perform (.add portName portId)).2.isOk = true ↔ _ := add_isOk_iff
    rw [← Bool.not_eq_true,hiff]
    simp only [PortState.Admits]
    grind
  · obtain ⟨hholderName,hid⟩ := hs.nonempty holder portId hholder
    constructor
    · refine add_isOk_iff.mpr ⟨hname,hid,fun other hother => ?_⟩
      have hleft : (s.removePortTranslation holder).1.left other = some portId := hother
      rw [left_of_remove hholderName] at hleft
      split_ifs at hleft with hne
      exact absurd (hs.oneToOne other holder portId hleft hholder) hne
    · intro newId hnew hok
      refine add_isOk_iff.mpr ⟨hname,hid,fun other hother => ?_⟩
      have hleft : (s.addPortTranslation holder newId true).1.left other = some portId := hother
      rw [left_of_add hok] at hleft
      split_ifs at hleft with hne
      · exact absurd (Option.some_inj.mp hleft) hnew
      · exact absurd (hs.oneToOne other holder portId hleft hholder) hne

end SonicPins.P4rtApp
