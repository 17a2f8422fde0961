import SonicPins.Pdpi.ClientBatching
import SonicPins.Pdpi.GarbageCollection
import SonicPins.Pdpi.ReferenceMirroring

/-! The client installs entities after those that they refer to, and deletes them before. -/
namespace SonicPins.Pdpi
open Lib References Relation

variable {refs : List IrTableReference}
variable (session : P4RuntimeSession) (answer : List WriteRequest → WriteRequest → Status) (info : IrP4Info) (entities : List Entity)

def createPiUpdates (type : UpdateType) (entities : List Entity) : List Update := entities.map fun e => ⟨type,e⟩

def installPiEntities : List WriteRequest × Status :=
  let sorted := stableSortEntities info entities
  if sorted.1.isOk then sendPiUpdates session answer (createPiUpdates .insert sorted.2) (some (5000 : Nat)) else ([],sorted.1)

/-- From the entities that are read back on. The version of the pipeline tells how the switch treats a failed update. -/
def clearEntities (usesFailOnFirst : Bool) : List WriteRequest × Status :=
  if entities.isEmpty then ([],.okStatus)
  else
    let sorted := stableSortEntities info entities
    if sorted.1.isOk then
      let updates := createPiUpdates .delete sorted.2.reverse
      if usesFailOnFirst then sendPiUpdates session answer updates (some (5000 : Nat))
      else splitSortedUpdatesIntoBatchesAndSend session answer info updates (some (5000 : Nat))
    else ([],sorted.1)

variable {session answer info entities}

private theorem installPiEntities_eq : installPiEntities session answer info entities =
    sendPiUpdates session answer (createPiUpdates .insert (stableSortEntities info entities).2) (some (5000 : Nat)) := by
  rw [installPiEntities]
  exact if_pos rfl

theorem clearEntities_eq (hne : entities ≠ []) (usesFailOnFirst : Bool) :
    clearEntities session answer info entities usesFailOnFirst =
      let updates := createPiUpdates .delete (stableSortEntities info entities).2.reverse
      if usesFailOnFirst then sendPiUpdates session answer updates (some (5000 : Nat))
      else splitSortedUpdatesIntoBatchesAndSend session answer info updates (some (5000 : Nat)) := by
  rw [clearEntities,if_neg (by simpa using hne)]
  exact if_pos rfl

/-- Updates are sent, all of them if the switch accepts them, and none before one that it waits for. -/
structure SendsInOrder (waits : Entity → Entity → Prop) (updates : List Update) (outcome : List WriteRequest × Status) : Prop where
  given : ∃ rest,(outcome.1.flatMap WriteRequest.updates ++ rest).Perm updates ∧ (outcome.2.isOk = true → rest = [])
  waited : ∀ before u after,outcome.1.flatMap WriteRequest.updates = before ++ u :: after →
    ∀ v ∈ updates,waits u.entity v.entity → v ∈ before

variable {requests : List WriteRequest}

private theorem sendBuilt_updates (requests : List WriteRequest) : ∃ rest,
    requests.flatMap WriteRequest.updates = (sendBuilt session answer (.ok requests)).1.flatMap WriteRequest.updates ++ rest ∧
    ((sendBuilt session answer (.ok requests)).2.isOk = true → rest = []) := by
  obtain ⟨front,back,rfl,hsent,hall⟩ := @sendPiWriteRequests_spec session answer [] requests
  refine ⟨back.flatMap WriteRequest.updates,?_,fun hok => ?_⟩
  · rw [sendBuilt,hsent,List.nil_append,List.flatMap_map,List.flatMap_append]
    rfl
  · rw [hall hok]
    rfl

variable {waits : Entity → Entity → Prop} {sorted updates : List Update}

theorem sendsInOrder_of_sorted (hrequests : requests.flatMap WriteRequest.updates = sorted) (hperm : sorted.Perm updates)
    (hsorted : sorted.Pairwise fun u v => ¬ waits u.entity v.entity) (hirrefl : ∀ e,¬ waits e e) :
    SendsInOrder waits updates (sendBuilt session answer (.ok requests)) := by
  obtain ⟨rest,hrest,hall⟩ := @sendBuilt_updates session answer requests
  rw [hrequests] at hrest
  refine ⟨⟨rest,hrest ▸ hperm,hall⟩,fun before u after hsent v hv huv => ?_⟩
  have hv := hperm.mem_iff.mpr hv
  rw [hrest,hsent,List.append_assoc,List.cons_append] at hv hsorted
  have hlater := (List.pairwise_cons.mp (List.pairwise_append.mp hsorted).2.1).1
  rcases List.mem_append.mp hv with hv | hv
  · exact hv
  · rcases List.mem_cons.mp hv with rfl | hv
    · exact absurd huv (hirrefl v.entity)
    · exact absurd huv (hlater v hv)

/-! ### References and ranks -/

variable {references : List IrTableReference} {a b : Entity}

theorem getNameOfTable_of_builtInName {t : IrTable} {name : String} (h : t.builtInName? = some name) : getNameOfTable t = .ok name := by
  cases t with
  | p4Table _ id => cases h
  | builtInTable _ => exact toOption_eq_some.mp h
  | notSet => cases h

/-- The references of an entity are those of its table, or of the table of multicast groups. -/
theorem getTableReferences_cases (h : info.Referenced references) {ofTable : IrTableDefinition → List IrTableReference}
    {ofBuiltIn : IrBuiltInTableDefinition → List IrTableReference}
    (hrefs : getTableReferences ofTable ofBuiltIn info a = .ok refs) : ∃ name,entityToTableName info a = .ok name ∧
      ((∃ table,info.tablesByName.lookup name = some table ∧ refs = ofTable table) ∨
        isBuiltInTable name = true ∧ ∃ d,info.builtInTables.lookup name = some d ∧ refs = ofBuiltIn d) := by
  unfold getTableReferences at hrefs
  split at hrefs
  · obtain ⟨table,htable,rfl⟩ := map_eq_ok.mp hrefs
    have hname := (h.defined.tables.lookup_name (findPtrOrStatus_eq_ok.mp htable)).2
    exact ⟨_,map_eq_ok.mpr ⟨table,htable,rfl⟩,.inl ⟨table,hname,rfl⟩⟩
  · obtain ⟨d,hd,rfl⟩ := map_eq_ok.mp hrefs
    exact ⟨_,rfl,.inr ⟨rfl,d,findPtrOrStatus_eq_ok.mp hd,rfl⟩⟩
  · cases hrefs

private theorem source_of_reference (h : info.Referenced references) {r : IrTableReference}
    (hrefs : getOutgoingTableReferences info a = .ok refs) (hr : r ∈ refs) :
    ∃ name,entityToTableName info a = .ok name ∧ outgoingReferences info name = .ok refs := by
  obtain ⟨name,hname,⟨table,htable,rfl⟩ | ⟨hbuiltIn,d,hd,rfl⟩⟩ := getTableReferences_cases h hrefs
  · refine ⟨name,hname,?_⟩
    rw [outgoingReferences,h.not_builtIn .source (mem_of_lookup_eq_some htable) hr]
    exact map_eq_ok.mpr ⟨table,findPtrOrStatus_eq_ok.mpr htable,rfl⟩
  · refine ⟨name,hname,?_⟩
    rw [outgoingReferences,if_pos hbuiltIn]
    exact map_eq_ok.mpr ⟨d,findPtrOrStatus_eq_ok.mpr hd,rfl⟩

private theorem destination_of_reference (h : info.Referenced references) {r : IrTableReference}
    (hrefs : getIncomingTableReferences info b = .ok refs) (hr : r ∈ refs) :
    ∃ name,entityToTableName info b = .ok name ∧ getNameOfTable r.destinationTable = .ok name := by
  obtain ⟨name,hname,⟨table,htable,rfl⟩ | ⟨-,d,hd,rfl⟩⟩ := getTableReferences_cases h hrefs
  · have htarget : r.destinationTable = .p4Table name table.preamble.id := h.own .destination (mem_of_lookup_eq_some htable) hr
    exact ⟨name,hname,by rw [htarget]; rfl⟩
  · have hr : r ∈ ReferenceEnd.destination.builtInReferences d := hr
    rw [(h.attached .destination).builtInTables _ (mem_of_lookup_eq_some hd)] at hr
    exact ⟨name,hname,getNameOfTable_of_builtInName (of_decide_eq_true (List.mem_filter.mp hr).2)⟩

/-- An entity refers to another only where its table refers to the other's table. -/
theorem refersToTable_of_refersToEntity (h : info.Referenced references) (hab : RefersToEntity info a b) :
    ∃ source destination,entityToTableName info a = .ok source ∧ entityToTableName info b = .ok destination ∧
      RefersToTable info source destination := by
  obtain ⟨x,⟨refs,r,out,hrefs,hr,hout,hx⟩,⟨refs',r',inc,hrefs',hr',hinc,hx'⟩⟩ := hab
  obtain ⟨source,hsource,houtgoing⟩ := source_of_reference h hrefs hr
  obtain ⟨destination,hdestination,hname⟩ := destination_of_reference h hrefs' hr'
  refine ⟨source,destination,hsource,hdestination,refs,houtgoing,r,hr,?_⟩
  obtain ⟨_,-,-,rfl⟩ := ((outgoing_ok hout).2 x).mp hx
  obtain ⟨known,hknown,-⟩ := leadsToKnownTable_iff.mp (h.tablesKnown.leadsToKnownTable houtgoing r hr)
  have hsame : nameOfTable r.destinationTable = nameOfTable r'.destinationTable := (incoming_tables hinc hx').2
  rw [nameOfTable_of_ok hknown,nameOfTable_of_ok hname] at hsame
  rw [hknown,hsame]

theorem MayDependOn.trans {c : Entity} (hab : MayDependOn info a b) (hbc : MayDependOn info b c) : MayDependOn info a c := by
  obtain ⟨low,middle,hlow,hmiddle,hlt⟩ := hab
  obtain ⟨middle',high,hmiddle',hhigh,hlt'⟩ := hbc
  cases hmiddle.symm.trans hmiddle'
  exact ⟨low,high,hlow,hhigh,hlt.trans hlt'⟩

private theorem not_mayDependOn_self (e : Entity) : ¬ MayDependOn info e e := by
  rintro ⟨low,high,hlow,hhigh,hlt⟩
  cases hlow.symm.trans hhigh
  exact lt_irrefl low hlt

variable [UniqueInsertion] {p4Info : P4Info} (hcreated : createIrP4Info p4Info = some (.ok info))
include hcreated

/-- The ranks of a pipeline increase along the references between entities. -/
theorem mayDependOn_of_refersToEntity (hab : RefersToEntity info a b) : MayDependOn info a b := by
  obtain ⟨result,hresult,hinfo⟩ := createIrP4Info_spec p4Info
  obtain rfl := Option.some.inj (hcreated.symm.trans hresult)
  obtain ⟨unranked,references,hunranked,hreferenced,ranks,rfl⟩ := hinfo info rfl
  obtain ⟨source,destination,hsource,hdestination,hrefers⟩ := refersToTable_of_refersToEntity hreferenced hab
  obtain ⟨ranked,hranked,hranks⟩ := hreferenced.ranked
  simp only [createIrP4Info,hunranked,hranked,Option.map_some,Option.some.injEq] at hcreated
  obtain ⟨-,hincrease⟩ := hranks _ (orFail_eq_ok.mp hcreated)
  obtain ⟨low,high,hlow,hhigh,hlt⟩ := hincrease source destination hrefers
  exact ⟨low,high,bind_eq_ok.mpr ⟨source,hsource,findPtrOrStatus_eq_ok.mpr hlow⟩,
    bind_eq_ok.mpr ⟨destination,hdestination,findPtrOrStatus_eq_ok.mpr hhigh⟩,hlt⟩

theorem mayDependOn_of_reached (hab : TransGen (RefersToEntity info) a b) : MayDependOn info a b := by
  induction hab with
  | single h => exact mayDependOn_of_refersToEntity hcreated h
  | tail _ h ih => exact ih.trans (mayDependOn_of_refersToEntity hcreated h)

theorem not_reached_self (e : Entity) : ¬ TransGen (RefersToEntity info) e e :=
  fun h => not_mayDependOn_self e (mayDependOn_of_reached hcreated h)

variable (hknown : ∀ e ∈ entities,HasKnownTable info e)
include hknown

/-- Sorting puts no entity before one that it refers to. -/
theorem stableSortEntities_references : (stableSortEntities info entities).2.Perm entities ∧
      (stableSortEntities info entities).2.Pairwise fun a b => ¬ TransGen (RefersToEntity info) a b := by
  have hsorted : SortedByDependency info id false entities (stableSortEntities info entities).2 := entityComesBefore_answers.sorted hknown
  refine ⟨hsorted.perm,hsorted.ordered.imp fun h hab => ?_⟩
  simpa using absurd (mayDependOn_of_reached hcreated hab) h

/-- The deletions of a clearing, where those of the referring entities come first. -/
theorem deletions_references :
    (createPiUpdates .delete (stableSortEntities info entities).2.reverse).Perm (createPiUpdates .delete entities) ∧
    ((createPiUpdates .delete (stableSortEntities info entities).2.reverse).Pairwise fun u v =>
      ¬ TransGen (RefersToEntity info) v.entity u.entity) ∧
    ∀ u ∈ createPiUpdates .delete (stableSortEntities info entities).2.reverse,HasKnownTable info u.entity := by
  obtain ⟨hperm,hordered⟩ := stableSortEntities_references hcreated hknown
  have hreversed := (List.reverse_perm (stableSortEntities info entities).2).trans hperm
  refine ⟨hreversed.map _,List.pairwise_map.mpr (List.pairwise_reverse.mpr hordered),fun u hu => ?_⟩
  obtain ⟨e,he,rfl⟩ := List.mem_map.mp hu
  exact hknown e (hreversed.mem_iff.mp he)

private theorem installPiEntities_sendsInOrder : SendsInOrder (TransGen (RefersToEntity info)) (createPiUpdates .insert entities)
      (installPiEntities session answer info entities) := by
  obtain ⟨hperm,hordered⟩ := stableSortEntities_references hcreated hknown
  have hsize : 0 < 5000 := by decide
  rw [installPiEntities_eq,sendPiUpdates,piUpdateRequests_eq hsize]
  exact sendsInOrder_of_sorted (addUpdates_fit_iff hsize _).1 (hperm.map _) (List.pairwise_map.mpr hordered)
    (not_reached_self hcreated)

private theorem clearEntities_sendsInOrder (usesFailOnFirst : Bool) :
    SendsInOrder (fun e e' => TransGen (RefersToEntity info) e' e) (createPiUpdates .delete entities)
      (clearEntities session answer info entities usesFailOnFirst) := by
  rcases eq_or_ne entities [] with rfl | hne
  · refine ⟨⟨[],List.Perm.refl [],fun _ => rfl⟩,fun before u after h => ?_⟩
    exact absurd h.symm (by simp [clearEntities])
  obtain ⟨hperm,hordered,hranks⟩ := deletions_references hcreated hknown
  have hsize : 0 < 5000 := by decide
  rw [clearEntities_eq hne]
  cases usesFailOnFirst with
  | true =>
    rw [if_pos rfl,sendPiUpdates,piUpdateRequests_eq hsize]
    exact sendsInOrder_of_sorted (addUpdates_fit_iff hsize _).1 hperm hordered (not_reached_self hcreated)
  | false =>
    rw [if_neg Bool.false_ne_true,splitSortedUpdatesIntoBatchesAndSend,rankedUpdateRequests_eq hsize hranks]
    refine sendsInOrder_of_sorted ?_ hperm hordered (not_reached_self hcreated)
    rw [requestsWith,List.flatMap_map]
    exact List.flatMap_id'.trans rankedBatches_flatten

/-- A switch that goes on after a failure never gets two entities at once, one of which refers to the other. -/
theorem clearEntities_separates : ∀ r ∈ (clearEntities session answer info entities false).1,
      ∀ u ∈ r.updates,∀ v ∈ r.updates,¬ TransGen (RefersToEntity info) u.entity v.entity := by
  intro r hr u hu v hv huv
  rcases eq_or_ne entities [] with rfl | hne
  · exact absurd hr (by simp [clearEntities])
  obtain ⟨-,-,hranks⟩ := deletions_references hcreated hknown
  have hsize : 0 < 5000 := by decide
  rw [clearEntities_eq hne,if_neg Bool.false_ne_true,splitSortedUpdatesIntoBatchesAndSend,rankedUpdateRequests_eq hsize hranks] at hr
  obtain ⟨request,hrequest,rfl⟩ := (sent_mem hr).resolve_left List.not_mem_nil
  obtain ⟨batch,hbatch,rfl⟩ := List.mem_map.mp hrequest
  obtain ⟨low,high,hlow,hhigh,hlt⟩ := mayDependOn_of_reached hcreated huv
  have hsame : updateRank info u = updateRank info v := rankedBatches_sameRank (by simp [SameRank]) batch hbatch u hu v hv
  rw [updateRank,updateRank,hlow,hhigh] at hsame
  exact hlt.ne hsame

/-- At every moment of an installation, whatever the switch answers, what is sent is closed under the
references to the entities that are installed; a clearing deletes no entity before those that refer to
it, and for a switch that goes on after a failure no request holds both. -/
theorem entities_sent_by_reference :
    SendsInOrder (TransGen (RefersToEntity info)) (createPiUpdates .insert entities) (installPiEntities session answer info entities) ∧
    (∀ usesFailOnFirst,SendsInOrder (fun e e' => TransGen (RefersToEntity info) e' e) (createPiUpdates .delete entities)
      (clearEntities session answer info entities usesFailOnFirst)) ∧
    ∀ r ∈ (clearEntities session answer info entities false).1,∀ u ∈ r.updates,∀ v ∈ r.updates,
      ¬ TransGen (RefersToEntity info) u.entity v.entity :=
  ⟨installPiEntities_sendsInOrder hcreated hknown,clearEntities_sendsInOrder hcreated hknown,
    clearEntities_separates hcreated hknown⟩

omit [UniqueInsertion] hcreated hknown

def referringEntry (id : UInt32) : Entity :=
  .tableEntry { tableId := id,matches_ := [⟨1,.exact [7]⟩],action := some (.action ⟨2,[]⟩) }

def referringEntries : List Entity := [referringEntry 3,referringEntry 1]

/-- The entry that refers to the other is given first, and sent second; it is deleted first. -/
theorem entities_sent_by_reference_sample :
    RefersToEntity referringInfo (referringEntry 3) (referringEntry 1) ∧
      SendsInOrder (TransGen (RefersToEntity referringInfo)) (createPiUpdates .insert referringEntries)
        (installPiEntities ⟨1,"",{}⟩ acceptRequests referringInfo referringEntries) ∧
      ∀ usesFailOnFirst,SendsInOrder (fun e e' => TransGen (RefersToEntity referringInfo) e' e)
        (createPiUpdates .delete referringEntries) (clearEntities ⟨1,"",
          {}⟩ acceptRequests referringInfo referringEntries usesFailOnFirst) := by
  let _ := plainInsertion
  let x : ConcreteTableReference := ⟨"s","t",{⟨"g","f",[7]⟩}⟩
  have hout : outgoingConcreteTableReferences referringReference (referringEntry 3) = .ok {x} := by decide +kernel
  have hinc : possibleIncomingConcreteTableReferences referringReference (referringEntry 1) = .ok {x} := by decide +kernel
  have hrefers : RefersToEntity referringInfo (referringEntry 3) (referringEntry 1) :=
    ⟨x,⟨[referringReference],referringReference,{x},rfl,List.mem_singleton_self referringReference,hout,Finset.mem_singleton_self x⟩,
      [referringReference],referringReference,{x},rfl,List.mem_singleton_self referringReference,hinc,Finset.mem_singleton_self x⟩
  have hcreated : createIrP4Info referringSample = some (.ok referringInfo) := rfl
  have hsource : entityRank referringInfo (referringEntry 3) = .ok (-1) := by decide +kernel
  have hdestination : entityRank referringInfo (referringEntry 1) = .ok 0 := by decide +kernel
  have hknown : ∀ e ∈ referringEntries,HasKnownTable referringInfo e := by
    intro e he
    rcases List.mem_pair.mp he with rfl | rfl
    · exact ⟨-1,hsource⟩
    · exact ⟨0,hdestination⟩
  exact ⟨hrefers,(entities_sent_by_reference hcreated hknown).1,(entities_sent_by_reference hcreated hknown).2.1⟩

end SonicPins.Pdpi
