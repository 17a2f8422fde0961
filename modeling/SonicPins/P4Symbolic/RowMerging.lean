import SonicPins.P4Symbolic.TableMeaning

/-! The headers of a table's rows and of a conditional's branches, merged into those that were selected. -/
namespace SonicPins.P4Symbolic.Evaluation
open Lib Pdpi Operators SymbolicPerPacketState

section Widths
variable {program : Ir.Program} {table : Ir.ProgramTable} {c c' : Store}

def widths (c : Store) : String → Option Nat := fun key => (c key).map Value.width

private theorem widths_set {key : String} {v : Value} (h : c.set key v = some c') : widths c' = widths c := by
  obtain ⟨old,hold,rfl⟩ := Option.map_eq_some_iff.mp h
  funext k
  rw [widths,widths,Function.update_apply]
  split_ifs with hk
  · rw [hk,hold]
    rfl
  · rfl

theorem through_eq {α C β : Type} {R : α → C → C → Prop} {f : C → β} {l : List α} {c c' : C}
    (hstep : ∀ x ∈ l,∀ c c',R x c c' → f c' = f c) (h : Through R l c c') : f c' = f c := by
  induction l generalizing c with
  | nil => exact congrArg f h
  | cons x l ih =>
    obtain ⟨d,hd,hrest⟩ := h
    rw [ih (fun y hy => hstep y (List.mem_cons_of_mem _ hy)) hrest]
    exact hstep x List.mem_cons_self c d hd

theorem SetsHeader.widths_eq {key : String} {v : Value} {f f' : Frame} (h : SetsHeader key v f f') : widths f'.1 = widths f.1 :=
  widths_set h.1

theorem Executes.widths_eq {statement : Ir.Statement} {f f' : Frame} (h : Executes program statement f f') :
    widths f'.1 = widths f.1 := by
  cases statement with
  | unsupported => exact h.elim
  | assignment left right =>
    cases left with
    | unsupported => exact h.elim
    | fieldValue field =>
      obtain ⟨v,-,hset⟩ := h
      exact hset.widths_eq
    | variableValue name =>
      obtain ⟨v,-,rfl⟩ := h
      rfl
  | drop headerName =>
    obtain ⟨d,width,hspec,hgrp⟩ := h
    exact hgrp.widths_eq.trans hspec.widths_eq
  | clone => exact SetsHeader.widths_eq h
  | recirculate => exact SetsHeader.widths_eq h
  | hash field =>
    obtain ⟨v,hset⟩ := h
    exact hset.widths_eq
  | exit => exact congrArg (fun f : Frame => widths f.1) h
  | headerAssignment left right =>
    obtain ⟨header,d,-,hfields,v,-,hvalid⟩ := h
    rw [hvalid.widths_eq]
    exact through_eq (f := fun f : Frame => widths f.1) (fun _ _ _ _ ⟨_,_,hset⟩ => hset.widths_eq) hfields

theorem RunsBody.widths_eq {action : Ir.ProgramAction} {scope : Store} (h : RunsBody program action scope c c') :
    widths c' = widths c := by
  obtain ⟨scope',hthrough⟩ := h
  exact through_eq (f := fun f : Frame => widths f.1) (fun _ _ _ _ hstep => hstep.widths_eq) hthrough

theorem EntryActs.widths_eq [InetText] {T : P4RuntimeTranslator} {σ : Assignment} {entry : Ir.TableEntry}
    (h : EntryActs program table σ T entry c c') : widths c' = widths c := by
  have hinvokes : ∀ {invocation : IrActionInvocation} {c c' : Store},Invokes program T invocation c c' → widths c' = widths c := by
    rintro invocation c c' ⟨action,scope,-,-,-,hruns⟩
    exact hruns.widths_eq
  cases entry with
  | notSet => exact h.elim
  | concreteEntry entity index =>
    cases entity with
    | packetReplicationEngineEntry e => exact h.elim
    | tableEntry entry =>
      rw [EntryActs] at h
      cases htype : entry.type with
      | notSet =>
        rw [htype] at h
        exact h.elim
      | action action =>
        rw [htype] at h
        exact hinvokes h
      | actionSet actions =>
        rw [htype] at h
        dsimp only [Selected] at h
        split at h
        · rw [h]
        · exact hinvokes h
  | symbolicEntry entry =>
    refine through_eq (fun action _ c c' hstep => ?_) h
    by_cases hchosen : Chosen table σ entry action.preamble.name
    · obtain ⟨_,_,_,_,_,_,hruns⟩ := hstep.1 hchosen
      exact hruns.widths_eq
    · rw [hstep.2 hchosen]

end Widths

section Merging
variable {headers headers' : SymbolicPerPacketState} {guard : Term} {value : String → Fallible Term}

/-- The fields of a list have new values in their widths, and the others have what they had. -/
def Reassigned (value : String → Fallible Term) (keys : List String) (σ : Assignment) (c c' : Store) : Prop :=
  ∀ key,(key ∈ keys → ∃ t,value key = .ok t ∧ c' key = (c key).map fun old => (valueAt σ t).fit old.width) ∧
    (key ∉ keys → c' key = c key)

private theorem setFields_follows {keys : List String} (hs : SoundPacket headers) (hguard : Sound guard)
    (hvalue : ∀ key t,value key = .ok t → Sound t)
    (h : keys.foldlM (fun headers field => do
      let newValue ← value field
      SymbolicPerPacketState.set headers field newValue guard) headers = .ok headers') :
    SoundPacket headers' ∧ Follows storeAt id (holds guard) (Reassigned value keys) headers headers' := by
  induction keys generalizing headers with
  | nil =>
    cases h
    exact ⟨hs,.refl fun _ _ key => ⟨fun hk => absurd hk List.not_mem_nil,fun _ => rfl⟩⟩
  | cons key keys ih =>
    rw [List.foldlM_cons] at h
    obtain ⟨mid,hmid,h⟩ := bind_eq_ok.mp h
    obtain ⟨t,ht,hset⟩ := bind_eq_ok.mp hmid
    obtain ⟨hmidSound,hfirst⟩ := set_follows hs (hvalue key t ht) hguard hset
    obtain ⟨hsound,hrest⟩ := ih hmidSound h
    refine ⟨hsound,(hfirst.trans hrest).imp fun σ _ => ?_⟩
    rintro ⟨d,hd,hall⟩ k
    obtain ⟨old,hold,rfl⟩ := Option.map_eq_some_iff.mp hd
    by_cases hmem : k ∈ keys
    · obtain ⟨u,hu,hk⟩ := (hall k).1 hmem
      refine ⟨fun _ => ⟨u,hu,?_⟩,fun hnot => absurd (List.mem_cons_of_mem _ hmem) hnot⟩
      rw [hk,Function.update_apply]
      split_ifs with heq
      · rw [heq,hold]
        rfl
      · rfl
    · have hk := (hall k).2 hmem
      rw [Function.update_apply] at hk
      constructor
      · intro hcons
        rcases List.mem_cons.mp hcons with rfl | hcons
        · rw [if_pos rfl] at hk
          exact ⟨t,ht,by rw [hk,hold]; rfl⟩
        · exact absurd hcons hmem
      · intro hnot
        rw [if_neg fun heq : k = key => hnot (heq ▸ List.mem_cons_self)] at hk
        exact hk

theorem setFields_merges (hs : SoundPacket headers) (hguard : Sound guard) (hvalue : ∀ key t,value key = .ok t → Sound t)
    (h : setFields value guard headers = .ok headers') : SoundPacket headers' ∧
      (∀ σ,¬ holds guard σ → storeAt σ headers' = storeAt σ headers) ∧
      ∀ σ,holds guard σ → ∀ target,SoundPacket target → widths (storeAt σ target) = widths (storeAt σ headers) →
        (∀ key t x,value key = .ok t → target.lookup key = some x → t.eval σ = x.eval σ) → storeAt σ headers' = storeAt σ target := by
  obtain ⟨hsound,hfollows⟩ := setFields_follows hs hguard hvalue h
  refine ⟨hsound,hfollows.idle,fun σ hσ target htarget hwidths heval => funext fun key => ?_⟩
  have hwidth : ((storeAt σ target) key).map Value.width = ((storeAt σ headers) key).map Value.width := congrFun hwidths key
  have hruns : Reassigned value (headers.map Prod.fst) σ (storeAt σ headers) (storeAt σ headers') := hfollows.runs σ hσ
  cases hlookup : headers.lookup key with
  | none =>
    have hnone : storeAt σ headers key = none := by rw [storeAt,hlookup]; rfl
    rw [hnone,Option.map_none,Option.map_eq_none_iff] at hwidth
    rw [hwidth]
    by_cases hmem : key ∈ headers.map Prod.fst
    · obtain ⟨t,-,ht⟩ := (hruns key).1 hmem
      rw [ht,hnone]
      rfl
    · rw [(hruns key).2 hmem,hnone]
  | some old =>
    obtain ⟨t,ht,hkey⟩ := (hruns key).1 (List.mem_map.mpr ⟨_,mem_of_lookup_eq_some hlookup,rfl⟩)
    rw [storeAt_of_lookup hlookup] at hwidth hkey
    cases htargetLookup : target.lookup key with
    | none =>
      rw [storeAt,htargetLookup] at hwidth
      cases hwidth
    | some x =>
      rw [storeAt_of_lookup htargetLookup] at hwidth ⊢
      have hx : x.width = old.width := Option.some.inj hwidth
      have hfits : x.eval σ < 2 ^ x.width := (htarget _ _ htargetLookup σ).fits
      rw [hkey]
      change some (⟨old.width,t.eval σ % 2 ^ old.width⟩ : Value) = some ⟨x.width,x.eval σ⟩
      rw [heval key t x ht htargetLookup,← hx,Nat.mod_eq_of_lt hfits]

end Merging

section Indices
variable {index a b : IndexTerm} {condition : Term} {σ : Assignment}

def IndexTerm.Sound : IndexTerm → Prop
  | .val _ => True
  | .ite condition a b => Boolean condition ∧ a.Sound ∧ b.Sound

theorem IndexTerm.Sound.equals (h : index.Sound) (k : Int) :
    Boolean (index.equals k) ∧ ∀ σ,holds (index.equals k) σ ↔ index.eval σ = k := by
  induction index with
  | val i =>
    refine ⟨boolean_boolVal _,fun σ => ?_⟩
    rw [holds,IndexTerm.equals,Term.eval,IndexTerm.eval]
    by_cases hi : i = k
    · simp [hi]
    · simp [hi]
  | ite condition a b iha ihb =>
    obtain ⟨hcondition,ha,hb⟩ := h
    obtain ⟨hba,hia⟩ := iha ha
    obtain ⟨hbb,hib⟩ := ihb hb
    refine ⟨boolean_of_means fun σ => ⟨_,(hcondition.means σ).ite (hba.means σ) (hbb.means σ)⟩,fun σ => ?_⟩
    rw [holds,IndexTerm.equals,Term.eval_ite,IndexTerm.eval]
    split_ifs
    · exact hib σ
    · exact hia σ

theorem iteIndex_spec (hcondition : SonicPins.P4Symbolic.Sound condition) (ha : a.Sound) (hb : b.Sound)
    (h : iteIndex condition a b = .ok index) :
    index.Sound ∧ Boolean condition ∧ ∀ σ,index.eval σ = if condition.eval σ = 0 then b.eval σ else a.eval σ := by
  rw [iteIndex] at h
  split_ifs at h with hsort heq
  · cases h
    rw [heq]
    exact ⟨hb,⟨not_not.mp hsort,hcondition⟩,fun σ => (ite_self _).symm⟩
  · cases h
    exact ⟨⟨⟨not_not.mp hsort,hcondition⟩,ha,hb⟩,⟨not_not.mp hsort,hcondition⟩,fun σ => rfl⟩

end Indices

variable {program : Ir.Program} {table : Ir.ProgramTable} {headers default : SymbolicPerPacketState} {guard : Term}

/-- The first entry that is matched, or the default one. -/
def Selects (Matched : Ir.TableEntry → Prop) (default : Ir.TableEntry) : List Ir.TableEntry → Ir.TableEntry → Prop
  | [],e => e = default
  | entry :: rest,e => Matched entry ∧ e = entry ∨ ¬ Matched entry ∧ Selects Matched default rest e

structure Row.Sound (row : Row) : Prop where
  entryMatch : Boolean row.entryMatch
  headers : SoundPacket row.headers

/-- The headers of the first row whose condition holds, or the default ones. -/
def SelectsHeaders (σ : Assignment) (default : SymbolicPerPacketState) : List Row → SymbolicPerPacketState → Prop
  | [],packet => packet = default
  | row :: rest,packet => holds row.entryMatch σ ∧ packet = row.headers ∨
      ¬ holds row.entryMatch σ ∧ SelectsHeaders σ default rest packet

theorem mergedValue_spec {rows : List Row} {key : String} {t : Term} (hdefault : SoundPacket default) (hrows : ∀ row ∈ rows,row.Sound)
    (h : mergedValue key default rows = .ok t) : Sound t ∧ ∀ σ packet x,SelectsHeaders σ default rows packet →
      packet.lookup key = some x → t.eval σ = x.eval σ := by
  induction rows generalizing t with
  | nil =>
    have hlookup := getKey_eq_ok.mp h
    refine ⟨hdefault _ _ hlookup,fun σ packet x hselects hx => ?_⟩
    rw [hselects,hlookup] at hx
    cases hx
    rfl
  | cons row rest ih =>
    obtain ⟨value,hvalue,h⟩ := bind_eq_ok.mp h
    obtain ⟨localValue,hlocal,h⟩ := bind_eq_ok.mp h
    obtain ⟨hrow,hrest⟩ := List.forall_mem_cons.mp hrows
    obtain ⟨hvalueSound,hbits⟩ := ih hrest hvalue
    have hlookup := getKey_eq_ok.mp hlocal
    obtain ⟨hsound,hite⟩ := ite_value hrow.entryMatch.sound (hrow.headers _ _ hlookup) hvalueSound h
    refine ⟨hsound,fun σ packet x hselects hx => ?_⟩
    have heval : t.eval σ = (ternaryOf (valueAt σ row.entryMatch) (valueAt σ localValue) (valueAt σ value)).bits :=
      congrArg Value.bits (hite σ)
    rcases hselects with ⟨hholds,rfl⟩ | ⟨hholds,hselects⟩
    · rw [heval,ternaryOf_of_holds hholds]
      rw [hlookup] at hx
      cases hx
      rfl
    · rw [heval,ternaryOf_of_not_holds hholds]
      exact hbits σ packet x hselects hx

variable [InetText] {defaultEntry : Ir.TableEntry} {state : EvaluationState}

/-- What the rows of a table are for an assignment, where their values are read later. -/
structure RowsAt (program : Ir.Program) (table : Ir.ProgramTable) (headers : SymbolicPerPacketState) (guard : Term)
    (defaultEntry : Ir.TableEntry) (entries : List Ir.TableEntry) (r : EvaluatedRows) (T : P4RuntimeTranslator) (σ : Assignment)
    (entry : Ir.TableEntry) (packet : SymbolicPerPacketState) : Prop where
  selects : Selects (EntryIsMatched program table T σ (storeAt σ headers)) defaultEntry entries entry
  acts : EntryActs program table σ T entry (storeAt σ headers) (storeAt σ packet)
  sound : SoundPacket packet
  headers : SelectsHeaders σ r.default r.rows packet
  index : holds guard σ → r.matchIndex.eval σ = (Ir.getIndex entry).toInt

structure SoundRows (state : EvaluationState) (r : EvaluatedRows) : Prop where
  extends_ : Extends r.state.translator state.translator
  default : SoundPacket r.default
  rows : ∀ row ∈ r.rows,row.Sound
  index : r.matchIndex.Sound

/-- Of the rows, the first one whose entry is matched is selected. -/
theorem evaluateRows_spec {entries : List (Ir.TableEntry × Term)} {r : EvaluatedRows} (hs : SoundPacket headers) (hguard : Sound guard)
    (hdefault : (Ir.getIndex defaultEntry) = defaultActionEntryIndex)
    (hconditions : ∀ x ∈ entries,ConditionsAt program table headers state.translator x)
    (h : evaluateRows program table headers guard defaultEntry state entries = .ok r) : SoundRows state r ∧
      ∀ T,Extends T r.state.translator → ∀ σ,∃ entry packet,
        RowsAt program table headers guard defaultEntry (entries.map Prod.fst) r T σ entry packet := by
  induction entries generalizing r with
  | nil =>
    obtain ⟨work,hwork,h⟩ := bind_eq_ok.mp h
    cases h
    have hacts := evaluateTableEntryAction_acts hs hwork
    refine ⟨⟨hacts.extends_,hacts.sound,fun row hrow => absurd hrow List.not_mem_nil,trivial⟩,fun T hT σ => ?_⟩
    refine ⟨defaultEntry,work.2,rfl,(hacts.follows T hT).runs σ (holds_true σ),hacts.sound,rfl,fun _ => ?_⟩
    rw [hdefault]
    rfl
  | cons x rest ih =>
    obtain ⟨entry,condition⟩ := x
    obtain ⟨hcondition,hrestConditions⟩ := List.forall_mem_cons.mp hconditions
    obtain ⟨rows,hrows,h⟩ := bind_eq_ok.mp h
    obtain ⟨entryMatch,hmatch,h⟩ := bind_eq_ok.mp h
    obtain ⟨matchIndex,hindex,h⟩ := bind_eq_ok.mp h
    obtain ⟨work,hwork,h⟩ := bind_eq_ok.mp h
    cases h
    obtain ⟨hsound,hselected⟩ := ih hrestConditions hrows
    have hacts := evaluateTableEntryAction_acts hs hwork
    obtain ⟨hbguard,hbcondition,rfl⟩ := and_boolean hguard hcondition.1.sound hmatch
    obtain ⟨hindexSound,-,heval⟩ := iteIndex_spec (hbguard.and hbcondition).sound (a := .val _) trivial hsound.index hindex
    refine ⟨⟨hacts.extends_.trans hsound.extends_,hsound.default,List.forall_mem_cons.mpr ⟨⟨hbcondition,hacts.sound⟩,hsound.rows⟩,
      hindexSound⟩,fun T hT σ => ?_⟩
    have hiff := hcondition.2 T (hT.trans (hacts.extends_.trans hsound.extends_)) σ
    by_cases hholds : holds condition σ
    · refine ⟨entry,work.2,.inl ⟨hiff.mp hholds,rfl⟩,(hacts.follows T hT).runs σ (holds_true σ),hacts.sound,.inl ⟨hholds,rfl⟩,fun hσ => ?_⟩
      rw [heval σ,if_neg ((hbguard.holds_and hbcondition).mpr ⟨hσ,hholds⟩)]
      rfl
    · obtain ⟨e,packet,hat⟩ := hselected T (hT.trans hacts.extends_) σ
      refine ⟨e,packet,.inr ⟨fun hmatched => hholds (hiff.mpr hmatched),hat.selects⟩,hat.acts,hat.sound,.inr ⟨hholds,hat.headers⟩,
        fun hσ => ?_⟩
      have hzero : (Term.binary .bitAnd guard condition).eval σ = 0 :=
        not_not.mp fun hne => hholds ((hbguard.holds_and hbcondition).mp hne).2
      rw [heval σ,if_pos hzero]
      exact hat.index hσ

end SonicPins.P4Symbolic.Evaluation
