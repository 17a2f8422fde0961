import SonicPins.P4Symbolic.ActionMeaning

/-! What a table does to concrete headers, and that the merged headers of its rows are those of the entry that is
selected. -/
namespace SonicPins.P4Symbolic.Evaluation
open Lib Pdpi Operators SymbolicPerPacketState

variable {r : Term × P4RuntimeTranslator} {size : Nat} {name : String} {entry : Ir.SymbolicTableEntry} {c c' : Store}

section Booleans
variable {a b t : Term} {σ : Assignment}

structure Boolean (t : Term) : Prop where
  sort : t.sort = .bool
  sound : Sound t

theorem Boolean.means (h : Boolean t) (σ : Assignment) : Term.Means σ t .bool (t.eval σ) := h.sort ▸ h.sound σ

theorem boolean_of_means (h : ∀ σ,∃ x,Term.Means σ t .bool x) : Boolean t := by
  refine ⟨?_,sound_of_means fun σ => ⟨_,h σ⟩⟩
  obtain ⟨x,hx⟩ := h fun _ _ => 0
  exact hx.sort

theorem boolean_boolVal (b : Bool) : Boolean (.boolVal b) := ⟨rfl,sound_boolVal b⟩

theorem holds_true (σ : Assignment) : holds (.boolVal true) σ := one_ne_zero

theorem not_holds_false (σ : Assignment) : ¬ holds (.boolVal false) σ := fun h => h rfl

private theorem and_ne_zero {x y : Nat} (hx : x < 2) (hy : y < 2) : x &&& y ≠ 0 ↔ x ≠ 0 ∧ y ≠ 0 := by
  have hx' : x = 0 ∨ x = 1 := by omega
  have hy' : y = 0 ∨ y = 1 := by omega
  rcases hx' with rfl | rfl
  · simp
  · rcases hy' with rfl | rfl
    · simp
    · simp

theorem Boolean.and (ha : Boolean a) (hb : Boolean b) : Boolean (.binary .bitAnd a b) :=
  boolean_of_means fun σ => ⟨_,(ha.means σ).binary .bitAnd (hb.means σ)⟩

theorem Boolean.holds_and (ha : Boolean a) (hb : Boolean b) : holds (.binary .bitAnd a b) σ ↔ holds a σ ∧ holds b σ :=
  and_ne_zero (ha.means σ).fits (hb.means σ).fits

theorem Boolean.not (ha : Boolean a) : Boolean (.not a) := boolean_of_means fun σ => ⟨_,(ha.means σ).not⟩

theorem holds_not : holds (.not a) σ ↔ ¬ holds a σ := by
  rw [holds,holds,Term.eval_not,not_not]
  by_cases h : a.eval σ = 0
  · simp [h]
  · simp [h]

theorem and_boolean (ha : Sound a) (hb : Sound b) (h : Operators.and a b = .ok t) :
    Boolean a ∧ Boolean b ∧ t = .binary .bitAnd a b := by
  rw [Operators.and,Term.mkConnective] at h
  split_ifs at h with hsorts
  cases h
  exact ⟨⟨hsorts.1,ha⟩,⟨hsorts.2,hb⟩,rfl⟩

theorem holds_decide {p : Prop} [Decidable p] (h : valueAt σ t = ⟨1,(decide p).toNat⟩) : holds t σ ↔ p := by
  have heval : t.eval σ = (decide p).toNat := congrArg Value.bits h
  rw [holds,heval]
  by_cases hp : p
  · simp [hp]
  · simp [hp]

theorem eq_holds (ha : Sound a) (hb : Sound b) (h : Operators.eq a b = .ok t) :
    Sound t ∧ ∀ σ,holds t σ ↔ a.eval σ = b.eval σ := by
  obtain ⟨hsound,hvalue⟩ := evaluateBinary_value ha hb (show evaluateBinary Operators.bitAnd .equals a b = .ok t from h)
  exact ⟨hsound,fun σ => holds_decide (hvalue σ)⟩

theorem bitAnd_eval (ha : Sound a) (hb : Sound b) (h : Operators.bitAnd a b = .ok t) :
    Sound t ∧ ∀ σ,t.eval σ = a.eval σ &&& b.eval σ := by
  obtain ⟨hsound,hvalue⟩ := evaluateBinary_value ha hb (show evaluateBinary Operators.bitAnd .bitAnd a b = .ok t from h)
  exact ⟨hsound,fun σ => congrArg Value.bits (hvalue σ)⟩

end Booleans

section Prefixes
variable {a b t : Term} {σ : Assignment} {n w x : Nat}

/-- The topmost bits of a number, or all of them if there are fewer. -/
def topBits (v : Value) (prefixSize : Nat) : Nat := v.bits / 2 ^ (v.width - prefixSize)

private theorem topmost_means (h : ∀ σ,Term.Means σ a (.bitVector w) (a.eval σ)) (hn : n ≤ w) (ht : topmost a n = .ok t) :
    ∀ σ,Term.Means σ t (.bitVector n) (a.eval σ / 2 ^ (w - n)) := by
  intro σ
  have hwidth : a.width = w := (h σ).width
  have hlt : a.eval σ < 2 ^ w := (h σ).fits
  rw [topmost,hwidth] at ht
  split_ifs at ht with hgt hzero
  · cases ht
    have hlen : w - 1 - (w - n) + 1 = n := by omega
    have hsplit : 2 ^ w = 2 ^ n * 2 ^ (w - n) := by
      rw [← Nat.pow_add]
      congr 1
      omega
    have hbits : a.eval σ / 2 ^ (w - n) < 2 ^ n := by
      rw [Nat.div_lt_iff_lt_mul (Nat.two_pow_pos _),← hsplit]
      exact hlt
    refine ⟨Nat.pos_of_ne_zero hzero,?_,?_,hbits⟩
    · rw [Term.sort_extract,hlen]
    · rw [Term.eval_extract,hlen,Nat.mod_eq_of_lt hbits]
  · cases ht
    have hw : w = n := by omega
    subst hw
    rw [Nat.sub_self,Nat.pow_zero,Nat.div_one]
    exact h σ

theorem topmost_pad (ha : Sound a) (hs : a.sort = .bitVector w) (ht : topmost (pad a (n - w)) n = .ok t) :
    ∀ σ,Term.Means σ t (.bitVector n) (topBits (valueAt σ a) n) := by
  intro σ
  have hpad : ∀ σ,Term.Means σ (pad a (n - w)) (.bitVector (n - w + w)) (a.eval σ) :=
    fun σ => pad_means _ (hs ▸ ha σ)
  have heval : ∀ σ,(pad a (n - w)).eval σ = a.eval σ := fun σ => (hpad σ).eval
  have htop := topmost_means (fun σ => by rw [heval]; exact hpad σ) (by omega) ht σ
  have hwidth : a.width = w := by rw [Term.width,hs]; rfl
  have hsub : n - w + w - n = w - n := by omega
  rw [heval,hsub] at htop
  rw [topBits,valueAt,hwidth]
  exact htop

private theorem prefixEq_holds (ha : Sound a) (hb : Sound b) (h : prefixEq a b n = .ok t) :
    Sound t ∧ ∀ σ,holds t σ ↔ topBits (valueAt σ a) n = topBits (valueAt σ b) n := by
  rw [prefixEq] at h
  cases hs : a.sort with
  | bool =>
    rw [hs] at h
    cases h
  | bitVector v =>
    cases hs' : b.sort with
    | bool =>
      rw [hs,hs'] at h
      cases h
    | bitVector w =>
      rw [hs,hs'] at h
      obtain ⟨p,hp,h⟩ := bind_eq_ok.mp h
      obtain ⟨q,hq,h⟩ := bind_eq_ok.mp h
      rw [Term.mkBinary] at h
      split_ifs at h
      cases h
      have hmeans := fun σ => (topmost_pad ha hs hp σ).binary .eq (topmost_pad hb hs' hq σ)
      refine ⟨sound_of_means fun σ => ⟨_,_,hmeans σ⟩,fun σ => ?_⟩
      exact holds_decide (valueAt_of_means (hmeans σ))

end Prefixes

section Conditions
variable [InetText] (program : Ir.Program) (table : Ir.ProgramTable) (T : P4RuntimeTranslator) (σ : Assignment)

/-- Whether a field's value satisfies a match; a symbolic one has its value and its mask from the assignment. -/
def SatisfiesMatch (piMatch : MatchField) (v : Value) : EntryMatch → Prop
  | .concrete irMatch =>
    match irMatch.value with
    | .notSet => False
    | .exact value => ∃ x,readValue T value piMatch.typeName piMatch.bitwidth = some x ∧ v.bits = x.bits
    | .lpm value prefixLength => ∃ x,readValue T value piMatch.typeName piMatch.bitwidth = some x ∧
        topBits v prefixLength.toUInt32.toNat = topBits x prefixLength.toUInt32.toNat
    | .ternary value mask => ∃ x y,readValue T value piMatch.typeName piMatch.bitwidth = some x ∧
        readValue T mask piMatch.typeName piMatch.bitwidth = some y ∧ v.bits &&& y.bits = x.bits
    | .optional value => ∃ x,readValue T value piMatch.typeName piMatch.bitwidth = some x ∧ v.bits = x.bits
  | .symbolic entry name => ∃ vars,getSymbolicMatch entry name table.toTable program.toP4Program = .ok vars ∧
      v.bits &&& vars.mask.eval σ = vars.value.eval σ

def FieldSatisfies (c : Store) (m : EntryMatch) : Prop :=
  ∃ definition field v,table.tableDefinition.matchFieldsByName.lookup m.name = some definition ∧
    table.matchNameToField.lookup m.name = some field ∧ c (qualifiedName field) = some v ∧
    SatisfiesMatch program table T σ definition.matchField v m

def EntryIsMatched (c : Store) (entry : Ir.TableEntry) : Prop :=
  ∃ ms,entryMatches entry = .ok ms ∧ ∀ m ∈ ms,FieldSatisfies program table T σ c m

variable {program table T σ} {t t' : P4RuntimeTranslator} {headers : SymbolicPerPacketState} {fieldValue : Term}

/-- A term that says for every assignment whether something holds, as later translators read it. -/
structure Decides (t : P4RuntimeTranslator) (P : P4RuntimeTranslator → Assignment → Prop) (r : Term × P4RuntimeTranslator) : Prop where
  extends_ : Extends r.2 t
  sound : Sound r.1
  holds_iff : ∀ T,Extends T r.2 → ∀ σ,holds r.1 σ ↔ P T σ

private theorem exists_readValue {value : IrValue} {typeName : String} {bitwidth : Nat} {x : Value} {p : Value → Prop}
    (h : readValue T value typeName bitwidth = some x) : (∃ y,readValue T value typeName bitwidth = some y ∧ p y) ↔ p x := by
  constructor
  · rintro ⟨y,hy,hp⟩
    rw [h] at hy
    exact Option.some.inj hy ▸ hp
  · intro hp
    exact ⟨x,h,hp⟩

omit [InetText] in
theorem sound_of_mkBvConst {width : Nat} {r : Term} (h : Term.mkBvConst name width = .ok r) : Sound r := by
  rw [Term.mkBvConst] at h
  split_ifs at h with hwidth
  cases h
  exact fun σ => .const _ (Nat.pos_of_ne_zero hwidth)

omit [InetText] in
private theorem getSymbolicMatch_sound {vars : SymbolicMatch}
    (h : getSymbolicMatch entry name table.toTable program.toP4Program = .ok vars) : Sound vars.value ∧ Sound vars.mask := by
  rw [getSymbolicMatch] at h
  split at h
  next => cases h
  next definition _ =>
    obtain ⟨_,hok,h⟩ := bind_eq_ok.mp h
    cases hok
    dsimp only at h
    split at h
    next => cases h
    next text _ =>
      obtain ⟨_,hok,h⟩ := bind_eq_ok.mp h
      cases hok
      split at h
      next => cases h
      next =>
        split at h
        next => cases h
        next field _ =>
          obtain ⟨_,hok,h⟩ := bind_eq_ok.mp h
          cases hok
          obtain ⟨bitwidth,-,h⟩ := bind_eq_ok.mp h
          obtain ⟨-,h⟩ := then_eq_ok.mp h
          obtain ⟨value,hvalue,h⟩ := bind_eq_ok.mp h
          obtain ⟨mask,hmask,h⟩ := bind_eq_ok.mp h
          cases h
          exact ⟨sound_of_mkBvConst hvalue,sound_of_mkBvConst hmask⟩

omit [InetText] in
private theorem evaluateSymbolicMatch_holds {r : Term} (hv : Sound fieldValue)
    (h : evaluateSymbolicMatch program table entry name fieldValue = .ok r) : Sound r ∧ ∀ σ,holds r σ ↔
      ∃ vars,getSymbolicMatch entry name table.toTable program.toP4Program = .ok vars ∧
        fieldValue.eval σ &&& vars.mask.eval σ = vars.value.eval σ := by
  obtain ⟨vars,hvars,h⟩ := bind_eq_ok.mp h
  obtain ⟨masked,hmasked,h⟩ := bind_eq_ok.mp h
  obtain ⟨hvalue,hmask⟩ := getSymbolicMatch_sound hvars
  obtain ⟨hsound,heval⟩ := bitAnd_eval hv hmask hmasked
  obtain ⟨hr,hholds⟩ := eq_holds hsound hvalue h
  refine ⟨hr,fun σ => ?_⟩
  rw [hholds,heval]
  constructor
  · intro heq
    exact ⟨vars,hvars,heq⟩
  · rintro ⟨vars',hvars',heq⟩
    rw [hvars] at hvars'
    cases hvars'
    exact heq

theorem decides_value {value : IrValue} {typeName fieldName : String} {bitwidth : Nat} {x : Term × P4RuntimeTranslator} {r : Term}
    {p : Value → Value → Prop} (hx : formatP4RTValue value (some fieldName) typeName bitwidth t = .ok x)
    (hr : Sound x.1 → Sound r ∧ ∀ σ,holds r σ ↔ p (valueAt σ fieldValue) (valueAt σ x.1)) :
    Decides t (fun T σ => ∃ y,readValue T value typeName bitwidth = some y ∧ p (valueAt σ fieldValue) y) (r,x.2) := by
  obtain ⟨hextends,hsound,hread⟩ := formatP4RTValue_value hx
  obtain ⟨hr,hholds⟩ := hr hsound
  refine ⟨hextends,hr,fun T hT σ => ?_⟩
  rw [exists_readValue (hT.readValue_eq (hread σ))]
  exact hholds σ

private theorem evaluateConcreteMatch_decides {irMatch : IrMatch} {piMatch : MatchField} {fieldName : String}
    (hv : Sound fieldValue)
    (h : evaluateConcreteMatch irMatch piMatch fieldName fieldValue t = .ok r) :
    Decides t (fun T σ => SatisfiesMatch program table T σ piMatch (valueAt σ fieldValue) (.concrete irMatch)) r := by
  rw [evaluateConcreteMatch] at h
  split_ifs at h
  split at h
  next value _ hvalue =>
    obtain ⟨x,hx,h⟩ := bind_eq_ok.mp h
    obtain ⟨e,he,h⟩ := bind_eq_ok.mp h
    cases h
    simp only [SatisfiesMatch,hvalue]
    exact decides_value (p := fun v x => v.bits = x.bits) hx fun hs => eq_holds hv hs he
  next value prefixLength _ hvalue =>
    obtain ⟨x,hx,h⟩ := bind_eq_ok.mp h
    obtain ⟨e,he,h⟩ := bind_eq_ok.mp h
    cases h
    simp only [SatisfiesMatch,hvalue]
    exact decides_value (p := fun v x => topBits v prefixLength.toUInt32.toNat = topBits x prefixLength.toUInt32.toNat) hx
      fun hs => prefixEq_holds hv hs he
  next value mask _ hvalue =>
    obtain ⟨x,hx,h⟩ := bind_eq_ok.mp h
    obtain ⟨y,hy,h⟩ := bind_eq_ok.mp h
    obtain ⟨masked,hmasked,h⟩ := bind_eq_ok.mp h
    obtain ⟨e,he,h⟩ := bind_eq_ok.mp h
    cases h
    obtain ⟨hextendsx,hsx,hreadx⟩ := formatP4RTValue_value hx
    obtain ⟨hextendsy,hsy,hready⟩ := formatP4RTValue_value hy
    obtain ⟨hmaskedSound,heval⟩ := bitAnd_eval hv hsy hmasked
    obtain ⟨hsound,hholds⟩ := eq_holds hmaskedSound hsx he
    refine ⟨hextendsy.trans hextendsx,hsound,fun T hT σ => ?_⟩
    simp only [SatisfiesMatch,hvalue]
    have hx' := (hT.trans hextendsy).readValue_eq (hreadx σ)
    have hy' := hT.readValue_eq (hready σ)
    rw [hholds,heval]
    constructor
    · intro heq
      exact ⟨_,_,hx',hy',heq⟩
    · rintro ⟨x',y',hx'',hy'',heq⟩
      rw [hx'] at hx''
      rw [hy'] at hy''
      cases hx''
      cases hy''
      exact heq
  next value _ hvalue =>
    obtain ⟨x,hx,h⟩ := bind_eq_ok.mp h
    obtain ⟨e,he,h⟩ := bind_eq_ok.mp h
    cases h
    simp only [SatisfiesMatch,hvalue]
    exact decides_value (p := fun v x => v.bits = x.bits) hx fun hs => eq_holds hv hs he
  next => cases h
  next => cases h
  next => cases h

private theorem evaluateMatch_decides {m : EntryMatch} (hs : SoundPacket headers)
    (h : evaluateMatch program table headers t m = .ok r) :
    Decides t (fun T σ => FieldSatisfies program table T σ (storeAt σ headers) m) r := by
  rw [evaluateMatch] at h
  cases hdefinition : table.tableDefinition.matchFieldsByName.lookup m.name with
  | none =>
    rw [hdefinition] at h
    cases h
  | some definition =>
    cases hfield : table.matchNameToField.lookup m.name with
    | none =>
      rw [hdefinition,hfield] at h
      cases h
    | some field =>
      rw [hdefinition,hfield] at h
      obtain ⟨fieldValue,hget,h⟩ := bind_eq_ok.mp h
      have hlookup := getField_eq_ok.mp hget
      have hvalue := hs _ _ hlookup
      have hiff : ∀ T σ,FieldSatisfies program table T σ (storeAt σ headers) m ↔
          SatisfiesMatch program table T σ definition.matchField (valueAt σ fieldValue) m := by
        intro T σ
        constructor
        · rintro ⟨definition',field',v,hdefinition',hfield',hv,hsat⟩
          rw [hdefinition] at hdefinition'
          rw [hfield] at hfield'
          cases hdefinition'
          cases hfield'
          rw [qualifiedName,storeAt_of_lookup hlookup] at hv
          cases hv
          exact hsat
        · intro hsat
          exact ⟨definition,field,_,hdefinition,hfield,storeAt_of_lookup hlookup σ,hsat⟩
      cases m with
      | concrete irMatch =>
        have hmatch : Decides t (fun T σ => SatisfiesMatch program table T σ _ (valueAt σ _) (.concrete irMatch)) r :=
          evaluateConcreteMatch_decides hvalue h
        exact ⟨hmatch.extends_,hmatch.sound,fun T hT σ => (hmatch.holds_iff T hT σ).trans (hiff T σ).symm⟩
      | symbolic entry name =>
        obtain ⟨e,he,rfl⟩ := map_eq_ok.mp h
        obtain ⟨hsound,hholds⟩ := evaluateSymbolicMatch_holds hvalue he
        exact ⟨.refl t,hsound,fun T _ σ => (hholds σ).trans (hiff T σ).symm⟩

private theorem addMatches_spec {ms : List EntryMatch} {s : Term × P4RuntimeTranslator} (hs : SoundPacket headers) (hb : Boolean s.1)
    (h : ms.foldlM (addMatch program table headers) s = .ok r) : Extends r.2 s.2 ∧ Boolean r.1 ∧ ∀ T,Extends T r.2 → ∀ σ,
      (holds r.1 σ ↔ holds s.1 σ ∧ ∀ m ∈ ms,FieldSatisfies program table T σ (storeAt σ headers) m) := by
  induction ms generalizing s with
  | nil =>
    cases h
    exact ⟨.refl _,hb,fun T _ σ => by simp⟩
  | cons m ms ih =>
    rw [List.foldlM_cons] at h
    obtain ⟨mid,hmid,h⟩ := bind_eq_ok.mp h
    obtain ⟨e,he,hmid⟩ := bind_eq_ok.mp hmid
    obtain ⟨c,hc,hmid⟩ := bind_eq_ok.mp hmid
    cases hmid
    have hdecides := evaluateMatch_decides hs he
    obtain ⟨-,hbe,rfl⟩ := and_boolean hb.sound hdecides.sound hc
    obtain ⟨hextends,hboolean,hiff⟩ := ih (s := (.binary .bitAnd s.1 e.1,e.2)) (hb.and hbe) h
    refine ⟨hextends.trans hdecides.extends_,hboolean,fun T hT σ => ?_⟩
    rw [hiff T hT σ,hb.holds_and hbe,hdecides.holds_iff T (hT.trans hextends) σ,List.forall_mem_cons,and_assoc]

private theorem evaluateTableEntryCondition_spec {entry : Ir.TableEntry} (hs : SoundPacket headers)
    (h : evaluateTableEntryCondition program table headers t entry = .ok r) : Extends r.2 t ∧ Boolean r.1 ∧
      ∀ T,Extends T r.2 → ∀ σ,(holds r.1 σ ↔ EntryIsMatched program table T σ (storeAt σ headers) entry) := by
  obtain ⟨ms,hms,h⟩ := bind_eq_ok.mp h
  obtain ⟨hextends,hboolean,hiff⟩ := addMatches_spec hs (boolean_boolVal true) h
  refine ⟨hextends,hboolean,fun T hT σ => ?_⟩
  rw [hiff T hT σ]
  constructor
  · rintro ⟨-,hall⟩
    exact ⟨ms,hms,hall⟩
  · rintro ⟨ms',hms',hall⟩
    rw [hms] at hms'
    cases hms'
    exact ⟨holds_true σ,hall⟩

/-- The conditions of a table's entries, as read later. -/
def ConditionsAt (program : Ir.Program) (table : Ir.ProgramTable) (headers : SymbolicPerPacketState) (t : P4RuntimeTranslator)
    (x : Ir.TableEntry × Term) : Prop :=
  Boolean x.2 ∧ ∀ T,Extends T t → ∀ σ,(holds x.2 σ ↔ EntryIsMatched program table T σ (storeAt σ headers) x.1)

theorem evaluateConditions_spec {entries : List Ir.TableEntry} {r : List (Ir.TableEntry × Term) × P4RuntimeTranslator}
    (hs : SoundPacket headers) (h : evaluateConditions program table headers entries t = .ok r) :
    Extends r.2 t ∧ r.1.map Prod.fst = entries ∧ ∀ x ∈ r.1,ConditionsAt program table headers r.2 x := by
  induction entries generalizing t r with
  | nil =>
    cases h
    exact ⟨.refl _,rfl,fun x hx => absurd hx List.not_mem_nil⟩
  | cons entry entries ih =>
    obtain ⟨condition,hcondition,h⟩ := bind_eq_ok.mp h
    obtain ⟨conditions,hconditions,h⟩ := bind_eq_ok.mp h
    cases h
    obtain ⟨hextends,hboolean,hiff⟩ := evaluateTableEntryCondition_spec hs hcondition
    obtain ⟨hextends',hentries,hall⟩ := ih hconditions
    refine ⟨hextends'.trans hextends,congrArg (entry :: ·) hentries,List.forall_mem_cons.mpr ⟨⟨hboolean,fun T hT => ?_⟩,hall⟩⟩
    exact hiff T (hT.trans hextends')

end Conditions

section Entries
variable (program : Ir.Program) (table : Ir.ProgramTable) (σ : Assignment)

/-- Whether the assignment chooses an action for a symbolic entry. -/
def Chosen (entry : Ir.SymbolicTableEntry) (actionName : String) : Prop :=
  ∃ choice,getSymbolicActionInvocation entry actionName table.toTable = .ok choice ∧ holds choice σ

/-- An action with parameters from the assignment. -/
def SymbolicallyInvokes (entry : Ir.SymbolicTableEntry) (actionName : String) (c c' : Store) : Prop :=
  ∃ entryTable action params,program.tables.lookup entry.tableName = some entryTable ∧ program.actions.lookup actionName = some action ∧
    actionParameters entry entryTable.toTable action.toAction = .ok params ∧ RunsBody program action (storeAt σ params) c c'

/-- An action that is chosen is invoked, and no other one is. -/
def InvokesIfChosen (entry : Ir.SymbolicTableEntry) (action : IrActionDefinition) (c c' : Store) : Prop :=
  (Chosen table σ entry action.preamble.name → SymbolicallyInvokes program σ entry action.preamble.name c c') ∧
    (¬ Chosen table σ entry action.preamble.name → c' = c)

/-- The position that a selector of some choices equals. -/
def position (σ : Assignment) (selector : String) (size : Nat) : Nat := σ selector (.bitVector size) % 2 ^ size

/-- The choice at a position is made, or the last one if the position is beyond them; where there are none, nothing is done. -/
def Selected {α : Type} (R : α → Store → Store → Prop) (position : Nat) (choices : List α) (c c' : Store) : Prop :=
  match choices[min position (choices.length - 1)]? with
  | none => c' = c
  | some choice => R choice c c'

variable [InetText] (T : P4RuntimeTranslator)

/-- What an entry does: its action, that of its set which is selected, or the actions that are chosen for it. -/
def EntryActs : Ir.TableEntry → Store → Store → Prop
  | .concreteEntry (.tableEntry entry) index,c,c' =>
    match entry.type with
    | .notSet => False
    | .action action => Invokes program T action c c'
    | .actionSet actions => Selected (fun x c c' => Invokes program T x.action c c')
        (position σ (actionSelector index entry.tableName) actions.length) actions c c'
  | .concreteEntry (.packetReplicationEngineEntry _) _,_,_ => False
  | .symbolicEntry entry,c,c' => Through (InvokesIfChosen program table σ entry) table.tableDefinition.entryActions c c'
  | .notSet,_,_ => False

end Entries

variable {program : Ir.Program} {table : Ir.ProgramTable} {guard : Term} {work work' : Work}

theorem Acts.under {condition : Term} {R : P4RuntimeTranslator → Assignment → Store → Store → Prop} (hcondition : Boolean condition)
    (hguard : Boolean guard) (h : Acts (.binary .bitAnd condition guard) R work work') :
    Acts guard (fun T σ c c' => (holds condition σ → R T σ c c') ∧ (¬ holds condition σ → c' = c)) work work' := by
  have hiff : holds (.binary .bitAnd condition guard) = fun σ => holds condition σ ∧ holds guard σ :=
    funext fun σ => propext (hcondition.holds_and hguard)
  refine ⟨h.extends_,h.sound,fun T hT => ?_⟩
  have hfollows := h.follows T hT
  rw [hiff] at hfollows
  exact hfollows.under

theorem acts_foldlM {α : Type} {step : Work → α → Fallible Work} {R : α → P4RuntimeTranslator → Assignment → Store → Store → Prop}
    {l : List α} (hstep : ∀ x ∈ l,∀ w w',SoundPacket w.2 → step w x = .ok w' → Acts guard (R x) w w') (hs : SoundPacket work.2)
    (h : l.foldlM step work = .ok work') : Acts guard (fun T σ => Through (fun x => R x T σ) l) work work' := by
  induction l generalizing work with
  | nil =>
    cases h
    exact ⟨.refl _,hs,fun T _ => .refl fun _ _ => rfl⟩
  | cons x l ih =>
    rw [List.foldlM_cons] at h
    obtain ⟨mid,hmid,h⟩ := bind_eq_ok.mp h
    have hfirst := hstep x List.mem_cons_self work mid hs hmid
    have hrest := ih (fun y hy => hstep y (List.mem_cons_of_mem _ hy)) hfirst.sound h
    refine ⟨hrest.extends_.trans hfirst.extends_,hrest.sound,fun T hT => ?_⟩
    exact (hfirst.follows T (hT.trans hrest.extends_)).trans (hrest.follows T hT)

private theorem getSymbolicActionInvocation_boolean {actionName : String} {choice : Term}
    (h : getSymbolicActionInvocation entry actionName table.toTable = .ok choice) : Boolean choice := by
  obtain ⟨-,h⟩ := then_eq_ok.mp h
  cases h
  exact boolean_of_means fun σ => ⟨_,.const _ Nat.zero_lt_one⟩

private theorem getSymbolicActionParameter_sound {action : Ir.Action} {entryTable : Ir.Table}
    {param : Term} (h : getSymbolicActionParameter entry name action entryTable = .ok param) : Sound param := by
  obtain ⟨-,h⟩ := then_eq_ok.mp h
  dsimp only at h
  split at h
  next => cases h
  next bitwidth _ =>
    obtain ⟨_,hok,h⟩ := bind_eq_ok.mp h
    cases hok
    split at h
    next => cases h
    next definition _ =>
      obtain ⟨_,hok,h⟩ := bind_eq_ok.mp h
      cases hok
      obtain ⟨-,h⟩ := then_eq_ok.mp h
      exact sound_of_mkBvConst h

private theorem actionParameters_sound {entryTable : Ir.Table} {action : Ir.Action}
    {params : List (String × Term)} (h : actionParameters entry entryTable action = .ok params) : SoundPacket params := by
  have hparams := mapM_eq_ok.mp h
  intro key t hkey
  have hmem : (key,t) ∈ params := mem_of_lookup_eq_some hkey
  obtain ⟨x,-,hx⟩ := exists_of_forall₂_right hparams hmem
  obtain ⟨param,hparam,heq⟩ := map_eq_ok.mp hx
  cases heq
  exact getSymbolicActionParameter_sound hparam

private theorem evaluateSingleSymbolicAction_acts {actionName : String} (hs : SoundPacket work.2)
    (hguard : Sound guard) (h : evaluateSingleSymbolicAction program guard actionName entry work = .ok work') :
    Acts guard (fun _ σ => SymbolicallyInvokes program σ entry actionName) work work' := by
  rw [evaluateSingleSymbolicAction] at h
  cases haction : program.actions.lookup actionName with
  | none =>
    rw [haction] at h
    cases h
  | some action =>
    rw [haction] at h
    obtain ⟨entryTable,htable,h⟩ := bind_eq_ok.mp h
    obtain ⟨params,hparams,h⟩ := bind_eq_ok.mp h
    have hlookup : program.tables.lookup entry.tableName = some entryTable := by
      rw [atKey] at htable
      cases hentry : program.tables.lookup entry.tableName with
      | none =>
        rw [hentry] at htable
        cases htable
      | some x =>
        rw [hentry] at htable
        cases htable
        rfl
    apply (evaluateActionBody_acts hs (actionParameters_sound hparams) hguard h).imp
    intro T _ σ c c' hruns
    exact ⟨entryTable,action,params,hlookup,haction,hparams,hruns⟩

private theorem evaluateChosenAction_acts {action : IrActionDefinition} (hs : SoundPacket work.2)
    (h : evaluateChosenAction program table (.boolVal true) entry work action = .ok work') :
    Acts (.boolVal true) (fun _ σ => InvokesIfChosen program table σ entry action) work work' := by
  obtain ⟨choice,hchoice,h⟩ := bind_eq_ok.mp h
  have hboolean := getSymbolicActionInvocation_boolean hchoice
  have hacts := evaluateSingleSymbolicAction_acts hs ((boolean_boolVal true).and hboolean).sound h
  have hiff : ∀ σ,holds (.binary .bitAnd (.boolVal true) choice) σ ↔ Chosen table σ entry action.preamble.name := by
    intro σ
    rw [(boolean_boolVal true).holds_and hboolean]
    constructor
    · rintro ⟨-,hholds⟩
      exact ⟨choice,hchoice,hholds⟩
    · rintro ⟨choice',hchoice',hholds⟩
      rw [hchoice] at hchoice'
      cases hchoice'
      exact ⟨holds_true σ,hholds⟩
  refine ⟨hacts.extends_,hacts.sound,fun T hT => ⟨fun σ _ => ⟨fun hchosen => ?_,fun hchosen => ?_⟩,fun σ hσ => ?_⟩⟩
  · exact (hacts.follows T hT).runs σ ((hiff σ).mpr hchosen)
  · exact (hacts.follows T hT).idle σ fun hσ => hchosen ((hiff σ).mp hσ)
  · exact absurd (holds_true σ) hσ

private theorem isPosition_boolean (selector : String) (hsize : 0 < size) (position : Nat) :
    Boolean (isPosition selector size position) :=
  boolean_of_means fun _ => ⟨_,(Term.Means.const (s := .bitVector size) _ hsize).binary .eq (Term.Means.bvVal _ hsize)⟩

private theorem isPosition_holds {selector : String} {i : Nat} (hi : i < size) (σ : Assignment) :
    holds (isPosition selector size i) σ ↔ position σ selector size = i := by
  rw [isPosition,holds_decide rfl,Term.eval,Term.eval,Nat.mod_eq_of_lt (hi.trans Nat.lt_two_pow_self)]
  rfl

section Selection
variable {α : Type}

theorem Selected.imp {R R' : α → Store → Store → Prop} {n : Nat} {choices : List α}
    (himp : ∀ x,R x c c' → R' x c c') (h : Selected R n choices c c') : Selected R' n choices c c' := by
  unfold Selected at h ⊢
  split at h
  · exact h
  · exact himp _ h

variable {evaluate : Term → α → Work → Fallible Work} {R : α → P4RuntimeTranslator → Assignment → Store → Store → Prop}

private theorem selected_head {R : α → Store → Store → Prop} {x : α} {rest : List α} :
    Selected R 0 (x :: rest) c c' ↔ R x c c' := by
  rw [Selected,Nat.zero_min]
  rfl

private theorem selected_tail {R : α → Store → Store → Prop} {x y : α} {rest : List α} {n : Nat} :
    Selected R (n + 1) (x :: y :: rest) c c' ↔ Selected R n (y :: rest) c c' := by
  rw [Selected,Selected,List.length_cons,List.length_cons,Nat.add_sub_cancel,Nat.add_sub_cancel,Nat.add_min_add_right,
    List.getElem?_cons_succ]

private theorem selected_last {R : α → Store → Store → Prop} {x : α} (n : Nat) : Selected R n [x] c c' ↔ R x c c' := by
  rw [Selected,List.length_singleton,Nat.sub_self,Nat.min_zero]
  rfl

/-- The choices that are left, where no earlier one is selected. -/
theorem evaluateSelected_left {selected : Nat → Term} {pick : Assignment → Nat}
    (hevaluate : ∀ guard x w w',SoundPacket w.2 → Boolean guard → evaluate guard x w = .ok w' → Acts guard (R x) w w')
    (hboolean : ∀ i,Boolean (selected i)) (hselected : ∀ i < size,∀ σ,holds (selected i) σ ↔ pick σ = i)
    {choices : List α} {position : Nat} {unselected : Term} (hunselected : Boolean unselected)
    (hlater : ∀ σ,holds unselected σ ↔ position ≤ pick σ) (hsize : position + choices.length ≤ size)
    (hs : SoundPacket work.2) (h : evaluateSelected evaluate selected position unselected choices work = .ok work') :
    Acts unselected (fun T σ => Selected (fun x => R x T σ) (pick σ - position) choices) work work' := by
  induction choices generalizing position unselected work with
  | nil =>
    cases h
    exact ⟨.refl _,hs,fun T _ => .refl fun _ _ => rfl⟩
  | cons choice rest ih =>
    obtain ⟨mid,hmid,h⟩ := bind_eq_ok.mp h
    cases rest with
    | nil =>
      cases h
      exact (hevaluate _ _ _ _ hs hunselected hmid).imp fun T _ σ c c' hr => (selected_last _).mpr hr
    | cons next rest =>
      have hposition : position < size := by
        rw [List.length_cons] at hsize
        omega
      have hfirst := hevaluate _ _ _ _ hs (hboolean position) hmid
      have hpick := hselected position hposition
      have hand := hunselected.and (hboolean position).not
      have hiff : ∀ σ,holds (.binary .bitAnd unselected (.not (selected position))) σ ↔ position + 1 ≤ pick σ := fun σ => by
        rw [hunselected.holds_and (hboolean position).not,holds_not,hlater,hpick]
        omega
      have hrest := ih hand hiff (by rw [List.length_cons] at hsize; omega) hfirst.sound h
      refine ⟨hrest.extends_.trans hfirst.extends_,hrest.sound,fun T hT => ?_⟩
      have hboth := (hfirst.follows T (hT.trans hrest.extends_)).exclusive (hrest.follows T hT) fun σ hp hnot => by
        have := (hpick σ).mp hp
        have := (hiff σ).mp hnot
        omega
      refine ⟨fun σ hσ => ?_,fun σ hσ => hboth.idle σ fun hor => hσ ((hlater σ).mpr ?_)⟩
      · by_cases hp : holds (selected position) σ
        · rw [(hpick σ).mp hp,Nat.sub_self]
          exact selected_head.mpr ((hboth.runs σ (.inl hp)).1 hp)
        · have hbeyond : position + 1 ≤ pick σ := Nat.lt_of_le_of_ne ((hlater σ).mp hσ) fun heq => hp ((hpick σ).mpr heq.symm)
          have hnot := (hiff σ).mpr hbeyond
          rw [show pick σ - position = (pick σ - (position + 1)) + 1 by omega]
          exact selected_tail.mpr ((hboth.runs σ (.inr hnot)).2 hnot)
      · rcases hor with hp | hnot
        · exact ((hpick σ).mp hp).ge
        · exact Nat.le_of_succ_le ((hiff σ).mp hnot)

theorem evaluateSelected_acts
    (hevaluate : ∀ guard x w w',SoundPacket w.2 → Boolean guard → evaluate guard x w = .ok w' → Acts guard (R x) w w')
    {choices : List α} {selector : String} (hs : SoundPacket work.2)
    (h : evaluateSelected evaluate (isPosition selector choices.length) 0 (.boolVal true) choices work = .ok work') :
    Acts (.boolVal true) (fun T σ => Selected (fun x => R x T σ) (position σ selector choices.length) choices) work work' := by
  cases choices with
  | nil =>
    cases h
    exact ⟨.refl _,hs,fun T _ => .refl fun _ _ => rfl⟩
  | cons x rest =>
    apply evaluateSelected_left hevaluate (isPosition_boolean selector (Nat.succ_pos _)) (fun i hi => isPosition_holds hi)
      (boolean_boolVal true) (fun σ => iff_of_true (holds_true σ) (Nat.zero_le _)) _ hs h
    exact (Nat.zero_add _).le

end Selection

variable [InetText]

private theorem evaluateConcreteEntryAction_acts {entity : IrEntity} {index : Int32} (hs : SoundPacket work.2)
    (h : evaluateConcreteEntryAction program (.boolVal true) entity index work = .ok work') :
    Acts (.boolVal true) (fun T σ => EntryActs program table σ T (.concreteEntry entity index)) work work' := by
  cases entity with
  | packetReplicationEngineEntry e => cases h
  | tableEntry entry =>
    rw [evaluateConcreteEntryAction] at h
    cases htype : entry.type with
    | notSet =>
      rw [htype] at h
      cases h
    | action action =>
      rw [htype] at h
      apply (evaluateSingleConcreteAction_acts hs (sound_boolVal true) h).imp
      intro T _ σ c c' hinvokes
      rw [EntryActs,htype]
      exact hinvokes
    | actionSet actions =>
      rw [htype] at h
      have hacts := evaluateSelected_acts (R := fun x T _ => Invokes program T x.action)
        (fun _ _ _ _ hw hguard hstep => evaluateSingleConcreteAction_acts hw hguard.sound hstep) hs h
      apply hacts.imp
      intro T _ σ c c' hset
      rw [EntryActs,htype]
      exact hset

theorem evaluateTableEntryAction_acts {entry : Ir.TableEntry} (hs : SoundPacket work.2)
    (h : evaluateTableEntryAction program table (.boolVal true) entry work = .ok work') :
    Acts (.boolVal true) (fun T σ => EntryActs program table σ T entry) work work' := by
  cases entry with
  | notSet => cases h
  | concreteEntry entity index => exact evaluateConcreteEntryAction_acts hs h
  | symbolicEntry entry =>
    rw [evaluateTableEntryAction,evaluateSymbolicEntryAction] at h
    split_ifs at h
    exact acts_foldlM (fun action _ w w' hw hstep => evaluateChosenAction_acts hw hstep) hs h

end SonicPins.P4Symbolic.Evaluation
