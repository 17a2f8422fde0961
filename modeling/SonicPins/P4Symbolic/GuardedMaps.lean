import Mathlib.Data.String.Basic
import Mathlib.Logic.Function.Basic
import SonicPins.Lib.GuardedRuns
import SonicPins.Lib.SortedMap
import SonicPins.P4Symbolic.OperatorMeaning
import SonicPins.P4Symbolic.Z3Util

/-! The fields of a symbolic packet, assigned under guards, and the concrete fields that they stand for. -/
namespace SonicPins.P4Symbolic
open Lib Pdpi Operators

variable {s s' u : SolverSort} {operation : BinaryOperation}

/-- The value of a bit vector, or of a boolean as one bit. -/
structure Value where
  width : Nat
  bits : Nat
  deriving DecidableEq,Repr

/-- The lowest bits, or zeros in front. -/
def Value.fit (v : Value) (width : Nat) : Value := ⟨width,v.bits % 2 ^ width⟩

def binaryValue (operation : BinaryOperation) (a b : Value) : Value :=
  let width := if operation = .bitAnd then min a.width b.width else max a.width b.width
  let op := operationOp operation
  ⟨if op.isComparison then 1 else width,op.apply width a.bits b.bits⟩

def unaryOf (operation : UnaryOperation) (a : Value) : Value :=
  match operation with
  | .not => ⟨1,(decide (a.bits = 0)).toNat⟩
  | .bitNegation => ⟨a.width,2 ^ a.width - 1 - a.bits⟩

def ternaryOf (c a b : Value) : Value := ⟨max a.width b.width,if c.bits = 0 then b.bits else a.bits⟩

/-- A bit is the value of a boolean, and a boolean tells whether there is a bit. -/
def builtinOf (function : BuiltinFunction) (a : Value) : Value :=
  match function with
  | .dataToBool => ⟨1,(decide (1 ≤ a.bits)).toNat⟩
  | .boolToData => ⟨1,a.bits⟩

/-- A term has a value of its sort under every assignment. -/
def Sound (t : Term) : Prop := ∀ σ,Term.Means σ t t.sort (t.eval σ)

def valueAt (σ : Assignment) (t : Term) : Value := ⟨t.width,t.eval σ⟩

def holds (t : Term) (σ : Assignment) : Prop := t.eval σ ≠ 0

instance (t : Term) (σ : Assignment) : Decidable (holds t σ) := inferInstanceAs (Decidable (t.eval σ ≠ 0))

/-- Concrete fields, by qualified name. -/
abbrev Store := String → Option Value

/-- Fields are assigned values of their widths. -/
def Store.set (store : Store) (key : String) (value : Value) : Option Store :=
  (store key).map fun old => Function.update store key (some (value.fit old.width))

def cannotFind (key : String) : Failure := .status (invalidArgument ("Cannot find key \"" ++ key ++ "\" in SymbolicGuardedMap!"))

def cannotAssign (key : String) : Failure :=
  .status (invalidArgument ("Cannot assign to key \"" ++ key ++ "\" in SymbolicGuardedMap!"))

namespace SymbolicPerPacketState

def getKey (packet : SymbolicPerPacketState) (key : String) : Fallible Term :=
  match packet.lookup key with
  | some value => .ok value
  | none => .error (cannotFind key)

def truncateBitVectorToFit (target value : Term) : Term :=
  match target.sort,value.sort with
  | .bitVector v,.bitVector w => if v < w then .extract (v - 1) 0 value else value
  | _,_ => value

def unguardedSet (packet : SymbolicPerPacketState) (key : String) (value : Term) : Fallible SymbolicPerPacketState :=
  match packet.lookup key with
  | none => .error (cannotAssign key)
  | some oldValue => do
    let pair ← sortCheckAndPad (truncateBitVectorToFit oldValue value) oldValue
    .ok (assign key pair.1 packet)

def set (packet : SymbolicPerPacketState) (key : String) (value guard : Term) : Fallible SymbolicPerPacketState :=
  match packet.lookup key with
  | none => .error (cannotAssign key)
  | some oldValue =>
    if guard = .boolVal true then packet.unguardedSet key value
    else do
      let newValue ← Operators.ite guard (truncateBitVectorToFit oldValue value) oldValue
      .ok (assign key newValue packet)

/-- The concrete fields under an assignment. -/
def storeAt (σ : Assignment) (packet : SymbolicPerPacketState) : Store := fun key => (packet.lookup key).map (valueAt σ)

def SoundPacket (packet : SymbolicPerPacketState) : Prop := ∀ key t,packet.lookup key = some t → Sound t

end SymbolicPerPacketState

section Meaning
variable {a b c t : Term} {σ : Assignment}

theorem sound_of_means (h : ∀ σ,∃ s x,Term.Means σ t s x) : Sound t := by
  intro σ
  obtain ⟨s,x,ht⟩ := h σ
  rw [ht.sort,ht.eval]
  exact ht

theorem valueAt_of_means {x : Nat} (h : Term.Means σ t s x) : valueAt σ t = ⟨s.width,x⟩ := by
  rw [valueAt,h.width,h.eval]

theorem value_of_yields {r : Fallible Term} {m : Assignment → Meaning} {f : Assignment → Value} (hr : r = .ok t)
    (h : ∀ σ,Yields σ r (m σ)) (hm : ∀ σ x,m σ = some x → f σ = ⟨x.1.width,x.2⟩) :
    Sound t ∧ ∀ σ,valueAt σ t = f σ := by
  have hmeans : ∀ σ,∃ x,m σ = some x ∧ Term.Means σ t x.1 x.2 := by
    intro σ
    have hσ := h σ
    rw [hr] at hσ
    cases hx : m σ with
    | none =>
      rw [hx] at hσ
      obtain ⟨e,he⟩ := hσ
      cases he
    | some x =>
      rw [hx] at hσ
      obtain ⟨t',ht',hmeans⟩ := hσ
      cases ht'
      exact ⟨x,rfl,hmeans⟩
  constructor
  · apply sound_of_means
    intro σ
    obtain ⟨x,-,hx⟩ := hmeans σ
    exact ⟨x.1,x.2,hx⟩
  · intro σ
    obtain ⟨x,hmx,hx⟩ := hmeans σ
    rw [hm σ x hmx,valueAt_of_means hx]

theorem padSort_width (h : padSort s s' = some u) : u.width = max s.width s'.width := by
  cases s with
  | bool =>
    cases s' with
    | bool => cases h; rfl
    | bitVector w =>
      rw [padSort] at h
      split_ifs at h with hw
      cases h
      rw [hw]
      rfl
  | bitVector v =>
    cases s' with
    | bool =>
      rw [padSort] at h
      split_ifs at h with hv
      cases h
      rw [hv]
      rfl
    | bitVector w => cases h; rfl

private theorem andSort_width (h : andSort min s s' = some u) : u.width = min s.width s'.width := by
  cases s with
  | bool =>
    cases s' with
    | bool => cases h; rfl
    | bitVector w =>
      rw [andSort] at h
      split_ifs at h with hw
      cases h
      rw [hw]
      rfl
  | bitVector v =>
    cases s' with
    | bool =>
      rw [andSort] at h
      split_ifs at h with hv
      cases h
      rw [hv]
      rfl
    | bitVector w => cases h; rfl

theorem operandSort_width (h : operandSort min operation s s' = some u) :
    u.width = if operation = .bitAnd then min s.width s'.width else max s.width s'.width := by
  have hpadded : ∀ {op : BinaryOp},acceptedSort op (padSort s s') = some u → u.width = max s.width s'.width :=
    fun hop => padSort_width (Option.mem_filter_iff.mp hop).1
  have hbools : (if s = .bool ∧ s' = .bool then some SolverSort.bool else none) = some u → u.width = max s.width s'.width := by
    intro hop
    split_ifs at hop with hs
    cases hop
    rw [hs.1,hs.2]
    rfl
  cases operation with
  | bitAnd => exact andSort_width h
  | and => exact hbools h
  | or => exact hbools h
  | _ => exact hpadded h

private theorem binaryMeaning_value {m n x : SolverSort × Nat} (h : binaryMeaning min operation m n = some x) :
    binaryValue operation ⟨m.1.width,m.2⟩ ⟨n.1.width,n.2⟩ = ⟨x.1.width,x.2⟩ := by
  obtain ⟨u,hu,rfl⟩ := Option.map_eq_some_iff.mp h
  rw [binaryValue,operandSort_width hu]
  congr 1
  rw [BinaryOp.resultSort]
  split
  · rfl
  · rw [operandSort_width hu]

theorem evaluateBinary_value (ha : Sound a) (hb : Sound b) (h : evaluateBinary bitAnd operation a b = .ok t) :
    Sound t ∧ ∀ σ,valueAt σ t = binaryValue operation (valueAt σ a) (valueAt σ b) :=
  value_of_yields h (fun σ => evaluateBinary_yields (andCheck_extract σ) operation (ha σ) (hb σ)) fun _ _ => binaryMeaning_value

theorem evaluateUnary_value {operation : UnaryOperation} (ha : Sound a) (h : evaluateUnary operation a = .ok t) :
    Sound t ∧ ∀ σ,valueAt σ t = unaryOf operation (valueAt σ a) := by
  refine value_of_yields h (fun σ => evaluateUnary_yields operation (ha σ)) fun σ x hx => ?_
  obtain ⟨u,hu,rfl⟩ := Option.map_eq_some_iff.mp hx
  cases operation with
  | not =>
    cases hs : a.sort with
    | bool =>
      rw [hs] at hu
      cases hu
      rfl
    | bitVector w =>
      rw [hs] at hu
      cases hu
  | bitNegation =>
    cases hs : a.sort with
    | bool =>
      rw [hs] at hu
      cases hu
    | bitVector w =>
      rw [hs] at hu
      cases hu
      rw [unaryOf,valueAt,Term.width,hs,unaryValue]

theorem evaluateBuiltin_value {function : BuiltinFunction} (ha : Sound a) (h : evaluateBuiltin function a = .ok t) :
    Sound t ∧ ∀ σ,valueAt σ t = builtinOf function (valueAt σ a) := by
  refine value_of_yields h (fun σ => evaluateBuiltin_yields function (ha σ)) fun σ x hx => ?_
  obtain ⟨u,hu,rfl⟩ := Option.map_eq_some_iff.mp hx
  have hfits := (ha σ).fits
  cases function with
  | dataToBool =>
    cases hs : a.sort with
    | bool =>
      rw [hs] at hu hfits
      cases hu
      have hbit : a.eval σ < 2 := hfits
      have hcases : a.eval σ = 0 ∨ a.eval σ = 1 := by omega
      change (⟨1,(decide (1 ≤ a.eval σ)).toNat⟩ : Value) = ⟨1,builtinValue .dataToBool .bool (a.eval σ)⟩
      rcases hcases with h0 | h1
      · rw [h0]; rfl
      · rw [h1]; rfl
    | bitVector w =>
      rw [hs] at hu
      cases hu
      rfl
  | boolToData =>
    cases hs : a.sort with
    | bool =>
      rw [hs] at hu
      cases hu
      rfl
    | bitVector w =>
      rw [hs,builtinSort] at hu
      split_ifs at hu
      cases hu
      rfl

theorem ite_value (hc : Sound c) (ha : Sound a) (hb : Sound b) (h : Operators.ite c a b = .ok t) :
    Sound t ∧ ∀ σ,valueAt σ t = ternaryOf (valueAt σ c) (valueAt σ a) (valueAt σ b) := by
  refine value_of_yields h (fun σ => ite_yields (hc σ) (ha σ) (hb σ)) fun σ x hx => ?_
  obtain ⟨u,hu,rfl⟩ := Option.map_eq_some_iff.mp hx
  rw [ternarySort] at hu
  split_ifs at hu
  rw [ternaryOf,padSort_width hu]
  rfl

theorem ternaryOf_of_holds (h : holds c σ) (x y : Value) : ternaryOf (valueAt σ c) x y = ⟨max x.width y.width,x.bits⟩ := by
  rw [ternaryOf]
  exact congrArg _ (if_neg h)

theorem ternaryOf_of_not_holds (h : ¬ holds c σ) (x y : Value) : ternaryOf (valueAt σ c) x y = ⟨max x.width y.width,y.bits⟩ := by
  rw [ternaryOf]
  exact congrArg _ (if_pos (not_not.mp h))

private theorem ite_padSort (hc : Sound c) (ha : Sound a) (hb : Sound b) (h : Operators.ite c a b = .ok t) :
    ∃ u,padSort a.sort b.sort = some u := by
  have hyields := ite_yields (hc fun _ _ => 0) (ha fun _ _ => 0) (hb fun _ _ => 0)
  rw [h] at hyields
  cases hu : ternarySort c.sort a.sort b.sort with
  | none =>
    rw [hu] at hyields
    obtain ⟨e,he⟩ := hyields
    cases he
  | some u =>
    rw [ternarySort] at hu
    split_ifs at hu
    exact ⟨u,hu⟩

end Meaning

open SymbolicPerPacketState
variable {packet packet' : SymbolicPerPacketState} {key headerName fieldName : String} {t value guard oldValue : Term}

theorem getKey_eq_ok : packet.getKey key = .ok t ↔ packet.lookup key = some t := by
  rw [getKey]
  cases packet.lookup key <;> simp

theorem getField_eq_ok : packet.get headerName fieldName = .ok t ↔ packet.lookup (headerName ++ "." ++ fieldName) = some t := by
  rw [SymbolicPerPacketState.get]
  cases packet.lookup (headerName ++ "." ++ fieldName) <;> simp

theorem truncate_value (hold : Sound oldValue) (hvalue : Sound value) : Sound (truncateBitVectorToFit oldValue value) ∧
    ∀ σ,(truncateBitVectorToFit oldValue value).width ≤ oldValue.width ∧
        (truncateBitVectorToFit oldValue value).eval σ = value.eval σ % 2 ^ oldValue.width ∨
      oldValue.sort = .bool ∧ truncateBitVectorToFit oldValue value = value ∨
      value.sort = .bool ∧ truncateBitVectorToFit oldValue value = value := by
  rw [truncateBitVectorToFit]
  cases hs : oldValue.sort with
  | bool => exact ⟨hvalue,fun σ => .inr (.inl ⟨rfl,rfl⟩)⟩
  | bitVector v =>
    cases hs' : value.sort with
    | bool => exact ⟨hvalue,fun σ => .inr (.inr ⟨rfl,rfl⟩)⟩
    | bitVector w =>
      have hv : oldValue.width = v := by rw [Term.width,hs]; rfl
      have hpos : 0 < v := by
        have := (hold fun _ _ => 0).pos
        rwa [hs] at this
      have hmeans : ∀ σ,Term.Means σ value (.bitVector w) (value.eval σ) := fun σ => hs' ▸ hvalue σ
      dsimp only
      split
      · have hlow := fun σ => (hmeans σ).extractLow hpos
        refine ⟨sound_of_means fun σ => ⟨_,_,hlow σ⟩,fun σ => .inl ⟨?_,?_⟩⟩
        · rw [(hlow σ).width,hv]
          exact le_rfl
        · rw [(hlow σ).eval,hv]
      · refine ⟨hvalue,fun σ => .inl ⟨?_,?_⟩⟩
        · rw [(hmeans σ).width,hv]
          exact Nat.not_lt.mp ‹_›
        · have hfits : value.eval σ < 2 ^ w := (hmeans σ).fits
          rw [hv,Nat.mod_eq_of_lt (lt_of_lt_of_le hfits (Nat.pow_le_pow_right (by decide) (Nat.not_lt.mp ‹_›)))]

theorem padSort_bool (h : padSort .bool s = some u ∨ padSort s .bool = some u) : s.width = 1 ∧ u.width = 1 := by
  cases s with
  | bool =>
    rcases h with h | h
    · cases h
      exact ⟨rfl,rfl⟩
    · cases h
      exact ⟨rfl,rfl⟩
  | bitVector w =>
    simp only [padSort,or_self] at h
    split_ifs at h with hw
    cases h
    exact ⟨hw,rfl⟩

theorem fit_padded (hold : Sound oldValue) (hvalue : Sound value)
    (hu : padSort (truncateBitVectorToFit oldValue value).sort oldValue.sort = some u) (σ : Assignment) :
    u.width = oldValue.width ∧ (truncateBitVectorToFit oldValue value).eval σ = value.eval σ % 2 ^ oldValue.width := by
  have hwidth := padSort_width hu
  obtain ⟨hsound,hcases⟩ := truncate_value hold hvalue
  rcases hcases σ with ⟨hle,heval⟩ | ⟨hs,htruncate⟩ | ⟨hs,htruncate⟩
  · rw [Term.width] at hle
    exact ⟨hwidth.trans (max_eq_right hle),heval⟩
  · rw [htruncate] at hu ⊢
    have hold1 : oldValue.width = 1 := by rw [Term.width,hs]; rfl
    obtain ⟨hvalue1,hu1⟩ := padSort_bool (.inr (hs ▸ hu))
    have hfits : value.eval σ < 2 ^ value.width := (hvalue σ).fits
    rw [Term.width,hvalue1] at hfits
    rw [hold1,hu1,Nat.mod_eq_of_lt hfits]
    exact ⟨rfl,rfl⟩
  · rw [htruncate] at hu ⊢
    have hvalue1 : value.width = 1 := by rw [Term.width,hs]; rfl
    obtain ⟨hold1,hu1⟩ := padSort_bool (.inl (hs ▸ hu))
    have hfits : value.eval σ < 2 ^ value.width := (hvalue σ).fits
    rw [hvalue1] at hfits
    rw [Term.width,hold1,hu1,Nat.mod_eq_of_lt hfits]
    exact ⟨rfl,rfl⟩

theorem storeAt_assign (σ : Assignment) (packet : SymbolicPerPacketState) (key : String) (t : Term) :
    storeAt σ (assign key t packet) = Function.update (storeAt σ packet) key (some (valueAt σ t)) := by
  funext k
  rw [storeAt,lookup_assign,Function.update_apply]
  by_cases hk : k = key
  · rw [if_pos hk,if_pos hk,Option.map_some]
  · rw [if_neg hk,if_neg hk]
    rfl

theorem SymbolicPerPacketState.SoundPacket.assign (hp : SoundPacket packet) (ht : Sound t) : SoundPacket (assign key t packet) := by
  intro k t' hk
  rw [lookup_assign] at hk
  split_ifs at hk
  · rw [← Option.some.inj hk]
    exact ht
  · exact hp k t' hk

theorem set_follows (hp : SoundPacket packet) (hvalue : Sound value) (hguard : Sound guard)
    (h : packet.set key value guard = .ok packet') : SoundPacket packet' ∧
      Follows storeAt id (holds guard) (fun σ c c' => c.set key (valueAt σ value) = some c') packet packet' := by
  rw [SymbolicPerPacketState.set] at h
  cases hlookup : packet.lookup key with
  | none =>
    rw [hlookup] at h
    cases h
  | some oldValue =>
    have hold := hp key oldValue hlookup
    have hstore : ∀ σ,(storeAt σ packet) key = some (valueAt σ oldValue) := fun σ => by
      rw [storeAt,hlookup,Option.map_some]
    rw [hlookup] at h
    dsimp only at h
    split_ifs at h with htrue
    · subst htrue
      rw [unguardedSet,hlookup] at h
      obtain ⟨pair,hpair,h⟩ := bind_eq_ok.mp h
      cases h
      have htruncated := (truncate_value hold hvalue).1
      have hspec := fun σ => sortCheckAndPad_spec (htruncated σ) (hold σ)
      cases hu : padSort (truncateBitVectorToFit oldValue value).sort oldValue.sort with
      | none =>
        rw [hu] at hspec
        obtain ⟨e,he⟩ := hspec fun _ _ => 0
        rw [hpair] at he
        cases he
      | some u =>
        rw [hu,hpair] at hspec
        have hmeans : ∀ σ,Term.Means σ pair.1 u (value.eval σ % 2 ^ oldValue.width) ∧ u.width = oldValue.width := by
          intro σ
          obtain ⟨p,hp',hp1,-⟩ := hspec σ
          cases hp'
          obtain ⟨hwidth,heval⟩ := fit_padded hold hvalue hu σ
          rw [heval] at hp1
          exact ⟨hp1,hwidth⟩
        refine ⟨hp.assign (sound_of_means fun σ => ⟨_,_,(hmeans σ).1⟩),⟨fun σ _ => ?_,fun σ hσ => ?_⟩⟩
        · rw [Store.set,hstore,Option.map_some,storeAt_assign,valueAt_of_means (hmeans σ).1,(hmeans σ).2]
          rfl
        · exact absurd one_ne_zero hσ
    · obtain ⟨newValue,hnew,h⟩ := bind_eq_ok.mp h
      cases h
      have htruncated := (truncate_value hold hvalue).1
      obtain ⟨hsound,hvalues⟩ := ite_value hguard htruncated hold hnew
      obtain ⟨u,hu⟩ := ite_padSort hguard htruncated hold hnew
      have hwidth : max (truncateBitVectorToFit oldValue value).width oldValue.width = oldValue.width := by
        have hle := padSort_width hu
        rw [(fit_padded hold hvalue hu fun _ _ => 0).1] at hle
        exact hle.symm
      have heval : ∀ σ,(truncateBitVectorToFit oldValue value).eval σ = value.eval σ % 2 ^ oldValue.width :=
        fun σ => (fit_padded hold hvalue hu σ).2
      refine ⟨hp.assign hsound,⟨fun σ hσ => ?_,fun σ hσ => ?_⟩⟩
      · have hnewValue : valueAt σ newValue = (valueAt σ value).fit oldValue.width := by
          rw [hvalues,ternaryOf_of_holds hσ,valueAt,valueAt,hwidth,heval]
          rfl
        rw [Store.set,hstore,Option.map_some,storeAt_assign,hnewValue]
        rfl
      · have hnewValue : valueAt σ newValue = valueAt σ oldValue := by
          rw [hvalues,ternaryOf_of_not_holds hσ,valueAt,valueAt,hwidth]
        change storeAt σ (assign key newValue packet) = storeAt σ packet
        rw [storeAt_assign,hnewValue,← hstore,Function.update_eq_self]

end SonicPins.P4Symbolic
