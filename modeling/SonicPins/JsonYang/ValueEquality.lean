import SonicPins.Lib.JsonOrder
import SonicPins.Lib.Status
import Mathlib.Data.String.Basic

/-! Comparing JSON values up to the order of their elements and members, and the values on which
the comparison is wrong. -/
namespace SonicPins.JsonYang
open Lib JsonTree

variable {m n : List (String × Value)} {xs ys : List Value}

/-- The scalars of a document without floating-point values. -/
inductive JsonScalar where
  | bool (b : Bool)
  | int (i : Int64)
  | uint (u : UInt64)
  | string (s : String)
  deriving DecidableEq

inductive ValueType where
  | nullValue
  | intValue
  | uintValue
  | stringValue
  | booleanValue
  | arrayValue
  | objectValue
  deriving DecidableEq

abbrev Value := JsonTree JsonScalar

def type : Value → ValueType
  | .null => .nullValue
  | .scalar (.bool _) => .booleanValue
  | .scalar (.int _) => .intValue
  | .scalar (.uint _) => .uintValue
  | .scalar (.string _) => .stringValue
  | .arr _ => .arrayValue
  | .obj _ => .objectValue

def isIntegral (value : Value) : Bool := type value = .intValue || type value = .uintValue

def size : Value → Nat
  | .arr xs => xs.length
  | .obj m => m.length
  | _ => 0

def asInt64 : Value → Fallible Int
  | .scalar (.int i) => .ok i.toInt
  | .scalar (.uint u) => if u.toNat < 2 ^ 63 then .ok u.toNat else .error (.thrown "LargestUInt out of Int64 range")
  | _ => .error (.thrown "Value is not convertible to Int64.")

/-- The constant lookup of a member, which is null where there is none. -/
def member (value : Value) (name : String) : Value :=
  match value with
  | .obj m => (m.lookup name).getD .null
  | _ => .null

def elements : Value → List Value
  | .arr xs => xs
  | _ => []

/-- The inner loop over an array: the elements that are unmatched after the first match. -/
def takeFirst (isEqual : Value → Fallible Bool) : List Value → Fallible (Option (List Value))
  | [] => .ok none
  | y :: ys => do
    if ← isEqual y then return some ys
    return (← takeFirst isEqual ys).map (y :: ·)

mutual

def jsonValueIsEqual (value1 value2 : Value) : Fallible Bool := do
  if type value1 ≠ type value2 then
    if isIntegral value1 && isIntegral value2 then return (← asInt64 value1) = (← asInt64 value2)
    return false
  if size value1 ≠ size value2 then return false
  match value1,value2 with
  | .arr xs,value2 => elementsAreEqual xs (elements value2)
  | .obj m,value2 => membersAreEqual m value2
  | .scalar s,.scalar t => return s = t
  | _,_ => return true

/-- The outer loop over an array; `unmatched` are the elements of the other one whose indices
are not in `identical_index`. -/
def elementsAreEqual : List Value → List Value → Fallible Bool
  | [],_ => return true
  | x :: xs,unmatched => do
    match ← takeFirst (jsonValueIsEqual x) unmatched with
    | some unmatched => elementsAreEqual xs unmatched
    | none => return false

def membersAreEqual : List (String × Value) → Value → Fallible Bool
  | [],_ => return true
  | (name,x) :: m,value2 => do
    if ← jsonValueIsEqual x (member value2 name) then membersAreEqual m value2 else return false

end

/-- What a scalar stands for: an integer is the same, signed or unsigned. -/
inductive Datum where
  | bool (b : Bool)
  | integer (i : Int)
  | string (s : String)

def JsonScalar.datum : JsonScalar → Datum
  | .bool b => .bool b
  | .int i => .integer i.toInt
  | .uint u => .integer u.toNat
  | .string s => .string s

/-- One value can be turned into the other by permuting elements and members at any depth and
by changing the representation of integers. -/
def Alike : Value → Value → Prop := UpToOrder fun s t => s.datum = t.datum

theorem alike_equivalence : Equivalence Alike :=
  upToOrder_equivalence ⟨fun _ => rfl,Eq.symm,Eq.trans⟩

theorem alike_scalar {s t : JsonScalar} : Alike (.scalar s) (.scalar t) ↔ s.datum = t.datum := upToOrder_scalar

theorem alike_obj_iff (hm : Ordered m) (hn : Ordered n) :
    Alike (.obj m) (.obj n) ↔ m.length = n.length ∧ ∀ p ∈ m,∃ y,n.lookup p.1 = some y ∧ Alike p.2 y :=
  upToOrder_obj_iff hm hn

/-- The comparisons of the elements of two arrays by a relation: of each one with those that no earlier one has taken, up to
the first to which it is related, and takes. -/
inductive InTurn (same : Value → Value → Prop) (x y : Value) : List Value → List Value → Prop
  | here {xs before after : List Value} (hbefore : ∀ z ∈ before,¬ same x z) : InTurn same x y (x :: xs) (before ++ y :: after)
  | later {z w : Value} {xs before after : List Value} (hbefore : ∀ b ∈ before,¬ same z b) (hmatch : same z w)
      (h : InTurn same x y xs (before ++ after)) : InTurn same x y (z :: xs) (before ++ w :: after)

theorem InTurn.mem {same : Value → Value → Prop} {x y : Value} (h : InTurn same x y xs ys) : x ∈ xs ∧ y ∈ ys := by
  induction h with
  | here => simp
  | later _ _ _ ih =>
    refine ⟨List.mem_cons_of_mem _ ih.1,?_⟩
    rcases List.mem_append.mp ih.2 with hy | hy <;> simp [hy]

section Loops
variable {same : Value → Value → Bool}

private theorem takeFirst_ok {isEqual : Value → Fallible Bool} {p : Value → Bool}
    (h : ∀ before y after,ys = before ++ y :: after → (∀ z ∈ before,¬ p z = true) → isEqual y = .ok (p y)) :
    takeFirst isEqual ys = .ok (if ys.any p then some (ys.eraseP p) else none) := by
  induction ys with
  | nil => rfl
  | cons y ys ih =>
    rw [takeFirst,h [] y ys rfl (by simp)]
    cases hy : p y with
    | true => simp [hy,Bind.bind,Except.bind,pure,Except.pure]
    | false =>
      have hrest := ih fun before z after heq hbefore => h (y :: before) z after (by rw [heq]; rfl)
        (List.forall_mem_cons.mpr ⟨by simp [hy],hbefore⟩)
      rw [hrest]
      by_cases hany : ys.any p <;> simp [hy,hany,Bind.bind,Except.bind,pure,Except.pure]

private theorem elementsAreEqual_ok (hlength : xs.length = ys.length)
    (h : ∀ x y,InTurn (fun x y => same x y = true) x y xs ys → jsonValueIsEqual x y = .ok (same x y)) :
    elementsAreEqual xs ys = .ok (sameAsSet same xs ys) := by
  induction xs generalizing ys with
  | nil =>
    obtain rfl := List.length_eq_zero_iff.mp hlength.symm
    rw [elementsAreEqual]
    rfl
  | cons x xs ih =>
    have hfirst : takeFirst (jsonValueIsEqual x) ys = .ok (if ys.any (same x) then some (ys.eraseP (same x)) else none) :=
      takeFirst_ok fun before y after heq hbefore => h x y (heq ▸ .here hbefore)
    rw [elementsAreEqual,hfirst,sameAsSet]
    by_cases hany : ys.any (same x)
    · obtain ⟨y,hy,hxy⟩ := List.any_eq_true.mp hany
      obtain ⟨w,before,after,hbefore,hmatch,heq,herase⟩ := List.exists_of_eraseP hy hxy
      have hrest : xs.length = (ys.eraseP (same x)).length := by
        rw [List.length_eraseP_of_mem hy hxy,← hlength,List.length_cons,Nat.add_sub_cancel]
      rw [if_pos hany,hany,Bool.true_and]
      refine ih hrest fun x' y' hturn => h x' y' ?_
      rw [heq]
      exact .later hbefore hmatch (herase ▸ hturn)
    · rw [if_neg hany,Bool.not_eq_true _ |>.mp hany]
      rfl

private theorem membersAreEqual_ok (same : Value → Value → Bool) {w : Value}
    (h : ∀ before p after,m = before ++ p :: after → (∀ q ∈ before,same q.2 (member w q.1) = true) →
      jsonValueIsEqual p.2 (member w p.1) = .ok (same p.2 (member w p.1))) :
    membersAreEqual m w = .ok (m.all fun p => same p.2 (member w p.1)) := by
  induction m with
  | nil => rw [membersAreEqual]; rfl
  | cons p m ih =>
    obtain ⟨name,x⟩ := p
    rw [membersAreEqual,h [] (name,x) m rfl (by simp),List.all_cons]
    cases hsame : same x (member w name) with
    | false => rfl
    | true =>
      exact ih fun before p after heq hbefore => h ((name,x) :: before) p after (by rw [heq]; rfl)
        (List.forall_mem_cons.mpr ⟨hsame,hbefore⟩)

end Loops

/-- The comparison returns, with the right answer. -/
def Right (v w : Value) : Prop := ∃ r,jsonValueIsEqual v w = .ok r ∧ (r = true ↔ Alike v w)

/-- As many members under other names: those that the second object has are alike, the others are null. -/
structure NullsForAbsent (m n : List (String × Value)) : Prop where
  length : m.length = n.length
  absent : ∃ p ∈ m,n.lookup p.1 = none
  covered : ∀ p ∈ m,Alike p.2 (member (.obj n) p.1)

/-- The pairs of values that are compared wrongly, although all their parts are compared well. -/
def Defective : Value → Value → Prop
  | .scalar (.int _),.scalar (.uint u) => 2 ^ 63 ≤ u.toNat
  | .scalar (.uint u),.scalar (.int _) => 2 ^ 63 ≤ u.toNat
  | .obj m,.obj n => NullsForAbsent m n
  | _,_ => False

/-- The pairs that the comparison of two values compares, if it is right on those before: elements of arrays of one length, each
in its turn, and members of an object with those of their names in one of the same size. -/
inductive Compares : Value → Value → Value → Value → Prop
  | elem {x y : Value} {xs ys : List Value} (hlength : xs.length = ys.length) (h : InTurn Alike x y xs ys) :
      Compares (.arr xs) (.arr ys) x y
  | member {p : String × Value} {before after n : List (String × Value)} (hlength : (before ++ p :: after).length = n.length)
      (hbefore : ∀ q ∈ before,Alike q.2 (member (.obj n) q.1)) : Compares (.obj (before ++ p :: after)) (.obj n) p.2 (member (.obj n) p.1)

/-- The pairs that the comparison of two values comes to, at any depth. -/
inductive ComesTo : Value → Value → Value → Value → Prop
  | self {v w : Value} : ComesTo v w v w
  | within {v w x y a b : Value} (hxy : Compares v w x y) (h : ComesTo x y a b) : ComesTo v w a b

theorem ComesTo.trans {v w a b x y : Value} (h : ComesTo v w a b) (hxy : ComesTo a b x y) : ComesTo v w x y := by
  induction h with
  | self => exact hxy
  | within hvw _ ih => exact .within hvw (ih hxy)

section Ordering
variable {v w x y : Value} (hv : v.EveryObject fun m => Ordered m) (hw : w.EveryObject fun m => Ordered m)
include hv hw

theorem Compares.ordered (h : Compares v w x y) : (x.EveryObject fun m => Ordered m) ∧ y.EveryObject fun m => Ordered m := by
  cases h with
  | elem _ h => exact ⟨everyObject_arr.mp hv x h.mem.1,everyObject_arr.mp hw y h.mem.2⟩
  | @member p before after n =>
    refine ⟨(everyObject_obj.mp hv).2 p (by simp),?_⟩
    cases hlookup : n.lookup p.1 with
    | none => simp [JsonYang.member,hlookup,everyObject_null]
    | some y => simpa [JsonYang.member,hlookup] using (everyObject_obj.mp hw).2 (p.1,y) (mem_of_lookup_eq_some hlookup)

theorem ComesTo.ordered (h : ComesTo v w x y) : (x.EveryObject fun m => Ordered m) ∧ y.EveryObject fun m => Ordered m := by
  induction h with
  | self => exact ⟨hv,hw⟩
  | within hxy _ ih => exact ih (hxy.ordered hv hw).1 (hxy.ordered hv hw).2

end Ordering

theorem Compares.of_obj {x y : Value} (h : Compares (.obj m) (.obj n) x y) :
    ∃ p ∈ m,x = p.2 ∧ y = JsonYang.member (.obj n) p.1 := by
  cases h with
  | @member p => exact ⟨p,by simp,rfl,rfl⟩

theorem Compares.size_lt {v w x y : Value} (h : Compares v w x y) : sizeOf x < sizeOf v := by
  cases h with
  | elem _ h => exact sizeOf_lt_arr h.mem.1
  | @member p before after n => exact sizeOf_lt_obj (p := p) (by simp)

/-- One step of the comparison, by the types of the values. -/
theorem jsonValueIsEqual_step (v w : Value) :
    (type v ≠ type w → jsonValueIsEqual v w =
      if isIntegral v && isIntegral w then (asInt64 v).bind fun i => (asInt64 w).map fun j => decide (i = j) else .ok false) ∧
    (∀ xs ys,v = .arr xs → w = .arr ys →
      jsonValueIsEqual v w = if xs.length = ys.length then elementsAreEqual xs ys else .ok false) ∧
    (∀ m n,v = .obj m → w = .obj n → jsonValueIsEqual v w = if m.length = n.length then membersAreEqual m w else .ok false) ∧
    (∀ s t,v = .scalar s → w = .scalar t → type v = type w → jsonValueIsEqual v w = .ok (decide (s = t))) ∧
    (v = .null → w = .null → jsonValueIsEqual v w = .ok true) := by
  refine ⟨fun htype => ?_,fun xs ys hv hw => ?_,fun m n hv hw => ?_,fun s t hv hw htype => ?_,fun hv hw => ?_⟩
  all_goals unfold jsonValueIsEqual
  · rw [if_pos htype]
    split <;> rfl
  · subst hv hw
    by_cases h : xs.length = ys.length <;> simp [type,size,elements,h]; rfl
  · subst hv hw
    by_cases h : m.length = n.length <;> simp [type,size,h]; rfl
  · subst hv hw
    rw [if_neg (not_not_intro htype)]
    rfl
  · subst hv hw
    rfl

theorem jsonValueIsEqual_arr (xs ys : List Value) : jsonValueIsEqual (.arr xs) (.arr ys) =
    if xs.length = ys.length then elementsAreEqual xs ys else .ok false := (jsonValueIsEqual_step _ _).2.1 xs ys rfl rfl

theorem jsonValueIsEqual_obj (m n : List (String × Value)) : jsonValueIsEqual (.obj m) (.obj n) =
    if m.length = n.length then membersAreEqual m (.obj n) else .ok false := (jsonValueIsEqual_step _ _).2.2.1 m n rfl rfl

theorem right_of_type_ne {v w : Value} (htype : type v ≠ type w) (hints : (isIntegral v && isIntegral w) = false) : Right v w := by
  refine ⟨false,?_,?_⟩
  · rw [(jsonValueIsEqual_step v w).1 htype,hints]
    rfl
  · refine ⟨fun h => (Bool.false_ne_true h).elim,fun h => ?_⟩
    cases h with
    | null => exact absurd rfl htype
    | arr => exact absurd rfl htype
    | obj => exact absurd rfl htype
    | @scalar s t h =>
      exfalso
      cases s <;> cases t <;> simp [type,isIntegral,JsonScalar.datum] at htype hints h

private theorem right_of_type_eq {s t : JsonScalar} (htype : type (.scalar s) = type (.scalar t)) : Right (.scalar s) (.scalar t) := by
  refine ⟨s = t,(jsonValueIsEqual_step _ _).2.2.2.1 s t rfl rfl htype,?_⟩
  rw [decide_eq_true_iff,alike_scalar]
  cases s with
  | bool b =>
    cases t with
    | bool c => simp [JsonScalar.datum]
    | _ => cases htype
  | int i =>
    cases t with
    | int k => simp [JsonScalar.datum,Int64.toInt_inj]
    | _ => cases htype
  | uint u =>
    cases t with
    | uint k => rw [JsonScalar.uint.injEq,JsonScalar.datum,JsonScalar.datum,Datum.integer.injEq,Int.ofNat_inj,UInt64.toNat_inj]
    | _ => cases htype
  | string a =>
    cases t with
    | string c => simp [JsonScalar.datum]
    | _ => cases htype

theorem asInt64_uint (u : UInt64) : asInt64 (.scalar (.uint u)) =
    if u.toNat < 2 ^ 63 then .ok (u.toNat : Int) else .error (.thrown "LargestUInt out of Int64 range") := rfl

theorem jsonValueIsEqual_int_uint (i : Int64) (u : UInt64) : jsonValueIsEqual (.scalar (.int i)) (.scalar (.uint u)) =
    (asInt64 (.scalar (.uint u))).map fun n => decide (i.toInt = n) := by
  have htype : type (.scalar (.int i)) ≠ type (.scalar (.uint u)) := nofun
  rw [(jsonValueIsEqual_step _ _).1 htype]
  rfl

private theorem jsonValueIsEqual_uint_int (i : Int64) (u : UInt64) : jsonValueIsEqual (.scalar (.uint u)) (.scalar (.int i)) =
    (asInt64 (.scalar (.uint u))).map fun n => decide (n = i.toInt) := by
  have htype : type (.scalar (.uint u)) ≠ type (.scalar (.int i)) := nofun
  rw [(jsonValueIsEqual_step _ _).1 htype]
  change (asInt64 (.scalar (.uint u))).bind _ = _
  rw [asInt64_uint]
  split <;> rfl

theorem right_mixed_iff (i : Int64) (u : UInt64) :
    (Right (.scalar (.int i)) (.scalar (.uint u)) ↔ u.toNat < 2 ^ 63) ∧
      (Right (.scalar (.uint u)) (.scalar (.int i)) ↔ u.toNat < 2 ^ 63) := by
  have hcall := jsonValueIsEqual_int_uint i u
  have hcall' := jsonValueIsEqual_uint_int i u
  by_cases hu : u.toNat < 2 ^ 63
  · rw [asInt64_uint,if_pos hu] at hcall hcall'
    refine ⟨iff_of_true ⟨_,hcall,?_⟩ hu,iff_of_true ⟨_,hcall',?_⟩ hu⟩
    · rw [decide_eq_true_iff,alike_scalar]
      simp [JsonScalar.datum]
    · rw [decide_eq_true_iff,alike_scalar]
      simp [JsonScalar.datum]
  · rw [asInt64_uint,if_neg hu] at hcall hcall'
    refine ⟨iff_of_false ?_ hu,iff_of_false ?_ hu⟩
    · rintro ⟨r,hr,-⟩
      cases hcall.symm.trans hr
    · rintro ⟨r,hr,-⟩
      cases hcall'.symm.trans hr

private theorem right_scalar_iff (s t : JsonScalar) : Right (.scalar s) (.scalar t) ↔ ¬ Defective (.scalar s) (.scalar t) := by
  by_cases htype : type (.scalar s) = type (.scalar t)
  · refine iff_of_true (right_of_type_eq htype) ?_
    cases s <;> cases t <;> simp [type,Defective] at htype ⊢
  · by_cases hints : (isIntegral (.scalar s) && isIntegral (.scalar t)) = true
    · cases s <;> cases t <;> simp [isIntegral,type] at hints htype
      · rw [(right_mixed_iff _ _).1,Defective,Nat.not_le]
      · rw [(right_mixed_iff _ _).2,Defective,Nat.not_le]
    · refine iff_of_true (right_of_type_ne htype (Bool.not_eq_true _ |>.mp hints)) ?_
      cases s <;> cases t <;> simp [isIntegral,type,Defective] at htype hints ⊢

open Classical in
private theorem right_arr (h : ∀ x y,Compares (.arr xs) (.arr ys) x y → Right x y) : Right (.arr xs) (.arr ys) := by
  by_cases hlength : xs.length = ys.length
  · refine ⟨sameAsSet (fun x y => decide (Alike x y)) xs ys,?_,?_⟩
    · rw [jsonValueIsEqual_arr,if_pos hlength]
      refine elementsAreEqual_ok hlength fun x y hturn => ?_
      obtain ⟨r,hr,halike⟩ := h x y (.elem hlength (by simpa only [decide_eq_true_eq] using hturn))
      rw [hr,← halike,Bool.decide_eq_true]
    · rw [Alike,upToOrder_arr]
      exact sameAsSet_iff ⟨Alike,alike_equivalence⟩ fun x y => decide_eq_true_iff
  · refine ⟨false,by rw [jsonValueIsEqual_arr,if_neg hlength],?_⟩
    rw [Alike,upToOrder_arr]
    exact iff_of_false Bool.false_ne_true fun heq => hlength heq.length_eq

private theorem right_null (v : Value) : Right v .null := by
  by_cases hnull : v = .null
  · rw [hnull]
    exact ⟨true,(jsonValueIsEqual_step _ _).2.2.2.2 rfl rfl,iff_of_true rfl .null⟩
  · refine right_of_type_ne (fun htype => hnull ?_) (Bool.and_false _)
    cases v with
    | null => rfl
    | scalar s => cases s <;> cases htype
    | arr xs => cases htype
    | obj m => cases htype

open Classical in
private theorem right_obj_iff (hm : Ordered m) (hn : Ordered n)
    (h : ∀ x y,Compares (.obj m) (.obj n) x y → Right x y) : Right (.obj m) (.obj n) ↔ ¬ NullsForAbsent m n := by
  by_cases hlength : m.length = n.length
  · have hcall : jsonValueIsEqual (.obj m) (.obj n) = .ok (m.all fun p => decide (Alike p.2 (member (.obj n) p.1))) := by
      rw [jsonValueIsEqual_obj,if_pos hlength]
      refine membersAreEqual_ok (fun x y => decide (Alike x y)) fun before p after heq hbefore => ?_
      subst heq
      obtain ⟨r,hr,halike⟩ := h _ _ (.member hlength fun q hq => of_decide_eq_true (hbefore q hq))
      rw [hr,← halike,Bool.decide_eq_true]
    have hall : (m.all fun p => decide (Alike p.2 (member (.obj n) p.1))) = true ↔ ∀ p ∈ m,Alike p.2 (member (.obj n) p.1) := by
      simp
    have hfound : ∀ {p : String × Value} {y : Value},n.lookup p.1 = some y → member (.obj n) p.1 = y := fun hy => by
      rw [member,hy,Option.getD_some]
    constructor
    · rintro ⟨r,hr,halike⟩ hnulls
      rw [hcall] at hr
      obtain rfl := Except.ok.inj hr
      obtain ⟨p,hp,habsent⟩ := hnulls.absent
      obtain ⟨y,hy,-⟩ := ((alike_obj_iff hm hn).mp (halike.mp (hall.mpr hnulls.covered))).2 p hp
      rw [habsent] at hy
      cases hy
    · intro hnulls
      refine ⟨_,hcall,hall.trans ?_⟩
      rw [alike_obj_iff hm hn]
      constructor
      · intro hcovered
        refine ⟨hlength,fun p hp => ?_⟩
        have hsome : n.lookup p.1 ≠ none := fun habsent => hnulls ⟨hlength,⟨p,hp,habsent⟩,hcovered⟩
        obtain ⟨y,hy⟩ := Option.ne_none_iff_exists'.mp hsome
        exact ⟨y,hy,hfound hy ▸ hcovered p hp⟩
      · rintro ⟨-,hvalues⟩ p hp
        obtain ⟨y,hy,halike⟩ := hvalues p hp
        rwa [hfound hy]
  · refine iff_of_true ⟨false,by rw [jsonValueIsEqual_obj,if_neg hlength],?_⟩ fun hnulls => hlength hnulls.length
    rw [alike_obj_iff hm hn]
    exact iff_of_false Bool.false_ne_true fun halike => hlength halike.1

theorem right_iff_of_parts {v w : Value} (hv : v.EveryObject fun m => Ordered m) (hw : w.EveryObject fun m => Ordered m)
    (h : ∀ x y,Compares v w x y → Right x y) : Right v w ↔ ¬ Defective v w := by
  by_cases hkinds : type v ≠ type w ∧ (isIntegral v && isIntegral w) = false
  · refine iff_of_true (right_of_type_ne hkinds.1 hkinds.2) fun hdefective => ?_
    obtain ⟨htype,hints⟩ := hkinds
    unfold Defective at hdefective
    split at hdefective
    · cases hints
    · cases hints
    · exact htype rfl
    · exact hdefective
  · cases v with
    | null =>
      cases w with
      | null => exact iff_of_true (right_null _) id
      | scalar t => cases t <;> exact absurd ⟨nofun,rfl⟩ hkinds
      | _ => exact absurd ⟨nofun,rfl⟩ hkinds
    | scalar s =>
      cases w with
      | scalar t => exact right_scalar_iff s t
      | _ => cases s <;> exact absurd ⟨nofun,rfl⟩ hkinds
    | arr xs =>
      cases w with
      | arr ys => exact iff_of_true (right_arr h) id
      | scalar t => cases t <;> exact absurd ⟨nofun,rfl⟩ hkinds
      | _ => exact absurd ⟨nofun,rfl⟩ hkinds
    | obj m =>
      cases w with
      | obj n => exact right_obj_iff (everyObject_obj.mp hv).1 (everyObject_obj.mp hw).1 h
      | scalar t => cases t <;> exact absurd ⟨nofun,rfl⟩ hkinds
      | _ => exact absurd ⟨nofun,rfl⟩ hkinds

theorem right_of_not_defective {v w : Value} (hv : v.EveryObject fun m => Ordered m) (hw : w.EveryObject fun m => Ordered m)
    (h : ∀ a b,ComesTo v w a b → ¬ Defective a b) : Right v w := by
  induction hsize : sizeOf v using Nat.strong_induction_on generalizing v w with
  | _ size ih =>
    subst hsize
    refine (right_iff_of_parts hv hw fun x y hxy => ?_).mpr (h v w .self)
    exact ih (sizeOf x) hxy.size_lt (hxy.ordered hv hw).1 (hxy.ordered hv hw).2 (fun a b hab => h a b (.within hxy hab)) rfl

/-- The comparison is right, on two values and on all pairs that it comes to, exactly when none of these pairs is an integer
beside one that exceeds its type, or two objects in which nulls stand for absent members. -/
theorem comparison_right_iff {v w : Value} (hv : v.EveryObject fun m => Ordered m) (hw : w.EveryObject fun m => Ordered m) :
    Equivalence Alike ∧ ((Right v w ∧ ∀ a b,ComesTo v w a b → Right a b) ↔ ∀ a b,ComesTo v w a b → ¬ Defective a b) := by
  refine ⟨alike_equivalence,fun ⟨_,h⟩ a b hab => ?_,fun h => ⟨right_of_not_defective hv hw h,fun a b hab => ?_⟩⟩
  · obtain ⟨ha,hb⟩ := hab.ordered hv hw
    exact (right_iff_of_parts ha hb fun x y hxy => h x y (hab.trans (.within hxy .self))).mp (h a b hab)
  · obtain ⟨ha,hb⟩ := hab.ordered hv hw
    exact right_of_not_defective ha hb fun c d hcd => h c d (hab.trans hcd)

/-- A member with a null value stands for one that is absent, in one direction only; and an integer
beyond the signed type ends the comparison with a signed one. -/
theorem absent_member_equal : jsonValueIsEqual (.obj [("a",.null)]) (.obj [("b",.scalar (.bool true))]) = .ok true ∧
    jsonValueIsEqual (.obj [("b",.scalar (.bool true))]) (.obj [("a",.null)]) = .ok false ∧
    Thrown (jsonValueIsEqual (.scalar (.int (-1))) (.scalar (.uint 9223372036854775808))) ∧
    ¬ ∀ v w : Value,v.EveryObject (fun m => Ordered m) → w.EveryObject (fun m => Ordered m) → Right v w := by
  have hequal : jsonValueIsEqual (.obj [("a",.null)]) (.obj [("b",.scalar (.bool true))]) = .ok true := by rfl
  have hthrows : Thrown (jsonValueIsEqual (.scalar (.int (-1))) (.scalar (.uint 9223372036854775808))) := by
    rw [jsonValueIsEqual_int_uint,asInt64_uint,if_neg (by decide),thrown_map]
    exact thrown_error _
  refine ⟨hequal,by rfl,hthrows,fun h => ?_⟩
  have hordered : ∀ (name : String) (v : Value),v = .null ∨ v = .scalar (.bool true) →
      (JsonTree.obj [(name,v)]).EveryObject fun m => Ordered m := by
    rintro name v (rfl | rfl)
    · exact everyObject_obj.mpr ⟨List.pairwise_singleton _ _,by simp [everyObject_null]⟩
    · exact everyObject_obj.mpr ⟨List.pairwise_singleton _ _,by simp [everyObject_scalar]⟩
  obtain ⟨r,hr,halike⟩ := h _ _ (hordered "a" .null (.inl rfl)) (hordered "b" _ (.inr rfl))
  obtain rfl := Except.ok.inj (hequal.symm.trans hr)
  obtain ⟨-,hvalues⟩ := (alike_obj_iff (List.pairwise_singleton _ _) (List.pairwise_singleton _ _)).mp (halike.mp rfl)
  obtain ⟨y,hy,-⟩ := hvalues _ List.mem_cons_self
  simp only [lookup_cons_ite] at hy
  cases hy

/-- Elements in another order: an object with a null member, and an integer that is unsigned in the second array. -/
theorem shuffled_elements_equal : Right (.arr [.obj [("a",.null)],.scalar (.int 1)])
    (.arr [.scalar (.uint 1),.obj [("a",.null)]]) := by
  have hordered : (JsonTree.obj [("a",.null)] : Value).EveryObject fun m => Ordered m :=
    everyObject_obj.mpr ⟨List.pairwise_singleton _ _,by simp [everyObject_null]⟩
  refine ((comparison_right_iff ?_ ?_).2.mpr fun a b hab hdefective => ?_).1
  · simp [everyObject_arr,everyObject_scalar,hordered]
  · simp [everyObject_arr,everyObject_scalar,hordered]
  have hnull : ∀ {a b : Value},ComesTo .null .null a b → ¬ Defective a b := by
    intro a b h
    cases h with
    | self => exact id
    | within hxy _ => cases hxy
  have hone : ∀ {v a b : Value},ComesTo v (.scalar (.uint 1)) a b → a = v ∧ b = .scalar (.uint 1) := by
    intro v a b h
    cases h with
    | self => exact ⟨rfl,rfl⟩
    | within hxy _ => cases hxy
  cases hab with
  | self => exact hdefective
  | within hxy h =>
    cases hxy with
    | elem _ hturn =>
      obtain ⟨hx,hy⟩ := hturn.mem
      rcases List.mem_pair.mp hx with rfl | rfl <;> rcases List.mem_pair.mp hy with rfl | rfl
      · obtain ⟨rfl,rfl⟩ := hone h
        exact hdefective
      · cases h with
        | self =>
          obtain ⟨p,hp,habsent⟩ := hdefective.absent
          rw [List.mem_singleton.mp hp] at habsent
          cases habsent
        | within hxy h =>
          obtain ⟨p,hp,rfl,rfl⟩ := hxy.of_obj
          rw [List.mem_singleton.mp hp] at h
          exact hnull h hdefective
      · obtain ⟨rfl,rfl⟩ := hone h
        exact absurd hdefective (by simp [Defective])
      · obtain _ | ⟨⟨⟩,-⟩ := h
        exact hdefective

end SonicPins.JsonYang
