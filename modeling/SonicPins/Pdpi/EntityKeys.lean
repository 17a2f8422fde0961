import Mathlib.Data.Sum.Order
import SonicPins.Lib.Comparison
import SonicPins.Lib.WireFormat
import SonicPins.Pdpi.IrToPi

/-! Entity keys identify entities: their equality, order and hash agree, and two
table entries share a key exactly when they share table, priority and matches. -/
namespace SonicPins.Pdpi
open Lib

/-- `TableEntryKey::operator==`, with `MessageDifferencer::Equals` on the matches. -/
def TableEntryKey.eq (k other : TableEntryKey) : Bool :=
  if k.tableId ≠ other.tableId ∨ k.priority ≠ other.priority ∨ k.matches_.length ≠ other.matches_.length then false
  else (k.matches_.zip other.matches_).all fun m => decide (m.1 = m.2)

/-- `TableEntryKey::operator<`, where `serialize` is the deterministic serialization of a match. -/
def TableEntryKey.lt (serialize : FieldMatch → Bytes) (k other : TableEntryKey) : Bool :=
  if k.tableId ≠ other.tableId then decide (k.tableId < other.tableId)
  else if k.priority ≠ other.priority then decide (k.priority < other.priority)
  else if k.matches_.length ≠ other.matches_.length then decide (k.matches_.length < other.matches_.length)
  else firstDifference (fun m n => decide (serialize m < serialize n)) k.matches_ other.matches_

/-- The number of `PacketReplicationEngineEntry::TypeCase`. -/
def ReplicationType.number : ReplicationType → ℕ
  | .notSet => 0
  | .multicastGroupEntry => 1
  | .cloneSessionEntry => 2

def PacketReplicationEntryKey.eq (k other : PacketReplicationEntryKey) : Bool :=
  decide (k.replicationType = other.replicationType) && decide (k.id = other.id)

def PacketReplicationEntryKey.lt (k other : PacketReplicationEntryKey) : Bool :=
  if k.replicationType = other.replicationType then decide (k.id < other.id)
  else decide (k.replicationType.number < other.replicationType.number)

/-- `operator==` of the variant: the alternatives agree, then their values. -/
def EntityKey.eq : EntityKey → EntityKey → Bool
  | .tableEntry k,.tableEntry other => k.eq other
  | .packetReplication k,.packetReplication other => k.eq other
  | _,_ => false

/-- `operator<` of the variant: the earlier alternative comes first. -/
def EntityKey.lt (serialize : FieldMatch → Bytes) : EntityKey → EntityKey → Bool
  | .tableEntry k,.tableEntry other => k.lt serialize other
  | .packetReplication k,.packetReplication other => k.lt other
  | .tableEntry _,.packetReplication _ => true
  | .packetReplication _,.tableEntry _ => false

section Hashing

/-- The values that `H::combine` mixes into a hash state. -/
inductive HashValue where
  | uint32 (value : UInt32)
  | int32 (value : Int32)
  | bytes (value : Bytes)
  | index (value : ℕ)

/-- The values of a match that are hashed; the accessors of unset alternatives return defaults. -/
def FieldMatch.hashValues (m : FieldMatch) : List HashValue :=
  let exact := match m.value with | .exact v => v | _ => []
  let ternary := match m.value with | .ternary v mask => (v,mask) | _ => ([],[])
  let lpm := match m.value with | .lpm v len => (v,len) | _ => ([],0)
  let range := match m.value with | .range low high => (low,high) | _ => ([],[])
  let optional := match m.value with | .optional v => v | _ => []
  [.uint32 m.fieldId,.bytes exact,.bytes ternary.1,.bytes ternary.2,.bytes lpm.1,.int32 lpm.2,.bytes range.1,
    .bytes range.2,.bytes optional]

variable {H : Type} (combine : H → HashValue → H)

/-- `AbslHashValue` of a `TableEntryKey`. -/
def TableEntryKey.hash (h : H) (k : TableEntryKey) : H :=
  k.matches_.foldl (fun h m => m.hashValues.foldl combine h) ([.uint32 k.tableId,.int32 k.priority].foldl combine h)

def PacketReplicationEntryKey.hash (h : H) (k : PacketReplicationEntryKey) : H := combine h (.uint32 k.id)

/-- `AbslHashValue` of the variant: the value, then the index of its alternative. -/
def EntityKey.hash (h : H) : EntityKey → H
  | .tableEntry k => combine (k.hash combine h) (.index 0)
  | .packetReplication k => combine (k.hash combine h) (.index 1)

end Hashing

theorem zip_all_eq {α : Type} [DecidableEq α] :
    ∀ as bs : List α,as.length = bs.length → ((as.zip bs).all (fun m => decide (m.1 = m.2)) = true ↔ as = bs)
  | [],[],_ => by simp
  | a :: as,b :: bs,hlen => by
    have ih := zip_all_eq as bs (by simpa using hlen)
    rw [List.zip_cons_cons,List.all_cons,Bool.and_eq_true,ih,decide_eq_true_iff,List.cons.injEq]

theorem TableEntryKey.eq_iff (k other : TableEntryKey) : k.eq other = true ↔ k = other := by
  obtain ⟨t,p,ms⟩ := k
  obtain ⟨t',p',ms'⟩ := other
  simp only [TableEntryKey.eq,TableEntryKey.mk.injEq]
  by_cases hdiff : t ≠ t' ∨ p ≠ p' ∨ ms.length ≠ ms'.length
  · rw [if_pos hdiff]
    constructor
    · intro h
      cases h
    · rintro ⟨rfl,rfl,rfl⟩
      simp at hdiff
  · rw [if_neg hdiff]
    push Not at hdiff
    obtain ⟨ht,hp,hlen⟩ := hdiff
    simp [zip_all_eq ms ms' hlen,ht,hp]

theorem PacketReplicationEntryKey.eq_iff (k other : PacketReplicationEntryKey) : k.eq other = true ↔ k = other := by
  obtain ⟨t,i⟩ := k
  obtain ⟨t',i'⟩ := other
  simp [PacketReplicationEntryKey.eq]

theorem EntityKey.eq_iff (k other : EntityKey) : k.eq other = true ↔ k = other := by
  cases k <;> cases other <;> simp [EntityKey.eq,TableEntryKey.eq_iff,PacketReplicationEntryKey.eq_iff]

section Order

/-- The rank of a string: its bytes as unsigned numbers. -/
def bytesRank (b : Bytes) : List ℕ := b.map UInt8.toNat

theorem bytesRank_injective : Function.Injective bytesRank :=
  List.map_injective_iff.mpr fun _ _ h => UInt8.toNat_inj.mp h

theorem bytes_lt_iff (x y : Bytes) : x < y ↔ bytesRank x < bytesRank y :=
  map_lt_map_iff (fun _ _ h => UInt8.toNat_inj.mp h) (fun _ _ => UInt8.lt_iff_toNat_lt) x y

variable (serialize : FieldMatch → Bytes)

/-- What `operator<` compares of a table entry's key, in its order. -/
def TableEntryKey.rank (k : TableEntryKey) : ℕ ×ₗ ℤ ×ₗ ℕ ×ₗ List (List ℕ) :=
  toLex (k.tableId.toNat,toLex (k.priority.toInt,toLex (k.matches_.length,k.matches_.map (bytesRank ∘ serialize))))

def PacketReplicationEntryKey.rank (k : PacketReplicationEntryKey) : ℕ ×ₗ ℕ := toLex (k.replicationType.number,k.id.toNat)

def EntityKey.rank : EntityKey → (ℕ ×ₗ ℤ ×ₗ ℕ ×ₗ List (List ℕ)) ⊕ₗ (ℕ ×ₗ ℕ)
  | .tableEntry k => toLex (.inl (k.rank serialize))
  | .packetReplication k => toLex (.inr k.rank)

theorem ReplicationType.number_injective : Function.Injective ReplicationType.number := by
  intro t t' h
  cases t <;> cases t' <;> first | rfl | cases h

variable {serialize}

theorem TableEntryKey.rank_injective (hserialize : Function.Injective serialize) :
    Function.Injective (TableEntryKey.rank serialize) := by
  rintro ⟨t,p,ms⟩ ⟨t',p',ms'⟩ h
  simp only [TableEntryKey.rank,EmbeddingLike.apply_eq_iff_eq,Prod.mk.injEq] at h
  obtain ⟨ht,hp,_,hms⟩ := h
  have hms := List.map_injective_iff.mpr (bytesRank_injective.comp hserialize) hms
  rw [UInt32.toNat_inj.mp ht,Int32.toInt_inj.mp hp,hms]

theorem PacketReplicationEntryKey.rank_injective : Function.Injective PacketReplicationEntryKey.rank := by
  rintro ⟨t,i⟩ ⟨t',i'⟩ h
  simp only [PacketReplicationEntryKey.rank,EmbeddingLike.apply_eq_iff_eq,Prod.mk.injEq] at h
  rw [ReplicationType.number_injective h.1,UInt32.toNat_inj.mp h.2]

theorem EntityKey.rank_injective (hserialize : Function.Injective serialize) :
    Function.Injective (EntityKey.rank serialize) := by
  intro k other h
  cases k <;> cases other <;> simp only [EntityKey.rank,EmbeddingLike.apply_eq_iff_eq,Sum.inl.injEq,Sum.inr.injEq,
    reduceCtorEq] at h
  · rw [TableEntryKey.rank_injective hserialize h]
  · rw [PacketReplicationEntryKey.rank_injective h]

theorem TableEntryKey.lt_iff (hserialize : Function.Injective serialize) (k other : TableEntryKey) :
    k.lt serialize other = true ↔ k.rank serialize < other.rank serialize := by
  refine ite_lt_iff (fun _ _ => UInt32.toNat_inj.mp) (by rw [decide_eq_true_iff,UInt32.lt_iff_toNat_lt]) fun _ => ?_
  refine ite_lt_iff (fun _ _ => Int32.toInt_inj.mp) (by rw [decide_eq_true_iff,Int32.lt_iff_toInt_lt]) fun _ => ?_
  refine ite_lt_iff Function.injective_id (by simp) fun hlength => ?_
  exact firstDifference_iff (bytesRank_injective.comp hserialize) (fun m n => by rw [decide_eq_true_iff,bytes_lt_iff]; rfl)
    _ _ hlength

theorem PacketReplicationEntryKey.lt_iff (k other : PacketReplicationEntryKey) :
    k.lt other = true ↔ k.rank < other.rank := by
  rw [PacketReplicationEntryKey.lt,← ite_not]
  refine ite_lt_iff ReplicationType.number_injective (by simp) fun _ => ?_
  rw [decide_eq_true_iff,UInt32.lt_iff_toNat_lt]

theorem EntityKey.lt_iff (hserialize : Function.Injective serialize) (k other : EntityKey) :
    k.lt serialize other = true ↔ k.rank serialize < other.rank serialize := by
  cases k with
  | tableEntry k =>
    cases other with
    | tableEntry other => exact (TableEntryKey.lt_iff hserialize k other).trans Sum.Lex.inl_lt_inl_iff.symm
    | packetReplication other => exact iff_of_true rfl (Sum.Lex.inl_lt_inr _ _)
  | packetReplication k =>
    cases other with
    | tableEntry other => exact iff_of_false (by simp [EntityKey.lt]) Sum.Lex.not_inr_lt_inl
    | packetReplication other => exact (PacketReplicationEntryKey.lt_iff k other).trans Sum.Lex.inr_lt_inr_iff.symm

theorem TableEntryKey.comparison (hserialize : Function.Injective serialize) :
    Comparison TableEntryKey.eq (TableEntryKey.lt serialize) :=
  .of_rank _ (TableEntryKey.rank_injective hserialize) TableEntryKey.eq_iff (TableEntryKey.lt_iff hserialize)

theorem EntityKey.comparison (hserialize : Function.Injective serialize) :
    Comparison EntityKey.eq (EntityKey.lt serialize) :=
  .of_rank _ (EntityKey.rank_injective hserialize) EntityKey.eq_iff (EntityKey.lt_iff hserialize)

end Order

def TableEntry.DistinctMatchIds (e : TableEntry) : Prop := (e.matches_.map FieldMatch.fieldId).Nodup

instance (e : TableEntry) : Decidable e.DistinctMatchIds := inferInstanceAs (Decidable (List.Nodup _))

/-- Two packet replication entries of one kind, with the same group or session id. -/
def PacketReplicationEngineEntry.SameId : PacketReplicationEngineEntry → PacketReplicationEngineEntry → Prop
  | .multicastGroupEntry e,.multicastGroupEntry e' => e.multicastGroupId = e'.multicastGroupId
  | .cloneSessionEntry e,.cloneSessionEntry e' => e.sessionId = e'.sessionId
  | .notSet,.notSet => True
  | _,_ => False

theorem sortMatches_perm (ms : List FieldMatch) : (sortMatches ms).Perm ms := List.perm_insertionSort _ ms

theorem sortMatches_unique {ms sorted : List FieldMatch} (hperm : sorted.Perm ms)
    (hsorted : sorted.Pairwise fun a b => a.fieldId ≤ b.fieldId) (hids : (ms.map FieldMatch.fieldId).Nodup) :
    sorted = sortMatches ms := by
  have hpairwise := List.pairwise_insertionSort (fun a b : FieldMatch => a.fieldId ≤ b.fieldId) ms
  refine List.Perm.eq_of_pairwise (fun a b ha hb hab hba => ?_) hsorted hpairwise (hperm.trans (sortMatches_perm ms).symm)
  exact List.inj_on_of_nodup_map hids (hperm.mem_iff.mp ha) ((sortMatches_perm ms).mem_iff.mp hb)
    (UInt32.le_antisymm hab hba)

theorem TableEntry.key_eq_iff (e e' : TableEntry) (he : e.DistinctMatchIds) (he' : e'.DistinctMatchIds) :
    e.key = e'.key ↔ e.tableId = e'.tableId ∧ e.priority = e'.priority ∧ ∀ m,m ∈ e.matches_ ↔ m ∈ e'.matches_ := by
  rw [TableEntry.key,TableEntry.key,TableEntryKey.mk.injEq]
  refine and_congr_right' (and_congr_right' ⟨fun h m => ?_,fun h => ?_⟩)
  · rw [← (sortMatches_perm e.matches_).mem_iff,h,(sortMatches_perm e'.matches_).mem_iff]
  · have hperm : e.matches_.Perm e'.matches_ :=
      (List.perm_ext_iff_of_nodup (List.Nodup.of_map _ he) (List.Nodup.of_map _ he')).mpr h
    exact sortMatches_unique ((sortMatches_perm _).trans hperm)
      (List.pairwise_insertionSort (fun a b : FieldMatch => a.fieldId ≤ b.fieldId) _) he'

theorem PacketReplicationEngineEntry.key_eq_iff (r r' : PacketReplicationEngineEntry) :
    r.key = r'.key ↔ r.SameId r' := by
  cases r <;> cases r' <;> simp [PacketReplicationEngineEntry.key,PacketReplicationEngineEntry.SameId]

section Serialization
open WireFormat

/-- A negative `int32` is written sign-extended to 64 bits. -/
def int32Varint (n : Int32) : ℕ := n.toInt64.toUInt64.toNat

/-- The wire form of the `field_match_type` of a `p4.v1.FieldMatch`. -/
def MatchValue.serialize : MatchValue → Bytes
  | .notSet => []
  | .exact value => delimited 0x12 (bytesField 0x0A value)
  | .ternary value mask => delimited 0x1A (bytesField 0x0A value ++ bytesField 0x12 mask)
  | .lpm value prefixLen => delimited 0x22 (bytesField 0x0A value ++ varintField 0x10 (int32Varint prefixLen))
  | .range low high => delimited 0x32 (bytesField 0x0A low ++ bytesField 0x12 high)
  | .optional value => delimited 0x3A (bytesField 0x0A value)

/-- The wire form of a `p4.v1.FieldMatch`. -/
def FieldMatch.serialize (m : FieldMatch) : Bytes := varintField 0x08 m.fieldId.toNat ++ m.value.serialize

private theorem int32Varint_injective : Function.Injective int32Varint := by
  intro m n h
  have h64 : m.toInt64 = n.toInt64 := congrArg UInt64.toInt64 (UInt64.toNat_inj.mp h)
  have hint := congrArg Int64.toInt h64
  rw [Int32.toInt_toInt64,Int32.toInt_toInt64] at hint
  exact Int32.toInt_inj.mp hint

theorem MatchValue.serialize_injective : Function.Injective MatchValue.serialize := by
  intro v w h
  cases v <;> cases w <;> simp [MatchValue.serialize] at h
  case notSet.notSet => rfl
  case exact.exact => rw [bytesField_injective _ h]
  case lpm.lpm =>
    obtain ⟨hvalue,hlen⟩ := bytesField_append_inj (head?_varintField_ne (by decide) _) (head?_varintField_ne (by decide) _) h
    rw [hvalue,int32Varint_injective (varintField_injective _ hlen)]
  case ternary.ternary =>
    obtain ⟨hvalue,hmask⟩ := bytesField_append_inj (head?_bytesField_ne (by decide) _) (head?_bytesField_ne (by decide) _) h
    rw [hvalue,bytesField_injective _ hmask]
  case range.range =>
    obtain ⟨hlow,hhigh⟩ := bytesField_append_inj (head?_bytesField_ne (by decide) _) (head?_bytesField_ne (by decide) _) h
    rw [hlow,bytesField_injective _ hhigh]
  case optional.optional => rw [bytesField_injective _ h]

theorem MatchValue.head?_serialize_ne (v : MatchValue) : v.serialize.head? ≠ some 0x08 := by
  cases v <;> simp [MatchValue.serialize]

theorem FieldMatch.serialize_injective : Function.Injective FieldMatch.serialize := by
  rintro ⟨i,v⟩ ⟨j,w⟩ h
  obtain ⟨hid,hvalue⟩ := varintField_append_inj v.head?_serialize_ne w.head?_serialize_ne h
  exact congrArg₂ FieldMatch.mk (UInt32.toNat_inj.mp hid) (MatchValue.serialize_injective hvalue)

end Serialization

/-- Entity keys identify entities. -/
theorem entity_keys_identify (serialize : FieldMatch → Bytes) (hserialize : Function.Injective serialize) :
    (∀ e e' : TableEntry,e.DistinctMatchIds → e'.DistinctMatchIds →
      (e.key.eq e'.key = true ↔ e.tableId = e'.tableId ∧ e.priority = e'.priority ∧ ∀ m,m ∈ e.matches_ ↔ m ∈ e'.matches_)) ∧
    (∀ r r' : PacketReplicationEngineEntry,∃ k k',makeEntityKey (.packetReplicationEngineEntry r) = .ok k ∧
      makeEntityKey (.packetReplicationEngineEntry r') = .ok k' ∧ (k.eq k' = true ↔ r.SameId r')) ∧
    (∀ (r : PacketReplicationEngineEntry) (e : TableEntry),∃ k k',makeEntityKey (.packetReplicationEngineEntry r) = .ok k ∧
      makeEntityKey (.tableEntry e) = .ok k' ∧ k.eq k' = false ∧ k'.eq k = false) ∧
    Comparison TableEntryKey.eq (TableEntryKey.lt serialize) ∧ Comparison EntityKey.eq (EntityKey.lt serialize) ∧
    (∀ (H : Type) (combine : H → HashValue → H) (h : H),
      (∀ k k' : TableEntryKey,k.eq k' = true → k.hash combine h = k'.hash combine h) ∧
      ∀ k k' : EntityKey,k.eq k' = true → k.hash combine h = k'.hash combine h) := by
  refine ⟨fun e e' he he' => ?_,fun r r' => ?_,fun r e => ?_,TableEntryKey.comparison hserialize,
    EntityKey.comparison hserialize,fun H combine h => ⟨fun k k' heq => ?_,fun k k' heq => ?_⟩⟩
  · rw [TableEntryKey.eq_iff,TableEntry.key_eq_iff e e' he he']
  · refine ⟨_,_,rfl,rfl,?_⟩
    rw [EntityKey.eq_iff,EntityKey.packetReplication.injEq,r.key_eq_iff]
  · exact ⟨_,_,rfl,rfl,rfl,rfl⟩
  · rw [(k.eq_iff k').mp heq]
  · rw [(k.eq_iff k').mp heq]

/-- The matches of an entry may be given in any order. -/
theorem reordered_matches_share_a_key :
    let matches_ : List FieldMatch := [⟨2,.lpm [10,0] (-1)⟩,⟨1,.exact [7]⟩]
    Function.Injective FieldMatch.serialize ∧
    (TableEntry.key { tableId := 5,matches_ := matches_ }).eq (TableEntry.key { tableId := 5,matches_ := matches_.reverse }) = true ∧
    Comparison EntityKey.eq (EntityKey.lt FieldMatch.serialize) := by
  intro matches_
  have h := entity_keys_identify FieldMatch.serialize FieldMatch.serialize_injective
  exact ⟨FieldMatch.serialize_injective,
    (h.1 { tableId := 5,matches_ := matches_ } { tableId := 5,matches_ := matches_.reverse } (by decide) (by decide)).mpr
      ⟨rfl,rfl,fun m => List.mem_reverse.symm⟩,h.2.2.2.2.1⟩

end SonicPins.Pdpi
