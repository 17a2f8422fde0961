import Mathlib.Data.List.Forall2
import Mathlib.Data.List.Perm.Basic

/-! Canonical status codes, statuses and fallible results. -/
namespace SonicPins.Lib

/-- The canonical error space, shared by gRPC and local statuses. -/
inductive StatusCode where
  | ok | cancelled | unknown | invalidArgument | deadlineExceeded | notFound | alreadyExists
  | permissionDenied | resourceExhausted | failedPrecondition | aborted | outOfRange
  | unimplemented | internal | unavailable | dataLoss | unauthenticated
  deriving DecidableEq,Repr

/-- `absl::StatusCodeToString`. -/
def StatusCode.name : StatusCode → String
  | .ok => "OK"
  | .cancelled => "CANCELLED"
  | .unknown => "UNKNOWN"
  | .invalidArgument => "INVALID_ARGUMENT"
  | .deadlineExceeded => "DEADLINE_EXCEEDED"
  | .notFound => "NOT_FOUND"
  | .alreadyExists => "ALREADY_EXISTS"
  | .permissionDenied => "PERMISSION_DENIED"
  | .resourceExhausted => "RESOURCE_EXHAUSTED"
  | .failedPrecondition => "FAILED_PRECONDITION"
  | .aborted => "ABORTED"
  | .outOfRange => "OUT_OF_RANGE"
  | .unimplemented => "UNIMPLEMENTED"
  | .internal => "INTERNAL"
  | .unavailable => "UNAVAILABLE"
  | .dataLoss => "DATA_LOSS"
  | .unauthenticated => "UNAUTHENTICATED"

/-- The codes by their numbers. -/
def StatusCode.all : List StatusCode :=
  [.ok,.cancelled,.unknown,.invalidArgument,.deadlineExceeded,.notFound,.alreadyExists,.permissionDenied,.resourceExhausted,
    .failedPrecondition,.aborted,.outOfRange,.unimplemented,.internal,.unavailable,.dataLoss,.unauthenticated]

structure Status where
  code : StatusCode
  message : String := ""
  deriving DecidableEq,Repr

namespace Status

def okStatus : Status := ⟨.ok,""⟩

def isOk (s : Status) : Bool := s.code = .ok

@[simp] theorem okStatus_isOk : okStatus.isOk = true := rfl

/-- Text put before the message of an error on its way up. -/
def prepend (s : Status) (note : String) : Status := ⟨s.code,note ++ s.message⟩

/-- `absl::Status::ToString`. -/
def toString (s : Status) : String := if s.isOk then "OK" else s.code.name ++ ": " ++ s.message

/-- Text added to the message of an error on its way up. -/
def annotate (s : Status) (note : String) : Status := ⟨s.code,s.message ++ "; " ++ note⟩

end Status

abbrev StatusOr (α : Type) := Except Status α

/-- How a step that may also throw ends early. -/
inductive Failure where
  | status (s : Status)
  | thrown (what : String)
  deriving DecidableEq,Repr

abbrev Fallible (α : Type) := Except Failure α

/-- A returned error is a failure of the caller as well. -/
def orFail {α : Type} (r : StatusOr α) : Fallible α := r.mapError .status

section Bind
variable {ε ε' α β : Type}

theorem bind_eq_ok {x : Except ε α} {f : α → Except ε β} {b : β} : x >>= f = .ok b ↔ ∃ a,x = .ok a ∧ f a = .ok b := by
  cases x with
  | error e => simp [bind,Except.bind]
  | ok a => simp [bind,Except.bind]

theorem then_eq_ok {x : Except ε Unit} {f : Unit → Except ε β} {b : β} : x >>= f = .ok b ↔ x = .ok () ∧ f () = .ok b := by
  rw [bind_eq_ok]
  exact ⟨fun ⟨(),hx,hf⟩ => ⟨hx,hf⟩,fun ⟨hx,hf⟩ => ⟨(),hx,hf⟩⟩

theorem exists_ok_of_isOk {x : Except ε α} (h : x.isOk = true) : ∃ a,x = .ok a := by
  cases x with
  | error e => cases h
  | ok a => exact ⟨a,rfl⟩

theorem map_eq_ok {x : Except ε α} {f : α → β} {b : β} : x.map f = .ok b ↔ ∃ a,x = .ok a ∧ f a = b := by
  cases x <;> simp [Except.map]

theorem mapError_eq_ok {x : Except ε α} {f : ε → ε'} {a : α} : x.mapError f = .ok a ↔ x = .ok a := by
  cases x <;> simp [Except.mapError]

theorem toOption_eq_some {x : Except ε α} {a : α} : x.toOption = some a ↔ x = .ok a := by
  cases x <;> simp [Except.toOption]

@[simp] theorem toOption_ok (a : α) : (.ok a : Except ε α).toOption = some a := rfl

@[simp] theorem toOption_error (e : ε) : (.error e : Except ε α).toOption = none := rfl

@[simp] theorem toOption_bind (x : Except ε α) (f : α → Except ε β) : (x >>= f).toOption = x.toOption.bind fun a => (f a).toOption := by
  cases x <;> rfl

@[simp] theorem toOption_map (x : Except ε α) (f : α → β) : (x.map f).toOption = x.toOption.map f := by
  cases x <;> rfl

@[simp] theorem toOption_mapError (x : Except ε α) (f : ε → ε') : (x.mapError f).toOption = x.toOption := by
  cases x <;> rfl

theorem orFail_eq_ok {r : StatusOr α} {a : α} : orFail r = .ok a ↔ r = .ok a := mapError_eq_ok

theorem mapM_eq_ok {f : α → Except ε β} {l : List α} {r : List β} :
    l.mapM f = .ok r ↔ List.Forall₂ (fun a b => f a = .ok b) l r := by
  induction l generalizing r with
  | nil => cases r <;> simp [pure,Except.pure]
  | cons a l ih =>
    rw [List.mapM_cons,bind_eq_ok,List.forall₂_cons_left_iff]
    constructor
    · rintro ⟨b,hb,h⟩
      obtain ⟨bs,hbs,h⟩ := bind_eq_ok.mp h
      cases h
      exact ⟨b,bs,hb,ih.mp hbs,rfl⟩
    · rintro ⟨b,bs,hb,hbs,rfl⟩
      exact ⟨b,hb,bind_eq_ok.mpr ⟨bs,ih.mpr hbs,rfl⟩⟩

/-- What `f` makes of a value, `g` turns back into it. -/
def Undoes (f : α → Except ε β) (g : β → Except ε α) (a : α) : Prop := ∃ b,f a = .ok b ∧ g b = .ok a

theorem undoes_mapM {f : α → Except ε β} {g : β → Except ε α} {l : List α} :
    Undoes (fun l : List α => l.mapM f) (fun l : List β => l.mapM g) l ↔ ∀ a ∈ l,Undoes f g a := by
  unfold Undoes
  simp only [mapM_eq_ok]
  induction l with
  | nil => simp
  | cons a l ih =>
    rw [List.forall_mem_cons,← ih]
    constructor
    · rintro ⟨_,hfs,hgs⟩
      obtain ⟨b,bs,hf,hrest,rfl⟩ := List.forall₂_cons_left_iff.mp hfs
      obtain ⟨hg,hback⟩ := List.forall₂_cons.mp hgs
      exact ⟨⟨b,hf,hg⟩,⟨bs,hrest,hback⟩⟩
    · rintro ⟨⟨b,hf,hg⟩,⟨bs,hfs,hgs⟩⟩
      exact ⟨b :: bs,.cons hf hfs,.cons hg hgs⟩

theorem exists_of_forall₂_left {R : α → β → Prop} {l : List α} {r : List β} (h : List.Forall₂ R l r) {a : α} (ha : a ∈ l) :
    ∃ b ∈ r,R a b := by
  induction h with
  | nil => cases ha
  | @cons a' b' l r hab _ ih =>
    rcases List.mem_cons.mp ha with rfl | ha
    · exact ⟨b',List.mem_cons_self,hab⟩
    · obtain ⟨b,hb,hab⟩ := ih ha
      exact ⟨b,List.mem_cons_of_mem _ hb,hab⟩

theorem exists_of_forall₂_right {R : α → β → Prop} {l : List α} {r : List β} (h : List.Forall₂ R l r) {b : β} (hb : b ∈ r) :
    ∃ a ∈ l,R a b := exists_of_forall₂_left h.flip hb

theorem mem_of_mapM {f : α → Except ε β} {l : List α} {r : List β} (h : l.mapM f = .ok r) {b : β} :
    b ∈ r ↔ ∃ a ∈ l,f a = .ok b := by
  have hrel := mapM_eq_ok.mp h
  constructor
  · intro hb
    obtain ⟨a,ha,hab⟩ := exists_of_forall₂_right hrel hb
    exact ⟨a,ha,hab⟩
  · rintro ⟨a,ha,hab⟩
    obtain ⟨b',hb',hab'⟩ := exists_of_forall₂_left hrel ha
    cases hab.symm.trans hab'
    exact hb'

theorem mapM_agree {f g : α → Except ε β} {l : List α} {r : List β} (hf : l.mapM f = .ok r) (hg : l.mapM g = .ok r)
    {a : α} (ha : a ∈ l) : f a = g a := by
  have hrel := mapM_eq_ok.mp hf
  have hrel' := mapM_eq_ok.mp hg
  clear hf hg
  induction hrel with
  | nil => cases ha
  | @cons a' b l r hab _ ih =>
    obtain ⟨hab',hrel'⟩ := List.forall₂_cons.mp hrel'
    rcases List.mem_cons.mp ha with rfl | ha
    · rw [hab,hab']
    · exact ih ha hrel'

theorem mem_filter_zip_mapM [DecidableEq β] {f : α → Except ε β} {l : List α} {r : List β}
    (h : List.Forall₂ (fun a b => f a = .ok b) l r) {a : α} {b : β} :
    a ∈ ((l.zip r).filter fun x => x.2 = b).map Prod.fst ↔ a ∈ l ∧ f a = .ok b := by
  induction h with
  | nil => simp
  | @cons a' b' l r hab _ ih =>
    rw [List.zip_cons_cons,List.filter_cons,List.mem_cons,or_and_right]
    simp only [← ih]
    by_cases hb : b' = b
    · subst hb
      simp only [decide_true,if_true,List.map_cons,List.mem_cons]
      exact or_congr_left ⟨fun h => ⟨h,h ▸ hab⟩,fun h => h.1⟩
    · simp only [hb,decide_false,Bool.false_eq_true,if_false]
      refine (or_iff_right ?_).symm
      rintro ⟨rfl,h⟩
      cases hab.symm.trans h
      exact hb rfl

theorem map_eq_of_forall₂ {γ : Type} {R : α → β → Prop} {f : α → γ} {g : β → γ} {l : List α} {r : List β}
    (h : List.Forall₂ R l r) (hR : ∀ a b,R a b → g b = f a) : r.map g = l.map f := by
  induction h with
  | nil => rfl
  | cons hab _ ih => rw [List.map_cons,List.map_cons,hR _ _ hab,ih]

theorem mem_flatten_of_mapM {f : α → Except ε (List β)} {l : List α} {rs : List (List β)} (h : l.mapM f = .ok rs) {b : β} :
    b ∈ rs.flatten ↔ ∃ a ∈ l,∃ r,f a = .ok r ∧ b ∈ r := by
  have hrel := mapM_eq_ok.mp h
  rw [List.mem_flatten]
  constructor
  · rintro ⟨r,hr,hb⟩
    obtain ⟨a,ha,hfa⟩ := exists_of_forall₂_right hrel hr
    exact ⟨a,ha,r,hfa,hb⟩
  · rintro ⟨a,ha,r,hfa,hb⟩
    obtain ⟨r',hr',hfa'⟩ := exists_of_forall₂_left hrel ha
    cases hfa.symm.trans hfa'
    exact ⟨r,hr',hb⟩

theorem foldlM_edits {σ : Type} {f : σ → α → Except ε σ} {apply : σ → β → σ} {l : List α} {r : List β}
    (h : List.Forall₂ (fun a b => ∀ s,f s a = .ok (apply s b)) l r) (s : σ) : l.foldlM f s = .ok (r.foldl apply s) := by
  induction h generalizing s with
  | nil => rfl
  | cons hab _ ih =>
    rw [List.foldlM_cons,hab s]
    exact ih _

theorem foldlM_edits_perm {σ : Type} {f : σ → α → Except ε σ} {apply : σ → β → σ} {l l' : List α} {r : List β}
    (hperm : l'.Perm l) (h : List.Forall₂ (fun a b => ∀ s,f s a = .ok (apply s b)) l r) (s : σ) :
    ∃ r' : List β,r'.Perm r ∧ l'.foldlM f s = .ok (r'.foldl apply s) := by
  obtain ⟨r',hrel,hr'⟩ := List.perm_comp_forall₂ hperm h
  exact ⟨r',hr',foldlM_edits hrel s⟩

theorem foldlM_invariant {σ : Type} {P : σ → Prop} {f : σ → α → Except ε σ} {l : List α}
    (hstep : ∀ s a s',a ∈ l → P s → f s a = .ok s' → P s') {s r : σ} (hs : P s) (h : l.foldlM f s = .ok r) : P r := by
  induction l generalizing s with
  | nil =>
    cases h
    exact hs
  | cons a l ih =>
    rw [List.foldlM_cons] at h
    obtain ⟨s',hs',h⟩ := bind_eq_ok.mp h
    exact ih (fun s a s' ha => hstep s a s' (List.mem_cons_of_mem _ ha)) (hstep s a s' List.mem_cons_self hs hs') h

/-- Every error of a computation has a property. -/
def FailsWith (P : ε → Prop) (r : Except ε α) : Prop := ∀ e,r = .error e → P e

variable {P : ε → Prop}

@[simp] theorem failsWith_ok (a : α) : FailsWith P (.ok a : Except ε α) := fun _ h => by cases h

@[simp] theorem failsWith_error (e : ε) : FailsWith P (.error e : Except ε α) ↔ P e :=
  ⟨fun h => h e rfl,fun h _ he => by cases he; exact h⟩

theorem FailsWith.bind {x : Except ε α} {f : α → Except ε β} (hx : FailsWith P x) (hf : ∀ a,FailsWith P (f a)) :
    FailsWith P (x >>= f) := by
  cases x with
  | error e => simpa [Bind.bind,Except.bind] using hx
  | ok a => exact hf a

theorem FailsWith.map {x : Except ε α} (hx : FailsWith P x) (f : α → β) : FailsWith P (x.map f) := by
  cases x with
  | error e => simpa [Except.map] using hx
  | ok a => simp [Except.map]

theorem FailsWith.mapError {Q : ε' → Prop} {x : Except ε α} {f : ε → ε'} (hx : FailsWith P x) (hf : ∀ e,P e → Q (f e)) :
    FailsWith Q (x.mapError f) := by
  cases x with
  | error e => simpa [Except.mapError] using hf e ((failsWith_error e).mp hx)
  | ok a => simp [Except.mapError]

theorem FailsWith.mapM {f : α → Except ε β} (hf : ∀ a,FailsWith P (f a)) (l : List α) : FailsWith P (l.mapM f) := by
  induction l with
  | nil => exact failsWith_ok []
  | cons a l ih =>
    rw [List.mapM_cons]
    refine (hf a).bind fun b => ih.bind fun bs => ?_
    exact failsWith_ok (b :: bs)

theorem FailsWith.foldlM {f : β → α → Except ε β} (hf : ∀ b a,FailsWith P (f b a)) (l : List α) (b : β) :
    FailsWith P (l.foldlM f b) := by
  induction l generalizing b with
  | nil => exact failsWith_ok b
  | cons a l ih =>
    rw [List.foldlM_cons]
    exact (hf b a).bind ih

end Bind

variable {α β : Type}

/-- A computation that ends in an exception. -/
def Thrown (r : Fallible α) : Prop := ∃ what,r = .error (.thrown what)

@[simp] theorem not_thrown_ok (a : α) : ¬ Thrown (.ok a : Fallible α) := by
  rintro ⟨what,h⟩
  cases h

@[simp] theorem not_thrown_status (s : Status) : ¬ Thrown (.error (.status s) : Fallible α) := by
  rintro ⟨what,h⟩
  cases h

@[simp] theorem thrown_error (what : String) : Thrown (.error (.thrown what) : Fallible α) := ⟨what,rfl⟩

@[simp] theorem not_thrown_orFail (r : StatusOr α) : ¬ Thrown (orFail r) := by
  cases r with
  | error s => exact not_thrown_status s
  | ok a => exact not_thrown_ok a

theorem thrown_bind {x : Fallible α} {f : α → Fallible β} :
    Thrown (x >>= f) ↔ Thrown x ∨ ∃ a,x = .ok a ∧ Thrown (f a) := by
  cases x with
  | error e => simp [Bind.bind,Except.bind,Thrown]
  | ok a => simp [Bind.bind,Except.bind]

theorem bind_ne_status {x : Fallible α} {f : α → Fallible β} {s : Status} (hx : x ≠ .error (.status s))
    (hf : ∀ a,f a ≠ .error (.status s)) : x >>= f ≠ .error (.status s) := by
  cases x with
  | error e => exact fun h => hx (by cases h; rfl)
  | ok a => exact hf a

theorem not_thrown_bind {x : Fallible α} {f : α → Fallible β} (hx : ¬ Thrown x) (hf : ∀ a,x = .ok a → ¬ Thrown (f a)) :
    ¬ Thrown (x >>= f) := by
  rw [thrown_bind]
  rintro (h | ⟨a,ha,h⟩)
  · exact hx h
  · exact hf a ha h

theorem thrown_orFail_bind {r : StatusOr α} {f : α → Fallible β} :
    Thrown (orFail r >>= f) ↔ ∃ a,r = .ok a ∧ Thrown (f a) := by
  simp [thrown_bind,orFail_eq_ok]

@[simp] theorem thrown_map {x : Fallible α} {f : α → β} : Thrown (x.map f) ↔ Thrown x := by
  cases x <;> simp [Except.map,Thrown]

theorem thrown_mapM {f : α → Fallible β} (h : ∀ a,(∃ b,f a = .ok b) ∨ Thrown (f a)) (l : List α) :
    Thrown (l.mapM f) ↔ ∃ a ∈ l,Thrown (f a) := by
  induction l with
  | nil => simp [pure,Except.pure]
  | cons a l ih =>
    have hrest : ∀ b,Thrown (l.mapM f >>= fun bs => pure (b :: bs)) ↔ Thrown (l.mapM f) := fun b => by
      rw [thrown_bind]
      exact or_iff_left fun ⟨bs,_,h⟩ => not_thrown_ok _ h
    rw [List.mapM_cons,thrown_bind]
    simp only [hrest,List.mem_cons,exists_eq_or_imp,← ih]
    rcases h a with ⟨b,hb⟩ | hthrown
    · rw [hb]
      exact or_congr_right ⟨fun ⟨_,_,h⟩ => h,fun h => ⟨b,rfl,h⟩⟩
    · simp [hthrown]

theorem exists_mapM_eq_ok {ε : Type} {f : α → Except ε β} {l : List α} :
    (∃ r,l.mapM f = .ok r) ↔ ∀ a ∈ l,∃ b,f a = .ok b := by
  simp only [mapM_eq_ok]
  induction l with
  | nil => simp
  | cons a l ih =>
    simp only [List.forall₂_cons_left_iff,List.mem_cons,forall_eq_or_imp,← ih]
    exact ⟨fun ⟨_,b,bs,hb,hbs,_⟩ => ⟨⟨b,hb⟩,bs,hbs⟩,fun ⟨⟨b,hb⟩,bs,hbs⟩ => ⟨b :: bs,b,bs,hb,hbs,rfl⟩⟩

end SonicPins.Lib
