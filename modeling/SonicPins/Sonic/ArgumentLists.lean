import Mathlib.Data.List.TakeWhile
import Mathlib.Data.Set.Card
import SonicPins.Lib.Brackets
import SonicPins.Sonic.Annotations

/-! What the parsers of annotations accept: brackets and quotes that close, and commas outside of them. -/
namespace SonicPins.Sonic
open Lib Pdpi

variable {c : Char} {s : ArgListScan} {stack cs : List Char}

def annotationBrackets : Brackets Char where
  closing
    | '(' => some ')'
    | '[' => some ']'
    | '\x7b' => some '\x7d'
    | _ => none
  closes c := c = ')' || c = ']' || c = '\x7d'
  closing_closes := by
    intro o c h
    split at h <;> cases h <;> rfl
  closing_of_closes := by
    intro c h
    rcases (by simpa using h : (c = ')' ∨ c = ']') ∨ c = '\x7d') with (rfl | rfl) | rfl <;> rfl

def toggleQuote (quoted : Bool) (c : Char) : Bool := if c = '"' then !quoted else quoted

/-- A quote is open after these characters. -/
def quotedAfter (cs : List Char) : Bool := cs.foldl toggleQuote false

/-- What stands outside of quotes, from inside or outside of one. -/
def outsideQuotes : Bool → List Char → List Char
  | _,[] => []
  | quoted,c :: cs => (if c = '"' || quoted then [] else [c]) ++ outsideQuotes (toggleQuote quoted c) cs

/-- Every quote is closed, and so is every bracket outside of quotes. -/
def WellNested (cs : List Char) : Prop := quotedAfter cs = false ∧ Nested annotationBrackets (outsideQuotes false cs)

/-- The characters but for the space outside of quotes. -/
def withoutSpace : Bool → List Char → List Char
  | _,[] => []
  | quoted,c :: cs => (if isAnnotationSpace c && !quoted then [] else [c]) ++ withoutSpace (toggleQuote quoted c) cs

/-- There is a comma outside of all brackets and quotes. -/
def IsSeparator (cs : List Char) (i : Nat) : Prop := cs[i]? = some ',' ∧ WellNested (cs.take i)

theorem quotedAfter_concat (cs : List Char) (c : Char) : quotedAfter (cs ++ [c]) = toggleQuote (quotedAfter cs) c := by
  rw [quotedAfter,List.foldl_append]
  rfl

theorem outsideQuotes_concat (cs : List Char) (c : Char) :
    outsideQuotes false (cs ++ [c]) = outsideQuotes false cs ++ if c = '"' || quotedAfter cs then [] else [c] := by
  unfold quotedAfter
  generalize false = quoted
  induction cs generalizing quoted with
  | nil => simp [outsideQuotes]
  | cons x cs ih =>
    rw [List.cons_append,outsideQuotes,ih,outsideQuotes,List.append_assoc]
    rfl

theorem withoutSpace_concat (cs : List Char) (c : Char) :
    withoutSpace false (cs ++ [c]) = withoutSpace false cs ++ if isAnnotationSpace c && !quotedAfter cs then [] else [c] := by
  unfold quotedAfter
  generalize false = quoted
  induction cs generalizing quoted with
  | nil => simp [withoutSpace]
  | cons x cs ih =>
    rw [List.cons_append,withoutSpace,ih,withoutSpace,List.append_assoc]
    rfl

private theorem withoutSpace_eq_nil (cs : List Char) : withoutSpace false cs = [] ↔ ∀ c ∈ cs,isAnnotationSpace c = true := by
  induction cs with
  | nil => simp [withoutSpace]
  | cons c cs ih =>
    rw [withoutSpace,List.append_eq_nil_iff,List.forall_mem_cons,← ih]
    by_cases hspace : isAnnotationSpace c = true
    · have hquote : toggleQuote false c = false := by
        unfold toggleQuote
        rw [if_neg]
        rintro rfl
        exact absurd hspace (by decide)
      simp [hspace,hquote]
    · simp [hspace]

theorem isSeparator_concat (cs : List Char) (c : Char) (i : Nat) :
    IsSeparator (cs ++ [c]) i ↔ IsSeparator cs i ∨ (i = cs.length ∧ c = ',' ∧ WellNested cs) := by
  unfold IsSeparator
  rcases lt_trichotomy i cs.length with hlt | rfl | hgt
  · rw [List.getElem?_append_left hlt,List.take_append_of_le_length hlt.le]
    simp [hlt.ne]
  · simp
  · have hnone : (cs ++ [c])[i]? = none := List.getElem?_eq_none (by simpa using hgt)
    have hnone' : cs[i]? = none := List.getElem?_eq_none hgt.le
    simp [hnone,hnone',hgt.ne']

theorem wellNested_iff (cs : List Char) : WellNested cs ↔
    quotedAfter cs = false ∧ (outsideQuotes false cs).foldlM annotationBrackets.step [] = some [] := by
  rw [nested_iff]
  rfl

/-- The closers to come, and that of an open quote before them. -/
def scopeOf (quoted : Bool) (stack : List Char) : List Char := if quoted then '"' :: stack else stack

/-- What a step does to the brackets: nothing inside of quotes. -/
def stackStep (quoted : Bool) (stack : List Char) (c : Char) : Option (List Char) :=
  if c = '"' || quoted then some stack else annotationBrackets.step stack c

/-- What a step does to the arguments. -/
def argsStep (quoted : Bool) (stack : List Char) (c : Char) (s : ArgListScan) : List String × String :=
  if quoted = false ∧ stack = [] ∧ c = ',' then (s.tokens ++ [s.token],"")
  else (s.tokens,if isAnnotationSpace c && !quoted then s.token else s.token.push c)

private theorem closingOf_eq (c : Char) : closingOf c = if c = '"' then some '"' else annotationBrackets.closing c := by
  by_cases hquote : c = '"'
  · subst hquote
    rfl
  · rw [if_neg hquote]
    unfold closingOf annotationBrackets
    split <;> simp_all

theorem not_space_of_closes (h : annotationBrackets.closes c = true) : isAnnotationSpace c = false ∧ c ≠ ',' ∧ c ≠ '"' := by
  rcases (by simpa [annotationBrackets] using h : (c = ')' ∨ c = ']') ∨ c = '\x7d') with (rfl | rfl) | rfl <;> decide

theorem not_space_of_opens {closing : Char} (h : annotationBrackets.closing c = some closing) :
    isAnnotationSpace c = false ∧ c ≠ ',' := by
  simp only [annotationBrackets] at h
  split at h
  · decide
  · decide
  · decide
  · cases h

private theorem step_eq {quoted : Bool} (hscope : s.scope = scopeOf quoted stack)
    (hstack : ∀ c ∈ stack,annotationBrackets.closes c = true) (c : Char) :
    (∃ e,stackStep quoted stack c = none ∧ s.step c = .error e) ∨
    ∃ stack',stackStep quoted stack c = some stack' ∧
      s.step c = .ok ⟨(argsStep quoted stack c s).1,(argsStep quoted stack c s).2,scopeOf (toggleQuote quoted c) stack'⟩ := by
  cases quoted with
  | true =>
    have hscope : s.scope = '"' :: stack := hscope
    refine .inr ⟨stack,by simp [stackStep],?_⟩
    by_cases hquote : c = '"'
    · subst hquote
      simp [ArgListScan.step,hscope,argsStep,toggleQuote,scopeOf]
    · have hother : ¬ '"' = c := fun h => hquote h.symm
      simp [ArgListScan.step,hscope,argsStep,toggleQuote,scopeOf,hquote,hother]
  | false =>
    have hscope : s.scope = stack := hscope
    by_cases hcomma : stack = [] ∧ c = ','
    · obtain ⟨rfl,rfl⟩ := hcomma
      exact .inr ⟨[],rfl,by simp [ArgListScan.step,hscope,argsStep,toggleQuote,scopeOf]⟩
    · have hargs : argsStep false stack c s = (s.tokens,if isAnnotationSpace c then s.token else s.token.push c) := by
        simp [argsStep,hcomma]
      have hnocomma : (s.scope.isEmpty && c = ',') = false := by
        simpa [hscope] using hcomma
      rw [hargs,ArgListScan.step,hnocomma,hscope,if_neg Bool.false_ne_true]
      by_cases hhead : stack.head? = some c
      · obtain ⟨hspace,-,hquote⟩ := not_space_of_closes (hstack c (List.mem_of_head? hhead))
        refine .inr ⟨stack.tail,by simp [stackStep,Brackets.step,hquote,hhead],?_⟩
        simp [hhead,hspace,toggleQuote,hquote,scopeOf]
      · have hnoquote : stack.head? ≠ some '"' := fun h => (not_space_of_closes (hstack '"' (List.mem_of_head? h))).2.2 rfl
        rw [if_neg hhead,if_neg hnoquote,closingOf_eq]
        by_cases hquote : c = '"'
        · subst hquote
          exact .inr ⟨stack,rfl,rfl⟩
        · have hstep : stackStep false stack c = annotationBrackets.step stack c := by simp [stackStep,hquote]
          have htoggle : toggleQuote false c = false := by simp [toggleQuote,hquote]
          rw [if_neg hquote,hstep,Brackets.step,if_neg hhead,htoggle]
          cases hclosing : annotationBrackets.closing c with
          | some closing =>
            obtain ⟨hspace,-⟩ := not_space_of_opens hclosing
            exact .inr ⟨closing :: stack,rfl,by simp [hspace,scopeOf]⟩
          | none =>
            by_cases hcloses : annotationBrackets.closes c = true
            · obtain ⟨hspace,-,-⟩ := not_space_of_closes hcloses
              have hcloser : (c = ')' || c = ']' || c = '\x7d') = true := hcloses
              refine .inl ⟨invalidArgument ("Malformed input. No matching character found for '" ++ c.toString ++ "'"),if_pos hcloses,?_⟩
              simp only [hspace,Bool.false_eq_true,if_false]
              exact if_pos hcloser
            · have hcloser : ¬ (c = ')' || c = ']' || c = '\x7d') = true := hcloses
              refine .inr ⟨stack,if_neg hcloses,?_⟩
              by_cases hspace : isAnnotationSpace c = true
              · simp only [hspace,if_true]
                simp [scopeOf,← hscope]
              · simp only [hspace,Bool.false_eq_true,if_false]
                exact if_neg hcloser

/-- What is known after some characters: the brackets that are open, and the arguments so far, among
which the current one is read like the whole. -/
structure Scanned (cs : List Char) (stack : List Char) (s : ArgListScan) : Prop where
  brackets : (outsideQuotes false cs).foldlM annotationBrackets.step [] = some stack
  stackCloses : ∀ c ∈ stack,annotationBrackets.closes c = true
  scope : s.scope = scopeOf (quotedAfter cs) stack
  joined : List.intercalate [','] ((s.tokens ++ [s.token]).map String.toList) = withoutSpace false cs
  separators : s.tokens.length = {i | IsSeparator cs i}.ncard
  finite : {i | IsSeparator cs i}.Finite
  tokens : ∀ token ∈ s.tokens,∀ i,¬ IsSeparator token.toList i
  token : ∀ i,¬ IsSeparator s.token.toList i
  tokenQuoted : quotedAfter s.token.toList = quotedAfter cs
  tokenStack : (outsideQuotes false s.token.toList).foldlM annotationBrackets.step [] = some stack

private theorem scanned_nil : Scanned [] [] {} := by
  have hnone : ∀ i,¬ IsSeparator [] i := by simp [IsSeparator]
  have hempty : {i | IsSeparator [] i} = ∅ := Set.eq_empty_iff_forall_notMem.mpr hnone
  refine ⟨rfl,by simp,rfl,rfl,?_,?_,by simp,hnone,rfl,rfl⟩
  · rw [hempty,Set.ncard_empty]
    rfl
  · rw [hempty]
    exact Set.finite_empty

private theorem intercalate_concat (front : List (List Char)) (last rest : List Char) :
    List.intercalate [','] (front ++ [last ++ rest]) = List.intercalate [','] (front ++ [last]) ++ rest := by
  induction front with
  | nil => simp
  | cons x front ih =>
    rw [List.cons_append,List.cons_append,List.intercalate_cons_of_ne_nil (by simp),List.intercalate_cons_of_ne_nil (by simp),ih]
    simp

private theorem intercalate_next (front : List (List Char)) (last : List Char) :
    List.intercalate [','] (front ++ [last] ++ [[]]) = List.intercalate [','] (front ++ [last]) ++ [','] := by
  induction front with
  | nil => simp
  | cons x front ih =>
    rw [List.cons_append,List.cons_append,List.intercalate_cons_of_ne_nil (by simp),List.intercalate_cons_of_ne_nil (by simp),ih]
    simp

private theorem intercalate_eq_nil (front : List (List Char)) (last : List Char) :
    List.intercalate [','] (front ++ [last]) = [] ↔ front = [] ∧ last = [] := by
  cases front with
  | nil => simp
  | cons x front =>
    rw [List.cons_append,List.intercalate_cons_of_ne_nil (by simp)]
    simp

theorem foldlM_outsideQuotes_concat (h : (outsideQuotes false cs).foldlM annotationBrackets.step [] = some stack)
    (c : Char) : (outsideQuotes false (cs ++ [c])).foldlM annotationBrackets.step [] = stackStep (quotedAfter cs) stack c := by
  rw [outsideQuotes_concat,List.foldlM_append,h,stackStep]
  by_cases hc : (c = '"' || quotedAfter cs) = true
  · rw [if_pos hc]
    have hc' : c = '"' ∨ quotedAfter cs = true := by simpa using hc
    simp [hc']
  · rw [if_neg hc]
    have hc' : ¬ (c = '"' ∨ quotedAfter cs = true) := by simpa using hc
    simp [hc']

private theorem stackStep_closes {quoted : Bool} {stack' : List Char} (h : stackStep quoted stack c = some stack')
    (hstack : ∀ c ∈ stack,annotationBrackets.closes c = true) : ∀ c ∈ stack',annotationBrackets.closes c = true := by
  unfold stackStep at h
  split_ifs at h
  · cases h
    exact hstack
  · exact Brackets.step_closes h hstack

theorem Scanned.wellNested_iff (h : Scanned cs stack s) : WellNested cs ↔ quotedAfter cs = false ∧ stack = [] := by
  rw [SonicPins.Sonic.wellNested_iff,h.brackets,Option.some_inj]

theorem Scanned.comma (h : Scanned cs [] s) (hquoted : quotedAfter cs = false) :
    Scanned (cs ++ [',']) [] ⟨s.tokens ++ [s.token],"",[]⟩ := by
  have hnested : WellNested cs := h.wellNested_iff.mpr ⟨hquoted,rfl⟩
  have hseparators : {i | IsSeparator (cs ++ [',']) i} = insert cs.length {i | IsSeparator cs i} := by
    ext i
    rw [Set.mem_ofPred_eq,isSeparator_concat,Set.mem_insert_iff,Set.mem_ofPred_eq,or_comm]
    simp [hnested]
  have hnew : cs.length ∉ {i | IsSeparator cs i} := by simp [IsSeparator]
  have hafter : quotedAfter (cs ++ [',']) = false := by
    rw [quotedAfter_concat,hquoted]
    rfl
  refine ⟨?_,by simp,by rw [hafter]; rfl,?_,?_,?_,?_,by simp [IsSeparator],by rw [hafter]; rfl,rfl⟩
  · rw [foldlM_outsideQuotes_concat h.brackets,hquoted]
    rfl
  · rw [withoutSpace_concat,← h.joined,hquoted,List.map_append]
    exact (congrArg (List.intercalate [',']) (by simp)).trans (intercalate_next (s.tokens.map String.toList) s.token.toList) |>.trans
      (by simp [isAnnotationSpace])
  · rw [hseparators,Set.ncard_insert_of_notMem hnew h.finite,List.length_append,h.separators]
    rfl
  · rw [hseparators]
    exact h.finite.insert _
  · intro token htoken
    rcases List.mem_append.mp htoken with htoken | htoken
    · exact h.tokens token htoken
    · rw [List.mem_singleton.mp htoken]
      exact h.token

theorem Scanned.space (h : Scanned cs stack s) (hquoted : quotedAfter cs = false)
    (hspace : isAnnotationSpace c = true) : Scanned (cs ++ [c]) stack ⟨s.tokens,s.token,scopeOf false stack⟩ := by
  have hquote : c ≠ '"' := by
    rintro rfl
    exact absurd hspace (by decide)
  have hcomma : c ≠ ',' := by
    rintro rfl
    exact absurd hspace (by decide)
  have hafter : quotedAfter (cs ++ [c]) = false := by
    rw [quotedAfter_concat,hquoted]
    exact if_neg hquote
  have hstep : stackStep false stack c = some stack := by
    have hcloses : annotationBrackets.closes c ≠ true := fun hc => by
      rw [(not_space_of_closes hc).1] at hspace
      cases hspace
    have hhead : stack.head? ≠ some c := fun hc => hcloses (h.stackCloses c (List.mem_of_head? hc))
    have hclosing : annotationBrackets.closing c = none := by
      refine Option.eq_none_iff_forall_ne_some.mpr fun closing hc => ?_
      rw [(not_space_of_opens hc).1] at hspace
      cases hspace
    rw [stackStep,if_neg (by simpa using hquote),Brackets.step,if_neg hhead,hclosing]
    exact if_neg hcloses
  have hseparators : {i | IsSeparator (cs ++ [c]) i} = {i | IsSeparator cs i} := by
    ext i
    simp [isSeparator_concat,hcomma]
  refine ⟨?_,h.stackCloses,by rw [hafter],?_,?_,?_,h.tokens,h.token,?_,h.tokenStack⟩
  · rw [foldlM_outsideQuotes_concat h.brackets,hquoted,hstep]
  · rw [withoutSpace_concat,hquoted,hspace]
    exact h.joined.trans (List.append_nil _).symm
  · rw [hseparators]
    exact h.separators
  · rw [hseparators]
    exact h.finite
  · rw [hafter]
    exact h.tokenQuoted.trans hquoted

theorem Scanned.push {stack' : List Char} (h : Scanned cs stack s)
    (hkept : (isAnnotationSpace c && !quotedAfter cs) = false) (hinner : ¬ (quotedAfter cs = false ∧ stack = [] ∧ c = ','))
    (hstep : stackStep (quotedAfter cs) stack c = some stack') :
    Scanned (cs ++ [c]) stack' ⟨s.tokens,s.token.push c,scopeOf (toggleQuote (quotedAfter cs) c) stack'⟩ := by
  have hnoseparator : ∀ i,¬ (i = cs.length ∧ c = ',' ∧ WellNested cs) := by
    rintro i ⟨-,hc,hnested⟩
    obtain ⟨hquoted,hstack⟩ := h.wellNested_iff.mp hnested
    exact hinner ⟨hquoted,hstack,hc⟩
  have hseparators : {i | IsSeparator (cs ++ [c]) i} = {i | IsSeparator cs i} := by
    ext i
    rw [Set.mem_ofPred_eq,isSeparator_concat,or_iff_left (hnoseparator i)]
    rfl
  refine ⟨?_,stackStep_closes hstep h.stackCloses,by rw [quotedAfter_concat],?_,?_,?_,h.tokens,fun i hi => ?_,?_,?_⟩
  · rw [foldlM_outsideQuotes_concat h.brackets,hstep]
  · rw [withoutSpace_concat,hkept,← h.joined,List.map_append,List.map_append]
    simp only [List.map_cons,List.map_nil,String.toList_push]
    exact intercalate_concat (s.tokens.map String.toList) s.token.toList [c]
  · rw [hseparators]
    exact h.separators
  · rw [hseparators]
    exact h.finite
  · rw [String.toList_push,isSeparator_concat] at hi
    rcases hi with hi | ⟨-,hc,hnested⟩
    · exact h.token i hi
    · rw [SonicPins.Sonic.wellNested_iff,h.tokenStack,h.tokenQuoted,Option.some_inj] at hnested
      exact hinner ⟨hnested.1,hnested.2,hc⟩
  · rw [String.toList_push,quotedAfter_concat,quotedAfter_concat,h.tokenQuoted]
  · rw [String.toList_push,foldlM_outsideQuotes_concat h.tokenStack,h.tokenQuoted,hstep]

private theorem foldlM_step_cases (cs : List Char) :
    (∃ e,cs.foldlM ArgListScan.step {} = .error e ∧ ¬ WellNested cs) ∨
    ∃ stack s,cs.foldlM ArgListScan.step {} = .ok s ∧ Scanned cs stack s := by
  have hcases : (∃ e,cs.foldlM ArgListScan.step {} = .error e ∧ (outsideQuotes false cs).foldlM annotationBrackets.step [] = none) ∨
      ∃ stack s,cs.foldlM ArgListScan.step {} = .ok s ∧ Scanned cs stack s := by
    induction cs using List.reverseRecOn with
    | nil => exact .inr ⟨[],{},rfl,scanned_nil⟩
    | append_singleton cs c ih =>
      rcases ih with ⟨e,hscan,hbrackets⟩ | ⟨stack,s,hscan,h⟩
      · refine .inl ⟨e,?_,?_⟩
        · rw [List.foldlM_append,hscan]
          rfl
        · rw [outsideQuotes_concat,List.foldlM_append,hbrackets]
          rfl
      · have hnext : (cs ++ [c]).foldlM ArgListScan.step {} = s.step c := by
          rw [List.foldlM_append,hscan]
          change s.step c >>= pure = s.step c
          exact bind_pure _
        rw [hnext,foldlM_outsideQuotes_concat h.brackets]
        rcases step_eq h.scope h.stackCloses c with ⟨e,hfails,hstep⟩ | ⟨stack',hnew,hstep⟩
        · exact .inl ⟨e,hstep,hfails⟩
        · refine .inr ⟨stack',_,hstep,?_⟩
          unfold argsStep
          by_cases hcomma : quotedAfter cs = false ∧ stack = [] ∧ c = ','
          · rw [if_pos hcomma]
            obtain ⟨hquoted,rfl,rfl⟩ := hcomma
            rw [hquoted] at hnew ⊢
            cases hnew
            exact h.comma hquoted
          · rw [if_neg hcomma]
            by_cases hspace : (isAnnotationSpace c && !quotedAfter cs) = true
            · obtain ⟨hc,hquoted⟩ : isAnnotationSpace c = true ∧ quotedAfter cs = false := by simpa using hspace
              have hskip := h.space hquoted hc
              obtain rfl : stack' = stack := by
                have hsame := hskip.brackets
                rw [foldlM_outsideQuotes_concat h.brackets,hnew] at hsame
                exact Option.some_inj.mp hsame
              have hscope := hskip.scope
              rw [quotedAfter_concat] at hscope
              simp only [if_pos hspace]
              rw [← hscope]
              exact hskip
            · simp only [if_neg hspace]
              exact h.push (Bool.eq_false_iff.mpr hspace) hcomma hnew
  rcases hcases with ⟨e,hscan,hbrackets⟩ | h
  · refine .inl ⟨e,hscan,fun hnested => ?_⟩
    rw [wellNested_iff,hbrackets] at hnested
    cases hnested.2
  · exact .inr h

/-- The arguments of a text: they are joined by the commas outside of all brackets and quotes. -/
structure ArgumentsOf (cs : List Char) (args : List String) : Prop where
  joined : List.intercalate [','] (args.map String.toList) = withoutSpace false cs
  separators : args.length = {i | IsSeparator cs i}.ncard + 1
  none : ∀ arg ∈ args,∀ i,¬ IsSeparator arg.toList i

theorem parseAsArgList_cases (value : String) :
    (∃ e,parseAsArgList value = .error e ∧ ¬ WellNested value.toList) ∨
    ∃ args,parseAsArgList value = .ok args ∧ WellNested value.toList ∧
      ((∀ c ∈ value.toList,isAnnotationSpace c = true) → args = []) ∧
      (¬ (∀ c ∈ value.toList,isAnnotationSpace c = true) → ArgumentsOf value.toList args) := by
  rcases foldlM_step_cases value.toList with ⟨e,hscan,hnested⟩ | ⟨stack,s,hscan,h⟩
  · exact .inl ⟨e,by rw [parseAsArgList,hscan]; rfl,hnested⟩
  · by_cases hnested : WellNested value.toList
    · obtain ⟨hquoted,rfl⟩ := h.wellNested_iff.mp hnested
      have hscope : s.scope = [] := by
        rw [h.scope,hquoted]
        rfl
      have hempty : (s.tokens.isEmpty && s.token.isEmpty) = true ↔ ∀ c ∈ value.toList,isAnnotationSpace c = true := by
        rw [← withoutSpace_eq_nil,← h.joined,List.map_append]
        refine Iff.trans ?_ (intercalate_eq_nil (s.tokens.map String.toList) s.token.toList).symm
        simp
      have hparse : parseAsArgList value = if s.tokens.isEmpty && s.token.isEmpty then .ok [] else .ok (s.tokens ++ [s.token]) := by
        simp only [parseAsArgList,hscan,bind,Except.bind,hscope]
      rw [hparse]
      refine .inr ⟨_,(apply_ite Except.ok _ _ _).symm,hnested,fun hspace => if_pos (hempty.mpr hspace),fun hspace => ?_⟩
      · rw [if_neg fun hall => hspace (hempty.mp hall)]
        refine ⟨h.joined,?_,fun arg harg => ?_⟩
        · rw [List.length_append,h.separators]
          rfl
        · rcases List.mem_append.mp harg with harg | harg
          · exact h.tokens arg harg
          · rw [List.mem_singleton.mp harg]
            exact h.token
    · have hscope : s.scope ≠ [] := by
        intro hnil
        rw [h.scope] at hnil
        refine hnested (h.wellNested_iff.mpr ?_)
        cases hquoted : quotedAfter value.toList with
        | true =>
          rw [hquoted] at hnil
          cases hnil
        | false =>
          rw [hquoted] at hnil
          exact ⟨rfl,hnil⟩
      obtain ⟨closing,rest,hcons⟩ := List.exists_cons_of_ne_nil hscope
      refine .inl ⟨invalidArgument ("Malformed input. Expected '" ++ closing.toString ++ "' before end of string"),?_,hnested⟩
      simp only [parseAsArgList,hscan,bind,Except.bind,hcons]

def malformed (line why : String) : Status := invalidArgument ("Annotation \"" ++ line ++ "\" is malformed: " ++ why)

/-- The scan from the back over space, which stops at the start of the body at the latest. -/
def backToBody (cs : List Char) (bodyStart : Nat) : Nat → Nat
  | 0 => 0
  | i + 1 => if bodyStart < i + 1 ∧ cs[i + 1]?.any isAnnotationSpace = true then backToBody cs bodyStart i else i + 1

/-- `ParseAnnotation` with its errors: label and body of an annotation. -/
def parseAnnotationComponents (line : String) : StatusOr (String × String) :=
  match line.toList.dropWhile isAnnotationSpace with
  | '@' :: rest =>
    let inLabel (c : Char) := !isAnnotationSpace c && c ≠ '(' && c ≠ ')'
    let label := rest.takeWhile inLabel
    if label.isEmpty then .error (malformed line "Annotation contains no label text")
    else match (rest.dropWhile inLabel).dropWhile isAnnotationSpace with
      | [] => .ok (String.ofList label,"")
      | '(' :: body =>
        let bodyStart := line.toList.length - body.length
        let bodyEnd := backToBody line.toList bodyStart (line.toList.length - 1)
        if line.toList[bodyEnd]? = some ')' then .ok (String.ofList label,String.ofList ((line.toList.take bodyEnd).drop bodyStart))
        else .error (malformed line "Missing ')' at the end of the annotation")
      | c :: _ => .error (malformed line ("Expected '(' but found '" ++ c.toString ++ "'"))
  | _ => .error (malformed line "Annotations must begin with '@'")

private theorem backToBody_cases {front body tail : List Char} (hcs : cs = front ++ '(' :: (body ++ tail)) {i : Nat}
    (hi : backToBody cs (front.length + 1) (front.length + body.length) = i) :
    (∃ text,body.reverse.dropWhile isAnnotationSpace = ')' :: text ∧ cs[i]? = some ')' ∧
      (cs.take i).drop (front.length + 1) = text.reverse) ∨
    ((∀ text,body.reverse.dropWhile isAnnotationSpace ≠ ')' :: text) ∧ cs[i]? ≠ some ')') := by
  induction body using List.reverseRecOn generalizing tail with
  | nil =>
    have hstop : backToBody cs (front.length + 1) front.length = front.length := by
      cases front.length with
      | zero => rfl
      | succ n => exact if_neg (by omega)
    refine .inr ⟨by simp,?_⟩
    change backToBody cs (front.length + 1) front.length = i at hi
    rw [hstop] at hi
    rw [← hi,hcs,List.getElem?_append_right le_rfl]
    simp
  | append_singleton body c ih =>
    have hhere : cs[front.length + body.length + 1]? = some c := by
      rw [hcs,List.getElem?_append_right (by omega),show front.length + body.length + 1 - front.length = body.length + 1 by omega]
      simp
    rw [List.length_append,List.length_singleton,← Nat.add_assoc,backToBody,hhere,Option.any_some] at hi
    rw [List.reverse_concat,List.dropWhile_cons]
    by_cases hback : front.length + 1 < front.length + body.length + 1 ∧ isAnnotationSpace c = true
    · rw [if_pos hback] at hi
      rw [if_pos hback.2]
      exact ih (show cs = front ++ '(' :: (body ++ c :: tail) by rw [hcs]; simp) hi
    · rw [if_neg hback] at hi
      subst hi
      rw [hhere]
      by_cases hclose : c = ')'
      · subst hclose
        refine .inl ⟨body.reverse,if_neg (by decide),rfl,?_⟩
        have hfront : cs = (front ++ ['(']) ++ body ++ (')' :: tail) := by
          rw [hcs]
          simp
        have hlength : (front ++ ['(']).length = front.length + 1 := by simp
        rw [List.reverse_reverse,hfront,List.take_left' (by simp; omega),← hlength,List.drop_left]
      · refine .inr ⟨fun text => ?_,by simpa using hclose⟩
        by_cases hspace : isAnnotationSpace c = true
        · have hnil : body = [] := by
            by_contra hne
            have hpos := List.length_pos_iff.mpr hne
            exact hback ⟨by omega,hspace⟩
          simp [hspace,hnil]
        · simp [hspace,hclose]

private theorem parseAnnotationComponents_toOption (line : String) : (parseAnnotationComponents line).toOption = parseAnnotation line := by
  unfold parseAnnotationComponents parseAnnotation
  cases hstart : line.toList.dropWhile isAnnotationSpace with
  | nil => rfl
  | cons c rest =>
    by_cases hat : c = '@'
    · subst hat
      simp only
      split_ifs with hlabel
      · rfl
      · cases hend : (rest.dropWhile fun c => !isAnnotationSpace c && decide (c ≠ '(') && decide (c ≠ ')')).dropWhile
            isAnnotationSpace with
        | nil => rfl
        | cons c body =>
          by_cases hopen : c = '('
          · subst hopen
            obtain ⟨front,hfront⟩ : ('(' :: body) <:+ line.toList := by
              rw [← hend]
              refine (List.dropWhile_suffix _).trans ((List.dropWhile_suffix _).trans ?_)
              exact (List.suffix_cons '@' rest).trans (hstart ▸ List.dropWhile_suffix _)
            have hlength : line.toList.length = front.length + body.length + 1 := by
              rw [← hfront]
              simp
              omega
            have hbodyStart : line.toList.length - body.length = front.length + 1 := by omega
            have hlast : line.toList.length - 1 = front.length + body.length := by omega
            have hcs : line.toList = front ++ '(' :: (body ++ []) := by rw [List.append_nil,hfront]
            simp only [hbodyStart,hlast]
            rcases backToBody_cases hcs rfl with ⟨text,hback,hclose,htext⟩ | ⟨hback,hclose⟩
            · rw [if_pos hclose,htext,hback]
              rfl
            · rw [if_neg hclose]
              split
              · rename_i text heq
                exact absurd heq (hback text)
              · rfl
          · refine Eq.trans (b := none) ?_ ?_
            · split
              · rename_i heq
                cases heq
              · rename_i heq
                cases heq
                exact absurd rfl hopen
              · rfl
            · split
              · rename_i heq
                cases heq
              · rename_i heq
                cases heq
                exact absurd rfl hopen
              · rfl
    · refine Eq.trans (b := none) ?_ ?_
      · split
        · rename_i heq
          cases heq
          exact absurd rfl hat
        · rfl
      · split
        · rename_i heq
          cases heq
          exact absurd rfl hat
        · rfl

/-- An annotation: a label, maybe with a body in parentheses, and space between these. -/
def AnnotationForm (cs label body : List Char) : Prop :=
  label ≠ [] ∧ (∀ c ∈ label,isAnnotationSpace c = false ∧ c ≠ '(' ∧ c ≠ ')') ∧
  ∃ before after,(∀ c ∈ before,isAnnotationSpace c = true) ∧ cs = before ++ '@' :: (label ++ after) ∧
    ((body = [] ∧ ∀ c ∈ after,isAnnotationSpace c = true) ∨
      ∃ between tail,(∀ c ∈ between,isAnnotationSpace c = true) ∧ (∀ c ∈ tail,isAnnotationSpace c = true) ∧
        after = between ++ '(' :: (body ++ ')' :: tail))

theorem dropWhile_stops {p : Char → Bool} {l rest : List Char} (hl : ∀ x ∈ l,p x = true) (hc : p c = false) :
    (l ++ c :: rest).dropWhile p = c :: rest := by
  rw [List.dropWhile_append_of_pos hl,List.dropWhile_cons,if_neg (by simp [hc])]

theorem split_dropWhile {p : Char → Bool} {l rest : List Char} (h : l.dropWhile p = c :: rest) :
    ∃ front,(∀ x ∈ front,p x = true) ∧ l = front ++ c :: rest :=
  ⟨l.takeWhile p,fun _ hx => List.mem_takeWhile_imp hx,by rw [← h,List.takeWhile_append_dropWhile]⟩

private theorem parseAnnotation_eq_some (line label body : String) :
    parseAnnotation line = some (label,body) ↔ AnnotationForm line.toList label.toList body.toList := by
  constructor
  · intro h
    unfold parseAnnotation at h
    cases hstart : line.toList.dropWhile isAnnotationSpace with
    | nil =>
      rw [hstart] at h
      cases h
    | cons c rest =>
      rw [hstart] at h
      obtain ⟨before,hbefore,hline⟩ := split_dropWhile hstart
      by_cases hat : c = '@'
      · subst hat
        simp only at h
        split_ifs at h with hempty
        have hlabelChars : ∀ c ∈ rest.takeWhile (fun c => !isAnnotationSpace c && decide (c ≠ '(') && decide (c ≠ ')')),
            isAnnotationSpace c = false ∧ c ≠ '(' ∧ c ≠ ')' := by
          intro c hc
          have hin := List.mem_takeWhile_imp hc
          simpa [and_assoc] using hin
        have hrest := List.takeWhile_append_dropWhile (p := fun c =>
          !isAnnotationSpace c && decide (c ≠ '(') && decide (c ≠ ')')) (l := rest)
        cases hend : (rest.dropWhile fun c => !isAnnotationSpace c && decide (c ≠ '(') && decide (c ≠ ')')).dropWhile
            isAnnotationSpace with
        | nil =>
          rw [hend] at h
          simp only [Option.some_inj,Prod.mk.injEq] at h
          obtain ⟨rfl,rfl⟩ := h
          rw [String.toList_ofList]
          exact ⟨by simpa using hempty,hlabelChars,before,_,hbefore,by rw [hrest,hline],.inl ⟨rfl,List.dropWhile_eq_nil_iff.mp hend⟩⟩
        | cons c text =>
          rw [hend] at h
          obtain ⟨between,hbetween,hafter⟩ := split_dropWhile hend
          by_cases hopen : c = '('
          · subst hopen
            simp only at h
            cases hback : text.reverse.dropWhile isAnnotationSpace with
            | nil =>
              rw [hback] at h
              cases h
            | cons c body =>
              rw [hback] at h
              by_cases hclose : c = ')'
              · subst hclose
                simp only [Option.some_inj,Prod.mk.injEq] at h
                obtain ⟨rfl,rfl⟩ := h
                obtain ⟨tail,htail,htext⟩ := split_dropWhile hback
                rw [String.toList_ofList,String.toList_ofList]
                refine ⟨by simpa using hempty,hlabelChars,before,_,hbefore,by rw [hrest,hline],.inr ⟨between,tail.reverse,hbetween,?_,?_⟩⟩
                · simpa using htail
                · rw [hafter,← List.reverse_reverse text,htext]
                  simp
              · split at h
                · rename_i heq
                  cases heq
                  exact absurd rfl hclose
                · cases h
          · split at h
            · rename_i heq
              cases heq
            · rename_i heq
              cases heq
              exact absurd rfl hopen
            · cases h
      · split at h
        · rename_i heq
          cases heq
          exact absurd rfl hat
        · cases h
  · rintro ⟨hne,hlabel,before,after,hbefore,hline,hafter⟩
    have hinLabel : ∀ c ∈ label.toList,(!isAnnotationSpace c && decide (c ≠ '(') && decide (c ≠ ')')) = true := by
      intro c hc
      obtain ⟨hspace,hopen,hclose⟩ := hlabel c hc
      simp [hspace,hopen,hclose]
    have hsplit : (label.toList ++ after).takeWhile (fun c => !isAnnotationSpace c && decide (c ≠ '(') && decide (c ≠ ')')) =
      label.toList ∧
        (label.toList ++ after).dropWhile (fun c => !isAnnotationSpace c && decide (c ≠ '(') && decide (c ≠ ')')) = after := by
      rw [List.takeWhile_append_of_pos hinLabel,List.dropWhile_append_of_pos hinLabel]
      cases after with
      | nil => exact ⟨List.append_nil _,rfl⟩
      | cons x after =>
        have hx : (!isAnnotationSpace x && decide (x ≠ '(') && decide (x ≠ ')')) = false := by
          rcases hafter with ⟨-,hspace⟩ | ⟨between,tail,hbetween,-,heq⟩
          · simp [hspace x List.mem_cons_self]
          · cases between with
            | nil =>
              obtain ⟨rfl,-⟩ := List.cons.inj heq
              rfl
            | cons y between =>
              obtain ⟨rfl,-⟩ := List.cons.inj heq
              simp [hbetween x List.mem_cons_self]
        rw [List.takeWhile_cons,List.dropWhile_cons,if_neg (by rw [hx]; simp),if_neg (by rw [hx]; simp)]
        exact ⟨List.append_nil _,rfl⟩
    unfold parseAnnotation
    rw [hline,dropWhile_stops hbefore (by decide)]
    simp only
    rw [hsplit.1,hsplit.2,if_neg (by simpa using hne)]
    rcases hafter with ⟨hbody,hspace⟩ | ⟨between,tail,hbetween,htail,rfl⟩
    · rw [List.dropWhile_eq_nil_iff.mpr hspace]
      simpa using hbody.symm
    · rw [dropWhile_stops hbetween (by decide)]
      simp only
      rw [List.reverse_append,List.reverse_cons,List.append_assoc,List.singleton_append,
        dropWhile_stops (by simpa using htail) (by decide)]
      simp

/-- Argument lists are read where quotes and brackets close, and split at the commas outside of them; annotations
are read exactly in their form. -/
theorem annotations_read (value line : String) :
    ((∃ args,parseAsArgList value = .ok args) ↔ WellNested value.toList) ∧
    (∀ args,parseAsArgList value = .ok args → ((∀ c ∈ value.toList,isAnnotationSpace c = true) → args = []) ∧
      (¬ (∀ c ∈ value.toList,isAnnotationSpace c = true) → ArgumentsOf value.toList args)) ∧
    ∀ label body,parseAnnotationComponents line = .ok (label,body) ↔ AnnotationForm line.toList label.toList body.toList := by
  refine ⟨?_,fun args hargs => ?_,fun label body => ?_⟩
  · rcases parseAsArgList_cases value with ⟨e,herror,hnested⟩ | ⟨args,hargs,hnested,-⟩
    · refine iff_of_false ?_ hnested
      rintro ⟨args,hargs⟩
      cases herror.symm.trans hargs
    · exact iff_of_true ⟨args,hargs⟩ hnested
  · rcases parseAsArgList_cases value with ⟨e,herror,-⟩ | ⟨args',hargs',-,h⟩
    · cases herror.symm.trans hargs
    · cases hargs'.symm.trans hargs
      exact h
  · rw [← toOption_eq_some,parseAnnotationComponents_toOption]
    exact parseAnnotation_eq_some line label body
end SonicPins.Sonic
