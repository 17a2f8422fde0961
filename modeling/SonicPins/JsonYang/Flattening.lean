import SonicPins.JsonYang.ValueEquality
import SonicPins.Lib.Text

/-! Documents flattened to maps from paths to texts, and the leaves that they are flattened from. -/
namespace SonicPins.JsonYang
open Lib JsonTree

variable {path pathWithoutKeys : String} {keyNames : List String}

abbrev StringMap := List (String × String)

/-- The names of the key leaves, in order, for the paths of the lists. -/
abbrev StringSetMap := String → Option (List String)

/-- `get<int>` and `get<uint>` keep the low 32 bits of the integer. -/
def getSimpleJsonValueAsString : JsonScalar → String
  | .int i => decimal i.toInt32.toInt
  | .uint u => decimal u.toUInt32.toNat
  | .string s => s
  | .bool b => if b then "true" else "false"

def typeName : Value → String
  | .null => "null"
  | .obj _ => "object"
  | .arr _ => "array"
  | .scalar (.string _) => "string"
  | .scalar (.bool _) => "boolean"
  | .scalar _ => "number"

/-- A member of an element, if the element is an object that has it. -/
def find? (element : Value) (name : String) : Option Value :=
  match element with
  | .obj m => m.lookup name
  | _ => none

def keyTypes : String := "]. Expected: integer, unsigned, float, string, bool."

def appendKey (path : String) (i : Nat) (element : Value) (memberPath keyName : String) : StatusOr String :=
  match find? element keyName with
  | none => .error ⟨.invalidArgument,"No key leaf '" ++ keyName ++ "' found for array element " ++ decimal i ++
      " under path: [" ++ path ++ "]."⟩
  | some (.scalar s) => .ok (memberPath ++ ("[" ++ keyName ++ "='" ++ getSimpleJsonValueAsString s ++ "']"))
  | some value => .error ⟨.invalidArgument,"Invalid type '" ++ typeName value ++ "' for key leaf '" ++ keyName ++
      "' for array element " ++ decimal i ++ " under path [" ++ path ++ keyTypes⟩

/-- The path of an element: its own text in a leaf list, its key leaves in another list. -/
def elementPath (keyNames : List String) (path : String) (i : Nat) (element : Value) : StatusOr String :=
  if keyNames.isEmpty then
    match element with
    | .scalar s => .ok (path ++ ("['" ++ getSimpleJsonValueAsString s ++ "']"))
    | element => .error ⟨.invalidArgument,"Invalid type '" ++ typeName element ++ "' for array element (leaf list) " ++
        decimal i ++ " under path [" ++ path ++ keyTypes⟩
  else keyNames.foldlM (appendKey path i element) path

/-- What `FlattenJson` fills. -/
structure FlatMaps where
  flattenedMap : StringMap
  unknownKeyPaths : List (String × Unit)

section Recursion
variable (yangPathKeyNameMap : StringSetMap)

mutual

def flattenJson (path pathWithoutKeys : String) : Value → FlatMaps → StatusOr FlatMaps
  | .obj m,maps => flattenMembers path pathWithoutKeys m maps
  | .arr xs,maps =>
    match yangPathKeyNameMap pathWithoutKeys with
    | none => .ok { maps with unknownKeyPaths := assign pathWithoutKeys () maps.unknownKeyPaths }
    | some keyNames => flattenElements path pathWithoutKeys keyNames 0 xs maps
  | .scalar s,maps => .ok { maps with flattenedMap := assign path (getSimpleJsonValueAsString s) maps.flattenedMap }
  | .null,maps => .ok maps

def flattenMembers (path pathWithoutKeys : String) : List (String × Value) → FlatMaps → StatusOr FlatMaps
  | [],maps => .ok maps
  | (name,value) :: m,maps => do
    let maps ← flattenJson (path ++ ("/" ++ name)) (pathWithoutKeys ++ ("/" ++ name)) value maps
    flattenMembers path pathWithoutKeys m maps

def flattenElements (path pathWithoutKeys : String) (keyNames : List String) (i : Nat) : List Value → FlatMaps → StatusOr FlatMaps
  | [],maps => .ok maps
  | x :: xs,maps => do
    let memberPath ← elementPath keyNames path i x
    let maps ← flattenJson memberPath pathWithoutKeys x maps
    flattenElements path pathWithoutKeys keyNames (i + 1) xs maps

end

def flattenJsonToMap (root : Value) (ignoreUnknownKeyPaths : Bool) : StatusOr StringMap := do
  let maps ← flattenJson yangPathKeyNameMap "" "" root ⟨[],[]⟩
  if !maps.unknownKeyPaths.isEmpty && !ignoreUnknownKeyPaths then
    throw ⟨.invalidArgument,"No key found in the map for the paths: \n" ++ String.intercalate "\n" (maps.unknownKeyPaths.map Prod.fst)⟩
  return maps.flattenedMap

end Recursion

/-- What a path of the source adds to the differences. -/
def subsetDifference (targetMap : StringMap) (entry : String × String) : List String :=
  match targetMap.lookup entry.1 with
  | none => ["Missing: [" ++ entry.1 ++ "] with value '" ++ entry.2 ++ "'."]
  | some targetValue =>
    if entry.2 ≠ targetValue then ["Mismatch: [" ++ entry.1 ++ "]: '" ++ entry.2 ++ "' != '" ++ targetValue ++ "'"] else []

/-- `IsJsonSubset` of flattened documents: the answer, and the differences. -/
def isSubset (sourceMap targetMap : StringMap) (differences : List String) : Bool × List String :=
  sourceMap.foldl (fun result entry =>
    (result.1 && (subsetDifference targetMap entry).isEmpty,result.2 ++ subsetDifference targetMap entry)) (true,differences)

def isJsonSubset (source target : Value) (yangPathKeyNameMap : StringSetMap) (differences : List String) :
    StatusOr (Bool × List String) := do
  let flatSource ← flattenJsonToMap yangPathKeyNameMap source false
  let flatTarget ← flattenJsonToMap yangPathKeyNameMap target false
  return isSubset flatSource flatTarget differences

/-- What a path of either document adds to the differences. -/
def pathDifference (flatLhs flatRhs : StringMap) (path : String) : List String :=
  match flatLhs.lookup path,flatRhs.lookup path with
  | some lhsValue,some rhsValue =>
    if lhsValue ≠ rhsValue then ["Mismatch: [" ++ path ++ "]: '" ++ lhsValue ++ "' != '" ++ rhsValue ++ "'"] else []
  | some lhsValue,none => ["Missing rhs: [" ++ path ++ "] with value '" ++ lhsValue ++ "'."]
  | none,some rhsValue => ["Missing lhs: [" ++ path ++ "] with value '" ++ rhsValue ++ "'."]
  | none,none => []

def areJsonEqual (lhs rhs : Value) (yangPathKeyNameMap : StringSetMap) (differences : List String) :
    StatusOr (Bool × List String) := do
  let flatLhs ← flattenJsonToMap yangPathKeyNameMap lhs false
  let flatRhs ← flattenJsonToMap yangPathKeyNameMap rhs false
  let allPaths := (flatLhs ++ flatRhs).foldl (fun paths entry => assign entry.1 () paths) []
  return allPaths.foldl (fun result entry =>
    (result.1 && (pathDifference flatLhs flatRhs entry.1).isEmpty,result.2 ++ pathDifference flatLhs flatRhs entry.1))
    (true,differences)

/-- A step on the path of a leaf: a member, an element of a leaf list, or an element by its key leaves. -/
inductive PathStep (τ : Type) where
  | name (name : String)
  | item (key : τ)
  | entry (keys : List (String × τ))

def PathStep.map {τ υ : Type} (f : τ → υ) : PathStep τ → PathStep υ
  | .name n => .name n
  | .item key => .item (f key)
  | .entry keys => .entry (keys.map fun k => (k.1,f k.2))

/-- A leaf: its path, and its value. -/
abbrev Leaf (τ : Type) := List (PathStep τ) × τ

def Leaf.map {τ υ : Type} (f : τ → υ) (l : Leaf τ) : Leaf υ := (l.1.map (PathStep.map f),f l.2)

def Leaf.under {τ : Type} (step : PathStep τ) (l : Leaf τ) : Leaf τ := (step :: l.1,l.2)

def keyLeaf? (element : Value) (keyName : String) : Option JsonScalar :=
  match find? element keyName with
  | some (.scalar s) => some s
  | _ => none

/-- The step to an element, by the names of the key leaves. -/
def stepTo (keyNames : List String) (element : Value) : PathStep JsonScalar :=
  if keyNames.isEmpty then
    match element with
    | .scalar s => .item s
    | _ => .entry []
  else .entry (keyNames.filterMap fun keyName => (keyLeaf? element keyName).map (keyName,·))

/-- The leaves of a value under a path, in the order of the document. -/
def leaves (yangPathKeyNameMap : StringSetMap) (pathWithoutKeys : String) : Value → List (Leaf JsonScalar)
  | .null => []
  | .scalar s => [([],s)]
  | .obj m => m.flatMap fun p => (leaves yangPathKeyNameMap (pathWithoutKeys ++ ("/" ++ p.1)) p.2).map (Leaf.under (.name p.1))
  | .arr xs => xs.flatMap fun x => (leaves yangPathKeyNameMap pathWithoutKeys x).map
      (Leaf.under (stepTo ((yangPathKeyNameMap pathWithoutKeys).getD []) x))
termination_by j => sizeOf j
decreasing_by
  · exact sizeOf_lt_obj ‹_›
  · exact sizeOf_lt_arr ‹_›

/-- The whole text of a scalar: the full decimal value of an integer. -/
def fullText : JsonScalar → String
  | .int i => decimal i.toInt
  | .uint u => decimal u.toNat
  | .string s => s
  | .bool b => if b then "true" else "false"

def writeKeys : List (String × String) → String
  | [] => ""
  | key :: keys => "[" ++ key.1 ++ "='" ++ key.2 ++ "']" ++ writeKeys keys

def writeStep : PathStep String → String
  | .name name => "/" ++ name
  | .item key => "['" ++ key ++ "']"
  | .entry keys => writeKeys keys

def writePath : List (PathStep String) → String
  | [] => ""
  | step :: path => writeStep step ++ writePath path

/-- A leaf as the code writes it: the text of its path, and its own. -/
def written (l : Leaf JsonScalar) : String × String :=
  (writePath (l.map getSimpleJsonValueAsString).1,(l.map getSimpleJsonValueAsString).2)

def HasKeys (keyNames : List String) (element : Value) : Prop :=
  if keyNames.isEmpty then ∃ s,element = .scalar s else ∀ keyName ∈ keyNames,(keyLeaf? element keyName).isSome

/-- Every array of a value has a key, and every element its key leaves. -/
inductive Flattens (yangPathKeyNameMap : StringSetMap) : String → Value → Prop
  | null {path : String} : Flattens yangPathKeyNameMap path .null
  | scalar {path : String} {s : JsonScalar} : Flattens yangPathKeyNameMap path (.scalar s)
  | obj {path : String} {m : List (String × Value)} (h : ∀ p ∈ m,Flattens yangPathKeyNameMap (path ++ ("/" ++ p.1)) p.2) :
      Flattens yangPathKeyNameMap path (.obj m)
  | arr {path : String} {keyNames : List String} {xs : List Value} (hkeys : yangPathKeyNameMap path = some keyNames)
      (helems : ∀ x ∈ xs,HasKeys keyNames x) (h : ∀ x ∈ xs,Flattens yangPathKeyNameMap path x) :
      Flattens yangPathKeyNameMap path (.arr xs)

variable {yangPathKeyNameMap : StringSetMap}

/-- The leaves of a value put into a map. -/
def fill (path : String) (ls : List (Leaf JsonScalar)) (flattenedMap : StringMap) : StringMap :=
  ls.foldl (fun m l => assign (path ++ (written l).1) (written l).2 m) flattenedMap

theorem written_under (step : PathStep JsonScalar) (l : Leaf JsonScalar) :
    written (l.under step) = (writeStep (step.map getSimpleJsonValueAsString) ++ (written l).1,(written l).2) := by
  simp [written,Leaf.under,Leaf.map,writePath]

theorem fill_append (path : String) (ls ls' : List (Leaf JsonScalar)) (m : StringMap) :
    fill path (ls ++ ls') m = fill path ls' (fill path ls m) := List.foldl_append

theorem fill_under (path : String) (step : PathStep JsonScalar) (ls : List (Leaf JsonScalar)) (m : StringMap) :
    fill path (ls.map (Leaf.under step)) m = fill (path ++ writeStep (step.map getSimpleJsonValueAsString)) ls m := by
  rw [fill,List.foldl_map,fill]
  congr 1
  funext m l
  rw [written_under,String.append_assoc]

private theorem foldlM_appendKey {i : Nat} {element : Value} {memberPath p : String} :
    keyNames.foldlM (appendKey path i element) memberPath = .ok p ↔
      (∀ keyName ∈ keyNames,(keyLeaf? element keyName).isSome) ∧ p = memberPath ++ writeKeys
        ((keyNames.filterMap fun keyName => (keyLeaf? element keyName).map (keyName,·)).map
          fun k => (k.1,getSimpleJsonValueAsString k.2)) := by
  induction keyNames generalizing memberPath with
  | nil =>
    rw [List.foldlM_nil,List.filterMap_nil,List.map_nil,writeKeys,String.append_empty]
    simp only [List.not_mem_nil,false_implies,implies_true,true_and]
    exact Except.ok.injEq _ _ |>.to_iff.trans eq_comm
  | cons keyName keyNames ih =>
    rw [List.foldlM_cons,bind_eq_ok,List.filterMap_cons]
    cases hfind : find? element keyName with
    | none => simp [appendKey,keyLeaf?,hfind]
    | some value =>
      cases value with
      | scalar s =>
        have hleaf : keyLeaf? element keyName = some s := by rw [keyLeaf?,hfind]
        have happend : appendKey path i element memberPath keyName =
            .ok (memberPath ++ ("[" ++ keyName ++ "='" ++ getSimpleJsonValueAsString s ++ "']")) := by
          rw [appendKey,hfind]
        simp only [happend,Except.ok.injEq,exists_eq_left',ih,List.map_cons,writeKeys,List.forall_mem_cons,hleaf,
          Option.map_some,Option.isSome_some,true_and,String.append_assoc]
      | _ => simp [appendKey,keyLeaf?,hfind]

theorem elementPath_eq_ok (path : String) (i : Nat) {element : Value} {p : String} :
    elementPath keyNames path i element = .ok p ↔
      HasKeys keyNames element ∧ p = path ++ writeStep ((stepTo keyNames element).map getSimpleJsonValueAsString) := by
  unfold elementPath HasKeys stepTo
  by_cases hempty : keyNames.isEmpty
  · rw [if_pos hempty,if_pos hempty,if_pos hempty]
    cases element with
    | scalar s => simp [PathStep.map,writeStep,eq_comm]
    | _ => simp
  · rw [if_neg hempty,if_neg hempty,if_neg hempty]
    exact foldlM_appendKey

private theorem flattenMembers_ok {m : List (String × Value)}
    (h : ∀ p ∈ m,∀ path maps,flattenJson yangPathKeyNameMap path (pathWithoutKeys ++ ("/" ++ p.1)) p.2 maps =
      .ok { maps with flattenedMap := fill path (leaves yangPathKeyNameMap (pathWithoutKeys ++ ("/" ++ p.1)) p.2) maps.flattenedMap })
    (maps : FlatMaps) : flattenMembers yangPathKeyNameMap path pathWithoutKeys m maps =
      .ok { maps with flattenedMap := fill path (leaves yangPathKeyNameMap pathWithoutKeys (.obj m)) maps.flattenedMap } := by
  induction m generalizing maps with
  | nil =>
    rw [flattenMembers,leaves]
    rfl
  | cons p m ih =>
    obtain ⟨name,value⟩ := p
    have hrest := ih fun q hq => h q (List.mem_cons_of_mem _ hq)
    rw [leaves] at hrest
    rw [flattenMembers,h (name,value) List.mem_cons_self,leaves,List.flatMap_cons,fill_append,fill_under]
    exact hrest _

private theorem flattenElements_ok {xs : List Value} (helems : ∀ x ∈ xs,HasKeys keyNames x)
    (h : ∀ x ∈ xs,∀ path maps,flattenJson yangPathKeyNameMap path pathWithoutKeys x maps =
      .ok { maps with flattenedMap := fill path (leaves yangPathKeyNameMap pathWithoutKeys x) maps.flattenedMap })
    (i : Nat) (maps : FlatMaps) : flattenElements yangPathKeyNameMap path pathWithoutKeys keyNames i xs maps =
      .ok { maps with flattenedMap := fill path (xs.flatMap fun x =>
        (leaves yangPathKeyNameMap pathWithoutKeys x).map (Leaf.under (stepTo keyNames x))) maps.flattenedMap } := by
  induction xs generalizing i maps with
  | nil =>
    rw [flattenElements]
    rfl
  | cons x xs ih =>
    have hrest := ih (fun y hy => helems y (List.mem_cons_of_mem _ hy)) fun y hy => h y (List.mem_cons_of_mem _ hy)
    have hpath := (elementPath_eq_ok path i).mpr ⟨helems x List.mem_cons_self,rfl⟩
    rw [flattenElements,hpath,List.flatMap_cons,fill_append,fill_under]
    change (flattenJson yangPathKeyNameMap _ pathWithoutKeys x maps >>= _) = _
    rw [h x List.mem_cons_self]
    exact hrest _ _

theorem flattenJson_ok {j : Value} (h : Flattens yangPathKeyNameMap pathWithoutKeys j)
    (path : String) (maps : FlatMaps) : flattenJson yangPathKeyNameMap path pathWithoutKeys j maps =
      .ok { maps with flattenedMap := fill path (leaves yangPathKeyNameMap pathWithoutKeys j) maps.flattenedMap } := by
  induction h generalizing path maps with
  | null =>
    rw [flattenJson,leaves]
    rfl
  | scalar =>
    rw [flattenJson,leaves]
    simp [fill,written,Leaf.map,writePath]
  | obj _ ih =>
    rw [flattenJson]
    exact flattenMembers_ok ih maps
  | arr hkeys helems _ ih =>
    rw [flattenJson,hkeys,leaves,hkeys]
    exact flattenElements_ok helems ih 0 maps

private theorem assign_ne_nil {κ α : Type} [LinearOrder κ] (k : κ) (v : α) (m : List (κ × α)) : assign k v m ≠ [] := by
  cases m with
  | nil => simp [assign]
  | cons x m =>
    unfold assign
    split_ifs <;> simp

private theorem flattens_of_ok {j : Value} {maps maps' : FlatMaps}
    (h : flattenJson yangPathKeyNameMap path pathWithoutKeys j maps = .ok maps') (hknown : maps'.unknownKeyPaths = []) :
    maps.unknownKeyPaths = [] ∧ Flattens yangPathKeyNameMap pathWithoutKeys j := by
  induction j using JsonTree.induct generalizing path pathWithoutKeys maps maps' with
  | null =>
    rw [flattenJson] at h
    obtain rfl := Except.ok.inj h
    exact ⟨hknown,.null⟩
  | scalar s =>
    rw [flattenJson] at h
    obtain rfl := Except.ok.inj h
    exact ⟨hknown,.scalar⟩
  | obj m ih =>
    rw [flattenJson] at h
    suffices hall : maps.unknownKeyPaths = [] ∧ ∀ p ∈ m,Flattens yangPathKeyNameMap (pathWithoutKeys ++ ("/" ++ p.1)) p.2 from
      ⟨hall.1,.obj hall.2⟩
    induction m generalizing maps with
    | nil =>
      rw [flattenMembers] at h
      obtain rfl := Except.ok.inj h
      exact ⟨hknown,by simp⟩
    | cons p m ihm =>
      rw [flattenMembers] at h
      obtain ⟨between,hfirst,hrest⟩ := bind_eq_ok.mp h
      obtain ⟨hbetween,hm⟩ := ihm (fun q hq => ih q (List.mem_cons_of_mem _ hq)) hrest
      obtain ⟨hmaps,hp⟩ := ih p List.mem_cons_self hfirst hbetween
      exact ⟨hmaps,List.forall_mem_cons.mpr ⟨hp,hm⟩⟩
  | arr xs ih =>
    rw [flattenJson] at h
    cases hkeys : yangPathKeyNameMap pathWithoutKeys with
    | none =>
      rw [hkeys] at h
      obtain rfl := Except.ok.inj h
      exact absurd hknown (assign_ne_nil _ _ _)
    | some keyNames =>
      rw [hkeys] at h
      suffices hall : ∀ i,flattenElements yangPathKeyNameMap path pathWithoutKeys keyNames i xs maps = .ok maps' →
          maps.unknownKeyPaths = [] ∧ ∀ x ∈ xs,HasKeys keyNames x ∧ Flattens yangPathKeyNameMap pathWithoutKeys x by
        obtain ⟨hmaps,hxs⟩ := hall 0 h
        exact ⟨hmaps,.arr hkeys (fun x hx => (hxs x hx).1) fun x hx => (hxs x hx).2⟩
      clear h
      induction xs generalizing maps with
      | nil =>
        intro i h
        rw [flattenElements] at h
        obtain rfl := Except.ok.inj h
        exact ⟨hknown,by simp⟩
      | cons x xs ihxs =>
        intro i h
        rw [flattenElements] at h
        obtain ⟨memberPath,hpath,h⟩ := bind_eq_ok.mp h
        obtain ⟨between,hfirst,hrest⟩ := bind_eq_ok.mp h
        obtain ⟨hbetween,hxs⟩ := ihxs (fun y hy => ih y (List.mem_cons_of_mem _ hy)) (i + 1) hrest
        obtain ⟨hmaps,hx⟩ := ih x List.mem_cons_self hfirst hbetween
        exact ⟨hmaps,List.forall_mem_cons.mpr ⟨⟨((elementPath_eq_ok _ _).mp hpath).1,hx⟩,hxs⟩⟩

theorem flattenJsonToMap_eq_ok {root : Value} {m : StringMap} : flattenJsonToMap yangPathKeyNameMap root false = .ok m ↔
    Flattens yangPathKeyNameMap "" root ∧ m = fill "" (leaves yangPathKeyNameMap "" root) [] := by
  constructor
  · intro h
    obtain ⟨maps,hmaps,h⟩ := bind_eq_ok.mp h
    have hknown : maps.unknownKeyPaths = [] := by
      by_contra hne
      rw [if_pos (by simpa using hne)] at h
      cases h
    obtain ⟨-,hflattens⟩ := flattens_of_ok hmaps hknown
    rw [flattenJson_ok hflattens] at hmaps
    obtain rfl := Except.ok.inj hmaps
    exact ⟨hflattens,(Except.ok.inj h).symm⟩
  · rintro ⟨hflattens,rfl⟩
    rw [flattenJsonToMap,flattenJson_ok hflattens]
    rfl

end SonicPins.JsonYang
