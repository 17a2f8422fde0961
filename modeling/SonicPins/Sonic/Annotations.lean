import SonicPins.Sonic.AppDbEncoding

/-! Annotations of a P4Info by their label, and their bodies as lists of arguments. -/
namespace SonicPins.Sonic
open Lib Pdpi

/-- `GetAllAnnotations`: annotations that are not well formed are left out. -/
def getAllAnnotations (annotations : List String) : List (String × String) := annotations.filterMap parseAnnotation

/-- The arguments before the current one, the current one, and the characters that close the open brackets. -/
structure ArgListScan where
  tokens : List String := []
  token : String := ""
  scope : List Char := []

def closingOf : Char → Option Char
  | '(' => some ')'
  | '[' => some ']'
  | '{' => some '}'
  | '"' => some '"'
  | _ => none

/-- One character of a body. Commas inside brackets or quotes belong to the argument; space outside of quotes is dropped. -/
def ArgListScan.step (s : ArgListScan) (c : Char) : StatusOr ArgListScan :=
  if s.scope.isEmpty && c = ',' then .ok { s with tokens := s.tokens ++ [s.token],token := "" }
  else if s.scope.head? = some c then .ok { s with scope := s.scope.tail,token := s.token.push c }
  else if s.scope.head? = some '"' then .ok { s with token := s.token.push c }
  else match closingOf c with
    | some closing => .ok { s with scope := closing :: s.scope,token := s.token.push c }
    | none =>
      if isAnnotationSpace c then .ok s
      else if c = ')' || c = ']' || c = '}' then
        .error (invalidArgument ("Malformed input. No matching character found for '" ++ c.toString ++ "'"))
      else .ok { s with token := s.token.push c }

def parseAsArgList (value : String) : StatusOr (List String) := do
  let s ← value.toList.foldlM ArgListScan.step {}
  match s.scope with
  | closing :: _ => .error (invalidArgument ("Malformed input. Expected '" ++ closing.toString ++ "' before end of string"))
  | [] => if s.tokens.isEmpty && s.token.isEmpty then .ok [] else .ok (s.tokens ++ [s.token])

/-- The argument lists of one annotation, if it has the label. -/
def argListOf (label annotation : String) : StatusOr (List (List String)) :=
  match parseAnnotation annotation with
  | some (l,body) =>
    if l = label then
      ((parseAsArgList body).mapError fun s => s.annotate ("Failed to parse annotation \"" ++ annotation ++ "\"")).map fun args => [args]
    else .ok []
  | none => .ok []

def getAllAnnotationsAsArgList (label : String) (annotations : List String) : StatusOr (List (List String)) :=
  (annotations.mapM (argListOf label)).map List.flatten

def getAnnotationAsArgList (label : String) (annotations : List String) : StatusOr (List String) := do
  match ← getAllAnnotationsAsArgList label annotations with
  | [] => .error ⟨.notFound,"No annotations contained label \"" ++ label ++ "\""⟩
  | [args] => .ok args
  | _ => .error (invalidArgument ("Multiple annotations contained label \"" ++ label ++ "\""))

end SonicPins.Sonic
