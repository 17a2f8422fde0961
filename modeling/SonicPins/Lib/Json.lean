import Mathlib.Data.String.Basic
import SonicPins.Lib.SortedMap
import SonicPins.Lib.Text

/-! JSON values with ordered objects, their compact text and its parser. -/
namespace SonicPins.Lib

/-- A JSON value. Objects keep their members in key order. A number that is not
an integer of at most 64 bits keeps its literal. -/
inductive Json where
  | null
  | bool (b : Bool)
  | num (n : Int)
  | float (literal : String)
  | str (s : String)
  | arr (elems : List Json)
  | obj (members : List (String × Json))

namespace Json

/-- Assignment through `operator[]`; a null value becomes an object first. -/
def set (j : Json) (key : String) (v : Json) : Json :=
  match j with
  | null => obj [(key,v)]
  | obj members => obj (assign key v members)
  | j => j

def escapeChar (c : Char) : List Char :=
  if c = '"' then ['\\','"']
  else if c = '\\' then ['\\','\\']
  else if c.toNat = 8 then ['\\','b']
  else if c.toNat = 9 then ['\\','t']
  else if c.toNat = 10 then ['\\','n']
  else if c.toNat = 12 then ['\\','f']
  else if c.toNat = 13 then ['\\','r']
  else if c.toNat < 32 then ['\\','u','0','0',Nat.digitChar (c.toNat / 16),Nat.digitChar (c.toNat % 16)]
  else [c]

/-- The tail of a quoted string: escaped characters and the closing quote. -/
def quoteTail : List Char → List Char
  | [] => ['"']
  | c :: cs => escapeChar c ++ quoteTail cs

def quote (s : String) : List Char := '"' :: quoteTail s.toList

mutual
def chars : Json → List Char
  | null => ['n','u','l','l']
  | bool true => ['t','r','u','e']
  | bool false => ['f','a','l','s','e']
  | num n => (decimal n).toList
  | float literal => literal.toList
  | str s => quote s
  | arr [] => ['[',']']
  | arr (x :: xs) => '[' :: (x.chars ++ elemsTail xs)
  | obj [] => ['{','}']
  | obj ((k,v) :: ms) => '{' :: (quote k ++ ':' :: (v.chars ++ membersTail ms))
def elemsTail : List Json → List Char
  | [] => [']']
  | x :: xs => ',' :: (x.chars ++ elemsTail xs)
def membersTail : List (String × Json) → List Char
  | [] => ['}']
  | (k,v) :: ms => ',' :: (quote k ++ ':' :: (v.chars ++ membersTail ms))
end

/-- The compact text of a value. -/
def dump (j : Json) : String := String.ofList j.chars

def isSpace (c : Char) : Bool := c = ' ' || c = '\t' || c = '\n' || c = '\r'

def skipSpace (l : List Char) : List Char := l.dropWhile isSpace

def isDigit (c : Char) : Bool := '0' ≤ c && c ≤ '9'

def hex4 (a b c d : Char) : Option Nat := readNumeral 16 [a,b,c,d]

def isHighSurrogate (n : Nat) : Bool := 0xd800 ≤ n && n ≤ 0xdbff
def isLowSurrogate (n : Nat) : Bool := 0xdc00 ≤ n && n ≤ 0xdfff

/-- The characters of a string token, after its opening quote. -/
def parseQuoteTail : List Char → Option (List Char × List Char)
  | '"' :: rest => some ([],rest)
  | '\\' :: 'u' :: a :: b :: c :: d :: rest =>
    (hex4 a b c d).bind fun n =>
      if isHighSurrogate n then
        match rest with
        | '\\' :: 'u' :: a' :: b' :: c' :: d' :: rest' =>
          (hex4 a' b' c' d').bind fun m =>
            if isLowSurrogate m then
              (parseQuoteTail rest').map fun r =>
                (Char.ofNat (0x10000 + (n - 0xd800) * 0x400 + (m - 0xdc00)) :: r.1,r.2)
            else none
        | _ => none
      else if isLowSurrogate n then none
      else (parseQuoteTail rest).map fun r => (Char.ofNat n :: r.1,r.2)
  | '\\' :: e :: rest =>
    let unescaped : Option Char := match e with
      | '"' => some '"'
      | '\\' => some '\\'
      | '/' => some '/'
      | 'b' => some (Char.ofNat 8)
      | 'f' => some (Char.ofNat 12)
      | 'n' => some '\n'
      | 'r' => some '\r'
      | 't' => some '\t'
      | _ => none
    unescaped.bind fun c => (parseQuoteTail rest).map fun r => (c :: r.1,r.2)
  | '\\' :: [] => none
  | c :: rest => if c.toNat < 32 then none else (parseQuoteTail rest).map fun r => (c :: r.1,r.2)
  | [] => none

/-- The unsigned integer part of a number: `0` or digits without a leading zero. -/
def parseInt (l : List Char) : Option (List Char × List Char) :=
  match l with
  | '0' :: rest => some (['0'],rest)
  | c :: _ => if isDigit c then some (l.takeWhile isDigit,l.dropWhile isDigit) else none
  | [] => none

/-- An optional fraction and an optional exponent. -/
def parseFraction (l : List Char) : Option (List Char × List Char) :=
  match l with
  | '.' :: rest =>
    let ds := rest.takeWhile isDigit
    if ds.isEmpty then none else some ('.' :: ds,rest.dropWhile isDigit)
  | l => some ([],l)

def parseExponent (l : List Char) : Option (List Char × List Char) :=
  match l with
  | c :: rest =>
    if c = 'e' ∨ c = 'E' then
      let (sign,rest) := match rest with
        | '+' :: rest => (['+'],rest)
        | '-' :: rest => (['-'],rest)
        | rest => ([],rest)
      let ds := rest.takeWhile isDigit
      if ds.isEmpty then none else some (c :: sign ++ ds,rest.dropWhile isDigit)
    else some ([],l)
  | [] => some ([],l)

/-- An integer that fits 64 bits, else the literal of a floating point number. -/
def numberOf (negative : Bool) (int fraction exponent : List Char) : Json :=
  let literal := float (String.ofList ((if negative then ['-'] else []) ++ int ++ fraction ++ exponent))
  if fraction.isEmpty && exponent.isEmpty then
    match readNumeral 10 int with
    | some n =>
      if negative then (if n ≤ 2 ^ 63 then num (-(n : Int)) else literal)
      else if n < 2 ^ 64 then num n else literal
    | none => literal
  else literal

def parseNumber (negative : Bool) (l : List Char) : Option (Json × List Char) :=
  (parseInt l).bind fun (int,l) => (parseFraction l).bind fun (fraction,l) =>
    (parseExponent l).bind fun (exponent,l) => some (numberOf negative int fraction exponent,l)

mutual
/-- One value after optional space, and the rest of the text. -/
def parseValue : Nat → List Char → Option (Json × List Char)
  | 0,_ => none
  | fuel + 1,l =>
    match skipSpace l with
    | 'n' :: 'u' :: 'l' :: 'l' :: rest => some (null,rest)
    | 't' :: 'r' :: 'u' :: 'e' :: rest => some (bool true,rest)
    | 'f' :: 'a' :: 'l' :: 's' :: 'e' :: rest => some (bool false,rest)
    | '"' :: rest => (parseQuoteTail rest).map fun r => (str (String.ofList r.1),r.2)
    | '[' :: rest =>
      match skipSpace rest with
      | ']' :: rest => some (arr [],rest)
      | rest => (parseValue fuel rest).bind fun (x,rest) =>
          (parseElems fuel rest).map fun r => (arr (x :: r.1),r.2)
    | '{' :: rest =>
      match skipSpace rest with
      | '}' :: rest => some (obj [],rest)
      | rest => (parseMember fuel rest).bind fun (m,rest) =>
          (parseMembers fuel rest).map fun r => (obj ((m :: r.1).foldl (fun o m => assign m.1 m.2 o) []),r.2)
    | '-' :: rest => parseNumber true rest
    | l => parseNumber false l
/-- The elements after the first one, and the closing bracket. -/
def parseElems : Nat → List Char → Option (List Json × List Char)
  | 0,_ => none
  | fuel + 1,l =>
    match skipSpace l with
    | ']' :: rest => some ([],rest)
    | ',' :: rest => (parseValue fuel rest).bind fun (x,rest) =>
        (parseElems fuel rest).map fun r => (x :: r.1,r.2)
    | _ => none
/-- One member: a string, a colon and a value. -/
def parseMember : Nat → List Char → Option ((String × Json) × List Char)
  | 0,_ => none
  | fuel + 1,l =>
    match skipSpace l with
    | '"' :: rest => (parseQuoteTail rest).bind fun (k,rest) =>
        match skipSpace rest with
        | ':' :: rest => (parseValue fuel rest).map fun r => ((String.ofList k,r.1),r.2)
        | _ => none
    | _ => none
def parseMembers : Nat → List Char → Option (List (String × Json) × List Char)
  | 0,_ => none
  | fuel + 1,l =>
    match skipSpace l with
    | '}' :: rest => some ([],rest)
    | ',' :: rest => (parseMember fuel rest).bind fun (m,rest) =>
        (parseMembers fuel rest).map fun r => (m :: r.1,r.2)
    | _ => none
end

/-- Parses a whole text; every nesting step consumes a character. -/
def parse (s : String) : Option Json :=
  (parseValue (2 * s.toList.length + 2) s.toList).bind fun (j,rest) =>
    if (skipSpace rest).isEmpty then some j else none

/-- The values a range loop visits. -/
def elements : Json → List Json
  | null => []
  | arr elems => elems
  | obj members => members.map Prod.snd
  | j => [j]

def getString? : Json → Option String
  | str s => some s
  | _ => none

end Json
end SonicPins.Lib
