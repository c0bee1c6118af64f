import Mathlib.Data.List.TakeDrop
import Mathlib.Data.List.TakeWhile

/-!
This module contains the JSON values and the grammar of the JSON texts of RFC 8259. The grammar is
a relation between texts and the values they denote, so that its derivations can be inducted on.
-/

/--
A JSON value. A number is kept as its lexeme, a string as the UTF-16 code units that its characters
and escapes denote, and an object as the sequence of its members.
-/
inductive Json where
  | null
  | bool (b : Bool)
  | num (lexeme : List Char)
  | str (units : List UInt16)
  | arr (elems : List Json)
  | obj (members : List (List UInt16 × Json))
  deriving Repr, Inhabited

namespace Json

def isWs (c : Char) : Bool :=
  -- ws = *( %x20 / %x09 / %x0A / %x0D )
  c == ' ' || c == '\t' || c == '\n' || c == '\r'

def Ws (s : List Char) : Prop :=
  ∀ c ∈ s, isWs c = true

def Structural (c : Char) (s : List Char) : Prop :=
  ∃ before after, Ws before ∧ Ws after ∧ s = before ++ c :: after

def isDigit (c : Char) : Bool :=
  '0' ≤ c && c ≤ '9'

def isDigits (s : List Char) : Bool :=
  -- 1*DIGIT
  !s.isEmpty && s.all isDigit

def isExp : List Char → Bool
  -- [ exp ], where exp = e [ minus / plus ] 1*DIGIT
  | [] => true
  | e :: s =>
    (e == 'e' || e == 'E') &&
      match s with
      | [] => false
      | sign :: ds => if sign == '-' || sign == '+' then isDigits ds else isDigits s

def isFrac : List Char → Bool
  -- [ frac ] [ exp ], where frac = decimal-point 1*DIGIT
  | [] => true
  | c :: s =>
    if c == '.' then
      !(s.takeWhile isDigit).isEmpty && isExp (s.dropWhile isDigit)
    else
      isExp (c :: s)

def isUnsigned (s : List Char) : Bool :=
  -- int [ frac ] [ exp ], where int = zero / ( digit1-9 *DIGIT )
  match s.takeWhile isDigit with
  | [] => false
  | d :: ds => (d != '0' || ds.isEmpty) && isFrac (s.dropWhile isDigit)

def isNumber : List Char → Bool
  -- number = [ minus ] int [ frac ] [ exp ]
  | [] => false
  | c :: s => if c == '-' then isUnsigned s else isUnsigned (c :: s)

def isNumberChar (c : Char) : Bool :=
  isDigit c || c == '-' || c == '+' || c == '.' || c == 'e' || c == 'E'

def isUnescaped (c : Char) : Bool :=
  -- unescaped = %x20-21 / %x23-5B / %x5D-10FFFF
  0x20 ≤ c.toNat && c != '"' && c != '\\'

def utf16 (c : Char) : List UInt16 :=
  if c.toNat < 0x10000 then
    [UInt16.ofNat c.toNat]
  else
    [UInt16.ofNat (0xd800 + (c.toNat - 0x10000) / 0x400),
      UInt16.ofNat (0xdc00 + (c.toNat - 0x10000) % 0x400)]

def unescape (c : Char) : Option UInt16 :=
  match c with
  | '"' => some 0x22
  | '\\' => some 0x5c
  | '/' => some 0x2f
  | 'b' => some 0x08
  | 'f' => some 0x0c
  | 'n' => some 0x0a
  | 'r' => some 0x0d
  | 't' => some 0x09
  | _ => none

def hexDigit (c : Char) : Option Nat :=
  if '0' ≤ c && c ≤ '9' then
    some (c.toNat - '0'.toNat)
  else if 'a' ≤ c && c ≤ 'f' then
    some (c.toNat - 'a'.toNat + 10)
  else if 'A' ≤ c && c ≤ 'F' then
    some (c.toNat - 'A'.toNat + 10)
  else
    none

def hex4 (a b c d : Char) : Option UInt16 := do
  let a ← hexDigit a
  let b ← hexDigit b
  let c ← hexDigit c
  let d ← hexDigit d
  return UInt16.ofNat (((a * 16 + b) * 16 + c) * 16 + d)

inductive Chars : List Char → List UInt16 → Prop where
  | nil : Chars [] []
  | unescaped (c : Char) : isUnescaped c = true → Chars s us → Chars (c :: s) (utf16 c ++ us)
  | escaped (c : Char) : unescape c = some u → Chars s us → Chars ('\\' :: c :: s) (u :: us)
  | hex (a b c d : Char) : hex4 a b c d = some u → Chars s us →
      Chars ('\\' :: 'u' :: a :: b :: c :: d :: s) (u :: us)

def Str (s : List Char) (us : List UInt16) : Prop :=
  ∃ body, Chars body us ∧ s = '"' :: body ++ ['"']

inductive Phrase where
  | value (v : Json)
  -- value *( value-separator value )
  | elements (vs : List Json)
  -- member *( value-separator member )
  | members (ms : List (List UInt16 × Json))

inductive Derives : Phrase → List Char → Prop where
  | null : Derives (.value .null) ['n', 'u', 'l', 'l']
  | true : Derives (.value (.bool true)) ['t', 'r', 'u', 'e']
  | false : Derives (.value (.bool false)) ['f', 'a', 'l', 's', 'e']
  | num : isNumber s = true → Derives (.value (.num s)) s
  | str : Str s us → Derives (.value (.str us)) s
  | emptyArr : Structural '[' b → Structural ']' e → Derives (.value (.arr [])) (b ++ e)
  | arr : Structural '[' b → Derives (.elements vs) s → Structural ']' e →
      Derives (.value (.arr vs)) (b ++ s ++ e)
  | emptyObj : Structural '{' b → Structural '}' e → Derives (.value (.obj [])) (b ++ e)
  | obj : Structural '{' b → Derives (.members ms) s → Structural '}' e →
      Derives (.value (.obj ms)) (b ++ s ++ e)
  | lastElement : Derives (.value v) s → Derives (.elements [v]) s
  | consElement : Derives (.value v) s → Structural ',' m → Derives (.elements vs) r →
      Derives (.elements (v :: vs)) (s ++ m ++ r)
  | lastMember : Str k us → Structural ':' c → Derives (.value v) s →
      Derives (.members [(us, v)]) (k ++ c ++ s)
  | consMember : Str k us → Structural ':' c → Derives (.value v) s → Structural ',' m →
      Derives (.members ms) r → Derives (.members ((us, v) :: ms)) (k ++ c ++ s ++ m ++ r)

def Text (s : List Char) (v : Json) : Prop :=
  ∃ before body after, Ws before ∧ Derives (.value v) body ∧ Ws after ∧ s = before ++ body ++ after

end Json
