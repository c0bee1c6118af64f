import SupportFile.Json.Basic

/-!
This module contains a recursive descent parser for JSON texts.
-/

namespace Json

def skipWs (s : List Char) : List Char :=
  s.dropWhile isWs

def next (s : List Char) : Option (Char × List Char) :=
  match skipWs s with
  | [] => none
  | c :: r => some (c, r)

def parseChars : List Char → Option (List UInt16 × List Char)
  | [] => none
  | c :: s =>
    if c == '"' then
      some ([], s)
    else if c == '\\' then
      match s with
      | [] => none
      | e :: r =>
        if e == 'u' then
          match r with
          | a :: b :: c :: d :: r => do
            let u ← hex4 a b c d
            let (us, r) ← parseChars r
            return (u :: us, r)
          | _ => none
        else do
          let u ← unescape e
          let (us, r) ← parseChars r
          return (u :: us, r)
    else if isUnescaped c then do
      let (us, r) ← parseChars s
      return (utf16 c ++ us, r)
    else
      none

def parseKeyword (word : List Char) (v : Json) (s : List Char) : Option (Json × List Char) :=
  if word.isPrefixOf s then some (v, s.drop word.length) else none

def parseNumber (s : List Char) : Option (Json × List Char) :=
  -- No number goes on behind the longest run of its characters.
  if isNumber (s.takeWhile isNumberChar) then
    some (.num (s.takeWhile isNumberChar), s.dropWhile isNumberChar)
  else
    none

def parseClose (c : Char) (v : Json) (s : List Char) : Option (Json × List Char) := do
  let (c', r) ← next s
  if c' == c then return (v, r) else none

mutual

def parseValue (fuel : Nat) (s : List Char) : Option (Json × List Char) :=
  match fuel with
  | 0 => none
  | fuel + 1 => do
    let (c, r) ← next s
    if c == '"' then
      let (us, r) ← parseChars r
      return (.str us, r)
    else if c == '[' then
      match parseElements fuel r with
      | some (vs, r) => return (.arr vs, r)
      | none => parseClose ']' (.arr []) r
    else if c == '{' then
      match parseMembers fuel r with
      | some (ms, r) => return (.obj ms, r)
      | none => parseClose '}' (.obj []) r
    else if c == 'n' then
      parseKeyword ['u', 'l', 'l'] .null r
    else if c == 't' then
      parseKeyword ['r', 'u', 'e'] (.bool true) r
    else if c == 'f' then
      parseKeyword ['a', 'l', 's', 'e'] (.bool false) r
    else
      parseNumber (c :: r)

def parseElements (fuel : Nat) (s : List Char) : Option (List Json × List Char) :=
  match fuel with
  | 0 => none
  | fuel + 1 => do
    let (v, r) ← parseValue fuel s
    let (c, r) ← next r
    if c == ',' then
      let (vs, r) ← parseElements fuel r
      return (v :: vs, r)
    else if c == ']' then
      return ([v], r)
    else
      none

def parseMembers (fuel : Nat) (s : List Char) : Option (List (List UInt16 × Json) × List Char) :=
  match fuel with
  | 0 => none
  | fuel + 1 => do
    let (q, r) ← next s
    if q == '"' then
      let (us, r) ← parseChars r
      let (c, r) ← next r
      if c == ':' then
        let (v, r) ← parseValue fuel r
        let (c, r) ← next r
        if c == ',' then
          let (ms, r) ← parseMembers fuel r
          return ((us, v) :: ms, r)
        else if c == '}' then
          return ([(us, v)], r)
        else
          none
      else
        none
    else
      none

end

def parse (s : List Char) : Option Json := do
  -- Two calls at most begin at the same character, a value and the list that it leads.
  let (v, r) ← parseValue (2 * s.length) s
  if (skipWs r).isEmpty then return v else none

example
    : (parse ['{', '"', 'a', '"', '\n', ':', '[', '1', ',', '2', ']', '}']).isSome = true := by
  decide

end Json
