import SupportFile.Json.Basic
import SupportFile.StreamEncoder.Basic
import Mathlib.Data.List.Basic

/-!
This module contains the strings of JavaScript, which are sequences of UTF-16 code units, and the
operations of `String.prototype` on them.
-/

abbrev JsString := List JChar

namespace JsString

def ofChars (s : List Char) : JsString :=
  s.flatMap Json.utf16

def chars? (s : JsString) : Option (List Char) :=
  match Utf16.tokens none s with
  | (ts, none) => ts.mapM (fun t => t.map Char.ofNat)
  | (_, some _) => none

def toWellFormed (s : JsString) : List Char :=
  match Utf16.tokens none s with
  | (ts, none) => ts.map ofToken
  | (ts, some _) => ts.map ofToken ++ [replacement]
where
  replacement : Char := '\uFFFD'
  ofToken (t : Token) : Char :=
    match t with
    | some cp => Char.ofNat cp
    | none => replacement

def WellFormed (s : JsString) : Prop :=
  (chars? s).isSome = true

instance (s : JsString) : Decidable (WellFormed s) :=
  inferInstanceAs (Decidable (_ = true))

def isWhiteSpace (u : JChar) : Bool :=
  -- WhiteSpace
  u == 0x09 || u == 0x0b || u == 0x0c || u == 0x20 || u == 0xa0 || u == 0xfeff
    || u == 0x1680 || (0x2000 ≤ u && u ≤ 0x200a) || u == 0x202f || u == 0x205f || u == 0x3000
    -- LineTerminator
    || u == 0x0a || u == 0x0d || u == 0x2028 || u == 0x2029

def trim (s : JsString) : JsString :=
  ((s.dropWhile isWhiteSpace).reverse.dropWhile isWhiteSpace).reverse

def indexOf (s searched : JsString) : Int :=
  go 0 s
where
  go (i : Int) (s : JsString) : Int :=
    if searched.isPrefixOf s then
      i
    else
      match s with
      | [] => -1
      | _ :: s => go (i + 1) s

def split (s : JsString) (separator : JChar) : List JsString :=
  s.splitOn separator

-- `substring(1)`
def tail (s : JsString) : JsString :=
  s.drop 1

def lt : JsString → JsString → Bool
  | [], [] => false
  | [], _ :: _ => true
  | _ :: _, [] => false
  | u :: s, v :: t => u < v || (u == v && lt s t)

end JsString
