import SupportFile.JsString.Basic

/-!
This module contains the objects and the arrays of JavaScript, with their properties in the order in
which they are listed.
-/

namespace SerializeJson

/--
What becomes of a form. Arrays can have holes, and they can have properties that are no elements.
-/
inductive Value (Num : Type) where
  | string (s : JsString)
  | number (n : Num)
  | boolean (b : Bool)
  | null
  | array (items : List (Option (Value Num))) (props : List (JsString × Value Num))
  | object (props : List (JsString × Value Num))

def isDigit (u : JChar) : Bool :=
  0x30 ≤ u && u ≤ 0x39

-- An array has at most `2 ** 32 - 1` elements.
def maxLength : Nat :=
  4294967295

/-- The names of the elements of an array. -/
def arrayIndex? (key : JsString) : Option Nat :=
  let n := key.foldl (fun n u => n * 10 + (u.toNat - 0x30)) 0
  if key != [] && key.all isDigit && (key == [0x30] || key.head? != some 0x30) && n < maxLength then
    some n
  else
    none

def ofInt (n : Int) : JsString :=
  let digits := (Nat.toDigits 10 n.natAbs).map (fun c => UInt16.ofNat c.toNat)
  if n < 0 then 0x2d :: digits else digits

def nan : JsString :=
  JsString.ofChars ['N', 'a', 'N']

section Props

variable {α : Type}

def lookup (props : List (JsString × α)) (key : JsString) : Option α :=
  match props with
  | [] => none
  | (key', value) :: props => if key' = key then some value else lookup props key

def replaceProp (props : List (JsString × α)) (key : JsString) (value : α) : List (JsString × α) :=
  match props with
  | [] => []
  | (key', value') :: props =>
    if key' = key then
      (key', value) :: props
    else
      (key', value') :: replaceProp props key value

/--
Array indices are listed first and in ascending order, also by objects that are no arrays. The other
keys follow in the order of their creation.
-/
def comesBefore (key key' : JsString) : Bool :=
  match arrayIndex? key, arrayIndex? key' with
  | some i, some j => i < j
  | some _, none => true
  | none, _ => false

def insertProp (props : List (JsString × α)) (key : JsString) (value : α) : List (JsString × α) :=
  match props with
  | [] => [(key, value)]
  | (key', value') :: props =>
    if comesBefore key key' then
      (key, value) :: (key', value') :: props
    else
      (key', value') :: insertProp props key value

def assign (props : List (JsString × α)) (key : JsString) (value : α) : List (JsString × α) :=
  if (lookup props key).isSome then
    replaceProp props key value
  else
    insertProp props key value

def assignItem (items : List (Option α)) (i : Nat) (value : α) : List (Option α) :=
  if i < items.length then
    items.set i (some value)
  else
    items ++ List.replicate (i - items.length) none ++ [some value]

end Props

namespace Value

variable {Num : Type}

def isObject (obj : Value Num) : Bool :=
  match obj with
  | .array _ _ | .object _ => true
  | .string _ | .number _ | .boolean _ | .null => false

-- `none` is `undefined`.
def get (o : Value Num) (key : JsString) : Option (Value Num) :=
  match o with
  | .object props => lookup props key
  | .array items props =>
    match arrayIndex? key with
    | some i => items[i]?.join
    | none => lookup props key
  | .string _ | .number _ | .boolean _ | .null => none

def set (o : Value Num) (key : JsString) (value : Value Num) : Value Num :=
  match o with
  | .object props => .object (assign props key value)
  | .array items props =>
    match arrayIndex? key with
    | some i => .array (assignItem items i value) props
    | none => .array items (assign props key value)
  | .string _ | .number _ | .boolean _ | .null => o

end Value

end SerializeJson
