import Mathlib.Data.List.Basic

/-!
This module contains the table of the hierarchy queries and the built-in functions of the database
that they use, with the limits it puts on their results.
-/

structure CsNode where
  id : Int
  pId : Option Int
  deriving DecidableEq, Repr

namespace CsNode

/--
`varchar` is the length of the string variables, and `groupConcatMaxLen` the one that
`GROUP_CONCAT` cuts its result to. There is no limit where they are `none`.
-/
structure Limits where
  varchar : Option Nat
  groupConcatMaxLen : Option Nat
  deriving DecidableEq, Repr

def Limits.default : Limits :=
  { varchar := some 60000, groupConcatMaxLen := some 1024 }

def Limits.unbounded : Limits :=
  { varchar := none, groupConcatMaxLen := none }

def Limits.fits (limits : Limits) (s : List Char) : Bool :=
  limits.varchar.all (s.length ≤ ·)

def castAsChar (n : Int) : List Char :=
  if n < 0 then
    '-' :: Nat.toDigits 10 n.natAbs
  else
    Nat.toDigits 10 n.natAbs

def asNumber (s : List Char) : Int :=
  -- A text is compared with an `INT` as the number that it starts with.
  match s with
  | '-' :: s => -Nat.ofDigitChars 10 s 0
  | s => Nat.ofDigitChars 10 s 0

def findInSet (s strlist : List Char) : Nat :=
  if strlist.isEmpty then
    0
  else
    match (strlist.splitOn ',').findIdx? (· == s) with
    | some i => i + 1
    | none => 0

def groupConcat (limits : Limits) (ids : List Int) : Option (List Char) :=
  if ids.isEmpty then
    -- The value over no rows is `NULL`.
    none
  else
    let list := [','].intercalate (ids.map castAsChar)
    match limits.groupConcatMaxLen with
    | some n => some (list.take n)
    | none => some list

example : groupConcat .default [7, -12] = some ['7', ',', '-', '1', '2'] := by
  decide

end CsNode
