import Mathlib.Data.List.Dedup
import SupportFile.Scan.Basic

/-!
This module contains the query for the numbers that come three times in a row, and the statement that
deletes the persons with an e-mail that an earlier one has.
-/

namespace ConsecutiveNums

-- A variable that is `NULL` is `none`.
structure B (Num : Type u) where
  pre : Option Num
  cnt : Nat

structure A (Num : Type u) where
  num : Option Num
  cnt : Nat
  pre : Option Num
  deriving DecidableEq, Repr

variable {Num : Type u} [DecidableEq Num]

def a.item (vars : B Num) (num : Option Num) : B Num × A Num :=
  -- A comparison with `NULL` is not true.
  let cnt := if vars.pre.isSome ∧ vars.pre = num then vars.cnt + 1 else 1
  ({ pre := num, cnt := cnt }, { num := num, cnt := cnt, pre := num })

def a (logs : List (Option Num)) : List (A Num) :=
  Scan.scan a.item { pre := none, cnt := 0 } logs

def select (logs : List (Option Num)) : List (Option Num) :=
  (((a logs).filter (3 ≤ ·.cnt)).map (·.num)).dedup

example : select [some 1, some 1, none, none, none, some 2, some 2, some 2, some 2] = [some 2] := by
  decide

end ConsecutiveNums

namespace DuplicateEmails

structure Person (Email : Type u) where
  id : Int
  email : Option Email
  deriving DecidableEq, Repr

variable {Email : Type u} [DecidableEq Email]

def matched (p d : Person Email) : Bool :=
  p.email.isSome && p.email = d.email && d.id < p.id

def delete (person : List (Person Email)) : List (Person Email) :=
  person.filter (fun p => !person.any (matched p))

/-- The rows are deleted one by one, and a row that is gone matches no other one any more. -/
inductive Deletes : List (Person Email) → List (Person Email) → Prop where
  | refl : Deletes person person
  | step : Deletes person person' → p ∈ person' → d ∈ person' → matched p d = true →
      Deletes person (person'.erase p)

end DuplicateEmails
