import SupportFile.MySql.Impl.CsNode
import Mathlib.Data.List.Sort

/-!
This module contains the stored procedures that collect the descendants of a node depth first in a
temporary table.
-/

namespace HieProcedure

structure TempRow where
  sno : Nat
  id : Int
  depth : Nat
  deriving DecidableEq, Repr

/-- The table `TEMP_HIE` of a session, `next` is the next value of its `AUTO_INCREMENT`. -/
structure TempHie where
  next : Nat := 1
  rows : List TempRow := []
  deriving DecidableEq, Repr

-- The column is an `INT`.
def maxSno : Nat := 2147483647

def TempHie.insert (temp : TempHie) (id : Int) (depth : Nat) : Option TempHie :=
  if temp.next ≤ maxSno then
    some
      { next := temp.next + 1
        rows := temp.rows ++ [{ sno := temp.next, id := id, depth := depth }] }
  -- The last number is given out again, and it is a duplicate unless its row has been deleted.
  else if temp.rows.any (·.sno = maxSno) then
    none
  else
    some
      { next := maxSno + 1
        rows := temp.rows ++ [{ sno := maxSno, id := id, depth := depth }] }

def children (table : List CsNode) (curRootId : Int) : List Int :=
  (table.filter (fun row => row.pId = some curRootId)).map (·.id)

/--
The loop over the cursor. The second component of a result tells whether there was no error, which
ends everything but leaves the rows that are there.
-/
def fetch (call : Int → TempHie → TempHie × Bool) (curso : List Int) (temp : TempHie)
    : TempHie × Bool :=
  match curso with
  | [] => (temp, true)
  | nextRootId :: curso =>
    match call nextRootId temp with
    | (temp, true) => fetch call curso temp
    | (temp, false) => (temp, false)

-- `levels` is the number of levels of the recursion that are still allowed.
def hieQueRecursive (table : List CsNode) (levels : Nat) (curRootId : Int) (depth : Nat)
    (temp : TempHie) : TempHie × Bool :=
  match levels with
  | 0 => (temp, false)
  | levels + 1 =>
    match temp.insert curRootId depth with
    | none => (temp, false)
    | some temp =>
      fetch (fun nextRootId temp => hieQueRecursive table levels nextRootId (depth + 1) temp)
        (children table curRootId) temp

-- The first call does not count.
def maxSpRecursionDepth : Nat := 255

def select (table : List CsNode) (temp : TempHie) : List (TempRow × CsNode) :=
  (temp.rows.flatMap (fun row =>
    (table.filter (fun node => row.id = node.id)).map (fun node => (row, node)))).mergeSort
      (fun row row' => row.1.sno ≤ row'.1.sno)

def hieQueDown (table : List CsNode) (session : Option TempHie) (rootId : Int)
    : TempHie × Option (List (TempRow × CsNode)) :=
  let temp := { session.getD {} with rows := [] }
  match hieQueRecursive table (maxSpRecursionDepth + 1) rootId 0 temp with
  | (temp, true) => (temp, some (select table temp))
  | (temp, false) => (temp, none)

end HieProcedure
