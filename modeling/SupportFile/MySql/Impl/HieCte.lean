import SupportFile.Cte.Basic
import SupportFile.MySql.Impl.CsNode
import SupportFile.Scan.Basic

/-!
This module contains the recursive queries that list the ancestors and the descendants of a node.
-/

namespace HieCte

structure Row extends CsNode where
  name : Option (List Char)
  deriving DecidableEq, Repr

-- The default of `cte_max_recursion_depth`.
def maxRecursionDepth : Nat := 1000

def anchor (table : List Row) (id : Int) : List Row :=
  table.filter (·.id = id)

namespace up

-- A comparison with `NULL` is not true.
def joined (table : List Row) (cte : Row) : List Row :=
  table.filter (fun r => cte.pId = some r.id)

def item (rowno : Nat) (cte : Row) : Nat × (Row × Nat) :=
  (rowno + 1, (cte, rowno + 1))

-- The variable counts the rows as they are read, and the last one is the first of the result.
def select (cte : List Row) : List (Row × Nat) :=
  (Scan.scan item 0 cte).mergeSort (fun row row' => row'.2 ≤ row.2)

end up

namespace down

def joined (table : List Row) (cte : Row) : List Row :=
  table.filter (fun r => r.pId = some cte.id)

end down

-- The rows of a join may come in any order.
def ReturnsUp (table : List Row) (id : Int) (result : List (Row × Nat)) : Prop :=
  ∃ cte, Cte.Returns (up.joined table) maxRecursionDepth (anchor table id) cte
    ∧ result = up.select cte

def ReturnsDown (table : List Row) (id : Int) (result : List Row) : Prop :=
  Cte.Returns (down.joined table) maxRecursionDepth (anchor table id) result

end HieCte
