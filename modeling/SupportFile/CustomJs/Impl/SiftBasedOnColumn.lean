import SupportFile.JsString.Basic
import Mathlib.Data.List.Dedup
import Mathlib.Data.List.Sort

/-!
This module contains the function of `custom.js` that shows and hides the rows of a table.
-/

namespace CustomJs

-- `other` is everything that is equal to neither number.
inductive Mode where
  | zero
  | one
  | other
  deriving DecidableEq, Repr

/--
A cell below a row. `parent` is the index of the row that it is a child of, which is another row if
the cell belongs to a table inside, and `pos` its position in the document.
-/
structure Td where
  pos : Nat
  parent : Nat
  text : JsString
  deriving DecidableEq, Repr

-- `node` tells the elements apart, two rows may have the same cells.
structure Tr where
  node : Nat
  tds : List Td
  deriving DecidableEq, Repr

structure Table where
  thead : List JsString
  tbody : List Tr
  deriving DecidableEq, Repr

namespace Table

def uniqueSort (tds : List Td) : List Td :=
  (tds.mergeSort (fun td td' => td.pos ≤ td'.pos)).dedup

-- The selector counts the cells of each row anew.
def findTdEq (table : Table) (colName : Nat) : List Td :=
  uniqueSort (table.tbody.filterMap (fun tr => tr.tds[colName]?))

end Table

structure SiftCall where
  mode : Mode
  colName : Nat
  value : JsString
  deriving DecidableEq, Repr

/--
`options` are the values and texts of the options, `onkeydown` tells whether the attribute is there,
and `visible` has one entry for each row.
-/
structure SiftState where
  options : List (Nat × JsString)
  onkeydown : Bool
  visible : List Bool
  deriving DecidableEq, Repr

def siftTd (call : SiftCall) (visible : List Bool) (td : Td) : List Bool :=
  match call.mode with
  | .zero =>
    if td.text.indexOf call.value ≥ 0 then
      visible.set td.parent true
    else
      visible.set td.parent false
  | .one =>
    if td.text.indexOf call.value < 0 then
      visible.set td.parent false
    else
      visible
  | .other => visible

def customSiftBasedOnColumn (table : Table) (s : SiftState) (call : SiftCall) : SiftState :=
  let s :=
    if s.options.length < 1 then
      { s with options := table.thead.zipIdx.map (fun (text, i) => (i, text)) }
    else
      s
  let s :=
    if s.onkeydown then
      { s with visible := (table.findTdEq call.colName).foldl (siftTd call) s.visible }
    else
      s
  if !s.onkeydown then
    { s with onkeydown := true }
  else
    s

end CustomJs
