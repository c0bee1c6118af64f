import SupportFile.CustomJs.Impl.SiftBasedOnColumn
import SupportFile.MergeSort.Basic

/-!
This module contains the functions of `custom.js` that make the header of a table clickable and that
sort the table when it is clicked.
-/

namespace CustomJs

def serviceCall (table_id : JsString) (i : Nat) : JsString :=
  JsString.ofChars "custom_sortOnTheadClick_service('".toList ++ table_id
    ++ JsString.ofChars "',".toList ++ JsString.ofChars (Nat.toDigits 10 i)
    ++ JsString.ofChars ")".toList

/-- A header is the list of the attributes `onclick` of its cells. -/
def customSortOnTheadClick (table_id : JsString) (tds_thead : List (Option JsString))
    : List (Option JsString) :=
  go 0 tds_thead
where
  go (i : Nat) (tds : List (Option JsString)) : List (Option JsString) :=
    match tds with
    | [] => []
    | none :: tds => some (serviceCall table_id i) :: go (i + 1) tds
    -- The counter stands still at a cell that has a handler.
    | some onclick :: tds => some onclick :: go i tds

inductive HeaderStep where
  | bind
  | append (onclick : Option JsString)
  deriving DecidableEq, Repr

def HeaderStep.apply (table_id : JsString) (tds_thead : List (Option JsString)) (step : HeaderStep)
    : List (Option JsString) :=
  match step with
  | .bind => customSortOnTheadClick table_id tds_thead
  | .append onclick => tds_thead ++ [onclick]

def runHeader (table_id : JsString) (tds_thead : List (Option JsString)) (steps : List HeaderStep)
    : List (Option JsString) :=
  steps.foldl (HeaderStep.apply table_id) tds_thead

structure ArraySort where
  sort : (Tr → Tr → Int) → List Tr → List Tr
  sorts : ∀ comparefn trs,
    MergeSort.Sorts (fun left right => decide (comparefn left right > 0)) trs (sort comparefn trs)

def ArraySort.halving : ArraySort where
  sort comparefn trs := trs.mergeSort (fun left right => !decide (comparefn left right > 0))
  sorts _ trs := MergeSort.sorts_mergeSort _ trs

def Tr.textAt (tr : Tr) (colPo : Nat) : JsString :=
  match tr.tds[colPo]? with
  | some td => td.text.trim
  | none => JsString.trim []

def textAtRow (trs : List Tr) (i colPo : Nat) : JsString :=
  match trs[i]? with
  | some tr => tr.textAt colPo
  | none => JsString.trim []

def sortMode (trs_tbody : List Tr) (colPo : Nat) : Int :=
  let tdA_mode := textAtRow trs_tbody 0 colPo
  let tdB_mode := textAtRow trs_tbody 1 colPo
  if tdA_mode.length > tdB_mode.length then
    1
  else if tdA_mode.length < tdB_mode.length then
    -1
  else if JsString.lt tdB_mode tdA_mode then
    1
  else
    -1

def comparefn (mode : Int) (colPo : Nat) (trA trB : Tr) : Int :=
  let tdA := trA.textAt colPo
  let tdB := trB.textAt colPo
  if tdA.length > tdB.length then
    mode
  else if tdA.length < tdB.length then
    -1 * mode
  else if JsString.lt tdB tdA then
    mode
  else
    -1 * mode

-- jQuery appends rows to the first `tbody`, and each of them leaves the place where it was.
def appendRows (tbodies : List (List Tr)) (trs_tbody : List Tr) : List (List Tr) :=
  match tbodies with
  | [] => []
  | _ :: tbodies => trs_tbody :: tbodies.map (fun _ => [])

def customSortOnTheadClickService (array : ArraySort) (tbodies : List (List Tr)) (colPo : Nat)
    : List (List Tr) :=
  let trs_tbody := tbodies.flatten
  let mode := sortMode trs_tbody colPo
  appendRows tbodies (array.sort (comparefn mode colPo) trs_tbody)

end CustomJs
