import SupportFile.Scan.Basic
import Mathlib.Algebra.Order.Floor.Div
import Mathlib.Order.Defs.LinearOrder

/-!
This module contains the query for the median salaries of the companies, with the user variables that
it carries from row to row.
-/

namespace Median

structure Employee (Company : Type u) (Salary : Type v) where
  id : Int
  company : Company
  salary : Salary
  deriving DecidableEq, Repr

structure Asce (Company : Type u) (Salary : Type v) extends Employee Company Salary where
  rn : Nat
  deriving DecidableEq, Repr

structure Parte (Company : Type u) (Salary : Type v) extends Asce Company Salary where
  partrn : Nat
  deriving DecidableEq, Repr

structure Partnume (Company : Type u) (Salary : Type v) extends Parte Company Salary where
  partnum : Nat
  deriving DecidableEq, Repr

structure R (Company : Type u) (Salary : Type v) extends Partnume Company Salary where
  odd : Nat
  middle : Nat
  deriving DecidableEq, Repr

-- A variable that is `NULL` is `none`.
structure Partt (Company : Type u) where
  ascepre : Option Company
  partrn : Nat

structure Partnumt (Company : Type u) where
  descepre : Option Company
  partnum : Nat

/-- Rows that are equal to the order may come in any order. -/
def OrderedBy (le : α → α → Prop) (table rows : List α) : Prop :=
  rows.Perm table ∧ rows.Pairwise le

variable {Company : Type u} {Salary : Type v} [LinearOrder Company]

def CompanySalaryLe [LinearOrder Salary] (row row' : Employee Company Salary) : Prop :=
  row.company < row'.company ∨ (row.company = row'.company ∧ row.salary ≤ row'.salary)

def asce.item (rn : Nat) (row : Employee Company Salary) : Nat × Asce Company Salary :=
  (rn + 1, { row with rn := rn + 1 })

def asce (rows : List (Employee Company Salary)) : List (Asce Company Salary) :=
  Scan.scan asce.item 0 rows

def parte.item (vars : Partt Company) (row : Asce Company Salary)
    : Partt Company × Parte Company Salary :=
  -- A comparison with `NULL` is not true.
  let partrn := if vars.ascepre = some row.company then vars.partrn + 1 else 1
  ({ ascepre := some row.company, partrn := partrn }, { row with partrn := partrn })

def parte (asce : List (Asce Company Salary)) : List (Parte Company Salary) :=
  Scan.scan parte.item { ascepre := none, partrn := 0 } asce

def desce (parte : List (Parte Company Salary)) : List (Parte Company Salary) :=
  parte.mergeSort (fun row row' => row'.rn ≤ row.rn)

def partnume.item (vars : Partnumt Company) (row : Parte Company Salary)
    : Partnumt Company × Partnume Company Salary :=
  let partnum := if vars.descepre = some row.company then vars.partnum else row.partrn
  ({ descepre := some row.company, partnum := partnum }, { row with partnum := partnum })

def partnume (desce : List (Parte Company Salary)) : List (Partnume Company Salary) :=
  Scan.scan partnume.item { descepre := none, partnum := 0 } desce

def r (partnume : List (Partnume Company Salary)) : List (R Company Salary) :=
  partnume.map (fun row =>
    { row with
      odd := row.partnum % 2
      middle := row.partnum ⌈/⌉ 2 })

def R.selected (row : R Company Salary) : Bool :=
  (row.odd = 1 ∧ row.partrn = row.middle)
    ∨ (row.odd = 0 ∧ (row.partrn = row.middle ∨ row.partrn = row.middle + 1))

-- The innermost query puts the table into the order `rows`.
def select (rows : List (Employee Company Salary)) : List (Employee Company Salary) :=
  (((r (partnume (desce (parte (asce rows))))).filter R.selected).mergeSort
    (fun row row' => row.rn ≤ row'.rn)).map (·.toEmployee)

def Returns [LinearOrder Salary] (employee rows : List (Employee Company Salary)) : Prop :=
  ∃ ordered, OrderedBy CompanySalaryLe employee ordered ∧ rows = select ordered

end Median
