import SupportFile.MySql.Impl.Median
import SupportFile.MergeSort.Basic

/-!
This module contains the result of the median query: the two passes give every row its position in its
company and the size of the company, and these pick the middle of the salaries.
-/

namespace Median

open Scan

section Rows

variable {Company : Type u} {Salary : Type v}

theorem map_toEmployee_asce (rows : List (Employee Company Salary))
    : (asce rows).map (·.toEmployee) = rows := by
  apply map_scan
  intro rn row
  rfl

def Numbered (rn : Nat) (done : List (Asce Company Salary)) (_ : List (Employee Company Salary))
    : Prop :=
  rn = done.length ∧ done.map (·.rn) = List.range' 1 done.length

theorem Numbered.step {rn : Nat} {done : List (Asce Company Salary)}
    {row : Employee Company Salary} {rest : List (Employee Company Salary)}
    (h : Numbered rn done (row :: rest))
    : Numbered (asce.item rn row).1 (done ++ [(asce.item rn row).2]) rest := by
  rcases h with ⟨hrn, hdone⟩
  constructor
  . simp [asce.item, hrn]
  . rw [List.map_append, hdone, List.length_append, List.length_singleton, List.range'_1_concat]
    simp [asce.item, hrn, Nat.add_comm]

theorem map_rn_asce (rows : List (Employee Company Salary))
    : (asce rows).map (·.rn) = List.range' 1 (asce rows).length := by
  have hstart : Numbered 0 [] rows := by
    simp [Numbered]
  rcases scan_invariant (fun _ _ _ _ => Numbered.step) hstart with ⟨rn, hrn⟩
  exact hrn.right

theorem desce_eq_reverse {rows : List (Parte Company Salary)}
    (hrn : rows.Pairwise (fun row row' => row.rn < row'.rn))
    : desce rows = rows.reverse := by
  apply MergeSort.mergeSort_eq_of_perm
  . intro row row' row'' hle hle'
    simp only [decide_eq_true_eq] at *
    omega
  . intro row row'
    simp only [Bool.or_eq_true, decide_eq_true_eq]
    omega
  . apply List.reverse_perm
  . rw [List.pairwise_reverse]
    apply List.Pairwise.imp _ hrn
    intro row row' hlt
    simp only [decide_eq_true_eq]
    omega

end Rows

variable {Company : Type u} {Salary : Type v} [LinearOrder Company]

theorem map_toAsce_parte (rows : List (Asce Company Salary))
    : (parte rows).map (·.toAsce) = rows := by
  apply map_scan
  intro vars row
  rfl

structure Ascending (vars : Partt Company) (done : List (Parte Company Salary))
    (rest : List (Asce Company Salary)) : Prop where
  boundary : Boundary (· ≤ ·) vars.ascepre (done.map (·.company)) (rest.map (·.company))
  ranked : Ranked (·.company) (·.partrn) done
  partrn : ∀ company, vars.ascepre = some company →
    vars.partrn = done.countP (·.company = company)

theorem Ascending.step {vars : Partt Company} {done : List (Parte Company Salary)}
    {row : Asce Company Salary} {rest : List (Asce Company Salary)}
    (h : Ascending vars done (row :: rest))
    : Ascending (parte.item vars row).1 (done ++ [(parte.item vars row).2]) rest := by
  have hboundary := h.boundary
  rw [List.map_cons] at hboundary
  have hpartrn : (parte.item vars row).2.partrn
      = done.countP (·.company = row.company) + 1 := by
    unfold parte.item
    dsimp only
    split
    . next hpre => rw [h.partrn _ hpre]
    . next hpre => rw [countP_key_eq_zero (hboundary.not_mem hpre)]
  constructor
  . rw [List.map_append]
    apply hboundary.step
  . rw [ranked_concat_iff]
    exact ⟨h.ranked, hpartrn⟩
  . intro company hcompany
    have hrow : row.company = company := by
      simpa [parte.item] using hcompany
    subst hrow
    have hone : [(parte.item vars row).2].countP (·.company = row.company) = 1 := by
      simp [parte.item]
    rw [List.countP_append, hone, ← hpartrn]
    rfl

theorem ranked_parte {rows : List (Asce Company Salary)}
    (hsorted : (rows.map (·.company)).Pairwise (· ≤ ·))
    : Ranked (·.company) (·.partrn) (parte rows) := by
  have hstart : Ascending { ascepre := none, partrn := 0 } [] rows := by
    constructor
    . apply Boundary.start hsorted
    . apply ranked_nil
    . simp
  rcases scan_invariant (fun _ _ _ _ => Ascending.step) hstart with ⟨vars, hvars⟩
  exact hvars.ranked

theorem pairwise_rn_parte_asce (rows : List (Employee Company Salary))
    : (parte (asce rows)).Pairwise (fun row row' => row.rn < row'.rn) := by
  have hrn : (parte (asce rows)).map (·.rn) = List.range' 1 (asce rows).length := by
    rw [← map_rn_asce, ← map_toAsce_parte (asce rows), List.map_map, map_toAsce_parte]
    rfl
  have hlt : ((parte (asce rows)).map (·.rn)).Pairwise (· < ·) := by
    rw [hrn]
    exact List.pairwise_lt_range'
  rwa [List.pairwise_map] at hlt

theorem map_toParte_partnume (rows : List (Parte Company Salary))
    : (partnume rows).map (·.toParte) = rows := by
  apply map_scan
  intro vars row
  rfl

structure Descending (rows : List (Parte Company Salary)) (vars : Partnumt Company)
    (done : List (Partnume Company Salary)) (rest : List (Parte Company Salary)) : Prop where
  boundary : Boundary (· ≥ ·) vars.descepre (done.map (·.company)) (rest.map (·.company))
  rows_eq : rows = rest.reverse ++ (done.map (·.toParte)).reverse
  counted : ∀ row ∈ done, row.partnum = rows.countP (·.company = row.company)
  partnum : ∀ company, vars.descepre = some company →
    vars.partnum = rows.countP (·.company = company)

theorem Descending.step {rows : List (Parte Company Salary)}
    (hranked : Ranked (·.company) (·.partrn) rows) {vars : Partnumt Company}
    {done : List (Partnume Company Salary)} {row : Parte Company Salary}
    {rest : List (Parte Company Salary)} (h : Descending rows vars done (row :: rest))
    : Descending rows (partnume.item vars row).1 (done ++ [(partnume.item vars row).2]) rest := by
  have hboundary := h.boundary
  rw [List.map_cons] at hboundary
  have hrows := h.rows_eq
  rw [List.reverse_cons, List.append_assoc, List.singleton_append] at hrows
  have hpartnum : (partnume.item vars row).2.partnum
      = rows.countP (·.company = row.company) := by
    unfold partnume.item
    dsimp only
    split
    . next hpre => rw [h.partnum _ hpre]
    . next hpre =>
      -- It is the first row of its company from above, so that its position is the last one.
      have hdone : ((done.map (·.toParte)).reverse).countP (·.company = row.company) = 0 := by
        rw [List.countP_reverse, List.countP_map]
        apply countP_key_eq_zero (hboundary.not_mem hpre)
      have hrank : row.partrn = rest.reverse.countP (·.company = row.company) + 1 := by
        apply hranked _ _ _ hrows
      rw [hrank, hrows, List.countP_append, List.countP_cons, hdone]
      simp
  constructor
  . rw [List.map_append]
    apply hboundary.step
  . rw [hrows, List.map_append, List.reverse_append]
    rfl
  . rw [List.forall_mem_append, List.forall_mem_singleton]
    exact ⟨h.counted, hpartnum⟩
  . intro company hcompany
    have hrow : row.company = company := by
      simpa [partnume.item] using hcompany
    subst hrow
    rw [← hpartnum]
    rfl

theorem counted_partnume {rows : List (Parte Company Salary)}
    (hsorted : (rows.map (·.company)).Pairwise (· ≤ ·))
    (hranked : Ranked (·.company) (·.partrn) rows)
    : ∀ row ∈ partnume rows.reverse, row.partnum = rows.countP (·.company = row.company) := by
  have hstart : Descending rows { descepre := none, partnum := 0 } [] rows.reverse := by
    constructor
    . apply Boundary.start
      rw [List.map_reverse, List.pairwise_reverse]
      exact hsorted
    . simp
    . simp
    . simp
  rcases scan_invariant (fun _ _ _ _ => Descending.step hranked) hstart with ⟨vars, hvars⟩
  apply hvars.counted

def ascending (rows : List (Employee Company Salary)) : List (R Company Salary) :=
  (r (partnume (desce (parte (asce rows))))).reverse

theorem map_toParte_ascending (rows : List (Employee Company Salary))
    : (ascending rows).map (·.toParte) = parte (asce rows) := by
  have hr : (r (partnume (desce (parte (asce rows))))).map (·.toParte)
      = (partnume (desce (parte (asce rows)))).map (·.toParte) := by
    unfold r
    rw [List.map_map]
    rfl
  unfold ascending
  rw [List.map_reverse, hr, map_toParte_partnume, desce_eq_reverse (pairwise_rn_parte_asce rows),
    List.reverse_reverse]

theorem map_toEmployee_ascending (rows : List (Employee Company Salary))
    : (ascending rows).map (·.toEmployee) = rows := by
  calc (ascending rows).map (·.toEmployee)
    _ = (((ascending rows).map (·.toParte)).map (·.toAsce)).map (·.toEmployee) := by
      rw [List.map_map, List.map_map]
      rfl
    _ = rows := by
      rw [map_toParte_ascending, map_toAsce_parte, map_toEmployee_asce]

theorem map_company_parte_asce (rows : List (Employee Company Salary))
    : (parte (asce rows)).map (·.company) = rows.map (·.company) := by
  calc (parte (asce rows)).map (·.company)
    _ = (((parte (asce rows)).map (·.toAsce)).map (·.toEmployee)).map (·.company) := by
      rw [List.map_map, List.map_map]
      rfl
    _ = rows.map (·.company) := by
      rw [map_toAsce_parte, map_toEmployee_asce]

theorem countP_parte_asce (rows : List (Employee Company Salary)) (company : Company)
    : (parte (asce rows)).countP (·.company = company) = rows.countP (·.company = company) := by
  have hcount := congrArg (List.countP (· = company)) (map_company_parte_asce rows)
  rw [List.countP_map, List.countP_map] at hcount
  exact hcount

theorem select_eq (rows : List (Employee Company Salary))
    : select rows = ((ascending rows).filter R.selected).map (·.toEmployee) := by
  have hrn : (ascending rows).Pairwise (fun row row' => row.rn < row'.rn) := by
    have hparte := pairwise_rn_parte_asce rows
    rw [← map_toParte_ascending, List.pairwise_map] at hparte
    exact hparte
  unfold select
  congr 1
  apply MergeSort.mergeSort_eq_of_perm
  . intro row row' row'' hle hle'
    simp only [decide_eq_true_eq] at *
    omega
  . intro row row'
    simp only [Bool.or_eq_true, decide_eq_true_eq]
    omega
  . unfold ascending
    rw [List.filter_reverse]
    apply List.reverse_perm
  . apply List.Pairwise.imp _ (hrn.filter _)
    intro row row' hlt
    simp only [decide_eq_true_eq]
    omega

section Sorted

variable {rows : List (Employee Company Salary)}
  (hsorted : (rows.map (·.company)).Pairwise (· ≤ ·))

include hsorted

theorem pairwise_company_asce : ((asce rows).map (·.company)).Pairwise (· ≤ ·) := by
  rw [← map_toEmployee_asce rows, List.map_map] at hsorted
  exact hsorted

theorem map_partrn_ascending (company : Company)
    : ((ascending rows).filter (·.company = company)).map (·.partrn)
        = List.range' 1 (rows.countP (·.company = company)) := by
  have hranked := (ranked_parte (pairwise_company_asce hsorted)).map_filter company
  rw [← map_toParte_ascending, List.filter_map, List.map_map, map_toParte_ascending,
    countP_parte_asce] at hranked
  exact hranked

theorem selected_iff {row : R Company Salary} (hrow : row ∈ ascending rows)
    : row.selected = true
        ↔
      (rows.countP (·.company = row.company) + 1) / 2 ≤ row.partrn
        ∧ row.partrn < rows.countP (·.company = row.company) / 2 + 2 := by
  unfold ascending at hrow
  rw [List.mem_reverse, desce_eq_reverse (pairwise_rn_parte_asce rows), r, List.mem_map] at hrow
  rcases hrow with ⟨row, hrow, rfl⟩
  have hsorted' : ((parte (asce rows)).map (·.company)).Pairwise (· ≤ ·) := by
    rw [map_company_parte_asce]
    exact hsorted
  have hcounted := counted_partnume hsorted' (ranked_parte (pairwise_company_asce hsorted)) _ hrow
  rw [countP_parte_asce] at hcounted
  unfold R.selected
  simp only [decide_eq_true_eq, Nat.ceilDiv_eq_add_pred_div, hcounted]
  omega

end Sorted

def salariesOf (rows : List (Employee Company Salary)) (company : Company) : List Salary :=
  (rows.filter (·.company = company)).map (·.salary)

def middles (l : List α) : List α :=
  if l.length % 2 = 1 then
    l[(l.length + 1) / 2 - 1]?.toList
  else
    l[l.length / 2 - 1]?.toList ++ l[l.length / 2]?.toList

theorem middles_eq (l : List α)
    : middles l = (l.take (l.length / 2 + 1)).drop ((l.length + 1) / 2 - 1) := by
  rw [List.drop_take]
  unfold middles
  split
  . next hodd =>
    have hone : l.length / 2 + 1 - ((l.length + 1) / 2 - 1) = 1 := by
      omega
    rw [hone, List.take_one, List.head?_drop]
  . next heven =>
    by_cases hnil : l = []
    . subst hnil
      simp
    . have := List.length_pos_iff.mpr hnil
      have htwo : l.length / 2 + 1 - ((l.length + 1) / 2 - 1) = 1 + 1 := by
        omega
      have hfst : (l.length + 1) / 2 - 1 = l.length / 2 - 1 := by
        omega
      have hsnd : l.length / 2 - 1 + 1 = l.length / 2 := by
        omega
      rw [htwo, List.take_add_one, List.take_one, List.head?_drop, List.getElem?_drop, hfst, hsnd]

theorem length_middles {l : List α} (h : l ≠ [])
    : (middles l).length = if l.length % 2 = 1 then 1 else 2 := by
  have := List.length_pos_iff.mpr h
  rw [middles_eq, List.length_drop, List.length_take]
  split
  . omega
  . omega

theorem salariesOf_map (rows : List (R Company Salary)) (company : Company)
    : salariesOf (rows.map (·.toEmployee)) company
        = (rows.filter (·.company = company)).map (·.salary) := by
  unfold salariesOf
  rw [List.filter_map, List.map_map]
  rfl

theorem salariesOf_select {rows : List (Employee Company Salary)}
    (hsorted : (rows.map (·.company)).Pairwise (· ≤ ·)) (company : Company)
    : salariesOf (select rows) company = middles (salariesOf rows company) := by
  have hrank := map_partrn_ascending hsorted company
  have hlength := congrArg List.length hrank
  rw [List.length_map, List.length_range'] at hlength
  have hselected : ((ascending rows).filter R.selected).filter (·.company = company)
      = ((ascending rows).filter (·.company = company)).filter (fun row =>
          (rows.countP (·.company = company) + 1) / 2 ≤ row.partrn
            ∧ row.partrn < rows.countP (·.company = company) / 2 + 2) := by
    rw [List.filter_filter, List.filter_filter]
    apply List.filter_congr
    intro row hrow
    rw [Bool.eq_iff_iff, Bool.and_eq_true, Bool.and_eq_true, decide_eq_true_eq, decide_eq_true_eq]
    constructor
    . rintro ⟨rfl, hselected⟩
      exact ⟨(selected_iff hsorted hrow).mp hselected, rfl⟩
    . rintro ⟨hwindow, rfl⟩
      exact ⟨rfl, (selected_iff hsorted hrow).mpr hwindow⟩
  rw [← hlength] at hrank
  calc salariesOf (select rows) company
    _ = (((ascending rows).filter R.selected).filter (·.company = company)).map (·.salary) := by
      rw [select_eq, salariesOf_map]
    _ = ((((ascending rows).filter (·.company = company)).take
          (rows.countP (·.company = company) / 2 + 1)).drop
            ((rows.countP (·.company = company) + 1) / 2 - 1)).map (·.salary) := by
      rw [hselected, filter_window hrank]
      rfl
    _ = middles (((ascending rows).filter (·.company = company)).map (·.salary)) := by
      rw [middles_eq, List.map_drop, List.map_take, List.length_map, hlength]
    _ = middles (salariesOf rows company) := by
      rw [← salariesOf_map, map_toEmployee_ascending]

theorem sublist_select (rows : List (Employee Company Salary)) : (select rows).Sublist rows := by
  have hsublist := (List.filter_sublist (p := R.selected) (l := ascending rows)).map
    (·.toEmployee)
  rw [map_toEmployee_ascending, ← select_eq] at hsublist
  exact hsublist

variable [LinearOrder Salary]

theorem OrderedBy.company {table rows : List (Employee Company Salary)}
    (h : OrderedBy CompanySalaryLe table rows)
    : (rows.map (·.company)).Pairwise (· ≤ ·) := by
  rw [List.pairwise_map]
  apply List.Pairwise.imp _ h.right
  intro row row' hle
  cases hle with
  | inl hlt => exact hlt.le
  | inr hsame => exact hsame.left.le

theorem OrderedBy.salariesOf {table rows : List (Employee Company Salary)}
    (h : OrderedBy CompanySalaryLe table rows) (company : Company)
    : OrderedBy (· ≤ ·) (salariesOf table company) (salariesOf rows company) := by
  constructor
  . exact (h.left.filter _).map _
  . unfold Median.salariesOf
    rw [List.pairwise_map, List.pairwise_filter]
    apply List.Pairwise.imp _ h.right
    intro row row' hle hrow hrow'
    rw [decide_eq_true_eq] at hrow hrow'
    rw [← hrow'] at hrow
    cases hle with
    | inl hlt => exact absurd hrow hlt.ne
    | inr hsame => exact hsame.right

theorem OrderedBy.unique {table l l' : List Salary} (h : OrderedBy (· ≤ ·) table l)
    (h' : OrderedBy (· ≤ ·) table l')
    : l = l' := by
  apply List.Perm.eq_of_pairwise _ h.right h'.right (h.left.trans h'.left.symm)
  intro x y _ _ hle hge
  apply le_antisymm hle hge

theorem companySalaryLe_trans {row row' row'' : Employee Company Salary}
    (h : CompanySalaryLe row row') (h' : CompanySalaryLe row' row'')
    : CompanySalaryLe row row'' := by
  rcases h with hlt | ⟨heq, hle⟩
  . rcases h' with hlt' | ⟨heq', _⟩
    . exact .inl (hlt.trans hlt')
    . exact .inl (heq' ▸ hlt)
  . rcases h' with hlt' | ⟨heq', hle'⟩
    . exact .inl (heq ▸ hlt')
    . exact .inr ⟨heq.trans heq', hle.trans hle'⟩

theorem companySalaryLe_total (row row' : Employee Company Salary)
    : CompanySalaryLe row row' ∨ CompanySalaryLe row' row := by
  rcases lt_trichotomy row.company row'.company with hlt | heq | hgt
  . exact .inl (.inl hlt)
  . rcases le_total row.salary row'.salary with hle | hge
    . exact .inl (.inr ⟨heq, hle⟩)
    . exact .inr (.inr ⟨heq.symm, hge⟩)
  . exact .inr (.inl hgt)

theorem exists_returns (employee : List (Employee Company Salary))
    : ∃ rows, Returns employee rows := by
  classical
  let le (row row' : Employee Company Salary) : Bool := decide (CompanySalaryLe row row')
  have htrans (row row' row'' : Employee Company Salary) (h : le row row') (h' : le row' row'')
      : le row row'' := by
    exact decide_eq_true (companySalaryLe_trans (of_decide_eq_true h) (of_decide_eq_true h'))
  have htotal (row row' : Employee Company Salary) : le row row' || le row' row := by
    simpa [le] using companySalaryLe_total row row'
  have hsorted := List.pairwise_mergeSort htrans htotal employee
  exact ⟨_, employee.mergeSort le,
    ⟨List.mergeSort_perm employee le, hsorted.imp of_decide_eq_true⟩, rfl⟩

/-- The query returns a result, and each of its results consists of the median rows. -/
theorem median_spec (employee : List (Employee Company Salary))
    : (∃ rows, Returns employee rows)
        ∧
      ∀ rows, Returns employee rows →
        rows.Subperm employee
          ∧
        rows.Pairwise CompanySalaryLe
          ∧
        ∀ company ∈ employee.map (·.company), ∀ salaries,
          OrderedBy (· ≤ ·) (salariesOf employee company) salaries →
            salariesOf rows company = middles salaries
              ∧
            (salariesOf rows company).length = if salaries.length % 2 = 1 then 1 else 2 := by
  refine ⟨exists_returns employee, ?_⟩
  rintro rows ⟨ordered, hordered, rfl⟩
  have hsublist := sublist_select ordered
  refine ⟨?_, ?_, ?_⟩
  . apply hsublist.subperm.trans hordered.left.subperm
  . apply hordered.right.sublist hsublist
  . intro company hcompany salaries hsalaries
    have hne : salaries ≠ [] := by
      rw [List.mem_map] at hcompany
      rcases hcompany with ⟨row, hrow, rfl⟩
      have hmem : row.salary ∈ salariesOf employee row.company := by
        apply List.mem_map_of_mem
        rw [List.mem_filter, decide_eq_true_eq]
        exact ⟨hrow, rfl⟩
      apply List.ne_nil_of_mem (hsalaries.left.mem_iff.mpr hmem)
    have hmiddles : salariesOf (select ordered) company = middles salaries := by
      rw [salariesOf_select hordered.company, (hordered.salariesOf company).unique hsalaries]
    refine ⟨hmiddles, ?_⟩
    rw [hmiddles, length_middles hne]

def companies : List (Employee Nat Nat) :=
  [⟨1, 2, 300⟩, ⟨2, 1, 50⟩, ⟨3, 2, 300⟩, ⟨4, 1, 70⟩, ⟨5, 2, 100⟩]

theorem median_spec_companies
    : Returns companies [⟨2, 1, 50⟩, ⟨4, 1, 70⟩, ⟨1, 2, 300⟩]
        ∧
      salariesOf [⟨2, 1, 50⟩, ⟨4, 1, 70⟩, ⟨1, 2, 300⟩] 2 = middles [100, 300, 300] := by
  have hreturns : Returns companies [⟨2, 1, 50⟩, ⟨4, 1, 70⟩, ⟨1, 2, 300⟩] := by
    refine ⟨[⟨2, 1, 50⟩, ⟨4, 1, 70⟩, ⟨5, 2, 100⟩, ⟨1, 2, 300⟩, ⟨3, 2, 300⟩], ⟨?_, ?_⟩, ?_⟩
    . decide
    . unfold CompanySalaryLe
      decide
    . rw [select_eq, ascending, desce_eq_reverse (pairwise_rn_parte_asce _)]
      decide
  refine ⟨hreturns, ?_⟩
  have hsalaries : OrderedBy (· ≤ ·) (salariesOf companies 2) [100, 300, 300] := by
    constructor <;> decide
  exact (((median_spec companies).right _ hreturns).right.right 2 (by decide) _ hsalaries).left

end Median
