import SupportFile.CustomJs.Impl.SortOnTheadClick
import SupportFile.JsString.Order

namespace CustomJs

open JsString

theorem sortMode_eq (trs_tbody : List Tr) (colPo : Nat)
    : sortMode trs_tbody colPo
        =
      if Before (textAtRow trs_tbody 1 colPo) (textAtRow trs_tbody 0 colPo) then 1 else -1 := by
  unfold sortMode
  apply ite_length_lt

theorem comparefn_eq (mode : Int) (colPo : Nat) (trA trB : Tr)
    : comparefn mode colPo trA trB
        =
      if Before (trB.textAt colPo) (trA.textAt colPo) then mode else -1 * mode := by
  unfold comparefn
  apply ite_length_lt

def Ascending (colPo : Nat) (trs : List Tr) : Prop :=
  trs.Pairwise (fun trA trB => ¬Before (trB.textAt colPo) (trA.textAt colPo))

def Descending (colPo : Nat) (trs : List Tr) : Prop :=
  trs.Pairwise (fun trA trB => ¬Before (trA.textAt colPo) (trB.textAt colPo))

theorem takesRight_one (colPo : Nat) (trA trB : Tr)
    : decide (comparefn 1 colPo trA trB > 0) = decide (Before (trB.textAt colPo) (trA.textAt colPo))
    := by
  rw [comparefn_eq]
  split
  . next hbefore => simp [hbefore]
  . next hbefore => simp [hbefore]

theorem takesRight_neg_one (colPo : Nat) (trA trB : Tr)
    : decide (comparefn (-1) colPo trA trB > 0)
        =
      decide (¬Before (trB.textAt colPo) (trA.textAt colPo)) := by
  rw [comparefn_eq]
  split
  . next hbefore => simp [hbefore]
  . next hbefore => simp [hbefore]

theorem ascending_orders (colPo : Nat)
    : MergeSort.Orders (fun trA trB => decide (comparefn 1 colPo trA trB > 0))
        (fun trA trB => ¬Before (trB.textAt colPo) (trA.textAt colPo)) := by
  constructor
  . intro trA trB trC hab hbc
    apply not_before_trans hab hbc
  . intro trA trB h
    rw [takesRight_one, decide_eq_false_iff_not] at h
    exact h
  . intro trA trB h
    rw [takesRight_one, decide_eq_true_eq] at h
    apply h.asymm

theorem descending_orders (colPo : Nat)
    : MergeSort.Orders (fun trA trB => decide (comparefn (-1) colPo trA trB > 0))
        (fun trA trB => ¬Before (trA.textAt colPo) (trB.textAt colPo)) := by
  constructor
  . intro trA trB trC hab hbc
    apply not_before_trans hbc hab
  . intro trA trB h
    rw [takesRight_neg_one, decide_eq_false_iff_not, not_not] at h
    apply h.asymm
  . intro trA trB h
    rw [takesRight_neg_one, decide_eq_true_eq] at h
    exact h

theorem sort_ascending (array : ArraySort) (colPo : Nat) (trs : List Tr)
    : Ascending colPo (array.sort (comparefn 1 colPo) trs) := by
  unfold Ascending
  apply (array.sorts (comparefn 1 colPo) trs).pairwise (ascending_orders colPo)

theorem sort_descending (array : ArraySort) (colPo : Nat) (trs : List Tr)
    : Descending colPo (array.sort (comparefn (-1) colPo) trs) := by
  unfold Descending
  apply (array.sorts (comparefn (-1) colPo) trs).pairwise (descending_orders colPo)

theorem flatten_appendRows {tbodies : List (List Tr)} {trs : List Tr}
    (h : trs.Perm tbodies.flatten)
    : (appendRows tbodies trs).flatten = trs := by
  unfold appendRows
  cases tbodies with
  | nil =>
    have hnil := h.eq_nil
    rw [hnil]
    rfl
  | cons tbody tbodies => simp [List.map_const']

theorem flatten_customSortOnTheadClickService (array : ArraySort) (tbodies : List (List Tr))
    (colPo : Nat)
    : (customSortOnTheadClickService array tbodies colPo).flatten
        =
      array.sort (comparefn (sortMode tbodies.flatten colPo) colPo) tbodies.flatten := by
  unfold customSortOnTheadClickService
  dsimp
  apply flatten_appendRows (array.sorts _ _).perm

theorem perm_customSortOnTheadClickService (array : ArraySort) (tbodies : List (List Tr))
    (colPo : Nat)
    : (customSortOnTheadClickService array tbodies colPo).flatten.Perm tbodies.flatten := by
  rw [flatten_customSortOnTheadClickService]
  apply (array.sorts _ _).perm

theorem ascending_of_before {tbodies : List (List Tr)} {colPo : Nat}
    (h : Before (textAtRow tbodies.flatten 1 colPo) (textAtRow tbodies.flatten 0 colPo))
    (array : ArraySort)
    : Ascending colPo (customSortOnTheadClickService array tbodies colPo).flatten := by
  rw [flatten_customSortOnTheadClickService, sortMode_eq, if_pos h]
  apply sort_ascending

theorem descending_of_not_before {tbodies : List (List Tr)} {colPo : Nat}
    (h : ¬Before (textAtRow tbodies.flatten 1 colPo) (textAtRow tbodies.flatten 0 colPo))
    (array : ArraySort)
    : Descending colPo (customSortOnTheadClickService array tbodies colPo).flatten := by
  rw [flatten_customSortOnTheadClickService, sortMode_eq, if_neg h]
  apply sort_descending

theorem customSortOnTheadClickService_spec (array : ArraySort) (tbodies : List (List Tr))
    (colPo : Nat)
    : let rows := tbodies.flatten
      let rows' := (customSortOnTheadClickService array tbodies colPo).flatten
      rows'.Perm rows
        ∧ (Before (textAtRow rows 1 colPo) (textAtRow rows 0 colPo) → Ascending colPo rows')
        ∧ (¬Before (textAtRow rows 1 colPo) (textAtRow rows 0 colPo) → Descending colPo rows') := by
  refine ⟨perm_customSortOnTheadClickService array tbodies colPo, ?_, ?_⟩
  . intro hbefore
    apply ascending_of_before hbefore
  . intro hbefore
    apply descending_of_not_before hbefore

end CustomJs
