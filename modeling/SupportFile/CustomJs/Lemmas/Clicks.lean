import SupportFile.CustomJs.Lemmas.SortOnTheadClick
import Mathlib.Logic.Function.Iterate

/-!
This module contains what successive clicks on the header of a table do. The direction of a click is
guessed from the first two rows, and rows with equal cells are turned around by a descending sort.
-/

namespace CustomJs

open JsString

def clicks (array : ArraySort) (colPo : Nat) (n : Nat) (tbodies : List (List Tr)) : List (List Tr) :=
  (fun tbodies => customSortOnTheadClickService array tbodies colPo)^[n] tbodies

def Opposite (colPo : Nat) (trs trs' : List Tr) : Prop :=
  Ascending colPo trs ∧ Descending colPo trs' ∨ Descending colPo trs ∧ Ascending colPo trs'

def Varied (colPo : Nat) (trs : List Tr) : Prop :=
  ∃ trA ∈ trs, ∃ trB ∈ trs, trA.textAt colPo ≠ trB.textAt colPo

def UniqueLargest (colPo : Nat) (trs : List Tr) : Prop :=
  ∃ tr rest, trs.Perm (tr :: rest) ∧ ∀ tr' ∈ rest, Before (tr'.textAt colPo) (tr.textAt colPo)

theorem clicks_succ (array : ArraySort) (colPo : Nat) (n : Nat) (tbodies : List (List Tr))
    : clicks array colPo (n + 1) tbodies
        =
      customSortOnTheadClickService array (clicks array colPo n tbodies) colPo := by
  unfold clicks
  apply Function.iterate_succ_apply'

theorem perm_clicks (array : ArraySort) (colPo : Nat) (n : Nat) (tbodies : List (List Tr))
    : (clicks array colPo n tbodies).flatten.Perm tbodies.flatten := by
  induction n with
  | zero => apply List.Perm.refl
  | succ n ih =>
    rw [clicks_succ]
    apply (perm_customSortOnTheadClickService array _ colPo).trans ih

theorem Varied.of_perm {colPo : Nat} {trs trs' : List Tr} (h : Varied colPo trs)
    (hperm : trs'.Perm trs)
    : Varied colPo trs' := by
  rcases h with ⟨trA, hA, trB, hB, hne⟩
  exact ⟨trA, hperm.mem_iff.mpr hA, trB, hperm.mem_iff.mpr hB, hne⟩

theorem Varied.eq_cons_cons {colPo : Nat} {trs : List Tr} (h : Varied colPo trs)
    : ∃ tr₀ tr₁ rest, trs = tr₀ :: tr₁ :: rest := by
  rcases h with ⟨trA, hA, trB, hB, hne⟩
  match trs with
  | [] => simp at hA
  | [tr] =>
    rw [List.mem_singleton] at hA hB
    rw [hA, hB] at hne
    contradiction
  | tr₀ :: tr₁ :: rest => exact ⟨tr₀, tr₁, rest, rfl⟩

theorem Varied.not_both {colPo : Nat} {trs : List Tr} (h : Varied colPo trs)
    (hasc : Ascending colPo trs) (hdesc : Descending colPo trs)
    : False := by
  rcases h with ⟨trA, hA, trB, hB, hne⟩
  have hequal : trs.Pairwise (fun trA trB => trA.textAt colPo = trB.textAt colPo) := by
    apply (hasc.and hdesc).imp
    intro trA trB hboth
    apply eq_of_not_before hboth.right hboth.left
  have hsymm : Std.Symm (fun (trA trB : Tr) => trA.textAt colPo = trB.textAt colPo) := by
    constructor
    intro trA trB heq
    apply heq.symm
  have hrow : trA ≠ trB := by
    rintro rfl
    contradiction
  apply hne (hequal.forall hA hB hrow)

theorem UniqueLargest.of_perm {colPo : Nat} {trs trs' : List Tr} (h : UniqueLargest colPo trs)
    (hperm : trs'.Perm trs)
    : UniqueLargest colPo trs' := by
  rcases h with ⟨tr, rest, htr, hrest⟩
  exact ⟨tr, rest, hperm.trans htr, hrest⟩

theorem Ascending.not_before_first {colPo : Nat} {tr₀ tr₁ : Tr} {rest : List Tr}
    (h : Ascending colPo (tr₀ :: tr₁ :: rest))
    : ¬Before (tr₁.textAt colPo) (tr₀.textAt colPo) := by
  apply (List.pairwise_cons.mp h).left
  apply List.mem_cons_self

theorem UniqueLargest.before_first {colPo : Nat} {tr₀ tr₁ : Tr} {rest : List Tr}
    (h : UniqueLargest colPo (tr₀ :: tr₁ :: rest))
    (hdesc : Descending colPo (tr₀ :: tr₁ :: rest))
    : Before (tr₁.textAt colPo) (tr₀.textAt colPo) := by
  rcases h with ⟨tr, others, hperm, hothers⟩
  have htr : tr ∈ tr₀ :: tr₁ :: rest := hperm.mem_iff.mpr List.mem_cons_self
  have hfirst : tr₀ ∈ tr :: others := hperm.mem_iff.mp List.mem_cons_self
  have heq : tr₀ = tr := by
    by_contra hne
    have hmem : tr₀ ∈ others := List.mem_of_ne_of_mem hne hfirst
    have htail : tr ∈ tr₁ :: rest := List.mem_of_ne_of_mem (Ne.symm hne) htr
    apply (List.pairwise_cons.mp hdesc).left tr htail (hothers tr₀ hmem)
  rw [heq] at hperm ⊢
  apply hothers
  rw [← (List.perm_cons tr).mp hperm |>.mem_iff]
  apply List.mem_cons_self

theorem Descending.uniqueLargest {colPo : Nat} {tr₀ tr₁ : Tr} {rest : List Tr}
    (hdesc : Descending colPo (tr₀ :: tr₁ :: rest))
    (hbefore : Before (tr₁.textAt colPo) (tr₀.textAt colPo))
    : UniqueLargest colPo (tr₀ :: tr₁ :: rest) := by
  refine ⟨tr₀, tr₁ :: rest, List.Perm.refl _, ?_⟩
  intro tr htr
  rw [List.mem_cons] at htr
  cases htr with
  | inl heq =>
    rw [heq]
    exact hbefore
  | inr hmem =>
    have hle := (List.pairwise_cons.mp (List.pairwise_cons.mp hdesc).right).left tr hmem
    apply before_of_not_before hle hbefore

section Toggle

variable {array : ArraySort} {colPo : Nat} {tbodies : List (List Tr)}
  (hvaried : Varied colPo tbodies.flatten)

include hvaried

theorem descending_of_ascending (hasc : Ascending colPo tbodies.flatten)
    : Descending colPo (customSortOnTheadClickService array tbodies colPo).flatten := by
  apply descending_of_not_before
  rcases hvaried.eq_cons_cons with ⟨tr₀, tr₁, rest, heq⟩
  rw [heq] at hasc ⊢
  apply hasc.not_before_first

theorem ascending_of_descending_iff (hdesc : Descending colPo tbodies.flatten)
    : Ascending colPo (customSortOnTheadClickService array tbodies colPo).flatten
        ↔
      UniqueLargest colPo tbodies.flatten := by
  have hvaried' := hvaried.of_perm (perm_customSortOnTheadClickService array tbodies colPo)
  rcases hvaried.eq_cons_cons with ⟨tr₀, tr₁, rest, heq⟩
  constructor
  . intro hasc
    have hbefore : Before (textAtRow tbodies.flatten 1 colPo) (textAtRow tbodies.flatten 0 colPo) := by
      by_contra hbefore
      apply hvaried'.not_both hasc (descending_of_not_before hbefore array)
    rw [heq] at hbefore hdesc ⊢
    apply hdesc.uniqueLargest hbefore
  . intro hunique
    apply ascending_of_before
    rw [heq] at hunique hdesc ⊢
    apply hunique.before_first hdesc

end Toggle

theorem clicks_opposite_iff (array : ArraySort) (colPo : Nat) (tbodies : List (List Tr))
    (hvaried : Varied colPo tbodies.flatten)
    : (∀ n, 1 ≤ n → Opposite colPo (clicks array colPo n tbodies).flatten
        (clicks array colPo (n + 1) tbodies).flatten)
        ↔
      UniqueLargest colPo tbodies.flatten := by
  have hperm (n : Nat) := perm_clicks array colPo n tbodies
  have hvaried (n : Nat) := hvaried.of_perm (hperm n)
  constructor
  . intro h
    -- One of the first two clicks sorts in descending order, and the next one turns it around.
    have hturn : ∃ n, Descending colPo (clicks array colPo n tbodies).flatten
        ∧ Ascending colPo (clicks array colPo (n + 1) tbodies).flatten := by
      cases h 1 (by omega) with
      | inl hfirst =>
        cases h 2 (by omega) with
        | inl hsecond => exact ((hvaried 2).not_both hsecond.left hfirst.right).elim
        | inr hsecond => exact ⟨2, hsecond⟩
      | inr hfirst => exact ⟨1, hfirst⟩
    rcases hturn with ⟨n, hdesc, hasc⟩
    rw [clicks_succ] at hasc
    apply ((ascending_of_descending_iff (hvaried n) hdesc).mp hasc).of_perm (hperm n).symm
  . intro hunique n hn
    rcases Nat.exists_eq_add_of_le' hn with ⟨m, rfl⟩
    rw [clicks_succ array colPo (m + 1)]
    by_cases hbefore : Before (textAtRow (clicks array colPo m tbodies).flatten 1 colPo)
        (textAtRow (clicks array colPo m tbodies).flatten 0 colPo)
    . left
      have hasc : Ascending colPo (clicks array colPo (m + 1) tbodies).flatten := by
        rw [clicks_succ]
        apply ascending_of_before hbefore
      exact ⟨hasc, descending_of_ascending (hvaried (m + 1)) hasc⟩
    . right
      have hdesc : Descending colPo (clicks array colPo (m + 1) tbodies).flatten := by
        rw [clicks_succ]
        apply descending_of_not_before hbefore
      refine ⟨hdesc, ?_⟩
      rw [ascending_of_descending_iff (hvaried (m + 1)) hdesc]
      apply hunique.of_perm (hperm (m + 1))

def row (node : Nat) (cells : List Char) : Tr where
  node := node
  tds := cells.map (fun c => { pos := node, parent := node, text := JsString.ofChars [c] })

def twoLetters : List (List Tr) :=
  [[row 0 ['a'], row 1 ['b']]]

theorem clicks_opposite_iff_twoLetters
    : Varied 0 twoLetters.flatten
        ∧
      ∀ n, 1 ≤ n → Opposite 0 (clicks ArraySort.halving 0 n twoLetters).flatten
        (clicks ArraySort.halving 0 (n + 1) twoLetters).flatten := by
  have hvaried : Varied 0 twoLetters.flatten :=
    ⟨row 0 ['a'], by decide, row 1 ['b'], by decide, by decide⟩
  refine ⟨hvaried, ?_⟩
  rw [clicks_opposite_iff ArraySort.halving 0 twoLetters hvaried]
  refine ⟨row 1 ['b'], [row 0 ['a']], List.Perm.swap _ _ _, ?_⟩
  decide

def largestTwice : List (List Tr) :=
  [[row 0 ['a'], row 1 ['b'], row 2 ['b']]]

theorem not_uniqueLargest_largestTwice : ¬UniqueLargest 0 largestTwice.flatten := by
  rintro ⟨tr, rest, hperm, hrest⟩
  -- Two rows have the cell `b`, and one of them is not `tr`.
  have hother : row 1 ['b'] ∈ rest ∨ row 2 ['b'] ∈ rest := by
    have hone : row 1 ['b'] ∈ tr :: rest := hperm.mem_iff.mp (by decide)
    have htwo : row 2 ['b'] ∈ tr :: rest := hperm.mem_iff.mp (by decide)
    rw [List.mem_cons] at hone htwo
    rcases hone with hone | hone
    . rcases htwo with htwo | htwo
      . rw [← hone] at htwo
        exact absurd htwo (by decide)
      . exact Or.inr htwo
    . exact Or.inl hone
  have hbefore : Before (JsString.ofChars ['b']) (tr.textAt 0) := by
    rcases hother with hother | hother
    . apply hrest _ hother
    . apply hrest _ hother
  have hnone : ∀ tr ∈ largestTwice.flatten, ¬Before (JsString.ofChars ['b']) (tr.textAt 0) := by
    decide
  apply hnone tr _ hbefore
  apply hperm.mem_iff.mpr List.mem_cons_self

theorem not_clicks_opposite_largestTwice
    : ¬∀ n, 1 ≤ n → Opposite 0 (clicks ArraySort.halving 0 n largestTwice).flatten
        (clicks ArraySort.halving 0 (n + 1) largestTwice).flatten := by
  intro h
  have hvaried : Varied 0 largestTwice.flatten :=
    ⟨row 0 ['a'], by decide, row 1 ['b'], by decide, by decide⟩
  have hperm := perm_customSortOnTheadClickService ArraySort.halving largestTwice 0
  have hdesc : Descending 0 (customSortOnTheadClickService ArraySort.halving largestTwice 0).flatten :=
    descending_of_not_before (by decide) _
  cases h 1 (by omega) with
  | inl hfirst => exact (hvaried.of_perm hperm).not_both hfirst.left hdesc
  | inr hfirst =>
    have hunique := (ascending_of_descending_iff (hvaried.of_perm hperm) hdesc).mp hfirst.right
    apply not_uniqueLargest_largestTwice (hunique.of_perm hperm.symm)

def sameText (colPo : Nat) (tr : Tr) (trA : Tr) : Bool :=
  trA.textAt colPo = tr.textAt colPo

theorem sort_filter_sameText (array : ArraySort) (colPo : Nat) (trs : List Tr) (tr : Tr)
    : (array.sort (comparefn 1 colPo) trs).filter (sameText colPo tr)
        =
      trs.filter (sameText colPo tr) := by
  apply (array.sorts _ trs).filter_eq (ascending_orders colPo)
  . intro trA
    apply Before.irrefl
  . intro trA trA' trB hle hA' hB
    unfold sameText at hA' hB
    rw [decide_eq_true_eq] at hA' hB
    rw [takesRight_one, decide_eq_false_iff_not, hB, ← hA']
    exact hle

theorem sort_filter_sameText_reverse (array : ArraySort) (colPo : Nat) (trs : List Tr) (tr : Tr)
    : (array.sort (comparefn (-1) colPo) trs).filter (sameText colPo tr)
        =
      (trs.filter (sameText colPo tr)).reverse := by
  apply (array.sorts _ trs).filter_eq_reverse (descending_orders colPo)
  . intro trA
    apply Before.irrefl
  . intro trA trB trB' hle hA hB'
    unfold sameText at hA hB'
    rw [decide_eq_true_eq] at hA hB'
    rw [takesRight_neg_one, decide_eq_true_eq, hA, ← hB']
    exact hle

def KeepsTies (colPo : Nat) (trs trs' : List Tr) : Prop :=
  ∀ trA trB, trA.textAt colPo = trB.textAt colPo →
    (MergeSort.Precedes trs' trA trB ↔ MergeSort.Precedes trs trA trB)

theorem not_precedes_of_distinct {colPo : Nat} {trs : List Tr}
    (h : (trs.map (fun tr => tr.textAt colPo)).Nodup) {trA trB : Tr}
    (heq : trA.textAt colPo = trB.textAt colPo)
    : ¬MergeSort.Precedes trs trA trB := by
  intro hprec
  have hpairwise := List.pairwise_map.mp h
  apply hpairwise.forall_sublist hprec heq

theorem keepsTies_sort (array : ArraySort) (colPo : Nat) (trs : List Tr)
    : KeepsTies colPo trs (array.sort (comparefn 1 colPo) trs) := by
  intro trA trB heq
  have hA : sameText colPo trA trA = true := by
    simp [sameText]
  have hB : sameText colPo trA trB = true := by
    simp [sameText, heq]
  rw [← MergeSort.precedes_filter_iff hA hB, sort_filter_sameText,
    MergeSort.precedes_filter_iff hA hB]

theorem precedes_sort_reverse_iff (array : ArraySort) (colPo : Nat) (trs : List Tr) {trA trB : Tr}
    (heq : trA.textAt colPo = trB.textAt colPo)
    : MergeSort.Precedes (array.sort (comparefn (-1) colPo) trs) trA trB
        ↔
      MergeSort.Precedes trs trB trA := by
  have hA : sameText colPo trA trA = true := by
    simp [sameText]
  have hB : sameText colPo trA trB = true := by
    simp [sameText, heq]
  rw [← MergeSort.precedes_filter_iff hA hB, sort_filter_sameText_reverse,
    MergeSort.precedes_reverse_iff, MergeSort.precedes_filter_iff hB hA]

theorem keepsTies_sort_reverse_iff (array : ArraySort) (colPo : Nat) {trs : List Tr}
    (hnodup : trs.Nodup)
    : KeepsTies colPo trs (array.sort (comparefn (-1) colPo) trs)
        ↔
      (trs.map (fun tr => tr.textAt colPo)).Nodup := by
  constructor
  . intro h
    unfold List.Nodup
    rw [List.pairwise_map, List.pairwise_iff_forall_sublist]
    intro trA trB hprec heq
    -- Two rows with equal cells have changed places.
    have hsorted := (h trA trB heq).mpr hprec
    rw [precedes_sort_reverse_iff array colPo trs heq] at hsorted
    apply MergeSort.Precedes.asymm hnodup hprec hsorted
  . intro hdistinct trA trB heq
    rw [precedes_sort_reverse_iff array colPo trs heq]
    constructor
    . intro hprec
      exact (not_precedes_of_distinct hdistinct heq.symm hprec).elim
    . intro hprec
      exact (not_precedes_of_distinct hdistinct heq hprec).elim

theorem keepsTies_iff (array : ArraySort) (tbodies : List (List Tr)) (b a : Nat)
    (hnode : (tbodies.flatten.map Tr.node).Nodup)
    : let afterB := customSortOnTheadClickService array tbodies b
      let afterA := customSortOnTheadClickService array afterB a
      KeepsTies a afterB.flatten afterA.flatten
        ↔
      Before (textAtRow afterB.flatten 1 a) (textAtRow afterB.flatten 0 a)
        ∨ (tbodies.flatten.map (fun tr => tr.textAt a)).Nodup := by
  intro afterB afterA
  have hperm := perm_customSortOnTheadClickService array tbodies b
  have hnodup := hperm.nodup_iff.mpr (List.Nodup.of_map _ hnode)
  rw [flatten_customSortOnTheadClickService array afterB a, sortMode_eq, ← (hperm.map _).nodup_iff]
  split
  . next hbefore => simp [hbefore, keepsTies_sort]
  . next hbefore => simp [hbefore, keepsTies_sort_reverse_iff array a hnodup, afterB]

def sameFirstCell : List (List Tr) :=
  [[row 0 ['a', 'x'], row 1 ['a', 'y'], row 2 ['b', 'z']]]

/-- The second click sorts in ascending order, and its rows with the cell `a` stay as they are. -/
theorem keepsTies_iff_sameFirstCell
    : let afterB := customSortOnTheadClickService ArraySort.halving sameFirstCell 1
      let afterA := customSortOnTheadClickService ArraySort.halving afterB 0
      KeepsTies 0 afterB.flatten afterA.flatten
        ∧
      MergeSort.Precedes afterA.flatten (row 1 ['a', 'y']) (row 0 ['a', 'x']) := by
  intro afterB afterA
  have hafterB : afterB = [[row 2 ['b', 'z'], row 1 ['a', 'y'], row 0 ['a', 'x']]] := by
    simp only [afterB, customSortOnTheadClickService, ArraySort.halving, sameFirstCell,
      List.flatten_singleton, MergeSort.mergeSort_triple]
    rw [if_neg (by decide), List.cons_merge_cons, if_neg (by decide), List.merge_right]
    decide
  have hkeeps : KeepsTies 0 afterB.flatten afterA.flatten := by
    apply (keepsTies_iff ArraySort.halving sameFirstCell 1 0 (by decide)).mpr
    left
    rw [show customSortOnTheadClickService ArraySort.halving sameFirstCell 1 = _ from hafterB]
    decide
  refine ⟨hkeeps, ?_⟩
  rw [hkeeps _ _ (by decide), hafterB]
  unfold MergeSort.Precedes
  decide

def sameSecondCell : List (List Tr) :=
  [[row 0 ['a', 'x'], row 1 ['b', 'x']]]

theorem not_keepsTies_sameSecondCell
    : let afterB := customSortOnTheadClickService ArraySort.halving sameSecondCell 0
      let afterA := customSortOnTheadClickService ArraySort.halving afterB 1
      ¬KeepsTies 1 afterB.flatten afterA.flatten := by
  have hafterB : customSortOnTheadClickService ArraySort.halving sameSecondCell 0
      = [[row 1 ['b', 'x'], row 0 ['a', 'x']]] := by
    simp only [customSortOnTheadClickService, ArraySort.halving, sameSecondCell,
      List.flatten_singleton, MergeSort.mergeSort_pair]
    decide
  have hafterA : customSortOnTheadClickService ArraySort.halving
      [[row 1 ['b', 'x'], row 0 ['a', 'x']]] 1
        =
      sameSecondCell := by
    simp only [customSortOnTheadClickService, ArraySort.halving, List.flatten_singleton,
      MergeSort.mergeSort_pair]
    decide
  dsimp only
  rw [hafterB, hafterA]
  intro h
  have hkeeps := h (row 0 ['a', 'x']) (row 1 ['b', 'x']) rfl
  revert hkeeps
  unfold MergeSort.Precedes
  decide

end CustomJs
