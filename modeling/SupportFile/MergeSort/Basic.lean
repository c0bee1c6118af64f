import Mathlib.Data.List.Pairwise
import Mathlib.Data.List.Sort

/-!
This module contains the merge sorts that are given nothing but an answer whether the right one of two
elements goes first. The answers need not be those of an order.
-/

namespace MergeSort

variable {α : Type u} {takesRight : α → α → Bool}

/--
`Sorts takesRight xs zs` means that some merge sort turns `xs` into `zs`. It is free to choose where it
splits a list.
-/
inductive Sorts (takesRight : α → α → Bool) : List α → List α → Prop where
  | nil : Sorts takesRight [] []
  | singleton (x : α) : Sorts takesRight [x] [x]
  | merge : Sorts takesRight xs xs' → Sorts takesRight ys ys' →
      Sorts takesRight (xs ++ ys) (xs'.merge ys' (fun x y => !takesRight x y))

theorem Sorts.perm {xs zs : List α} (h : Sorts takesRight xs zs) : zs.Perm xs := by
  induction h with
  | nil => apply List.Perm.refl
  | singleton => apply List.Perm.refl
  | @merge xs xs' ys ys' _ _ ihx ihy =>
    calc (xs'.merge ys' (fun x y => !takesRight x y)).Perm (xs' ++ ys') := List.merge_perm_append _
      (xs' ++ ys').Perm (xs ++ ys) := ihx.append ihy

section Order

structure Orders (takesRight : α → α → Bool) (R : α → α → Prop) : Prop where
  trans : ∀ x y z, R x y → R y z → R x z
  left : ∀ x y, takesRight x y = false → R x y
  right : ∀ x y, takesRight x y = true → R y x

variable {R : α → α → Prop} (h : Orders takesRight R)

include h

theorem pairwise_merge {xs ys : List α} (hxs : xs.Pairwise R) (hys : ys.Pairwise R)
    : (xs.merge ys (fun x y => !takesRight x y)).Pairwise R := by
  induction xs generalizing ys with
  | nil => simpa using hys
  | cons x xs ihx =>
    induction ys with
    | nil => simpa using hxs
    | cons y ys ihy =>
      rw [List.pairwise_cons] at hxs hys
      rw [List.cons_merge_cons]
      cases hright' : takesRight x y with
      | false =>
        have hxy := h.left x y hright'
        have hrest := ihx hxs.right (List.pairwise_cons.mpr hys)
        simp only [Bool.not_false, if_true]
        rw [List.pairwise_cons]
        refine ⟨?_, hrest⟩
        intro z hz
        rw [List.mem_merge] at hz
        rcases hz with hz | hz
        . apply hxs.left z hz
        . rw [List.mem_cons] at hz
          rcases hz with rfl | hz
          . exact hxy
          . apply h.trans x y z hxy (hys.left z hz)
      | true =>
        have hyx := h.right x y hright'
        have hrest := ihy hys.right
        simp only [Bool.not_true, Bool.false_eq_true, if_false]
        rw [List.pairwise_cons]
        refine ⟨?_, hrest⟩
        intro z hz
        rw [List.mem_merge] at hz
        rcases hz with hz | hz
        . rw [List.mem_cons] at hz
          rcases hz with rfl | hz
          . exact hyx
          . apply h.trans y x z hyx (hxs.left z hz)
        . apply hys.left z hz

theorem Sorts.pairwise {xs zs : List α} (hs : Sorts takesRight xs zs) : zs.Pairwise R := by
  induction hs with
  | nil => apply List.Pairwise.nil
  | singleton x => apply List.pairwise_singleton
  | merge _ _ ihx ihy => exact pairwise_merge h ihx ihy

variable {p : α → Bool} (hrefl : ∀ x, R x x)

include hrefl

omit h in
-- Nothing from `x` on is in the class if nothing that may follow `x` is.
theorem filter_eq_nil_of_head {x : α} {xs : List α} (hxs : (x :: xs).Pairwise R)
    (hp : ∀ x', R x x' → ¬p x' = true)
    : (x :: xs).filter p = [] := by
  rw [List.filter_eq_nil_iff]
  intro x' hx'
  rw [List.mem_cons] at hx'
  cases hx' with
  | inl heq =>
    rw [heq]
    apply hp x (hrefl x)
  | inr hmem => exact hp x' ((List.pairwise_cons.mp hxs).left x' hmem)

omit h in
theorem filter_merge (hp : ∀ x x' y, R x x' → p x' = true → p y = true → takesRight x y = false)
    {xs : List α} (hxs : xs.Pairwise R) (ys : List α)
    : (xs.merge ys (fun x y => !takesRight x y)).filter p = xs.filter p ++ ys.filter p := by
  induction xs generalizing ys with
  | nil => simp
  | cons x xs ihx =>
    induction ys with
    | nil => simp
    | cons y ys ihy =>
      rw [List.cons_merge_cons]
      cases hright : takesRight x y with
      | false =>
        simp only [Bool.not_false, if_true, List.filter_cons]
        rw [ihx (List.pairwise_cons.mp hxs).right]
        split <;> simp [List.filter_cons]
      | true =>
        have hcons : (y :: ys).filter p = if p y then y :: ys.filter p else ys.filter p :=
          List.filter_cons
        simp only [Bool.not_true, Bool.false_eq_true, if_false]
        rw [List.filter_cons, ihy, hcons]
        split
        . next hy =>
          have hnil : (x :: xs).filter p = [] := by
            apply filter_eq_nil_of_head hrefl hxs
            intro x' hxx' hpx'
            rw [hp x x' y hxx' hpx' hy] at hright
            contradiction
          rw [hnil]
          rfl
        . rfl

omit h in
theorem filter_merge_comm
    (hp : ∀ x y y', R y y' → p x = true → p y' = true → takesRight x y = true)
    (xs : List α) {ys : List α} (hys : ys.Pairwise R)
    : (xs.merge ys (fun x y => !takesRight x y)).filter p = ys.filter p ++ xs.filter p := by
  induction xs generalizing ys with
  | nil => simp
  | cons x xs ihx =>
    induction ys with
    | nil => simp
    | cons y ys ihy =>
      rw [List.cons_merge_cons]
      cases hright : takesRight x y with
      | false =>
        have hcons : (x :: xs).filter p = if p x then x :: xs.filter p else xs.filter p :=
          List.filter_cons
        simp only [Bool.not_false, if_true]
        rw [List.filter_cons, ihx hys, hcons]
        split
        . next hx =>
          have hnil : (y :: ys).filter p = [] := by
            apply filter_eq_nil_of_head hrefl hys
            intro y' hyy' hpy'
            rw [hp x y y' hyy' hx hpy'] at hright
            contradiction
          rw [hnil]
          rfl
        . rfl
      | true =>
        simp only [Bool.not_true, Bool.false_eq_true, if_false, List.filter_cons]
        rw [ihy (List.pairwise_cons.mp hys).right]
        split <;> simp [List.filter_cons]

theorem Sorts.filter_eq {xs zs : List α} (hs : Sorts takesRight xs zs)
    (hp : ∀ x x' y, R x x' → p x' = true → p y = true → takesRight x y = false)
    : zs.filter p = xs.filter p := by
  induction hs with
  | nil => rfl
  | singleton => rfl
  | merge hsx _ ihx ihy =>
    rw [filter_merge hrefl hp (hsx.pairwise h), ihx, ihy, List.filter_append]

theorem Sorts.filter_eq_reverse {xs zs : List α} (hs : Sorts takesRight xs zs)
    (hp : ∀ x y y', R y y' → p x = true → p y' = true → takesRight x y = true)
    : zs.filter p = (xs.filter p).reverse := by
  induction hs with
  | nil => rfl
  | singleton x =>
    rw [List.filter_cons]
    split <;> rfl
  | merge _ hsy ihx ihy =>
    rw [filter_merge_comm hrefl hp _ (hsy.pairwise h), ihx, ihy, List.filter_append,
      List.reverse_append]

end Order

section Precedes

variable {x y : α} {xs : List α}

def Precedes (xs : List α) (x y : α) : Prop :=
  [x, y].Sublist xs

theorem Precedes.mem_right (h : Precedes xs x y) : y ∈ xs := by
  apply h.subset
  apply List.mem_cons_of_mem _ List.mem_cons_self

theorem precedes_filter_iff {p : α → Bool} (hx : p x = true) (hy : p y = true)
    : Precedes (xs.filter p) x y ↔ Precedes xs x y := by
  constructor
  . intro h
    apply h.trans List.filter_sublist
  . intro h
    have hfilter := h.filter p
    rw [List.filter_cons_of_pos hx, List.filter_cons_of_pos hy] at hfilter
    exact hfilter

theorem precedes_reverse_iff : Precedes xs.reverse x y ↔ Precedes xs y x := by
  unfold Precedes
  rw [← List.reverse_sublist]
  simp

theorem Precedes.asymm (hnodup : xs.Nodup) (hxy : Precedes xs x y) : ¬Precedes xs y x := by
  intro hyx
  unfold Precedes at *
  induction xs with
  | nil => simp at hxy
  | cons z xs ih =>
    rw [List.nodup_cons] at hnodup
    cases hxy with
    | cons _ hxy =>
      cases hyx with
      | cons _ hyx => exact ih hnodup.right hxy hyx
      | cons_cons => exact hnodup.left (mem_right hxy)
    | cons_cons _ hy =>
      cases hyx with
      | cons _ hyx => exact hnodup.left (mem_right hyx)
      | cons_cons => exact hnodup.left (List.singleton_sublist.mp hy)

end Precedes

theorem sorts_mergeSort (takesRight : α → α → Bool) (xs : List α)
    : Sorts takesRight xs (xs.mergeSort (fun x y => !takesRight x y)) := by
  match xs with
  | [] =>
    rw [List.mergeSort_nil]
    apply Sorts.nil
  | [x] =>
    rw [List.mergeSort_singleton]
    apply Sorts.singleton
  | x :: y :: xs =>
    rw [List.mergeSort]
    have hfst : ((x :: y :: xs).take (((x :: y :: xs).length + 1) / 2)).length
        < (x :: y :: xs).length := by
      simp
      omega
    have hsnd : ((x :: y :: xs).drop (((x :: y :: xs).length + 1) / 2)).length
        < (x :: y :: xs).length := by
      simp
      omega
    have hsorts := Sorts.merge
      (sorts_mergeSort takesRight ((x :: y :: xs).take (((x :: y :: xs).length + 1) / 2)))
      (sorts_mergeSort takesRight ((x :: y :: xs).drop (((x :: y :: xs).length + 1) / 2)))
    rw [List.take_append_drop] at hsorts
    simpa [List.MergeSort.Internal.splitInTwo_fst] using hsorts
termination_by xs.length

theorem mergeSort_pair (le : α → α → Bool) (x y : α)
    : [x, y].mergeSort le = if le x y then [x, y] else [y, x] := by
  rw [List.mergeSort]
  simp [List.MergeSort.Internal.splitInTwo_fst, List.MergeSort.Internal.splitInTwo_snd,
    List.cons_merge_cons]

theorem mergeSort_triple (le : α → α → Bool) (x y z : α)
    : [x, y, z].mergeSort le = (if le x y then [x, y] else [y, x]).merge [z] le := by
  rw [List.mergeSort]
  simp [List.MergeSort.Internal.splitInTwo_fst, List.MergeSort.Internal.splitInTwo_snd,
    mergeSort_pair]

theorem mergeSort_eq_of_perm {le : α → α → Bool} (htrans : ∀ x y z, le x y → le y z → le x z)
    (htotal : ∀ x y, le x y || le y x) {xs zs : List α} (hperm : zs.Perm xs)
    (hzs : zs.Pairwise (fun x y => le x y ∧ ¬le y x))
    : xs.mergeSort le = zs := by
  have hne : zs.Pairwise (fun x y => ¬(le x y ∧ le y x)) := by
    apply List.Pairwise.imp _ hzs
    intro x y h hxy
    apply h.right hxy.right
  have hsymm : Std.Symm (fun x y => ¬(le x y = true ∧ le y x = true)) := by
    constructor
    intro x y h hyx
    apply h hyx.symm
  apply @List.Perm.eq_of_pairwise _ (fun x y => le x y = true)
  . intro x y hx hy hxy hyx
    by_contra hxyne
    rw [List.mem_mergeSort, ← hperm.mem_iff] at hx
    apply hne.forall hx hy hxyne ⟨hxy, hyx⟩
  . apply List.pairwise_mergeSort htrans htotal
  . apply List.Pairwise.imp _ hzs
    intro x y h
    apply h.left
  . apply (List.mergeSort_perm _ _).trans hperm.symm

end MergeSort
