import Mathlib.Data.List.Basic
import Mathlib.Data.List.DropRight
import Mathlib.Data.List.Perm.Subperm

/-!
This module contains lists that are cut into pieces at a separator, what the pieces of a concatenation
and their lengths are, and where a list without separators can be found.
-/

namespace SepList

variable {α : Type u}

def joined (x : α) (pieces : List (List α)) : List α :=
  pieces.flatMap (fun piece => x :: piece)

def weight : List (List α) → Nat
  | [] => 0
  -- A piece takes its own length and that of one separator.
  | piece :: pieces => piece.length + 1 + weight pieces

@[simp]
theorem weight_nil : weight ([] : List (List α)) = 0 := by
  rfl

@[simp]
theorem weight_cons (piece : List α) (pieces : List (List α))
    : weight (piece :: pieces) = piece.length + 1 + weight pieces := by
  rfl

@[simp]
theorem weight_append (pieces pieces' : List (List α))
    : weight (pieces ++ pieces') = weight pieces + weight pieces' := by
  induction pieces with
  | nil => simp
  | cons piece pieces ih =>
    rw [List.cons_append, weight_cons, weight_cons, ih]
    omega

theorem weight_eq_of_perm {pieces pieces' : List (List α)} (h : pieces.Perm pieces')
    : weight pieces = weight pieces' := by
  induction h with
  | nil => rfl
  | cons piece _ ih => rw [weight_cons, weight_cons, ih]
  | swap piece piece' pieces =>
    simp only [weight_cons]
    omega
  | trans _ _ ih ih' => rw [ih, ih']

theorem weight_le_of_sublist {pieces pieces' : List (List α)} (h : pieces.Sublist pieces')
    : weight pieces ≤ weight pieces' := by
  induction h with
  | slnil => apply Nat.le_refl
  | cons piece _ ih =>
    rw [weight_cons]
    omega
  | cons_cons piece _ ih =>
    rw [weight_cons, weight_cons]
    omega

theorem weight_le_of_subset {pieces pieces' : List (List α)} (hnodup : pieces.Nodup)
    (h : pieces ⊆ pieces')
    : weight pieces ≤ weight pieces' := by
  rcases List.subperm_of_subset hnodup h with ⟨pieces'', hperm, hsub⟩
  rw [← weight_eq_of_perm hperm]
  apply weight_le_of_sublist hsub

theorem length_le_weight (pieces : List (List α)) : pieces.length ≤ weight pieces := by
  induction pieces with
  | nil => apply Nat.le_refl
  | cons piece pieces ih =>
    rw [weight_cons, List.length_cons]
    omega

theorem length_joined (x : α) (pieces : List (List α))
    : (joined x pieces).length = weight pieces := by
  induction pieces with
  | nil => rfl
  | cons piece pieces ih =>
    unfold joined at *
    rw [List.flatMap_cons, List.length_append, ih, weight_cons, List.length_cons]

theorem drop_joined (x : α) (pieces : List (List α))
    : (joined x pieces).drop 1 = [x].intercalate pieces := by
  induction pieces with
  | nil => rfl
  | cons piece pieces ih =>
    unfold joined at *
    rw [List.flatMap_cons, List.cons_append, List.drop_succ_cons, List.drop_zero]
    cases pieces with
    | nil => simp
    | cons piece' pieces =>
      rw [List.intercalate_cons_cons, ← ih]
      simp

theorem length_intercalate (x : α) {pieces : List (List α)} (h : pieces ≠ [])
    : ([x].intercalate pieces).length + 1 = weight pieces := by
  induction pieces with
  | nil => contradiction
  | cons piece pieces ih =>
    cases pieces with
    | nil => simp
    | cons piece' pieces =>
      have ih := ih (by simp)
      rw [List.intercalate_cons_cons, weight_cons]
      simp only [List.length_append, List.length_singleton]
      omega

theorem infix_append_cons_iff {p : List α} {x : α} (hx : x ∉ p) (s t : List α)
    : p <:+: s ++ x :: t ↔ p <:+: s ∨ p <:+: t := by
  have not_starts {q t : List α} (hq : q ≠ []) (hqp : q ⊆ p) : ¬q <+: x :: t := by
    intro hpre
    rw [List.prefix_cons_iff] at hpre
    rcases hpre with hnil | ⟨q', heq, _⟩
    . contradiction
    . apply hx (hqp _)
      rw [heq]
      apply List.mem_cons_self
  by_cases hp : p = []
  . simp [hp]
  . rw [List.infix_append_iff_ne_nil, List.infix_cons_iff]
    constructor
    . rintro (hs | (hpre | ht) | ⟨q, q', _, hq', heq, _, hpre⟩)
      . exact Or.inl hs
      . exact (not_starts hp (List.Subset.refl p) hpre).elim
      . exact Or.inr ht
      . refine (not_starts hq' ?_ hpre).elim
        rw [heq]
        apply List.subset_append_right
    . rintro (hs | ht)
      . exact Or.inl hs
      . exact Or.inr (Or.inl (Or.inr ht))

def terminated (x : α) (pieces : List (List α)) : List α :=
  pieces.flatMap (fun piece => piece ++ [x])

theorem infix_terminated_iff {p : List α} {x : α} (hx : x ∉ p) (hp : p ≠ [])
    (pieces : List (List α))
    : p <:+: terminated x pieces ↔ ∃ piece ∈ pieces, p <:+: piece := by
  unfold terminated
  induction pieces with
  | nil => simp [hp]
  | cons piece pieces ih =>
    rw [List.flatMap_cons, List.append_assoc, List.singleton_append, infix_append_cons_iff hx, ih]
    simp

variable [BEq α] [LawfulBEq α]

theorem infix_rdropWhile_iff {p : List α} {x : α} (hx : x ∉ p) (s : List α)
    : p <:+: s.rdropWhile (· == x) ↔ p <:+: s := by
  induction s using List.reverseRecOn with
  | nil => simp
  | append_singleton s y ih =>
    rw [List.rdropWhile_concat]
    split
    . next heq =>
      rw [beq_iff_eq] at heq
      rw [heq, ih, infix_append_cons_iff hx, List.infix_nil]
      constructor
      . intro h
        exact Or.inl h
      . rintro (h | h)
        . exact h
        . simp [h]
    . rfl

theorem weight_splitOn (x : α) (l : List α) : weight (l.splitOn x) = l.length + 1 := by
  rw [← length_intercalate x (List.splitOn_ne_nil x l), List.intercalate_splitOn]

theorem weight_flatMap_splitOn (x : α) (ls : List (List α))
    : weight (ls.flatMap (fun l => l.splitOn x)) = weight ls := by
  induction ls with
  | nil => rfl
  | cons l ls ih => rw [List.flatMap_cons, weight_append, weight_splitOn, weight_cons, ih]

theorem splitOn_append_joined (x : α) (l : List α) (ls : List (List α))
    : (l ++ joined x ls).splitOn x = (l :: ls).flatMap (fun l => l.splitOn x) := by
  induction ls generalizing l with
  | nil => simp [joined]
  | cons l' ls ih =>
    have hjoined : joined x (l' :: ls) = x :: (l' ++ joined x ls) := by
      simp [joined]
    simp only [hjoined, List.splitOn_append_cons_self, ih, List.flatMap_cons]

end SepList
