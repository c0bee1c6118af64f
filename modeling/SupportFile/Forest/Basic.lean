import Mathlib.Data.List.Nodup
import Mathlib.Data.Nat.Find
import Mathlib.Logic.Relator

/-!
This module contains the theory of forests that are given by their edges. `R a b` says that `b` is
a child of `a`, and in a forest no node is a child of two others. The nodes below a root are listed
level by level.
-/

namespace Forest

variable {α : Type u} {R : α → α → Prop}

/-- The node `b` is `n` edges below the node `a`. -/
inductive Steps (R : α → α → Prop) : Nat → α → α → Prop where
  | refl : Steps R 0 a a
  | tail : Steps R n a b → R b c → Steps R (n + 1) a c

namespace Steps

theorem trans {m n : Nat} {a b c : α} (hab : Steps R m a b) (hbc : Steps R n b c)
    : Steps R (m + n) a c := by
  induction hbc with
  | refl => exact hab
  | tail _ hedge ih => exact .tail (ih hab) hedge

theorem head {n : Nat} {a b c : α} (hab : R a b) (hbc : Steps R n b c)
    : Steps R (n + 1) a c := by
  rw [Nat.add_comm]
  exact (Steps.tail .refl hab).trans hbc

theorem split {m n : Nat} {a c : α} (h : Steps R (m + n) a c)
    : ∃ b, Steps R m a b ∧ Steps R n b c := by
  induction n generalizing c with
  | zero => exact ⟨c, h, .refl⟩
  | succ n ih =>
    cases h with
    | tail h hedge =>
      rcases ih h with ⟨b, hab, hbc⟩
      exact ⟨b, hab, .tail hbc hedge⟩

theorem start_unique (hR : Relator.LeftUnique R) {n : Nat} {a b c : α} (ha : Steps R n a c)
    (hb : Steps R n b c)
    : a = b := by
  induction n generalizing c with
  | zero =>
    cases ha
    cases hb
    rfl
  | succ n ih =>
    cases ha with
    | tail ha hedge =>
      cases hb with
      | tail hb hedge' =>
        have := hR hedge hedge'
        subst this
        apply ih ha hb

theorem cycle {n : Nat} {a : α} (h : Steps R n a a) (k : Nat) : Steps R (k * n) a a := by
  induction k with
  | zero =>
    rw [Nat.zero_mul]
    exact .refl
  | succ k ih =>
    rw [Nat.succ_mul]
    apply ih.trans h

theorem cases_root {n : Nat} {a b : α} (h : Steps R n a b) (hb : ∀ p, ¬R p b)
    : n = 0 ∧ a = b := by
  cases h with
  | refl => exact ⟨rfl, rfl⟩
  | tail _ hedge => exact absurd hedge (hb _)

theorem cases_edge (hR : Relator.LeftUnique R) {n : Nat} {a b p : α} (h : Steps R n a b)
    (hedge : R p b)
    : (n = 0 ∧ a = b) ∨ ∃ m, n = m + 1 ∧ Steps R m a p := by
  cases h with
  | refl => exact .inl ⟨rfl, rfl⟩
  | @tail m _ p' _ h hedge' =>
    right
    have := hR hedge hedge'
    subst this
    exact ⟨m, rfl, h⟩

theorem start_of_loop (hR : Relator.LeftUnique R) {n : Nat} {a b : α} (h : Steps R n a b)
    (hloop : R b b)
    : a = b := by
  have hcycle := (Steps.tail .refl hloop).cycle n
  rw [Nat.mul_one] at hcycle
  apply h.start_unique hR hcycle

theorem exists_iff_of_root {a b : α} (hb : ∀ p, ¬R p b) : (∃ n, Steps R n a b) ↔ a = b := by
  constructor
  . rintro ⟨n, h⟩
    exact (h.cases_root hb).right
  . rintro rfl
    exact ⟨0, .refl⟩

theorem exists_iff_of_edge (hR : Relator.LeftUnique R) {a b p : α} (hedge : R p b)
    : (∃ n, Steps R n a b) ↔ a = b ∨ ∃ n, Steps R n a p := by
  constructor
  . rintro ⟨n, h⟩
    cases h.cases_edge hR hedge with
    | inl h => exact .inl h.right
    | inr h =>
      rcases h with ⟨m, _, h⟩
      exact .inr ⟨m, h⟩
  . intro h
    cases h with
    | inl h =>
      rw [h]
      exact ⟨0, .refl⟩
    | inr h =>
      rcases h with ⟨n, h⟩
      exact ⟨n + 1, .tail h hedge⟩

theorem exists_iff_of_loop (hR : Relator.LeftUnique R) {a b : α} (hloop : R b b)
    : (∃ n, Steps R n a b) ↔ a = b := by
  constructor
  . rintro ⟨n, h⟩
    apply h.start_of_loop hR hloop
  . rintro rfl
    exact ⟨0, .refl⟩

end Steps

def Bounded (R : α → α → Prop) (a : α) (d : Nat) : Prop :=
  ∀ n b, Steps R n a b → n ≤ d

namespace Bounded

variable {a : α} {d : Nat} (h : Bounded R a d)
include h

theorem eq_zero_of_cycle {n : Nat} (hcycle : Steps R n a a) : n = 0 := by
  have hlong := h _ _ (hcycle.cycle (d + 1))
  cases n with
  | zero => rfl
  | succ n =>
    rw [Nat.mul_succ] at hlong
    omega

theorem level_unique (hR : Relator.LeftUnique R) {m n : Nat} {b : α} (hm : Steps R m a b)
    (hn : Steps R n a b)
    : m = n := by
  suffices hle : ∀ {m n}, Steps R m a b → Steps R n a b → n ≤ m by
    have := hle hm hn
    have := hle hn hm
    omega
  intro m n hm hn
  by_contra hlt
  -- The longer way passes the root again, on a cycle.
  have hn' : Steps R (n - m + m) a b := by
    rwa [Nat.sub_add_cancel (by omega)]
  rcases hn'.split with ⟨c, hac, hcb⟩
  have := hcb.start_unique hR hm
  subst this
  have := h.eq_zero_of_cycle hac
  omega

theorem child {b : α} (hedge : R a b) : Bounded R b (d - 1) := by
  intro n c hn
  have := h _ _ (Steps.head hedge hn)
  omega

end Bounded

structure Expands (R : α → α → Prop) (expand : List α → List α) : Prop where
  mem_iff : ∀ l b, b ∈ expand l ↔ ∃ a ∈ l, R a b
  nodup : ∀ l, (expand l).Nodup

def level (expand : List α → List α) (root : α) (n : Nat) : List α :=
  match n with
  | 0 => [root]
  | n + 1 => expand (level expand root n)

def levels (expand : List α → List α) (root : α) (n : Nat) : List α :=
  (List.range n).flatMap (level expand root)

namespace Expands

variable {expand : List α → List α} (h : Expands R expand) {root : α}
include h

theorem expand_nil : expand [] = [] := by
  rw [List.eq_nil_iff_forall_not_mem]
  intro b hb
  rw [h.mem_iff] at hb
  rcases hb with ⟨a, ha, _⟩
  simp at ha

theorem mem_level_iff {n : Nat} {b : α} : b ∈ level expand root n ↔ Steps R n root b := by
  induction n generalizing b with
  | zero =>
    rw [level, List.mem_singleton]
    constructor
    . intro heq
      rw [heq]
      exact .refl
    . intro hsteps
      cases hsteps
      rfl
  | succ n ih =>
    rw [level, h.mem_iff]
    constructor
    . rintro ⟨a, ha, hedge⟩
      exact .tail (ih.mp ha) hedge
    . intro hsteps
      cases hsteps with
      | tail hsteps hedge => exact ⟨_, ih.mpr hsteps, hedge⟩

theorem nodup_level (n : Nat) : (level expand root n).Nodup := by
  cases n with
  | zero =>
    rw [level]
    apply List.nodup_singleton
  | succ n =>
    rw [level]
    apply h.nodup

theorem mem_levels_iff {n : Nat} {b : α}
    : b ∈ levels expand root n ↔ ∃ m, m < n ∧ Steps R m root b := by
  unfold levels
  simp only [List.mem_flatMap, List.mem_range, h.mem_level_iff]

theorem nodup_levels (hR : Relator.LeftUnique R) {d : Nat} (hbounded : Bounded R root d) (n : Nat)
    : (levels expand root n).Nodup := by
  unfold levels
  rw [List.nodup_flatMap]
  constructor
  . intro m _
    apply h.nodup_level
  . apply List.Pairwise.imp _ List.nodup_range
    intro i j hne b hi hj
    rw [h.mem_level_iff] at hi hj
    apply hne (hbounded.level_unique hR hi hj)

theorem level_eq_nil_of_le {m n : Nat} (hm : level expand root m = []) (hmn : m ≤ n)
    : level expand root n = [] := by
  induction hmn with
  | refl => exact hm
  | step _ ih => rw [level, ih, h.expand_nil]

theorem level_eq_nil_of_bounded {d n : Nat} (hbounded : Bounded R root d) (hn : d < n)
    : level expand root n = [] := by
  rw [List.eq_nil_iff_forall_not_mem]
  intro b hb
  rw [h.mem_level_iff] at hb
  have := hbounded _ _ hb
  omega

theorem levels_eq_of_le {m n : Nat} (hm : level expand root m = []) (hmn : m ≤ n)
    : levels expand root n = levels expand root m := by
  induction hmn with
  | refl => rfl
  | step hmn ih =>
    unfold levels at *
    rw [List.range_succ, List.flatMap_append, ih, List.flatMap_singleton,
      h.level_eq_nil_of_le hm hmn, List.append_nil]

theorem bounded_of_level_eq_nil {d : Nat} (hd : level expand root (d + 1) = [])
    : Bounded R root d := by
  intro n b hsteps
  rw [← h.mem_level_iff] at hsteps
  by_contra hn
  rw [h.level_eq_nil_of_le hd (by omega)] at hsteps
  simp at hsteps

theorem exists_height {d : Nat} (hbounded : Bounded R root d)
    : ∃ m, 0 < m ∧ m ≤ d + 1 ∧ (∀ i, i < m → level expand root i ≠ [])
        ∧ level expand root m = [] := by
  classical
  have hexists : ∃ m, level expand root m = [] := by
    exact ⟨d + 1, h.level_eq_nil_of_bounded hbounded (by omega)⟩
  refine ⟨Nat.find hexists, ?_, ?_, ?_, Nat.find_spec hexists⟩
  . rw [Nat.find_pos]
    simp [level]
  . apply Nat.find_min'
    apply h.level_eq_nil_of_bounded hbounded (by omega)
  . intro i hi
    apply Nat.find_min hexists hi

end Expands

end Forest
