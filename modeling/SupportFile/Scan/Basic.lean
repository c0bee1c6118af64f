import Mathlib.Data.List.Basic
import Mathlib.Data.List.Induction

/-!
This module contains passes over a list that carry variables from one element to the next, and the
positions that the elements of a list have among those with the same key.
-/

namespace Scan

variable {σ : Type u} {α : Type v} {β : Type w}

def scan (item : σ → α → σ × β) (vars : σ) (rows : List α) : List β :=
  match rows with
  | [] => []
  | row :: rows => (item vars row).2 :: scan item (item vars row).1 rows

theorem scan_invariant {item : σ → α → σ × β} {Inv : σ → List β → List α → Prop}
    (hstep : ∀ vars done row rest, Inv vars done (row :: rest) →
      Inv (item vars row).1 (done ++ [(item vars row).2]) rest)
    {vars : σ} {done : List β} {rows : List α} (h : Inv vars done rows)
    : ∃ vars', Inv vars' (done ++ scan item vars rows) [] := by
  induction rows generalizing vars done with
  | nil =>
    refine ⟨vars, ?_⟩
    rw [scan, List.append_nil]
    exact h
  | cons row rows ih =>
    rcases ih (hstep _ _ _ _ h) with ⟨vars', hinv⟩
    refine ⟨vars', ?_⟩
    rw [scan, List.append_cons]
    exact hinv

theorem map_scan {item : σ → α → σ × β} {f : β → α} (h : ∀ vars row, f (item vars row).2 = row)
    (vars : σ) (rows : List α)
    : (scan item vars rows).map f = rows := by
  induction rows generalizing vars with
  | nil => rfl
  | cons row rows ih => rw [scan, List.map_cons, h, ih]

/--
`pre` is the last one of the keys `done` so far. As long as the keys come in an order, it alone tells
whether the next key is a new one.
-/
structure Boundary (R : κ → κ → Prop) (pre : Option κ) (done rest : List κ) : Prop where
  ordered : rest.Pairwise R
  eq_nil : pre = none → done = []
  done_before : ∀ k, pre = some k → ∀ k' ∈ done, R k' k
  before_rest : ∀ k, pre = some k → ∀ k' ∈ rest, R k k'

namespace Boundary

variable {R : κ → κ → Prop} {pre : Option κ} {done rest : List κ} {k : κ}

theorem start (h : rest.Pairwise R) : Boundary R none [] rest := by
  constructor
  . exact h
  . simp
  . simp
  . simp

theorem step [Std.Refl R] [IsTrans κ R] (h : Boundary R pre done (k :: rest))
    : Boundary R (some k) (done ++ [k]) rest := by
  have hordered := List.pairwise_cons.mp h.ordered
  constructor
  . apply hordered.right
  . simp
  . intro k' hk'
    rw [Option.some.injEq] at hk'
    subst hk'
    rw [List.forall_mem_append, List.forall_mem_singleton]
    refine ⟨?_, Std.Refl.refl k⟩
    intro k' hk'
    cases hpre : pre with
    | none =>
      rw [h.eq_nil hpre] at hk'
      contradiction
    | some k'' =>
      have hbefore := h.before_rest k'' hpre k List.mem_cons_self
      apply IsTrans.trans k' k'' k (h.done_before k'' hpre k' hk') hbefore
  . intro k' hk'
    rw [Option.some.injEq] at hk'
    subst hk'
    apply hordered.left

theorem not_mem [Std.Antisymm R] (h : Boundary R pre done (k :: rest)) (hk : pre ≠ some k)
    : k ∉ done := by
  intro hmem
  cases hpre : pre with
  | none =>
    rw [h.eq_nil hpre] at hmem
    contradiction
  | some k' =>
    have hbefore := h.before_rest k' hpre k List.mem_cons_self
    rw [hpre, antisymm hbefore (h.done_before k' hpre k hmem)] at hk
    contradiction

end Boundary

theorem countP_key_eq_zero [DecidableEq κ] {key : α → κ} {l : List α} {k : κ}
    (h : k ∉ l.map key)
    : l.countP (fun x => key x = k) = 0 := by
  rw [List.countP_eq_zero]
  intro x hx hkey
  apply h
  rw [decide_eq_true_eq] at hkey
  rw [← hkey]
  apply List.mem_map_of_mem hx

def Ranked [DecidableEq κ] (key : α → κ) (rank : α → Nat) (l : List α) : Prop :=
  ∀ before x after, l = before ++ x :: after →
    rank x = before.countP (fun y => key y = key x) + 1

section Ranked

variable [DecidableEq κ] {key : α → κ} {rank : α → Nat} {l : List α}

theorem ranked_nil : Ranked key rank [] := by
  intro before x after h
  simp at h

theorem ranked_concat_iff {x : α}
    : Ranked key rank (l ++ [x])
        ↔
      Ranked key rank l ∧ rank x = l.countP (fun y => key y = key x) + 1 := by
  unfold Ranked
  constructor
  . intro h
    constructor
    . intro before y after hl
      apply h before y (after ++ [x])
      rw [hl, List.append_assoc, List.cons_append]
    . apply h l x [] rfl
  . rintro ⟨hl, hx⟩ before y after heq
    rcases List.eq_nil_or_concat after with rfl | ⟨after, z, rfl⟩
    . rw [← List.concat_eq_append, ← List.concat_eq_append, List.concat_inj] at heq
      rw [← heq.left, ← heq.right]
      exact hx
    . rw [List.concat_eq_append, ← List.cons_append, ← List.append_assoc,
        ← List.concat_eq_append, ← List.concat_eq_append, List.concat_inj] at heq
      apply hl before y after heq.left

theorem Ranked.map_filter (h : Ranked key rank l) (k : κ)
    : (l.filter (fun x => key x = k)).map rank
        = List.range' 1 (l.countP (fun x => key x = k)) := by
  induction l using List.reverseRecOn with
  | nil => rfl
  | append_singleton l x ih =>
    rw [ranked_concat_iff] at h
    rw [List.filter_append, List.map_append, ih h.left, List.countP_append]
    by_cases hx : key x = k
    . subst hx
      have hone : [x].countP (fun y => key y = key x) = 1 := by
        simp
      rw [hone, List.range'_1_concat]
      simp [h.right, Nat.add_comm]
    . simp [hx]

end Ranked

section Window

variable {rank : α → Nat} {l : List α} {s : Nat}

theorem filter_lt_eq_take (h : l.map rank = List.range' s l.length) (hi : Nat)
    : l.filter (fun x => rank x < hi) = l.take (hi - s) := by
  induction l generalizing s with
  | nil => simp
  | cons x l ih =>
    rw [List.map_cons, List.length_cons, List.range'_succ, List.cons.injEq] at h
    have hl := ih h.right
    rw [List.filter_cons, hl, h.left]
    by_cases hlt : s < hi
    . have hsucc : hi - s = hi - (s + 1) + 1 := by
        omega
      rw [if_pos (by simpa using hlt), hsucc, List.take_succ_cons]
    . have hzero : hi - s = 0 := by
        omega
      have hzero' : hi - (s + 1) = 0 := by
        omega
      rw [if_neg (by simpa using hlt), hzero, hzero', List.take_zero, List.take_zero]

theorem filter_le_eq_drop (h : l.map rank = List.range' s l.length) (lo : Nat)
    : l.filter (fun x => lo ≤ rank x) = l.drop (lo - s) := by
  induction l generalizing s with
  | nil => simp
  | cons x l ih =>
    rw [List.map_cons, List.length_cons, List.range'_succ, List.cons.injEq] at h
    have hl := ih h.right
    rw [List.filter_cons, hl, h.left]
    by_cases hle : lo ≤ s
    . have hzero : lo - s = 0 := by
        omega
      have hzero' : lo - (s + 1) = 0 := by
        omega
      rw [if_pos (by simpa using hle), hzero, hzero', List.drop_zero, List.drop_zero]
    . have hsucc : lo - s = lo - (s + 1) + 1 := by
        omega
      rw [if_neg (by simpa using hle), hsucc, List.drop_succ_cons]

theorem filter_window (h : l.map rank = List.range' s l.length) (lo hi : Nat)
    : l.filter (fun x => lo ≤ rank x ∧ rank x < hi) = (l.take (hi - s)).drop (lo - s) := by
  have htake : (l.take (hi - s)).map rank = List.range' s (l.take (hi - s)).length := by
    rw [List.map_take, h, List.length_take]
    cases Nat.le_total (hi - s) l.length with
    | inl hle => rw [List.take_range'_of_length_ge hle, Nat.min_eq_left hle]
    | inr hle => rw [List.take_range'_of_length_le hle, Nat.min_eq_right hle]
  rw [← filter_le_eq_drop htake, ← filter_lt_eq_take h, List.filter_filter]
  simp

end Window

end Scan
