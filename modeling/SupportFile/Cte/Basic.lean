import Mathlib.Data.List.Chain
import SupportFile.Forest.Basic

/-!
This module contains recursive common table expressions. Each round joins the rows of the round before
it with their partners, and the rows of all rounds are the value of the expression. A round that has
rows counts for the depth of the recursion, whose limit must not be exceeded.
-/

namespace Cte

variable {ρ : Type u} {κ : Type v}

/-- The rows of a round may come in any order. -/
inductive Rounds (partners : ρ → List ρ) : Nat → List ρ → List ρ → Prop where
  | done : Rounds partners depth [] []
  | next : working ≠ [] → next.Perm (working.flatMap partners) → Rounds partners depth next rows →
      Rounds partners (depth + 1) working (working ++ rows)

def Returns (partners : ρ → List ρ) (depth : Nat) (anchor rows : List ρ) : Prop :=
  ∃ working, working.Perm anchor ∧ Rounds partners depth working rows

-- The value for which the rows of each round come in the order of the rows that they are joined with.
def eval (partners : ρ → List ρ) (depth : Nat) (working : List ρ) : Option (List ρ) :=
  match depth, working with
  | _, [] => some []
  | 0, _ :: _ => none
  | depth + 1, row :: rows =>
    (eval partners depth ((row :: rows).flatMap partners)).map (row :: rows ++ ·)

example : eval (fun n => if n < 4 then [n + 1, n + 2] else []) 4 [2] = some [2, 3, 4, 4, 5] := by
  decide

variable {partners : ρ → List ρ} {depth : Nat} {working rows : List ρ}

@[simp]
theorem eval_nil (depth : Nat) : eval partners depth [] = some [] := by
  cases depth <;> rfl

theorem eval_succ (hne : working ≠ [])
    : eval partners (depth + 1) working
        = (eval partners depth (working.flatMap partners)).map (working ++ ·) := by
  cases working with
  | nil => contradiction
  | cons row rows => rfl

theorem Rounds.eq_nil (h : Rounds partners depth [] rows) : rows = [] := by
  cases h with
  | done => rfl
  | next hne => contradiction

theorem rounds_of_eval (h : eval partners depth working = some rows)
    : Rounds partners depth working rows := by
  induction depth generalizing working rows with
  | zero =>
    cases working with
    | nil =>
      rw [eval_nil, Option.some.injEq] at h
      rw [← h]
      exact .done
    | cons row working => simp [eval] at h
  | succ depth ih =>
    by_cases hne : working = []
    . subst hne
      rw [eval_nil, Option.some.injEq] at h
      rw [← h]
      exact .done
    . rw [eval_succ hne, Option.map_eq_some_iff] at h
      rcases h with ⟨rest, heval, rfl⟩
      exact .next hne (List.Perm.refl _) (ih heval)

theorem Rounds.eval (h : Rounds partners depth working rows) {working' : List ρ}
    (hperm : working'.Perm working)
    : ∃ rows', Cte.eval partners depth working' = some rows' ∧ rows'.Perm rows := by
  induction h generalizing working' with
  | done =>
    rw [List.perm_nil.mp hperm]
    exact ⟨[], eval_nil _, List.Perm.refl _⟩
  | next hne hnext _ ih =>
    have hne' : working' ≠ [] := by
      rintro rfl
      exact hne (List.nil_perm.mp hperm)
    rcases ih ((hperm.flatMap_right partners).trans hnext.symm) with ⟨rest, heval, hrest⟩
    refine ⟨working' ++ rest, ?_, hperm.append hrest⟩
    rw [eval_succ hne', heval, Option.map_some]

theorem Returns.eval {anchor : List ρ} (h : Returns partners depth anchor rows)
    : ∃ rows', Cte.eval partners depth anchor = some rows' ∧ rows'.Perm rows := by
  rcases h with ⟨working, hperm, hrounds⟩
  exact hrounds.eval hperm.symm

theorem returns_of_eval {anchor : List ρ} (h : eval partners depth anchor = some rows)
    : Returns partners depth anchor rows := by
  exact ⟨anchor, List.Perm.refl _, rounds_of_eval h⟩

theorem exists_returns_iff {anchor : List ρ}
    : (∃ rows, Returns partners depth anchor rows) ↔ (eval partners depth anchor).isSome := by
  rw [Option.isSome_iff_exists]
  constructor
  . rintro ⟨rows, h⟩
    rcases h.eval with ⟨rows', heval, _⟩
    exact ⟨rows', heval⟩
  . rintro ⟨rows, h⟩
    exact ⟨rows, returns_of_eval h⟩

def level (partners : ρ → List ρ) (working : List ρ) (n : Nat) : List ρ :=
  match n with
  | 0 => working
  | n + 1 => level partners (working.flatMap partners) n

theorem level_nil (n : Nat) : level partners [] n = [] := by
  induction n with
  | zero => rfl
  | succ n ih => rw [level, List.flatMap_nil, ih]

theorem level_succ (n : Nat)
    : level partners working (n + 1) = (level partners working n).flatMap partners := by
  induction n generalizing working with
  | zero => rfl
  | succ n ih => rw [level, ih, level]

theorem eval_eq_some_iff
    : eval partners depth working = some rows
        ↔
      level partners working depth = []
        ∧
      rows = (List.range depth).flatMap (level partners working) := by
  induction depth generalizing working rows with
  | zero =>
    cases working with
    | nil => simp [level, eq_comm]
    | cons row working => simp [eval, level]
  | succ depth ih =>
    have hrange : (List.range (depth + 1)).flatMap (level partners working)
        = working ++ (List.range depth).flatMap (level partners (working.flatMap partners)) := by
      rw [List.range_succ_eq_map, List.flatMap_cons, List.flatMap_map]
      rfl
    by_cases hne : working = []
    . subst hne
      have hnil : (List.range (depth + 1)).flatMap (level partners []) = [] := by
        rw [List.flatMap_eq_nil_iff]
        intro n _
        apply level_nil
      rw [eval_nil, level_nil, hnil]
      simp [eq_comm]
    . rw [eval_succ hne, Option.map_eq_some_iff, hrange, level]
      simp only [ih]
      constructor
      . rintro ⟨rest, ⟨hnil, rfl⟩, rfl⟩
        exact ⟨hnil, rfl⟩
      . rintro ⟨hnil, rfl⟩
        exact ⟨_, ⟨hnil, rfl⟩, rfl⟩

/-- If the keys of the partners depend on the key only, so do the keys of a level. -/
theorem map_level {key : ρ → κ} {partnersOf : κ → List κ} (working : List ρ)
    (hpartners : ∀ row, (partners row).map key = partnersOf (key row)) (n : Nat)
    : (level partners working n).map key = level partnersOf (working.map key) n := by
  induction n generalizing working with
  | zero => rfl
  | succ n ih =>
    rw [level, ih, level, List.map_flatMap, List.flatMap_map]
    simp only [hpartners]

section Forest

variable {R : ρ → ρ → Prop} (hpartners : ∀ a b, b ∈ partners a ↔ R a b)

include hpartners

theorem mem_level_iff {n : Nat} {b : ρ}
    : b ∈ level partners working n ↔ ∃ a ∈ working, Forest.Steps R n a b := by
  induction n generalizing b with
  | zero =>
    rw [level]
    constructor
    . intro hb
      exact ⟨b, hb, .refl⟩
    . rintro ⟨a, ha, hsteps⟩
      cases hsteps
      exact ha
  | succ n ih =>
    rw [level_succ, List.mem_flatMap]
    simp only [ih, hpartners]
    constructor
    . rintro ⟨b', ⟨a, ha, hsteps⟩, hedge⟩
      exact ⟨a, ha, .tail hsteps hedge⟩
    . rintro ⟨a, ha, hsteps⟩
      cases hsteps with
      | tail hsteps hedge => exact ⟨_, ⟨a, ha, hsteps⟩, hedge⟩

theorem level_eq_nil_iff {n : Nat} {root : ρ}
    : level partners [root] n = [] ↔ ∀ m b, Forest.Steps R m root b → m < n := by
  rw [List.eq_nil_iff_forall_not_mem]
  simp only [mem_level_iff hpartners, List.mem_singleton, exists_eq_left]
  constructor
  . intro h m b hsteps
    by_contra hm
    rw [show m = n + (m - n) by omega] at hsteps
    rcases hsteps.split with ⟨b', hsteps, _⟩
    exact h b' hsteps
  . intro h b hsteps
    exact Nat.lt_irrefl n (h n b hsteps)

theorem nodup_level (hR : Relator.LeftUnique R) (hnodup : ∀ a, (partners a).Nodup)
    (hworking : working.Nodup) (n : Nat)
    : (level partners working n).Nodup := by
  induction n generalizing working with
  | zero => exact hworking
  | succ n ih =>
    apply ih
    rw [List.nodup_flatMap]
    refine ⟨fun a _ => hnodup a, ?_⟩
    apply List.Pairwise.imp _ hworking
    intro a a' hne b hb hb'
    rw [hpartners] at hb hb'
    exact hne (hR hb hb')

theorem nodup_levels (hR : Relator.LeftUnique R) (hnodup : ∀ a, (partners a).Nodup) {root : ρ}
    {d : Nat} (hbounded : Forest.Bounded R root d) (n : Nat)
    : ((List.range n).flatMap (level partners [root])).Nodup := by
  rw [List.nodup_flatMap]
  constructor
  . intro m _
    apply nodup_level hpartners hR hnodup (List.nodup_singleton root)
  . apply List.Pairwise.imp _ List.nodup_range
    intro i j hne b hi hj
    rw [mem_level_iff hpartners] at hi hj
    simp only [List.mem_singleton, exists_eq_left] at hi hj
    exact hne (hbounded.level_unique hR hi hj)

end Forest

/-- If no row has more than one partner, the rounds go along a chain up to a row without one. -/
theorem rounds_singleton_iff (hle : ∀ row, (partners row).length ≤ 1) {row : ρ}
    : Rounds partners depth [row] rows
        ↔
      rows.head? = some row
        ∧
      rows.IsChain (fun a b => b ∈ partners a)
        ∧
      (∀ last ∈ rows.getLast?, partners last = [])
        ∧
      rows.length ≤ depth := by
  induction depth generalizing row rows with
  | zero =>
    constructor
    . intro h
      cases h
    . rintro ⟨hhead, _, _, hlength⟩
      rw [Nat.le_zero, List.length_eq_zero_iff] at hlength
      rw [hlength] at hhead
      contradiction
  | succ depth ih =>
    constructor
    . intro h
      cases h with
      | @next _ _ nextRows rest _ hnext hrounds =>
        rw [List.flatMap_singleton] at hnext
        have hlength := hnext.length_eq
        cases nextRows with
        | nil =>
          have hnil := hrounds.eq_nil
          subst hnil
          refine ⟨rfl, List.IsChain.singleton row, ?_, by simp⟩
          intro last hlast
          rw [List.append_nil, List.getLast?_singleton, Option.mem_some] at hlast
          rw [← hlast]
          exact List.nil_perm.mp hnext
        | cons next others =>
          have hone := hle row
          rw [List.length_cons] at hlength
          have hothers : others = [] := List.length_eq_zero_iff.mp (by omega)
          subst hothers
          rcases ih.mp hrounds with ⟨hhead, hchain, hlast, hdepth⟩
          have hmem : next ∈ partners row := hnext.subset (by simp)
          cases rest with
          | nil => contradiction
          | cons next' rest =>
            rw [List.head?_cons, Option.some.injEq] at hhead
            subst hhead
            refine ⟨rfl, List.IsChain.cons_cons hmem hchain, ?_, by simpa using hdepth⟩
            rw [List.singleton_append, List.getLast?_cons_cons]
            exact hlast
    . rintro ⟨hhead, hchain, hlast, hdepth⟩
      cases rows with
      | nil => contradiction
      | cons row' rest =>
        rw [List.head?_cons, Option.some.injEq] at hhead
        subst hhead
        rw [← List.singleton_append]
        cases rest with
        | nil =>
          have hnil : [].Perm ([row'].flatMap partners) := by
            rw [List.flatMap_singleton, hlast row' rfl]
          exact .next (List.cons_ne_nil _ _) hnil .done
        | cons next rest =>
          rw [List.isChain_cons_cons] at hchain
          rw [List.getLast?_cons_cons] at hlast
          rw [List.length_cons] at hdepth
          have hone := Nat.le_antisymm (hle row') (List.length_pos_of_mem hchain.left)
          rcases List.length_eq_one_iff.mp hone with ⟨only, honly⟩
          have hnext : [next].Perm ([row'].flatMap partners) := by
            rw [List.flatMap_singleton, honly]
            rw [honly, List.mem_singleton] at hchain
            rw [hchain.left]
          have hrest := ih.mpr ⟨rfl, hchain.right, hlast, by omega⟩
          exact .next (List.cons_ne_nil _ _) hnext hrest

end Cte
