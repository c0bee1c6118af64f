import Mathlib.Data.List.Infix

/-!
This module contains the command `s` of `sed` with the flag `g`, for patterns and replacements in which
no character is special.
-/

namespace Sed

variable {α : Type u} [DecidableEq α]

/-- The matches are the leftmost ones that do not overlap. `skip` is what is left of a match. -/
def substitute.go (pattern replacement : List α) (skip : Nat) (line : List α) : List α :=
  match skip, line with
  | _, [] => []
  | skip + 1, _ :: line => go pattern replacement skip line
  | 0, c :: line =>
    if pattern.isPrefixOf (c :: line) then
      replacement ++ go pattern replacement (pattern.length - 1) line
    else
      c :: go pattern replacement 0 line

def substitute (pattern replacement line : List α) : List α :=
  substitute.go pattern replacement 0 line

def substituteLines (pattern replacement : List α) (file : List (List α)) : List (List α) :=
  file.map (substitute pattern replacement)

-- The script `nq;d`, which prints line `n` alone.
def printLine (n : Nat) (file : List (List α)) : Option (List α) :=
  file[n - 1]?

theorem substituteLines_set (pattern replacement : List α) (file : List (List α)) (i : Nat)
    (line : List α)
    : substituteLines pattern replacement (file.set i line)
        =
      (substituteLines pattern replacement file).set i (substitute pattern replacement line) := by
  unfold substituteLines
  rw [List.map_set]

theorem substitute_eq_self {pattern line : List α} (replacement : List α)
    (h : ¬pattern <:+: line)
    : substitute pattern replacement line = line := by
  unfold substitute
  induction line with
  | nil => simp [substitute.go]
  | cons c line ih =>
    rw [List.infix_cons_iff, not_or] at h
    have hpattern : pattern.isPrefixOf (c :: line) = false := by
      rw [← Bool.not_eq_true, List.isPrefixOf_iff_prefix]
      apply h.left
    rw [substitute.go, hpattern, ih h.right]
    rfl

end Sed
