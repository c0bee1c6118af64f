import Mathlib.Logic.Function.Iterate

/-!
This module contains loops that may not terminate: they are given a number of rounds after which they
are cut off, and what can be said about them whatever this number is.
-/

namespace While

variable {σ : Type u}

def loop (cond : σ → Bool) (body : σ → σ) (fuel : Nat) (s : σ) : Option σ :=
  match fuel with
  | 0 => none
  | fuel + 1 => if cond s then loop cond body fuel (body s) else some s

def EndsAfter (cond : σ → Bool) (body : σ → σ) (s : σ) (n : Nat) : Prop :=
  cond (body^[n] s) = false ∧ ∀ k < n, cond (body^[k] s) = true

theorem iterate_frame {f : σ → τ} {body : σ → σ} (h : ∀ s, f (body s) = f s) (n : Nat) (s : σ)
    : f (body^[n] s) = f s := by
  induction n generalizing s with
  | zero => rfl
  | succ n ih => rw [Function.iterate_succ_apply, ih, h]

theorem endsAfter_zero {cond : σ → Bool} {body : σ → σ} {s : σ}
    : EndsAfter cond body s 0 ↔ cond s = false := by
  simp [EndsAfter]

theorem endsAfter_succ {cond : σ → Bool} {body : σ → σ} {s : σ} {n : Nat}
    : EndsAfter cond body s (n + 1) ↔ cond s = true ∧ EndsAfter cond body (body s) n := by
  unfold EndsAfter
  constructor
  . rintro ⟨hend, hbefore⟩
    refine ⟨hbefore 0 (by omega), hend, ?_⟩
    intro k hk
    apply hbefore (k + 1) (by omega)
  . rintro ⟨hs, hend, hbefore⟩
    refine ⟨hend, ?_⟩
    intro k hk
    cases k with
    | zero => exact hs
    | succ k => exact hbefore k (by omega)

theorem loop_sound {cond : σ → Bool} {body : σ → σ} {fuel : Nat} {s s' : σ}
    (h : loop cond body fuel s = some s')
    : ∃ n, EndsAfter cond body s n ∧ s' = body^[n] s := by
  induction fuel generalizing s with
  | zero => contradiction
  | succ fuel ih =>
    unfold loop at h
    split at h
    . next hs =>
      rcases ih h with ⟨n, hn, hs'⟩
      exact ⟨n + 1, endsAfter_succ.mpr ⟨hs, hn⟩, hs'⟩
    . next hs =>
      cases h
      exact ⟨0, endsAfter_zero.mpr (by simpa using hs), rfl⟩

theorem loop_complete {cond : σ → Bool} {body : σ → σ} {s : σ} {n : Nat}
    (h : EndsAfter cond body s n) {fuel : Nat} (hfuel : n < fuel)
    : loop cond body fuel s = some (body^[n] s) := by
  induction n generalizing s fuel with
  | zero =>
    rw [endsAfter_zero] at h
    cases fuel with
    | zero => omega
    | succ fuel => simp [loop, h]
  | succ n ih =>
    rw [endsAfter_succ] at h
    cases fuel with
    | zero => omega
    | succ fuel =>
      unfold loop
      rw [if_pos h.left, ih h.right (by omega)]
      rfl

end While
