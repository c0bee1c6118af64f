import SupportFile.JsString.Lemmas
import Mathlib.Data.List.Shortlex

/-!
This module contains the order of strings that puts shorter ones first.
-/

namespace JsString

def Before (s t : JsString) : Prop :=
  List.Shortlex (· < ·) s t

instance : Std.Asymm (fun (u v : JChar) => u < v) where
  asymm _ _ := UInt16.lt_asymm

instance : Std.Trichotomous (fun (u v : JChar) => u < v) where
  trichotomous u v huv hvu := by
    apply UInt16.le_antisymm
    . apply UInt16.not_lt.mp hvu
    . apply UInt16.not_lt.mp huv

instance : Trans (fun (u v : JChar) => u < v) (fun u v => u < v) (fun u v => u < v) where
  trans := UInt16.lt_trans

instance : Std.Trichotomous Before :=
  inferInstanceAs (Std.Trichotomous (List.Shortlex (fun (u v : JChar) => u < v)))

theorem before_iff {s t : JsString}
    : Before s t ↔ s.length < t.length ∨ s.length = t.length ∧ lt s t = true := by
  unfold Before
  rw [List.shortlex_def, lt_iff_lex]

instance (s t : JsString) : Decidable (Before s t) :=
  decidable_of_iff' _ before_iff

theorem ite_length_lt {s t : JsString} {α : Type u} (x y : α)
    : (if s.length > t.length then x else if s.length < t.length then y
        else if lt t s then x else y)
        =
      if Before t s then x else y := by
  by_cases hgt : s.length > t.length
  . rw [if_pos hgt, if_pos (before_iff.mpr (Or.inl hgt))]
  . rw [if_neg hgt]
    by_cases hlt : s.length < t.length
    . have hno : ¬Before t s := by
        rw [before_iff]
        omega
      rw [if_pos hlt, if_neg hno]
    . have hiff : Before t s ↔ lt t s = true := by
        rw [before_iff]
        constructor
        . rintro (h | h)
          . contradiction
          . apply h.right
        . intro h
          exact Or.inr ⟨by omega, h⟩
      rw [if_neg hlt]
      simp only [hiff]

theorem Before.asymm {s t : JsString} (h : Before s t) : ¬Before t s := by
  unfold Before at *
  apply Std.Asymm.asymm _ _ h

theorem Before.trans {s t r : JsString} (hst : Before s t) (htr : Before t r) : Before s r := by
  rw [before_iff, lt_iff_lex] at *
  rcases hst with hst | ⟨hst, hst'⟩
  . omega
  . rcases htr with htr | ⟨htr, htr'⟩
    . omega
    . exact Or.inr ⟨hst.trans htr, List.lt_trans hst' htr'⟩

theorem Before.irrefl (s : JsString) : ¬Before s s := by
  intro h
  apply h.asymm h

theorem eq_of_not_before {s t : JsString} (hst : ¬Before s t) (hts : ¬Before t s) : s = t := by
  apply Std.Trichotomous.trichotomous s t hst hts

theorem before_of_not_before {s t r : JsString} (hst : ¬Before t s) (htr : Before t r)
    : Before s r := by
  by_cases hst' : Before s t
  . apply hst'.trans htr
  . rw [eq_of_not_before hst' hst]
    exact htr

theorem not_before_trans {s t r : JsString} (hst : ¬Before t s) (htr : ¬Before r t)
    : ¬Before r s := by
  intro hrs
  by_cases hrt : Before t r
  . apply hst (hrt.trans hrs)
  . rw [eq_of_not_before htr hrt] at hrs
    apply hst hrs

end JsString
