import Mathlib.Data.List.Forall2
import SupportFile.CustomJs.Impl.GenerateUUID

/-!
This module contains which texts the function for UUIDs can return. They have the form of a version 4
UUID, but the digit for the variant can be any from `8` on.
-/

namespace CustomJs

namespace customGenerateUUID

def Fits (c u : Char) : Prop :=
  if c = 'x' then
    u ∈ "0123456789abcdef".toList
  else if c = 'y' then
    u ∈ "89abcdef".toList
  else
    u = c

theorem digit_of_lt {r : Nat} (hr : r < 16)
    : digit 'x' r ∈ "0123456789abcdef".toList ∧ digit 'y' r ∈ "89abcdef".toList := by
  revert r
  decide

theorem covers
    : "0123456789abcdef".toList.all (fun u => (List.range 16).any (fun r => digit 'x' r == u)) = true
        ∧
      "89abcdef".toList.all (fun u => (List.range 16).any (fun r => digit 'y' r == u)) = true := by
  decide

theorem exists_of_covers {c : Char} {us : List Char}
    (h : us.all (fun u => (List.range 16).any (fun r => digit c r == u)) = true) {u : Char}
    (hu : u ∈ us)
    : ∃ r, r < 16 ∧ digit c r = u := by
  rw [List.all_eq_true] at h
  rcases List.any_eq_true.mp (h u hu) with ⟨r, hr, heq⟩
  exact ⟨r, List.mem_range.mp hr, beq_iff_eq.mp heq⟩

theorem exists_digit {c u : Char} (hc : isMatch c = true) (hu : Fits c u)
    : ∃ r, r < 16 ∧ digit c r = u := by
  unfold isMatch at hc
  rw [Bool.or_eq_true, beq_iff_eq, beq_iff_eq] at hc
  rcases hc with rfl | rfl
  . exact exists_of_covers covers.left hu
  . exact exists_of_covers covers.right hu

theorem fits_digit {c : Char} (hc : isMatch c = true) {r : Nat} (hr : r < 16)
    : Fits c (digit c r) := by
  unfold isMatch at hc
  rw [Bool.or_eq_true, beq_iff_eq, beq_iff_eq] at hc
  rcases hc with rfl | rfl
  . exact (digit_of_lt hr).left
  . exact (digit_of_lt hr).right

theorem fits_iff_eq {c u : Char} (hc : isMatch c = false) : Fits c u ↔ u = c := by
  unfold isMatch at hc
  rw [Bool.or_eq_false_iff, beq_eq_false_iff_ne, beq_eq_false_iff_ne] at hc
  unfold Fits
  rw [if_neg hc.left, if_neg hc.right]

theorem exists_draw (d r : Nat) (hr : r < 16) : ∃ draw : Fin 17, (d + draw) % 16 = r := by
  refine ⟨⟨(r + 16 - d % 16) % 16, by omega⟩, ?_⟩
  dsimp only
  omega

theorem exists_replace_iff (d : Nat) (cs us : List Char)
    : (∃ random, replace d random cs = us) ↔ List.Forall₂ Fits cs us := by
  induction cs generalizing d us with
  | nil =>
    rw [List.forall₂_nil_left_iff]
    constructor
    . rintro ⟨random, rfl⟩
      rfl
    . rintro rfl
      exact ⟨fun _ => 0, rfl⟩
  | cons c cs ih =>
    rw [List.forall₂_cons_left_iff]
    simp only [replace]
    cases hc : isMatch c with
    | true =>
      simp only [if_true]
      constructor
      . rintro ⟨random, rfl⟩
        have hr : (d + random 0) % 16 < 16 := Nat.mod_lt _ (by decide)
        exact ⟨_, _, fits_digit hc hr, (ih _ _).mp ⟨_, rfl⟩, rfl⟩
      . rintro ⟨u, us, hu, hus, rfl⟩
        -- The draw for this digit and the draws for the rest are independent of each other.
        rcases exists_digit hc hu with ⟨r, hr, rfl⟩
        rcases exists_draw d r hr with ⟨draw, hdraw⟩
        rcases (ih (d / 16) us).mpr hus with ⟨random, rfl⟩
        refine ⟨fun k => if k = 0 then draw else random (k - 1), ?_⟩
        simp [hdraw]
    | false =>
      simp only [Bool.false_eq_true, if_false]
      constructor
      . rintro ⟨random, rfl⟩
        exact ⟨_, _, (fits_iff_eq hc).mpr rfl, (ih _ _).mp ⟨_, rfl⟩, rfl⟩
      . rintro ⟨u, us, hu, hus, rfl⟩
        rcases (ih d us).mpr hus with ⟨random, rfl⟩
        exact ⟨random, by rw [(fits_iff_eq hc).mp hu]⟩

end customGenerateUUID

/-- At any time the function can return exactly the texts that fit its pattern. -/
theorem customGenerateUUID_iff (time : Nat) (uuid : List Char)
    : (∃ random, customGenerateUUID time random = uuid)
        ↔
      List.Forall₂ customGenerateUUID.Fits "xxxxxxxx-xxxx-4xxx-yxxx-xxxxxxxxxxxx".toList uuid := by
  exact customGenerateUUID.exists_replace_iff time _ uuid

end CustomJs
