import SupportFile.MySql.Lemmas.Tree

/-!
This module contains the strings that the loop of the function goes through, one for each round,
and when they are the levels of the tree.
-/

namespace HieFunction

open CsNode SepList

/-- The values of `child_ids` from the given one up to the `NULL` that ends the loop. -/
inductive Frontiers (limits : Limits) (table : List CsNode)
    : Option (List Char) → List (List Char) → Prop where
  | done : Frontiers limits table none []
  | next : Frontiers limits table (groupConcat limits (select table childIds)) rest →
      Frontiers limits table (some childIds) (childIds :: rest)

variable {limits : Limits} {table : List CsNode}

theorem fits_of_length_le {s t : List Char} (h : t.length ≤ s.length) (hs : limits.fits s = true)
    : limits.fits t = true := by
  unfold Limits.fits at *
  cases hlimit : limits.varchar with
  | none => rfl
  | some n =>
    rw [hlimit] at hs
    simp only [Option.all_some, decide_eq_true_eq] at *
    omega

theorem append_joined_cons (ids childIds : List Char) (rest : List (List Char))
    : ids ++ ',' :: childIds ++ joined ',' rest = ids ++ joined ',' (childIds :: rest) := by
  simp [joined]

theorem length_le_joined (ids childIds : List Char) (rest : List (List Char))
    : childIds.length ≤ (ids ++ joined ',' (childIds :: rest)).length := by
  rw [List.length_append, length_joined, weight_cons]
  omega

theorem Frontiers.fits_next {next : Option (List Char)} {frontiers : List (List Char)}
    (h : Frontiers limits table next frontiers) {ids : List Char}
    (hfits : limits.fits (ids ++ joined ',' frontiers) = true)
    : next.all limits.fits = true := by
  cases h with
  | done => rfl
  | next _ => apply fits_of_length_le (length_le_joined ids _ _) hfits

theorem Frontiers.loop {childIds : Option (List Char)} {frontiers : List (List Char)}
    (h : Frontiers limits table childIds frontiers) (ids : List Char)
    (hfits : limits.fits (ids ++ joined ',' frontiers) = true)
    : hieQueDown.loop limits table frontiers.length ids childIds
        = result (ids ++ joined ',' frontiers) := by
  induction h generalizing ids with
  | done =>
    unfold hieQueDown.loop
    simp [joined]
  | @next childIds rest hrest ih =>
    rw [List.length_cons]
    unfold hieQueDown.loop
    dsimp only
    have hfits' := hfits
    rw [← append_joined_cons] at hfits'
    have hids : limits.fits (ids ++ ',' :: childIds) = true := by
      apply fits_of_length_le _ hfits'
      simp only [List.length_append]
      omega
    rw [hids, hrest.fits_next hfits', ← append_joined_cons]
    apply ih _ hfits'

theorem frontiers_of_loop {fuel : Nat} {ids out : List Char} {childIds : Option (List Char)}
    (h : hieQueDown.loop limits table fuel ids childIds = .returned out)
    (hids : limits.fits ids = true)
    : ∃ frontiers,
        Frontiers limits table childIds frontiers
          ∧
        limits.fits (ids ++ joined ',' frontiers) = true
          ∧
        out = (ids ++ joined ',' frontiers).drop 1 := by
  induction fuel generalizing ids childIds with
  | zero =>
    unfold hieQueDown.loop at h
    split at h
    . unfold result at h
      rw [Outcome.returned.injEq] at h
      exact ⟨[], .done, by simpa [joined] using hids, by simp [joined, h]⟩
    . contradiction
  | succ fuel ih =>
    unfold hieQueDown.loop at h
    split at h
    . unfold result at h
      rw [Outcome.returned.injEq] at h
      exact ⟨[], .done, by simpa [joined] using hids, by simp [joined, h]⟩
    . next childIds =>
      dsimp only at h
      split at h
      . next hfits =>
        rw [Bool.and_eq_true] at hfits
        rcases ih h hfits.left with ⟨rest, hrest, hroom, hout⟩
        rw [append_joined_cons] at hroom hout
        exact ⟨childIds :: rest, .next hrest, hroom, hout⟩
      . contradiction

theorem returns_iff {root : Int} {out : List Char}
    : Returns (fun fuel => hieQueDown limits table fuel root) out
        ↔
      ∃ frontiers,
        Frontiers limits table (some (castAsChar root)) frontiers
          ∧
        limits.fits (joined ',' frontiers) = true
          ∧
        out = (joined ',' frontiers).drop 1 := by
  constructor
  . rintro ⟨fuel, h⟩
    apply frontiers_of_loop h
    unfold Limits.fits
    cases limits.varchar with
    | none => rfl
    | some n => simp
  . rintro ⟨frontiers, hfrontiers, hfits, rfl⟩
    exact ⟨frontiers.length, hfrontiers.loop [] hfits⟩

theorem Frontiers.splitOn {childIds : List Char} {frontiers : List (List Char)}
    (h : Frontiers limits table (some childIds) frontiers)
    : ((joined ',' frontiers).drop 1).splitOn ',' = frontiers.flatMap (fun s => s.splitOn ',') := by
  cases h with
  | @next _ rest _ =>
    have hjoined : (joined ',' (childIds :: rest)).drop 1 = childIds ++ joined ',' rest := by
      simp [joined]
    rw [hjoined, splitOn_append_joined]

def levelLists (table : List CsNode) (root : Int) (n m : Nat) : List (List Char) :=
  (List.range' n m).map (fun i => commaList (Forest.level (expand table) root i))

theorem frontiers_levelLists {root : Int} {m n : Nat}
    (hne : ∀ i, i < m → Forest.level (expand table) root (n + i) ≠ [])
    (hnil : Forest.level (expand table) root (n + m) = [])
    (hfits : ∀ i, limits.groupConcatMaxLen.all
      ((commaList (Forest.level (expand table) root (n + i + 1))).length ≤ ·) = true)
    (hm : 0 < m)
    : Frontiers limits table (some (commaList (Forest.level (expand table) root n)))
        (levelLists table root n m) := by
  induction m generalizing n with
  | zero => contradiction
  | succ m ih =>
    unfold levelLists
    rw [List.range'_succ, List.map_cons]
    apply Frontiers.next
    have hcurr : Forest.level (expand table) root n ≠ [] := by
      apply hne 0 (by omega)
    rw [select_commaList hcurr]
    change Frontiers limits table (groupConcat limits (Forest.level (expand table) root (n + 1))) _
    cases m with
    | zero =>
      rw [groupConcat_eq_none_iff.mpr hnil]
      exact .done
    | succ m =>
      have hnext : Forest.level (expand table) root (n + 1) ≠ [] := by
        apply hne 1 (by omega)
      rw [groupConcat_of_fits hnext (hfits 0)]
      apply ih
      . intro i hi
        have := hne (i + 1) (by omega)
        rwa [show n + (i + 1) = n + 1 + i by omega] at this
      . rwa [show n + (m + 1 + 1) = n + 1 + (m + 1) by omega] at hnil
      . intro i
        have := hfits (i + 1)
        rwa [show n + (i + 1) + 1 = n + 1 + i + 1 by omega] at this
      . omega

theorem splitOn_levelLists {root : Int} {m n : Nat}
    (hne : ∀ i, i < m → Forest.level (expand table) root (n + i) ≠ [])
    : (levelLists table root n m).flatMap (fun s => s.splitOn ',')
        = ((List.range' n m).flatMap (Forest.level (expand table) root)).map castAsChar := by
  unfold levelLists
  rw [List.flatMap_map, List.map_flatMap]
  apply List.flatMap_congr
  intro i hi
  apply splitOn_commaList
  rw [List.mem_range'_1] at hi
  have := hne (i - n) (by omega)
  rwa [show n + (i - n) = i by omega] at this

theorem frontiers_of_bounded (hids : (ids table).Nodup) {root : Int} {d : Nat}
    (hbounded : Forest.Bounded (IsParent table) root d)
    (hfits : ∀ i, limits.groupConcatMaxLen.all
      ((commaList (Forest.level (expand table) root (i + 1))).length ≤ ·) = true)
    : ∃ frontiers,
        Frontiers limits table (some (castAsChar root)) frontiers
          ∧
        frontiers.flatMap (fun s => s.splitOn ',')
          = (Forest.levels (expand table) root (d + 1)).map castAsChar := by
  rcases (expands hids).exists_height hbounded with ⟨m, hm, hmd, hne, hnil⟩
  have hne' : ∀ i, i < m → Forest.level (expand table) root (0 + i) ≠ [] := by
    intro i hi
    rw [Nat.zero_add]
    apply hne i hi
  refine ⟨levelLists table root 0 m, ?_, ?_⟩
  . rw [← commaList_singleton]
    apply frontiers_levelLists hne' _ _ hm
    . rwa [Nat.zero_add]
    . intro i
      rw [Nat.zero_add]
      apply hfits i
  . rw [splitOn_levelLists hne', (expands hids).levels_eq_of_le hnil hmd, Forest.levels,
      List.range_eq_range']

end HieFunction
