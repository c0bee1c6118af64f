import SupportFile.MySql.Lemmas.Frontier
import SupportFile.MySql.Lemmas.Procedure

/-!
This module contains the comparison of the function and the procedure that list the descendants of
a node. The function has lost nothing exactly if the strings it goes through are as long as the
descendants need them to be.
-/

namespace HieFunction

open CsNode SepList

variable {limits : Limits} {table : List CsNode}

def Agrees (list : List Char) (rows : List (HieProcedure.TempRow × CsNode)) : Prop :=
  (list.splitOn ',').Nodup
    ∧
  ∀ s, s ∈ list.splitOn ',' ↔ ∃ b ∈ rows.map (·.2.id), s = castAsChar b

def descendants (table : List CsNode) (root : Int) : List Int :=
  Forest.levels (expand table) root (HieProcedure.maxSpRecursionDepth + 1)

theorem mem_descendants_iff (hids : (ids table).Nodup) {root : Int}
    (hbounded : Forest.Bounded (IsParent table) root HieProcedure.maxSpRecursionDepth) {b : Int}
    : b ∈ descendants table root ↔ ∃ n, Forest.Steps (IsParent table) n root b := by
  unfold descendants
  rw [(expands hids).mem_levels_iff]
  constructor
  . rintro ⟨n, _, hsteps⟩
    exact ⟨n, hsteps⟩
  . rintro ⟨n, hsteps⟩
    have := hbounded n b hsteps
    exact ⟨n, by omega, hsteps⟩

theorem length_descendants (table : List CsNode) (root : Int)
    : (commaList (descendants table root)).length + 1
        = weight ((descendants table root).map castAsChar) := by
  apply length_commaList
  unfold descendants Forest.levels
  rw [List.range_succ_eq_map, List.flatMap_cons, Forest.level]
  simp

theorem Frontiers.weight_le {childIds : Option (List Char)} {frontiers : List (List Char)}
    (h : Frontiers limits table childIds frontiers)
    : weight frontiers ≤ weight childIds.toList
          + weight ((frontiers.flatMap (select table)).map castAsChar)
        ∧
      (weight childIds.toList + weight ((frontiers.flatMap (select table)).map castAsChar)
          ≤ weight frontiers →
        Frontiers .unbounded table childIds frontiers) := by
  induction h with
  | done => exact ⟨Nat.zero_le _, fun _ => .done⟩
  | @next childIds rest hrest ih =>
    rcases ih with ⟨hle, hexact⟩
    rw [List.flatMap_cons, List.map_append, weight_append, Option.toList_some, weight_cons,
      weight_cons, weight_nil]
    cases hnext : groupConcat limits (select table childIds) with
    | none =>
      rw [hnext, Option.toList_none, weight_nil] at hle
      rw [hnext] at hrest hexact
      constructor
      . omega
      . intro hge
        apply Frontiers.next
        rw [groupConcat_eq_none_iff] at hnext
        rw [groupConcat_eq_none_iff.mpr hnext]
        apply hexact
        rw [Option.toList_none, weight_nil]
        omega
    | some s =>
      rcases length_groupConcat hnext with ⟨hshort, huncut⟩
      rw [hnext, Option.toList_some, weight_cons, weight_nil] at hle hexact
      constructor
      . omega
      . intro hge
        have hs : s = commaList (select table childIds) := by
          apply huncut
          omega
        have hne : select table childIds ≠ [] := by
          intro hnil
          rw [groupConcat_eq_none_iff.mpr hnil] at hnext
          contradiction
        apply Frontiers.next
        rw [groupConcat_of_fits hne rfl, ← hs]
        apply hexact
        omega

theorem Frontiers.length_level_le {root : Int} {n k : Nat} {frontiers : List (List Char)}
    (hids : (ids table).Nodup) (hlimit : limits.groupConcatMaxLen = some k)
    (hne : Forest.level (expand table) root n ≠ [])
    (h : Frontiers limits table (some (commaList (Forest.level (expand table) root n))) frontiers)
    (h' : Frontiers .unbounded table (some (commaList (Forest.level (expand table) root n)))
      frontiers)
    : ∀ i, (commaList (Forest.level (expand table) root (n + i + 1))).length ≤ k := by
  induction frontiers generalizing n with
  | nil => cases h
  | cons s frontiers ih =>
    cases h with
    | next h =>
      cases h' with
      | next h' =>
        rw [select_commaList hne] at h h'
        intro i
        by_cases hnil : Forest.level (expand table) root (n + 1) = []
        . rw [(expands hids).level_eq_nil_of_le hnil (by omega)]
          apply Nat.zero_le
        . change Frontiers limits table
            (groupConcat limits (Forest.level (expand table) root (n + 1))) frontiers at h
          change Frontiers .unbounded table
            (groupConcat .unbounded (Forest.level (expand table) root (n + 1))) frontiers at h'
          rw [groupConcat_of_fits hnil rfl] at h'
          cases hnext : groupConcat limits (Forest.level (expand table) root (n + 1)) with
          | none =>
            rw [groupConcat_eq_none_iff] at hnext
            contradiction
          | some s' =>
            rw [hnext] at h
            have hs : s' = commaList (Forest.level (expand table) root (n + 1)) := by
              cases h
              cases h'
              rfl
            rw [hs] at hnext h
            cases i with
            | zero => apply length_groupConcat_le hlimit hnext
            | succ i =>
              have := ih hnil h h' i
              rwa [show n + 1 + i + 1 = n + (i + 1) + 1 by omega] at this

theorem nodup_root_cons_select (hids : (ids table).Nodup) {root : Int}
    (hbounded : Forest.Bounded (IsParent table) root HieProcedure.maxSpRecursionDepth)
    {frontiers : List (List Char)} (hnodup : (frontiers.flatMap (fun s => s.splitOn ',')).Nodup)
    (hmem : ∀ s ∈ frontiers.flatMap (fun s => s.splitOn ','),
      ∃ b ∈ descendants table root, s = castAsChar b)
    : (root :: frontiers.flatMap (select table)).Nodup
        ∧
      root :: frontiers.flatMap (select table) ⊆ descendants table root := by
  have hselect : ∀ b ∈ frontiers.flatMap (select table),
      ∃ a n, Forest.Steps (IsParent table) n root a ∧ IsParent table a b := by
    intro b hb
    rw [List.mem_flatMap] at hb
    rcases hb with ⟨childIds, hchildIds, hb⟩
    rw [mem_select_iff] at hb
    rcases hb with ⟨a, ha, hedge⟩
    rcases hmem _ (List.mem_flatMap.mpr ⟨childIds, hchildIds, ha⟩) with ⟨a', ha', heq⟩
    rw [← castAsChar_injective heq, mem_descendants_iff hids hbounded] at ha'
    rcases ha' with ⟨n, hsteps⟩
    exact ⟨a, n, hsteps, hedge⟩
  constructor
  . rw [List.nodup_cons]
    constructor
    . intro hroot
      rcases hselect root hroot with ⟨a, n, hsteps, hedge⟩
      have := hbounded.eq_zero_of_cycle (.tail hsteps hedge)
      omega
    . rw [List.nodup_flatMap] at hnodup ⊢
      constructor
      . intro childIds _
        apply nodup_select hids childIds
      . apply hnodup.right.imp
        intro childIds childIds' hdisjoint b hb hb'
        rw [mem_select_iff] at hb hb'
        rcases hb with ⟨a, ha, hedge⟩
        rcases hb' with ⟨a', ha', hedge'⟩
        have := isParent_leftUnique hids hedge hedge'
        subst this
        apply hdisjoint ha ha'
  . intro b hb
    rw [mem_descendants_iff hids hbounded]
    rw [List.mem_cons] at hb
    cases hb with
    | inl hb =>
      rw [hb]
      exact ⟨0, .refl⟩
    | inr hb =>
      rcases hselect b hb with ⟨a, n, hsteps, hedge⟩
      exact ⟨n + 1, .tail hsteps hedge⟩

theorem fits_default_of_agrees (hids : (ids table).Nodup) {root : Int}
    (hroot : root ∈ ids table)
    (hbounded : Forest.Bounded (IsParent table) root HieProcedure.maxSpRecursionDepth)
    {list : List Char} {rows : List (HieProcedure.TempRow × CsNode)}
    (hlist : Returns (fun fuel => hieQueDown .default table fuel root) list)
    (hrows : (HieProcedure.hieQueDown table none root).2 = some rows) (hagrees : Agrees list rows)
    : (∀ n, (commaList (Forest.level (expand table) root (n + 1))).length ≤ 1024)
        ∧
      (commaList (descendants table root)).length < 60000 := by
  rw [returns_iff] at hlist
  rcases hlist with ⟨frontiers, hfrontiers, hfits, rfl⟩
  rcases hagrees with ⟨hnodup, hmem⟩
  rw [hfrontiers.splitOn] at hnodup hmem
  simp only [HieProcedure.mem_hieQueDown_iff hroot hbounded hrows,
    ← mem_descendants_iff hids hbounded] at hmem
  -- The pieces of the string are the descendants, and no two rows are selected by one piece.
  have hperm : (frontiers.flatMap (fun s => s.splitOn ',')).Perm
      ((descendants table root).map castAsChar) := by
    rw [List.perm_ext_iff_of_nodup hnodup]
    . intro s
      rw [hmem, List.mem_map]
      simp only [eq_comm]
    . apply List.Nodup.map castAsChar_injective
      exact (expands hids).nodup_levels (isParent_leftUnique hids) hbounded _
  have hweight : weight frontiers = weight ((descendants table root).map castAsChar) := by
    rw [← weight_eq_of_perm hperm, weight_flatMap_splitOn]
  have hselected := nodup_root_cons_select hids hbounded hnodup (fun s hs => (hmem s).mp hs)
  have hle : weight ((root :: frontiers.flatMap (select table)).map castAsChar)
      ≤ weight ((descendants table root).map castAsChar) := by
    apply weight_le_of_subset
    . apply hselected.left.map castAsChar_injective
    . apply List.map_subset _ hselected.right
  have hexact : Frontiers .unbounded table (some (castAsChar root)) frontiers := by
    apply hfrontiers.weight_le.right
    rw [List.map_cons, weight_cons] at hle
    rw [Option.toList_some, weight_cons, weight_nil]
    omega
  constructor
  . rw [← commaList_singleton] at hfrontiers hexact
    intro n
    have := Frontiers.length_level_le (n := 0) hids rfl (by simp [Forest.level]) hfrontiers hexact n
    rwa [Nat.zero_add] at this
  . have hlength := length_descendants table root
    rw [← hweight, ← length_joined ','] at hlength
    simp only [Limits.fits, Limits.default, Option.all_some, decide_eq_true_eq] at hfits
    omega

theorem agrees_of_fits_default (hids : (ids table).Nodup) {root : Int} (hroot : root ∈ ids table)
    (hbounded : Forest.Bounded (IsParent table) root HieProcedure.maxSpRecursionDepth)
    (hlevels : ∀ n, (commaList (Forest.level (expand table) root (n + 1))).length ≤ 1024)
    (htotal : (commaList (descendants table root)).length < 60000)
    : ∃ list rows,
        Returns (fun fuel => hieQueDown .default table fuel root) list
          ∧
        (HieProcedure.hieQueDown table none root).2 = some rows
          ∧
        Agrees list rows := by
  have hfits : ∀ i, Limits.default.groupConcatMaxLen.all
      ((commaList (Forest.level (expand table) root (i + 1))).length ≤ ·) = true := by
    intro i
    simp only [Limits.default, Option.all_some, decide_eq_true_eq]
    apply hlevels i
  rcases frontiers_of_bounded hids hbounded hfits with ⟨frontiers, hfrontiers, hpieces⟩
  have hlength := length_descendants table root
  have hweight : weight frontiers = weight ((descendants table root).map castAsChar) := by
    rw [← weight_flatMap_splitOn ',', hpieces]
    rfl
  have hroom : (descendants table root).length ≤ HieProcedure.maxSno := by
    have := length_le_weight ((descendants table root).map castAsChar)
    rw [List.length_map] at this
    unfold HieProcedure.maxSno
    omega
  rcases HieProcedure.hieQueDown_returns hids hbounded
    (fun n b hsteps => (mem_descendants_iff hids hbounded).mpr ⟨n, hsteps⟩) hroom with
    ⟨rows, hrows⟩
  refine ⟨_, rows, returns_iff.mpr ⟨frontiers, hfrontiers, ?_, rfl⟩, hrows, ?_, ?_⟩
  . simp only [Limits.fits, Limits.default, Option.all_some, decide_eq_true_eq]
    rw [length_joined]
    omega
  . rw [hfrontiers.splitOn, hpieces]
    apply List.Nodup.map castAsChar_injective
    exact (expands hids).nodup_levels (isParent_leftUnique hids) hbounded _
  . intro s
    rw [hfrontiers.splitOn, hpieces]
    simp only [HieProcedure.mem_hieQueDown_iff hroot hbounded hrows,
      ← mem_descendants_iff hids hbounded]
    rw [List.mem_map]
    simp only [eq_comm, descendants]

theorem hieQueDown_agrees_iff (hids : (ids table).Nodup) {root : Int} (hroot : root ∈ ids table)
    (hbounded : Forest.Bounded (IsParent table) root HieProcedure.maxSpRecursionDepth)
    : (∃ list rows,
        Returns (fun fuel => hieQueDown .default table fuel root) list
          ∧
        (HieProcedure.hieQueDown table none root).2 = some rows
          ∧
        Agrees list rows)
        ↔
      (∀ n, (commaList (Forest.level (expand table) root (n + 1))).length ≤ 1024)
        ∧
      (commaList (descendants table root)).length < 60000 := by
  constructor
  . rintro ⟨list, rows, hlist, hrows, hagrees⟩
    apply fits_default_of_agrees hids hroot hbounded hlist hrows hagrees
  . rintro ⟨hlevels, htotal⟩
    apply agrees_of_fits_default hids hroot hbounded hlevels htotal

def narrow : List CsNode :=
  [⟨1, none⟩, ⟨2, some 1⟩, ⟨3, some 1⟩]

theorem hieQueDown_agrees_narrow
    : ∃ list rows,
        Returns (fun fuel => hieQueDown .default narrow fuel 1) list
          ∧
        (HieProcedure.hieQueDown narrow none 1).2 = some rows
          ∧
        Agrees list rows := by
  have hids : (ids narrow).Nodup := by
    decide
  have hnil : Forest.level (expand narrow) 1 2 = [] := by
    decide
  have hbounded := (expands hids).bounded_of_level_eq_nil
    ((expands hids).level_eq_nil_of_le hnil (by decide : 2 ≤ 256))
  rw [hieQueDown_agrees_iff hids (by decide) hbounded]
  constructor
  . intro n
    cases n with
    | zero => decide
    | succ n =>
      rw [(expands hids).level_eq_nil_of_le hnil (by omega)]
      apply Nat.zero_le
  . rw [descendants, (expands hids).levels_eq_of_le hnil (by decide)]
    decide

def wide : List CsNode :=
  ⟨1, none⟩ :: (List.range 300).map (fun i : Nat => ⟨1000 + (i : Int), some 1⟩)

theorem isParent_wide {a b : Int} (h : IsParent wide a b) : a = 1 ∧ 1000 ≤ b := by
  rcases h with ⟨row, hrow, hid, hpId⟩
  unfold wide at hrow
  rw [List.mem_cons, List.mem_map] at hrow
  cases hrow with
  | inl hrow =>
    subst hrow
    contradiction
  | inr hrow =>
    rcases hrow with ⟨i, _, rfl⟩
    dsimp at hid hpId
    rw [Option.some.injEq] at hpId
    omega

theorem nodup_ids_wide : (ids wide).Nodup := by
  unfold ids wide
  rw [List.map_cons, List.map_map, List.nodup_cons]
  constructor
  . simp only [List.mem_map, not_exists]
    rintro i ⟨_, heq⟩
    dsimp at heq
    omega
  . apply List.Nodup.map _ List.nodup_range
    intro i j heq
    dsimp at heq
    omega

theorem bounded_wide
    : Forest.Bounded (IsParent wide) 1 HieProcedure.maxSpRecursionDepth := by
  intro n b hsteps
  cases hsteps with
  | refl => apply Nat.zero_le
  | tail hsteps hedge =>
    cases hsteps with
    | refl => decide
    | tail _ hedge' =>
      have := isParent_wide hedge
      have := isParent_wide hedge'
      omega

theorem hieQueDown_not_agrees_wide
    : (ids wide).Nodup
        ∧
      1 ∈ ids wide
        ∧
      Forest.Bounded (IsParent wide) 1 HieProcedure.maxSpRecursionDepth
        ∧
      ¬ ∃ list rows,
          Returns (fun fuel => hieQueDown .default wide fuel 1) list
            ∧
          (HieProcedure.hieQueDown wide none 1).2 = some rows
            ∧
          Agrees list rows := by
  have hroot : 1 ∈ ids wide := by
    apply List.mem_cons_self
  refine ⟨nodup_ids_wide, hroot, bounded_wide, ?_⟩
  rintro ⟨list, rows, hlist, hrows, hagrees⟩
  have hlevel :=
    (fits_default_of_agrees nodup_ids_wide hroot bounded_wide hlist hrows hagrees).left 0
  revert hlevel
  decide +kernel

end HieFunction
