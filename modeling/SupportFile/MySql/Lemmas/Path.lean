import SupportFile.MySql.Lemmas.Climb
import Mathlib.Data.List.Chain

/-!
This module contains the paths from the roots down to the nodes, and when the function that climbs
lists such a path: it also lists the parent that a root of the table names without having it.
-/

namespace HieFunction

open CsNode SepList

variable {table : List CsNode}

def IsRoot (table : List CsNode) (a : Int) : Prop :=
  ∀ p, IsParent table p a → p = a ∨ p ∉ ids table

/-- The ids of the rows from the one that has no other one above it down to that of `id`. -/
structure IsPath (table : List CsNode) (id : Int) (path : List Int) : Prop where
  chain : path.IsChain (IsParent table)
  getLast : path.getLast? = some id
  head : ∀ root, path.head? = some root → IsRoot table root
  mem_ids : ∀ a ∈ path, a ∈ ids table
  nodup : path.Nodup

theorem IsPath.singleton {a : Int} (ha : a ∈ ids table) (hroot : IsRoot table a)
    : IsPath table a [a] := by
  constructor
  . apply List.IsChain.singleton
  . rfl
  . intro root hhead
    rw [List.head?_cons, Option.some.injEq] at hhead
    rw [← hhead]
    exact hroot
  . rw [List.forall_mem_singleton]
    exact ha
  . apply List.nodup_singleton

theorem isPath_concat_iff {p a : Int} {path : List Int} (hpath : path.getLast? = some p)
    : IsPath table a (path ++ [a])
        ↔
      IsPath table p path ∧ IsParent table p a ∧ a ∈ ids table ∧ a ∉ path := by
  have hhead : (path ++ [a]).head? = path.head? := by
    cases path with
    | nil => simp at hpath
    | cons => simp
  constructor
  . rintro ⟨hchain, hlast, hroot, hmem, hnodup⟩
    rw [List.isChain_append] at hchain
    rw [List.forall_mem_append, List.forall_mem_singleton] at hmem
    rw [List.nodup_append] at hnodup
    rw [hhead] at hroot
    refine ⟨⟨hchain.left, hpath, hroot, hmem.left, hnodup.left⟩, ?_, hmem.right, ?_⟩
    . apply hchain.right.right p hpath a
      simp
    . intro ha
      apply hnodup.right.right a ha a (List.mem_singleton_self a) rfl
  . rintro ⟨hp, hedge, ha, hnot⟩
    constructor
    . rw [List.isChain_append]
      refine ⟨hp.chain, List.IsChain.singleton a, ?_⟩
      intro x hx y hy
      rw [hpath, Option.mem_def, Option.some.injEq] at hx
      rw [List.head?_cons, Option.mem_def, Option.some.injEq] at hy
      rw [← hx, ← hy]
      exact hedge
    . simp
    . rw [hhead]
      apply hp.head
    . rw [List.forall_mem_append, List.forall_mem_singleton]
      exact ⟨hp.mem_ids, ha⟩
    . rw [List.nodup_append]
      refine ⟨hp.nodup, List.nodup_singleton a, ?_⟩
      intro x hx y hy
      rw [List.mem_singleton] at hy
      subst hy
      rintro rfl
      apply hnot hx

theorem IsPath.cases {a : Int} {path : List Int} (h : IsPath table a path)
    : (path = [a] ∧ IsRoot table a)
        ∨
      ∃ p path', path = path' ++ [a] ∧ IsPath table p path' ∧ IsParent table p a ∧ a ∉ path' := by
  rcases List.getLast?_eq_some_iff.mp h.getLast with ⟨path', rfl⟩
  cases hlast : path'.getLast? with
  | none =>
    rw [List.getLast?_eq_none_iff] at hlast
    subst hlast
    exact .inl ⟨rfl, h.head a rfl⟩
  | some p =>
    rw [isPath_concat_iff hlast] at h
    exact .inr ⟨p, path', rfl, h.left, h.right.left, h.right.right.right⟩

theorem Climbs.chainEnds {a : Int} {l : List Int} (h : Climbs table a l) : ChainEnds table a := by
  induction h with
  | null hrow hpId => exact .null hrow hpId
  | missing hedge hmissing => exact .missing hedge hmissing
  | self hedge => exact .self hedge
  | up hedge _ _ ih => exact .up hedge ih

theorem ChainEnds.not_cycle (hids : (ids table).Nodup) {a : Int} (h : ChainEnds table a)
    (hself : ¬ IsParent table a a) {n : Nat}
    : ¬ Forest.Steps (IsParent table) (n + 1) a a := by
  intro hcycle
  rcases h.bounded hids with ⟨d, hd⟩
  have hlong := hd _ a hself (hcycle.cycle (d + 1))
  rw [Nat.mul_succ] at hlong
  omega

theorem Climbs.nodup (hids : (ids table).Nodup) {a : Int} {l : List Int} (h : Climbs table a l)
    : l.Nodup := by
  induction h with
  | null => apply List.nodup_singleton
  | missing hedge hmissing =>
    rw [List.nodup_cons, List.mem_singleton]
    refine ⟨?_, List.nodup_singleton _⟩
    rintro rfl
    apply hmissing (mem_ids_of_isParent hedge)
  | self => apply List.nodup_singleton
  | @up p id l hedge hne hl ih =>
    rw [List.nodup_cons]
    refine ⟨?_, ih⟩
    intro hmem
    rw [hl.mem_iff hids] at hmem
    rcases hmem with ⟨n, hsteps⟩
    have hself : ¬ IsParent table id id := by
      intro hself
      apply hne (isParent_leftUnique hids hedge hself)
    have hchain : ChainEnds table id := .up hedge hl.chainEnds
    apply hchain.not_cycle hids hself (.tail hsteps hedge)

theorem Climbs.isPath (hids : (ids table).Nodup) {a : Int} {l : List Int} (h : Climbs table a l)
    (hmem : ∀ x ∈ l, x ∈ ids table)
    : IsPath table a l.reverse := by
  induction h with
  | null hrow hpId =>
    apply IsPath.singleton (hmem _ List.mem_cons_self)
    intro p hedge
    exact absurd hedge (not_isParent_of_null hids hrow hpId p)
  | @missing p =>
    have := hmem p (by simp)
    contradiction
  | self hedge =>
    apply IsPath.singleton (hmem _ List.mem_cons_self)
    intro p hedge'
    exact .inl (isParent_leftUnique hids hedge' hedge)
  | @up p a l hedge hne hl ih =>
    have hnodup := (Climbs.up hedge hne hl).nodup hids
    rw [List.nodup_cons] at hnodup
    rw [List.forall_mem_cons] at hmem
    have hpath := ih hmem.right
    rw [List.reverse_cons, isPath_concat_iff hpath.getLast, List.mem_reverse]
    exact ⟨hpath, hedge, hmem.left, hnodup.left⟩

theorem Climbs.eq_of_isPath (hids : (ids table).Nodup) {a : Int} {l path : List Int}
    (h : Climbs table a l) (hmem : ∀ x ∈ l, x ∈ ids table) (hpath : IsPath table a path)
    : path = l.reverse := by
  induction h generalizing path with
  | null hrow hpId =>
    rcases hpath.cases with ⟨rfl, _⟩ | ⟨p, path, _, _, hedge, _⟩
    . rfl
    . exact absurd hedge (not_isParent_of_null hids hrow hpId p)
  | @missing p =>
    have := hmem p (by simp)
    contradiction
  | self hedge =>
    rcases hpath.cases with ⟨rfl, _⟩ | ⟨p, path, _, hp, hedge', hnot⟩
    . rfl
    . rw [isParent_leftUnique hids hedge' hedge] at hp
      exact absurd (List.mem_of_getLast? hp.getLast) hnot
  | up hedge hne hl ih =>
    rw [List.forall_mem_cons] at hmem
    rcases hpath.cases with ⟨_, hroot⟩ | ⟨p, path, rfl, hp, hedge', _⟩
    . cases hroot _ hedge with
      | inl heq => contradiction
      | inr hmissing =>
        have := hmem.right _ ((hl.mem_iff hids).mpr ⟨0, .refl⟩)
        contradiction
    . rw [isParent_leftUnique hids hedge' hedge] at hp
      rw [List.reverse_cons, ih hmem.right hp]

def ReturnsPath (table : List CsNode) (id : Int) : Prop :=
  ∃ path,
    IsPath table id path
      ∧
    Returns (fun fuel => hieQueUp .default table fuel id) (commaList path)

theorem Climbs.returnsPath_iff (hids : (ids table).Nodup) {a : Int} {l : List Int}
    (h : Climbs table a l)
    : ReturnsPath table a
        ↔
      (∀ x ∈ l, x ∈ ids table) ∧ (commaList l.reverse).length < 60000 := by
  have hreverse : l.reverse ≠ [] := by
    simp [h.ne_nil]
  have hfits : Limits.default.fits (joined ',' (l.reverse.map castAsChar)) = true
      ↔ (commaList l.reverse).length < 60000 := by
    unfold Limits.fits Limits.default
    rw [length_joined, ← length_commaList hreverse, Option.all_some, decide_eq_true_eq,
      Nat.succ_le_iff]
  unfold ReturnsPath
  rw [← hfits]
  constructor
  . rintro ⟨path, hpath, hreturns⟩
    have hne : path ≠ [] := by
      rintro rfl
      have := hpath.getLast
      contradiction
    rw [h.returns_iff hids, commaList_inj hne hreverse] at hreturns
    rcases hreturns with ⟨hfits, rfl⟩
    refine ⟨?_, hfits⟩
    intro x hx
    apply hpath.mem_ids x (List.mem_reverse.mpr hx)
  . rintro ⟨hmem, hfits⟩
    exact ⟨_, h.isPath hids hmem, (h.returns_iff hids).mpr ⟨hfits, rfl⟩⟩

theorem hieQueUp_path_iff (hids : (ids table).Nodup)
    (hchains : ∀ a ∈ ids table, ChainEnds table a) {id : Int} (hid : id ∈ ids table)
    : ReturnsPath table id
        ↔
      (∀ n a, Forest.Steps (IsParent table) n a id → a ∈ ids table)
        ∧
      ∀ path, IsPath table id path → (commaList path).length < 60000 := by
  rcases (hchains id hid).climbs with ⟨l, hl⟩
  have hmem : (∀ n a, Forest.Steps (IsParent table) n a id → a ∈ ids table)
      ↔ ∀ a ∈ l, a ∈ ids table := by
    constructor
    . intro h a ha
      rcases (hl.mem_iff hids).mp ha with ⟨n, hsteps⟩
      apply h n a hsteps
    . intro h n a hsteps
      apply h a ((hl.mem_iff hids).mpr ⟨n, hsteps⟩)
  rw [hl.returnsPath_iff hids, hmem]
  constructor
  . rintro ⟨hall, hlength⟩
    refine ⟨hall, ?_⟩
    intro path hpath
    rw [hl.eq_of_isPath hids hall hpath]
    exact hlength
  . rintro ⟨hall, hlength⟩
    exact ⟨hall, hlength _ (hl.isPath hids hall)⟩

def nodes : List CsNode :=
  [⟨1, none⟩, ⟨2, some 1⟩, ⟨3, some 9⟩]

theorem climbs_nodes_two : Climbs nodes 2 [2, 1] := by
  have hroot : Climbs nodes 1 [1] := by
    exact .null (by decide : (⟨1, none⟩ : CsNode) ∈ nodes) rfl
  apply Climbs.up (by decide : IsParent nodes 1 2) (by decide) hroot

theorem climbs_nodes_three : Climbs nodes 3 [3, 9] := by
  apply Climbs.missing
  . decide
  . decide

theorem chainEnds_nodes : ∀ a ∈ ids nodes, ChainEnds nodes a := by
  intro a ha
  simp only [ids, nodes, List.map_cons, List.map_nil, List.mem_cons, List.not_mem_nil,
    or_false] at ha
  rcases ha with rfl | rfl | rfl
  . exact .null (by decide : (⟨1, none⟩ : CsNode) ∈ nodes) rfl
  . apply climbs_nodes_two.chainEnds
  . apply climbs_nodes_three.chainEnds

theorem hieQueUp_path_nodes : ReturnsPath nodes 2 := by
  have hids : (ids nodes).Nodup := by
    decide
  have hmem : ∀ a ∈ [2, 1], a ∈ ids nodes := by
    decide
  apply (hieQueUp_path_iff hids chainEnds_nodes (by decide)).mpr
  constructor
  . intro n a hsteps
    apply hmem a ((climbs_nodes_two.mem_iff hids).mpr ⟨n, hsteps⟩)
  . intro path hpath
    rw [climbs_nodes_two.eq_of_isPath hids hmem hpath]
    decide

theorem hieQueUp_not_path_nodes
    : (ids nodes).Nodup
        ∧
      (∀ a ∈ ids nodes, ChainEnds nodes a)
        ∧
      3 ∈ ids nodes
        ∧
      Returns (fun fuel => hieQueUp .default nodes fuel 3) ['9', ',', '3']
        ∧
      ¬ ReturnsPath nodes 3 := by
  have hids : (ids nodes).Nodup := by
    decide
  refine ⟨hids, chainEnds_nodes, by decide, ?_, ?_⟩
  . rw [climbs_nodes_three.returns_iff hids]
    decide
  . rw [climbs_nodes_three.returnsPath_iff hids]
    rintro ⟨hmem, _⟩
    have hmissing := hmem 9 (by decide)
    revert hmissing
    decide

end HieFunction
