import SupportFile.MySql.Lemmas.Climb
import SupportFile.MySql.Lemmas.Frontier

/-!
This module contains the comparison of the two functions: the one that climbs to the ancestors of a
node always ends where the parents end, and the one that goes down ends unless it starts at a node
that is its own parent.
-/

namespace HieFunction

open CsNode

variable {table : List CsNode}

theorem exists_bound_of_forall {l : List Int} {P : Nat → Int → Prop}
    (hmono : ∀ {d d' b}, d ≤ d' → P d b → P d' b) (h : ∀ b ∈ l, ∃ d, P d b)
    : ∃ d, ∀ b ∈ l, P d b := by
  induction l with
  | nil => exact ⟨0, by simp⟩
  | cons a l ih =>
    rw [List.forall_mem_cons] at h
    rcases h with ⟨⟨d, hd⟩, h⟩
    rcases ih h with ⟨d', hd'⟩
    refine ⟨max d d', ?_⟩
    rw [List.forall_mem_cons]
    constructor
    . apply hmono (Nat.le_max_left _ _) hd
    . intro b hb
      apply hmono (Nat.le_max_right _ _) (hd' b hb)

theorem bounded_of_chains (hids : (ids table).Nodup)
    (hchains : ∀ id ∈ ids table, ChainEnds table id) {x : Int} (hx : x ∈ ids table)
    (hself : ¬ IsParent table x x)
    : ∃ d, Forest.Bounded (IsParent table) x d := by
  have hbound : ∃ d, ∀ b ∈ ids table, ∀ n x, ¬ IsParent table x x →
      Forest.Steps (IsParent table) n x b → n ≤ d := by
    apply exists_bound_of_forall
    . intro d d' b hle h n x hself hsteps
      apply Nat.le_trans (h n x hself hsteps) hle
    . intro b hb
      exact (hchains b hb).bounded hids
  rcases hbound with ⟨d, hd⟩
  refine ⟨d, ?_⟩
  intro n b hsteps
  apply hd b (mem_ids_of_steps hx hsteps) n x hself hsteps

theorem hieQueDown_returns (hids : (ids table).Nodup) {x : Int} {d : Nat}
    (hbounded : Forest.Bounded (IsParent table) x d)
    : ∃ down,
        Returns (fun fuel => hieQueDown .unbounded table fuel x) down
          ∧
        ∀ y, castAsChar y ∈ down.splitOn ',' ↔ ∃ n, Forest.Steps (IsParent table) n x y := by
  have hfits : ∀ i, Limits.unbounded.groupConcatMaxLen.all
      ((commaList (Forest.level (expand table) x (i + 1))).length ≤ ·) = true := by
    intro i
    rfl
  rcases frontiers_of_bounded hids hbounded hfits with ⟨frontiers, hfrontiers, hpieces⟩
  refine ⟨_, returns_iff.mpr ⟨frontiers, hfrontiers, rfl, rfl⟩, ?_⟩
  intro y
  rw [hfrontiers.splitOn, hpieces, List.mem_map_of_injective castAsChar_injective,
    (expands hids).mem_levels_iff]
  constructor
  . rintro ⟨n, _, hsteps⟩
    exact ⟨n, hsteps⟩
  . rintro ⟨n, hsteps⟩
    have := hbounded n y hsteps
    exact ⟨n, by omega, hsteps⟩

theorem Frontiers.not_of_self {x : Int} (hself : IsParent table x x)
    {childIds : Option (List Char)} {frontiers : List (List Char)}
    (h : Frontiers .unbounded table childIds frontiers)
    : ∀ s, childIds = some s → castAsChar x ∉ s.splitOn ',' := by
  induction h with
  | done =>
    intro s hs
    contradiction
  | @next childIds rest _ ih =>
    intro s hs hx
    rw [Option.some.injEq] at hs
    subst hs
    have hmem : x ∈ select table childIds := by
      rw [mem_select_iff]
      exact ⟨x, hx, hself⟩
    have hne : select table childIds ≠ [] := by
      apply List.ne_nil_of_mem hmem
    apply ih _ (groupConcat_of_fits hne rfl)
    rw [splitOn_commaList hne]
    apply List.mem_map_of_mem hmem

theorem hieQueDown_not_returns {x : Int} (hself : IsParent table x x) (down : List Char)
    : ¬ Returns (fun fuel => hieQueDown .unbounded table fuel x) down := by
  rw [returns_iff]
  rintro ⟨frontiers, hfrontiers, _⟩
  apply hfrontiers.not_of_self hself _ rfl
  rw [splitOn_castAsChar]
  apply List.mem_singleton_self

theorem hieQueDown_dual_iff (hids : (ids table).Nodup)
    (hchains : ∀ id ∈ ids table, ChainEnds table id) {x y : Int} (hx : x ∈ ids table)
    (hy : y ∈ ids table)
    : (∃ down up,
        Returns (fun fuel => hieQueDown .unbounded table fuel x) down
          ∧
        Returns (fun fuel => hieQueUp .unbounded table fuel y) up
          ∧
        (castAsChar y ∈ down.splitOn ',' ↔ castAsChar x ∈ up.splitOn ','))
        ↔
      ¬ IsParent table x x := by
  constructor
  . rintro ⟨down, up, hdown, _⟩ hself
    apply hieQueDown_not_returns hself down hdown
  . intro hself
    rcases bounded_of_chains hids hchains hx hself with ⟨d, hbounded⟩
    rcases hieQueDown_returns hids hbounded with ⟨down, hdown, hmemDown⟩
    rcases hieQueUp_returns hids (hchains y hy) with ⟨up, hup, hmemUp⟩
    refine ⟨down, up, hdown, hup, ?_⟩
    rw [hmemDown, hmemUp]

def family : List CsNode :=
  [⟨1, none⟩, ⟨2, some 1⟩]

theorem hieQueDown_dual_family
    : ∃ down up,
        Returns (fun fuel => hieQueDown .unbounded family fuel 1) down
          ∧
        Returns (fun fuel => hieQueUp .unbounded family fuel 2) up
          ∧
        (castAsChar 2 ∈ down.splitOn ',' ↔ castAsChar 1 ∈ up.splitOn ',') := by
  have hchains : ∀ a ∈ ids family, ChainEnds family a := by
    have hroot : ChainEnds family 1 := by
      exact .null (by decide : (⟨1, none⟩ : CsNode) ∈ family) rfl
    have hchild : ChainEnds family 2 := by
      exact .up (by decide : IsParent family 1 2) hroot
    intro a ha
    simp only [ids, family, List.map_cons, List.map_nil, List.mem_cons, List.not_mem_nil,
      or_false] at ha
    rcases ha with rfl | rfl
    . exact hroot
    . exact hchild
  exact (hieQueDown_dual_iff (by decide) hchains (by decide) (by decide)).mpr (by decide)

def ownParent : List CsNode :=
  [⟨1, some 1⟩]

theorem hieQueDown_not_dual_ownParent
    : (ids ownParent).Nodup
        ∧
      (∀ a ∈ ids ownParent, ChainEnds ownParent a)
        ∧
      1 ∈ ids ownParent
        ∧
      ¬ ∃ down up,
          Returns (fun fuel => hieQueDown .unbounded ownParent fuel 1) down
            ∧
          Returns (fun fuel => hieQueUp .unbounded ownParent fuel 1) up
            ∧
          (castAsChar 1 ∈ down.splitOn ',' ↔ castAsChar 1 ∈ up.splitOn ',') := by
  have hself : IsParent ownParent 1 1 := by
    decide
  refine ⟨by decide, ?_, by decide, ?_⟩
  . intro a ha
    simp only [ids, ownParent, List.map_cons, List.map_nil, List.mem_singleton] at ha
    rw [ha]
    exact .self hself
  . rintro ⟨down, up, hdown, _⟩
    apply hieQueDown_not_returns hself down hdown

end HieFunction
