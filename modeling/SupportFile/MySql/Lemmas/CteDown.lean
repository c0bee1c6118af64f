import SupportFile.MySql.Impl.HieCte
import SupportFile.MySql.Lemmas.Agree
import SupportFile.MySql.Lemmas.Session

/-!
This module contains the recursive query for the descendants of a node. It fails only on trees that
are too deep for it, and it finds the rows that the routines for the same purpose find.
-/

namespace HieFunction

theorem Frontiers.unique {limits : CsNode.Limits} {table : List CsNode} {childIds : Option (List Char)}
    {frontiers frontiers' : List (List Char)} (h : Frontiers limits table childIds frontiers)
    (h' : Frontiers limits table childIds frontiers')
    : frontiers = frontiers' := by
  induction h generalizing frontiers' with
  | done =>
    cases h'
    rfl
  | next _ ih =>
    cases h' with
    | next h' => rw [ih h']

end HieFunction

namespace HieCte

open CsNode

variable {table : List Row}

def nodes (table : List Row) : List CsNode :=
  table.map (·.toCsNode)

theorem ids_nodes (table : List Row) : ids (nodes table) = table.map (·.id) := by
  unfold ids nodes
  rw [List.map_map]
  rfl

theorem eq_of_id_eq (hids : (ids (nodes table)).Nodup) {row row' : Row} (hrow : row ∈ table)
    (hrow' : row' ∈ table) (h : row.id = row'.id)
    : row = row' := by
  rw [ids_nodes] at hids
  exact List.inj_on_of_nodup_map hids hrow hrow' h

theorem exists_row {id : Int} (hid : id ∈ ids (nodes table)) : ∃ row ∈ table, row.id = id := by
  rw [ids_nodes, List.mem_map] at hid
  exact hid

theorem anchor_eq (hids : (ids (nodes table)).Nodup) {row : Row} (hrow : row ∈ table)
    : anchor table row.id = [row] := by
  have hnodup : (anchor table row.id).Nodup := by
    rw [ids_nodes] at hids
    exact (List.Nodup.of_map _ hids).filter _
  apply List.perm_singleton.mp
  rw [List.perm_ext_iff_of_nodup hnodup (List.nodup_singleton row)]
  intro row'
  rw [anchor, List.mem_filter, decide_eq_true_eq, List.mem_singleton]
  constructor
  . rintro ⟨hrow', hid⟩
    exact eq_of_id_eq hids hrow' hrow hid
  . rintro rfl
    exact ⟨hrow, rfl⟩

theorem map_id_joined (table : List Row) (row : Row)
    : (down.joined table row).map (·.id) = HieProcedure.children (nodes table) row.id := by
  unfold down.joined HieProcedure.children nodes
  rw [List.filter_map, List.map_map]
  rfl

theorem mem_table_of_mem_level {working : List Row} (hworking : working ⊆ table) (n : Nat)
    : Cte.level (down.joined table) working n ⊆ table := by
  cases n with
  | zero => exact hworking
  | succ n =>
    rw [Cte.level_succ]
    intro row hrow
    rcases List.mem_flatMap.mp hrow with ⟨_, _, hrow⟩
    exact List.mem_of_mem_filter hrow

def descendants (table : List Row) (root : Int) : List Int :=
  (List.range maxRecursionDepth).flatMap
    (Cte.level (HieProcedure.children (nodes table)) [root])

section Down

variable (hids : (ids (nodes table)).Nodup) {root : Int} (hroot : root ∈ ids (nodes table))

include hids hroot

theorem map_id_level (n : Nat)
    : (Cte.level (down.joined table) (anchor table root) n).map (·.id)
        = Cte.level (HieProcedure.children (nodes table)) [root] n := by
  rcases exists_row hroot with ⟨row, hrow, rfl⟩
  rw [anchor_eq hids hrow, Cte.map_level _ (map_id_joined table)]
  rfl

theorem exists_returnsDown_iff
    : (∃ rows, ReturnsDown table root rows)
        ↔
      ∀ n b, Forest.Steps (IsParent (nodes table)) n root b → n < maxRecursionDepth := by
  unfold ReturnsDown
  rw [Cte.exists_returns_iff, Option.isSome_iff_exists]
  simp only [Cte.eval_eq_some_iff, exists_and_left, exists_eq, and_true]
  rw [← List.map_eq_nil_iff, map_id_level hids hroot,
    Cte.level_eq_nil_iff (fun a b => HieProcedure.mem_children_iff)]

theorem ReturnsDown.bounded {rows : List Row} (h : ReturnsDown table root rows)
    : Forest.Bounded (IsParent (nodes table)) root maxRecursionDepth := by
  intro n b hsteps
  exact Nat.le_of_lt ((exists_returnsDown_iff hids hroot).mp ⟨rows, h⟩ n b hsteps)

theorem ReturnsDown.perm {rows : List Row} (h : ReturnsDown table root rows)
    : (rows.map (·.id)).Perm (descendants table root) ∧ rows ⊆ table := by
  rcases h.eval with ⟨rows', heval, hperm⟩
  rw [(Cte.eval_eq_some_iff.mp heval).right] at hperm
  constructor
  . apply (hperm.symm.map _).trans
    unfold descendants
    rw [List.map_flatMap]
    simp only [map_id_level hids hroot]
    exact List.Perm.refl _
  . intro row hrow
    rcases List.mem_flatMap.mp (hperm.mem_iff.mpr hrow) with ⟨n, _, hrow⟩
    exact mem_table_of_mem_level (List.filter_subset_self table) n hrow

theorem ReturnsDown.nodup {rows : List Row} (h : ReturnsDown table root rows)
    : (rows.map (·.id)).Nodup := by
  rw [(h.perm hids hroot).left.nodup_iff]
  exact Cte.nodup_levels (fun a b => HieProcedure.mem_children_iff) (isParent_leftUnique hids)
    (HieProcedure.nodup_children hids) (h.bounded hids hroot) _

theorem ReturnsDown.mem_ids_iff {rows : List Row} (h : ReturnsDown table root rows) {b : Int}
    : b ∈ rows.map (·.id) ↔ ∃ n, Forest.Steps (IsParent (nodes table)) n root b := by
  rw [(h.perm hids hroot).left.mem_iff]
  unfold descendants
  simp only [List.mem_flatMap, List.mem_range, List.mem_singleton, exists_eq_left,
    Cte.mem_level_iff (fun a b => @HieProcedure.mem_children_iff (nodes table) a b)]
  constructor
  . rintro ⟨n, _, hsteps⟩
    exact ⟨n, hsteps⟩
  . rintro ⟨n, hsteps⟩
    exact ⟨n, (exists_returnsDown_iff hids hroot).mp ⟨rows, h⟩ n b hsteps, hsteps⟩

theorem ReturnsDown.mem_iff {rows : List Row} (h : ReturnsDown table root rows) {row : Row}
    : row ∈ rows ↔ row ∈ table ∧ ∃ n, Forest.Steps (IsParent (nodes table)) n root row.id := by
  have hsubset := (h.perm hids hroot).right
  rw [← h.mem_ids_iff hids hroot, List.mem_map]
  constructor
  . intro hrow
    exact ⟨hsubset hrow, row, hrow, rfl⟩
  . rintro ⟨hrow, row', hrow', hid⟩
    rw [eq_of_id_eq hids hrow (hsubset hrow') hid.symm]
    exact hrow'

/--
The query ends without an error exactly if no descendant is as deep as the limit, and then its result
is the row of the root and those of its descendants, each once.
-/
theorem down_descendants
    : ((∃ rows, ReturnsDown table root rows)
        ↔
      ∀ n b, Forest.Steps (IsParent (nodes table)) n root b → n < maxRecursionDepth)
        ∧
      ∀ rows, ReturnsDown table root rows →
        rows.Nodup
          ∧
        ∀ row, row ∈ rows
          ↔ row ∈ table ∧ ∃ n, Forest.Steps (IsParent (nodes table)) n root row.id := by
  refine ⟨exists_returnsDown_iff hids hroot, ?_⟩
  intro rows h
  exact ⟨List.Nodup.of_map _ (h.nodup hids hroot), fun row => h.mem_iff hids hroot⟩

end Down

def family : List Row :=
  [⟨⟨1, none⟩, some ['a']⟩, ⟨⟨3, some 2⟩, none⟩, ⟨⟨2, some 1⟩, some ['b']⟩, ⟨⟨4, some 1⟩, none⟩]

def below : List Row :=
  [⟨⟨1, none⟩, some ['a']⟩, ⟨⟨2, some 1⟩, some ['b']⟩, ⟨⟨4, some 1⟩, none⟩, ⟨⟨3, some 2⟩, none⟩]

theorem nodup_ids_family : (ids (nodes family)).Nodup := by
  decide

theorem returnsDown_family : ReturnsDown family 1 below := by
  exact Cte.returns_of_eval rfl

theorem down_descendants_family
    : below.Nodup
        ∧
      ∀ row, row ∈ below ↔ row ∈ family ∧ ∃ n, Forest.Steps (IsParent (nodes family)) n 1 row.id := by
  exact (down_descendants nodup_ids_family (by decide)).right below returnsDown_family

section Agree

variable (hids : (ids (nodes table)).Nodup) {root : Int} (hroot : root ∈ ids (nodes table))
  (hbounded : Forest.Bounded (IsParent (nodes table)) root HieProcedure.maxSpRecursionDepth)

include hids hroot hbounded

theorem exists_returnsDown : ∃ rows, ReturnsDown table root rows := by
  rw [exists_returnsDown_iff hids hroot]
  intro n b hsteps
  have hle := hbounded n b hsteps
  have hlt : HieProcedure.maxSpRecursionDepth < maxRecursionDepth := by
    decide
  omega

theorem ReturnsDown.perm_procedure {rows : List Row} (h : ReturnsDown table root rows)
    {session : Option HieProcedure.TempHie} {selected : List (HieProcedure.TempRow × CsNode)}
    (hselected : (HieProcedure.hieQueDown (nodes table) session root).2 = some selected)
    : (selected.map (·.2)).Perm (rows.map (·.toCsNode)) := by
  have hlists := HieProcedure.lists_of_hieQueDown hids hroot hbounded hselected
  have hnodup : (ids (selected.map (·.2))).Nodup := by
    unfold ids
    rw [List.map_map]
    exact hlists.nodup
  have hnodup' : (ids (rows.map (·.toCsNode))).Nodup := by
    unfold ids
    rw [List.map_map]
    exact h.nodup hids hroot
  rw [List.perm_ext_iff_of_nodup hnodup.of_map hnodup'.of_map]
  intro node
  simp only [List.mem_map, h.mem_iff hids hroot]
  constructor
  . rintro ⟨row, hrow, rfl⟩
    have hnode := (hlists.joined row hrow).left
    rcases List.mem_map.mp hnode with ⟨row', hrow', heq'⟩
    have hsteps := (hlists.mem_iff row.2.id row.1.depth).mp ⟨row, hrow, rfl, rfl⟩
    refine ⟨row', ⟨hrow', row.1.depth, ?_⟩, heq'⟩
    rw [← heq'] at hsteps
    exact hsteps
  . rintro ⟨row, ⟨hrow, n, hsteps⟩, rfl⟩
    rcases (hlists.mem_iff row.id n).mpr hsteps with ⟨found, hfound, hid, _⟩
    refine ⟨found, hfound, ?_⟩
    exact CsNode.eq_of_id_eq hids (hlists.joined found hfound).left (List.mem_map_of_mem hrow) hid

theorem ReturnsDown.perm_function {rows : List Row} (h : ReturnsDown table root rows)
    {list : List Char}
    (hlist : HieFunction.Returns (fun fuel =>
      HieFunction.hieQueDown .unbounded (nodes table) fuel root) list)
    : (list.splitOn ',').Perm ((rows.map (·.id)).map castAsChar) := by
  have hfits : ∀ i, Limits.unbounded.groupConcatMaxLen.all
      ((commaList (Forest.level (expand (nodes table)) root (i + 1))).length ≤ ·) = true := by
    intro i
    rfl
  rcases HieFunction.frontiers_of_bounded hids hbounded hfits with ⟨frontiers, hfrontiers, hpieces⟩
  rcases HieFunction.returns_iff.mp hlist with ⟨frontiers', hfrontiers', _, rfl⟩
  rw [hfrontiers'.unique hfrontiers, hfrontiers.splitOn, hpieces]
  apply List.Perm.map
  have hR := isParent_leftUnique hids
  rw [List.perm_ext_iff_of_nodup ((expands hids).nodup_levels hR hbounded _) (h.nodup hids hroot)]
  intro b
  rw [h.mem_ids_iff hids hroot]
  exact HieFunction.mem_descendants_iff hids hbounded

/--
Where the procedure can go deep enough, the query ends without an error, and it finds the rows that
the procedure finds in any session and the ids that the function lists if its strings have room.
-/
theorem down_agrees
    : (∃ rows, ReturnsDown table root rows)
        ∧
      ∀ rows, ReturnsDown table root rows →
        (∀ session selected,
          (HieProcedure.hieQueDown (nodes table) session root).2 = some selected →
          (selected.map (·.2)).Perm (rows.map (·.toCsNode)))
          ∧
        ∀ list,
          HieFunction.Returns (fun fuel =>
            HieFunction.hieQueDown .unbounded (nodes table) fuel root) list →
          (list.splitOn ',').Perm ((rows.map (·.id)).map castAsChar) := by
  refine ⟨exists_returnsDown hids hroot hbounded, ?_⟩
  intro rows h
  constructor
  . intro session selected hselected
    exact h.perm_procedure hids hroot hbounded hselected
  . intro list hlist
    exact h.perm_function hids hroot hbounded hlist

end Agree

theorem bounded_family
    : Forest.Bounded (IsParent (nodes family)) 1 HieProcedure.maxSpRecursionDepth := by
  have hnil : Forest.level (expand (nodes family)) 1 3 = [] := by
    decide
  exact (expands nodup_ids_family).bounded_of_level_eq_nil
    ((expands nodup_ids_family).level_eq_nil_of_le hnil (by decide : 3 ≤ 256))

theorem down_agrees_family
    : ∃ selected,
        (HieProcedure.hieQueDown (nodes family) none 1).2 = some selected
          ∧
        (selected.map (·.2)).Perm (below.map (·.toCsNode)) := by
  have hagrees := (down_agrees nodup_ids_family (by decide) bounded_family).right
  refine ⟨_, rfl, ?_⟩
  exact (hagrees below returnsDown_family).left none _ rfl

end HieCte
