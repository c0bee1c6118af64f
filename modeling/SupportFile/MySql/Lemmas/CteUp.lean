import SupportFile.MergeSort.Basic
import SupportFile.MySql.Lemmas.CteDown
import SupportFile.MySql.Lemmas.Path

/-!
This module contains the recursive query for the ancestors of a node. Its result is the path from the
top of the hierarchy down to the node, or an error if there is no end of the parents.
-/

namespace HieCte

open CsNode

variable {table : List Row}

theorem mem_joined_iff {row row' : Row}
    : row' ∈ up.joined table row ↔ row' ∈ table ∧ row.pId = some row'.id := by
  unfold up.joined
  rw [List.mem_filter, decide_eq_true_eq]

theorem joined_eq_nil_iff {row : Row}
    : up.joined table row = [] ↔ ∀ p, row.pId = some p → p ∉ ids (nodes table) := by
  rw [List.eq_nil_iff_forall_not_mem]
  simp only [mem_joined_iff, ids_nodes, List.mem_map]
  constructor
  . rintro h p hpId ⟨row', hrow', rfl⟩
    exact h row' ⟨hrow', hpId⟩
  . rintro h row' ⟨hrow', hpId⟩
    exact h row'.id hpId ⟨row', hrow', rfl⟩

theorem length_joined_le (hids : (ids (nodes table)).Nodup) (row : Row)
    : (up.joined table row).length ≤ 1 := by
  have hnodup : (up.joined table row).Nodup := by
    rw [ids_nodes] at hids
    exact (List.Nodup.of_map _ hids).filter _
  cases hjoined : up.joined table row with
  | nil => simp
  | cons row' rest =>
    rw [hjoined] at hnodup
    have hrest : rest = [] := by
      rw [List.eq_nil_iff_forall_not_mem]
      intro row'' hrow''
      have hmem' : row' ∈ up.joined table row := by
        simp [hjoined]
      have hmem'' : row'' ∈ up.joined table row := by
        simp [hjoined, hrow'']
      rw [mem_joined_iff] at hmem' hmem''
      have hid := hmem'.right.symm.trans hmem''.right
      rw [Option.some.injEq] at hid
      have heq := eq_of_id_eq hids hmem'.left hmem''.left hid
      subst heq
      exact (List.nodup_cons.mp hnodup).left hrow''
    simp [hrest]

theorem scan_item (rowno : Nat) (cte : List Row)
    : Scan.scan up.item rowno cte = cte.zip (List.range' (rowno + 1) cte.length) := by
  induction cte generalizing rowno with
  | nil => rfl
  | cons row cte ih =>
    rw [Scan.scan, List.length_cons, List.range'_succ, List.zip_cons_cons, ← ih]
    rfl

theorem select_eq (cte : List Row)
    : up.select cte = cte.reverse.zip (List.range' 1 cte.length).reverse := by
  have hrowno : ((cte.zip (List.range' 1 cte.length)).map Prod.snd).Pairwise (· < ·) := by
    rw [List.map_snd_zip (by simp)]
    exact List.pairwise_lt_range'
  rw [List.pairwise_map] at hrowno
  have hreverse : cte.reverse.zip (List.range' 1 cte.length).reverse
      = (cte.zip (List.range' 1 cte.length)).reverse := by
    unfold List.zip
    rw [List.reverse_zipWith (by simp)]
  rw [hreverse]
  unfold up.select
  rw [scan_item]
  apply MergeSort.mergeSort_eq_of_perm
  . intro row row' row'' hle hle'
    simp only [decide_eq_true_eq] at *
    omega
  . intro row row'
    simp only [Bool.or_eq_true, decide_eq_true_eq]
    omega
  . apply List.reverse_perm
  . rw [List.pairwise_reverse]
    apply List.Pairwise.imp _ hrowno
    intro row row' hlt
    simp only [decide_eq_true_eq]
    omega

theorem map_fst_select (cte : List Row) : (up.select cte).map Prod.fst = cte.reverse := by
  rw [select_eq, List.map_fst_zip (by simp)]

/-- The rows from the one that has no row above it down to that of `id`. -/
structure IsRowPath (table : List Row) (id : Int) (path : List Row) : Prop where
  chain : path.IsChain (fun row row' => row'.pId = some row.id)
  subset : path ⊆ table
  head : ∀ row ∈ path.head?, ∀ p, row.pId = some p → p ∉ ids (nodes table)
  getLast : path.getLast?.map (·.id) = some id

theorem isChain_of_isChain_joined {rows : List Row}
    (h : rows.IsChain (fun row row' => row' ∈ up.joined table row))
    (hhead : ∀ row ∈ rows.head?, row ∈ table)
    : rows ⊆ table ∧ rows.IsChain (fun row row' => row.pId = some row'.id) := by
  induction rows with
  | nil => exact ⟨List.nil_subset _, List.IsChain.nil⟩
  | cons row rows ih =>
    have hrow := hhead row rfl
    cases rows with
    | nil => exact ⟨by simpa using hrow, List.IsChain.singleton row⟩
    | cons row' rows =>
      rw [List.isChain_cons_cons, mem_joined_iff] at h
      rcases ih h.right (by simpa using h.left.left) with ⟨hsubset, hchain⟩
      exact ⟨List.cons_subset.mpr ⟨hrow, hsubset⟩,
        List.IsChain.cons_cons h.left.right hchain⟩

theorem isRowPath_reverse_iff {row : Row} (hrow : row ∈ table) {rows : List Row}
    : (rows.head? = some row ∧ rows.IsChain (fun row row' => row' ∈ up.joined table row)
        ∧ ∀ last ∈ rows.getLast?, up.joined table last = [])
        ↔
      rows.head? = some row ∧ IsRowPath table row.id rows.reverse := by
  apply and_congr_right
  intro hhead
  have htable : ∀ row' ∈ rows.head?, row' ∈ table := by
    rw [hhead]
    simpa using hrow
  constructor
  . rintro ⟨hjoined, hlast⟩
    rcases isChain_of_isChain_joined hjoined htable with ⟨hsubset, hchain⟩
    constructor
    . rw [List.isChain_reverse]
      exact hchain
    . exact List.reverse_subset.mpr hsubset
    . rw [List.head?_reverse]
      intro last hmem
      exact joined_eq_nil_iff.mp (hlast last hmem)
    . rw [List.getLast?_reverse, hhead, Option.map_some]
  . rintro ⟨hchain, hsubset, htop, _⟩
    rw [List.isChain_reverse] at hchain
    rw [List.reverse_subset] at hsubset
    rw [List.head?_reverse] at htop
    constructor
    . apply hchain.imp_of_mem_imp
      intro row' row'' _ hrow'' hpId
      exact mem_joined_iff.mpr ⟨hsubset hrow'', hpId⟩
    . intro last hmem
      exact joined_eq_nil_iff.mpr (htop last hmem)

theorem returnsUp_iff (hids : (ids (nodes table)).Nodup) {row : Row} (hrow : row ∈ table)
    {result : List (Row × Nat)}
    : ReturnsUp table row.id result
        ↔
      ∃ cte, (cte.head? = some row ∧ IsRowPath table row.id cte.reverse)
        ∧ cte.length ≤ maxRecursionDepth ∧ result = up.select cte := by
  have hworking {working : List Row} : working.Perm [row] ↔ working = [row] := List.perm_singleton
  unfold ReturnsUp Cte.Returns
  simp only [anchor_eq hids hrow, hworking, exists_eq_left,
    Cte.rounds_singleton_iff (length_joined_le hids), ← isRowPath_reverse_iff hrow, and_assoc]

/--
The query ends without an error exactly if there is a path of at most a thousand rows down to the
node, and then its result is this path with the numbers counting down to one.
-/
theorem up_path (hids : (ids (nodes table)).Nodup) {id : Int} (hid : id ∈ ids (nodes table))
    {result : List (Row × Nat)}
    : ReturnsUp table id result
        ↔
      ∃ path, IsRowPath table id path
        ∧ path.length ≤ maxRecursionDepth
        ∧ result = path.zip (List.range' 1 path.length).reverse := by
  rcases exists_row hid with ⟨row, hrow, rfl⟩
  rw [returnsUp_iff hids hrow]
  constructor
  . rintro ⟨cte, ⟨_, hpath⟩, hlength, rfl⟩
    refine ⟨cte.reverse, hpath, by simpa using hlength, ?_⟩
    rw [select_eq, List.length_reverse]
  . rintro ⟨path, hpath, hlength, rfl⟩
    refine ⟨path.reverse, ⟨?_, by simpa using hpath⟩, by simpa using hlength, ?_⟩
    . rw [List.head?_reverse]
      have hlast := hpath.getLast
      rw [Option.map_eq_some_iff] at hlast
      rcases hlast with ⟨row', hrow', hid'⟩
      rw [hrow', eq_of_id_eq hids (hpath.subset (List.mem_of_getLast? hrow')) hrow hid']
    . rw [select_eq, List.reverse_reverse, List.length_reverse]

def above : List (Row × Nat) :=
  [(⟨⟨1, none⟩, some ['a']⟩, 3), (⟨⟨2, some 1⟩, some ['b']⟩, 2), (⟨⟨3, some 2⟩, none⟩, 1)]

theorem returnsUp_family : ReturnsUp family 3 above := by
  refine ⟨[⟨⟨3, some 2⟩, none⟩, ⟨⟨2, some 1⟩, some ['b']⟩, ⟨⟨1, none⟩, some ['a']⟩],
    Cte.returns_of_eval rfl, ?_⟩
  rw [select_eq]
  rfl

theorem up_path_family : ∃ path, IsRowPath family 3 path ∧ above = path.zip [3, 2, 1] := by
  rcases (up_path nodup_ids_family (by decide)).mp returnsUp_family with ⟨path, hpath, _, heq⟩
  refine ⟨path, hpath, ?_⟩
  have hlength := congrArg List.length heq
  rw [List.length_zip, List.length_reverse, List.length_range', Nat.min_self] at hlength
  rw [heq, ← hlength]
  rfl

theorem eq_of_own_parent (hids : (ids (nodes table)).Nodup) {row : Row} (hown : row.pId = some row.id)
    {rows : List Row} (hchain : (row :: rows).IsChain (fun row row' => row.pId = some row'.id))
    (hsubset : row :: rows ⊆ table)
    : ∀ row' ∈ row :: rows, row' = row := by
  induction rows with
  | nil => simp
  | cons row' rows ih =>
    rw [List.isChain_cons_cons, hown, Option.some.injEq] at hchain
    have heq : row = row' := by
      apply eq_of_id_eq hids _ _ hchain.left
      . exact hsubset (by simp)
      . exact hsubset (by simp)
    subst heq
    have hrest := ih hchain.right (fun _ h => hsubset (List.mem_cons_of_mem _ h))
    rw [List.forall_mem_cons]
    exact ⟨rfl, hrest⟩

theorem isParent_nodes {row : Row} (hrow : row ∈ table) {p : Int} (hpId : row.pId = some p)
    : IsParent (nodes table) p row.id := by
  exact ⟨row.toCsNode, List.mem_map_of_mem hrow, rfl, hpId⟩

theorem climbs_of_isChain (hids : (ids (nodes table)).Nodup) {rows : List Row} {row : Row}
    (hchain : (row :: rows).IsChain (fun row row' => row.pId = some row'.id))
    (hsubset : row :: rows ⊆ table)
    (htop : ∀ last ∈ (row :: rows).getLast?, ∀ p, last.pId = some p → p ∉ ids (nodes table))
    : ∃ last ∈ (row :: rows).getLast?,
        HieFunction.Climbs (nodes table) row.id
          ((row :: rows).map (·.id) ++ last.pId.toList) := by
  have hrow : row ∈ table := hsubset (by simp)
  induction rows generalizing row with
  | nil =>
    refine ⟨row, rfl, ?_⟩
    cases hpId : row.pId with
    | none => exact .null (List.mem_map_of_mem hrow) hpId
    | some p => exact .missing (isParent_nodes hrow hpId) (htop row rfl p hpId)
  | cons row' rows ih =>
    have hne : row'.id ≠ row.id := by
      intro heq
      have hown : row.pId = some row.id := by
        rw [(List.isChain_cons_cons.mp hchain).left, heq]
      have hall := eq_of_own_parent hids hown hchain hsubset
      have hlast := List.getLast?_eq_some_getLast (List.cons_ne_nil row (row' :: rows))
      rw [hall _ (List.getLast_mem _)] at hlast
      apply htop row hlast row.id hown
      exact HieFunction.mem_ids_of_isParent (isParent_nodes hrow hown)
    rw [List.isChain_cons_cons] at hchain
    have hsubset' : row' :: rows ⊆ table := fun _ h => hsubset (List.mem_cons_of_mem _ h)
    rw [List.getLast?_cons_cons] at htop ⊢
    rcases ih hchain.right hsubset' htop (hsubset' (by simp)) with ⟨last, hlast, hclimbs⟩
    exact ⟨last, hlast, .up (isParent_nodes hrow hchain.left) hne hclimbs⟩

/--
Where both return something, the query and the function list the same ids exactly if no parent is
named for the first row: the function also lists a parent that the table does not have.
-/
theorem up_agrees_iff (hids : (ids (nodes table)).Nodup) {id : Int} (hid : id ∈ ids (nodes table))
    {result : List (Row × Nat)} (h : ReturnsUp table id result) {limits : Limits} {list : List Char}
    (hlist : HieFunction.Returns (fun fuel => HieFunction.hieQueUp limits (nodes table) fuel id) list)
    : list.splitOn ',' = result.map (fun row => castAsChar row.1.id)
        ↔
      ∀ first ∈ result.head?, first.1.pId = none := by
  rcases exists_row hid with ⟨row, hrow, rfl⟩
  rcases (returnsUp_iff hids hrow).mp h with ⟨cte, ⟨hhead, hpath⟩, _, rfl⟩
  cases cte with
  | nil => contradiction
  | cons row' rows =>
    rw [List.head?_cons, Option.some.injEq] at hhead
    subst hhead
    have hchain := hpath.chain
    have htop := hpath.head
    rw [List.isChain_reverse] at hchain
    rw [List.head?_reverse] at htop
    rcases climbs_of_isChain hids hchain (List.reverse_subset.mp hpath.subset) htop with
      ⟨last, hlast, hclimbs⟩
    have hids' : (up.select (row' :: rows)).map (fun row => castAsChar row.1.id)
        = ((row' :: rows).map (·.id)).reverse.map castAsChar := by
      rw [← List.map_reverse, ← map_fst_select, List.map_map, List.map_map]
      rfl
    have hfirst : (∀ first ∈ (up.select (row' :: rows)).head?, first.1.pId = none)
        ↔ last.pId = none := by
      rw [← List.head?_reverse, ← map_fst_select, List.head?_map] at hlast
      rcases Option.map_eq_some_iff.mp hlast with ⟨first, hmem, rfl⟩
      rw [hmem]
      simp
    rw [((hclimbs.returns_iff hids).mp hlist).right, splitOn_commaList (by simp), hids', hfirst,
      List.reverse_append, List.map_append]
    cases last.pId with
    | none => simp
    | some p => simp

theorem up_agrees_family
    : HieFunction.Returns (fun fuel => HieFunction.hieQueUp .default (nodes family) fuel 3)
        ['1', ',', '2', ',', '3']
        ∧
      ['1', ',', '2', ',', '3'].splitOn ',' = [['1'], ['2'], ['3']] := by
  have hreturns : HieFunction.Returns
      (fun fuel => HieFunction.hieQueUp .default (nodes family) fuel 3) ['1', ',', '2', ',', '3'] := by
    exact ⟨4, by decide⟩
  refine ⟨hreturns, ?_⟩
  rw [(up_agrees_iff nodup_ids_family (by decide) returnsUp_family hreturns).mpr (by decide)]
  decide

end HieCte
