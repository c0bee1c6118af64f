import SupportFile.MySql.Lemmas.Procedure

/-!
This module contains the calls of the procedure in one session. They share the temporary table, but all
that a call finds of the earlier ones is how many numbers they have used up.
-/

namespace HieProcedure

open CsNode

variable {table : List CsNode}

structure Call where
  table : List CsNode
  rootId : Int

def hieQueDowns (session : Option TempHie) (calls : List Call) : Option TempHie :=
  match calls with
  | [] => session
  | call :: calls => hieQueDowns (some (hieQueDown call.table session call.rootId).1) calls

def inserted (session : Option TempHie) (calls : List Call) : Nat :=
  match calls with
  | [] => 0
  | call :: calls =>
    let temp := (hieQueDown call.table session call.rootId).1
    temp.rows.length + inserted (some temp) calls

section Insert

variable {R : TempHie → TempHie → Prop} (hrefl : ∀ temp, R temp temp)
  (htrans : ∀ {temp temp' temp''}, R temp temp' → R temp' temp'' → R temp temp'')
  (hinsert : ∀ {temp temp' id depth}, temp.insert id depth = some temp' → R temp temp')

include hrefl htrans

theorem fetch_rel {call : Int → TempHie → TempHie × Bool}
    (hcall : ∀ id temp, R temp (call id temp).1) (curso : List Int) (temp : TempHie)
    : R temp (fetch call curso temp).1 := by
  induction curso generalizing temp with
  | nil => apply hrefl
  | cons id curso ih =>
    have hid := hcall id temp
    unfold fetch
    split
    . next temp' heq =>
      rw [heq] at hid
      exact htrans hid (ih temp')
    . next temp' heq =>
      rw [heq] at hid
      exact hid

include hinsert

theorem hieQueRecursive_rel (levels : Nat) (root : Int) (depth : Nat) (temp : TempHie)
    : R temp (hieQueRecursive table levels root depth temp).1 := by
  induction levels generalizing root depth temp with
  | zero => apply hrefl
  | succ levels ih =>
    unfold hieQueRecursive
    split
    . apply hrefl
    . next temp' heq =>
      apply htrans (hinsert heq)
      apply fetch_rel hrefl htrans
      intro id temp
      apply ih

theorem hieQueDown_rel (session : Option TempHie) (root : Int)
    : R { session.getD {} with rows := [] } (hieQueDown table session root).1 := by
  have hrel := @hieQueRecursive_rel table R hrefl htrans hinsert (maxSpRecursionDepth + 1) root 0
    { session.getD {} with rows := [] }
  unfold hieQueDown
  dsimp only
  split
  . next heq =>
    rw [heq] at hrel
    exact hrel
  . next heq =>
    rw [heq] at hrel
    exact hrel

end Insert

/-- Every row takes a number, as long as there are any. -/
def Counts (temp temp' : TempHie) : Prop :=
  temp.next ≤ maxSno + 1 →
    ∃ n, temp'.rows.length = temp.rows.length + n ∧ temp'.next = min (temp.next + n) (maxSno + 1)

theorem Counts.insert {temp temp' : TempHie} {id : Int} {depth : Nat}
    (h : temp.insert id depth = some temp')
    : Counts temp temp' := by
  intro hnext
  refine ⟨1, ?_, ?_⟩
  . rw [TempHie.length_rows, TempHie.nodes_insert h, List.length_append, TempHie.length_rows,
      List.length_singleton]
  . rcases TempHie.insert_cases h with ⟨hle, rfl⟩ | ⟨hgt, _, hnext', _⟩
    . rw [TempHie.next_append, List.length_singleton]
      omega
    . omega

theorem next_hieQueDown {session : Option TempHie} (hnext : (session.getD {}).next ≤ maxSno + 1)
    (root : Int)
    : (hieQueDown table session root).1.next
        =
      min ((session.getD {}).next + (hieQueDown table session root).1.rows.length) (maxSno + 1) := by
  have hcounts : Counts { session.getD {} with rows := [] } (hieQueDown table session root).1 := by
    apply hieQueDown_rel
    . intro temp hnext
      exact ⟨0, rfl, by omega⟩
    . intro temp temp' temp'' hfirst hsecond hnext
      rcases hfirst hnext with ⟨n, hrows, hnext'⟩
      rcases hsecond (by omega) with ⟨n', hrows', hnext''⟩
      exact ⟨n + n', by omega, by omega⟩
    . exact Counts.insert
  rcases hcounts hnext with ⟨n, hrows, hnext'⟩
  rw [hrows, hnext', List.length_nil, Nat.zero_add]

theorem next_hieQueDowns {session : Option TempHie} (hnext : (session.getD {}).next ≤ maxSno + 1)
    (calls : List Call)
    : ((hieQueDowns session calls).getD {}).next
        =
      min ((session.getD {}).next + inserted session calls) (maxSno + 1) := by
  induction calls generalizing session with
  | nil =>
    unfold hieQueDowns inserted
    omega
  | cons call calls ih =>
    have hcall := @next_hieQueDown call.table session hnext call.rootId
    rw [hieQueDowns, ih, inserted, Option.getD_some]
    . omega
    . rw [Option.getD_some]
      omega

/-- The nodes of the tree below a root with their depths, every node right before its subtrees. -/
inductive Preorder (table : List CsNode) : Int → Nat → List (Int × Nat) → Prop where
  | node : (∀ id ∈ children table root, Preorder table id (depth + 1) (nodes id)) →
      Preorder table root depth ((root, depth) :: (children table root).flatMap nodes)

theorem preorder_walk {d depth : Nat} {root : Int}
    (hbounded : Forest.Bounded (IsParent table) root d)
    : Preorder table root depth (walk table (d + 1) root depth) := by
  induction d generalizing root depth with
  | zero =>
    apply Preorder.node
    intro id hid
    rw [children_eq_nil hbounded] at hid
    contradiction
  | succ d ih =>
    apply Preorder.node
    intro id hid
    exact ih (hbounded.child (mem_children_iff.mp hid))

structure Lists (table : List CsNode) (root : Int) (rows : List (TempRow × CsNode)) : Prop where
  ordered : rows.Pairwise (fun row row' => row.1.sno < row'.1.sno)
  preorder : Preorder table root 0 (rows.map (fun row => (row.1.id, row.1.depth)))
  joined : ∀ row ∈ rows, row.2 ∈ table ∧ row.1.id = row.2.id
  nodup : (rows.map (·.2.id)).Nodup
  mem_iff : ∀ b n, (∃ row ∈ rows, row.2.id = b ∧ row.1.depth = n)
    ↔ Forest.Steps (IsParent table) n root b

theorem map_fst_join (hids : (ids table).Nodup) {rows : List TempRow}
    (hmem : ∀ row ∈ rows, row.id ∈ ids table)
    : (rows.flatMap (fun row =>
        (table.filter (fun node => row.id = node.id)).map (fun node => (row, node)))).map Prod.fst
          = rows := by
  induction rows with
  | nil => rfl
  | cons row rows ih =>
    rw [List.forall_mem_cons, ids, List.mem_map] at hmem
    rcases hmem with ⟨⟨node, hnode, hid⟩, hmem⟩
    have hfilter : table.filter (fun node => row.id = node.id) = [node] := by
      rw [← filter_id_eq hids hnode]
      apply List.filter_congr
      intro node' _
      rw [hid, decide_eq_decide, eq_comm]
    rw [List.flatMap_cons, List.map_append, ih hmem, hfilter]
    rfl

theorem map_fst_select (hids : (ids table).Nodup) {temp : TempHie}
    (hsno : temp.rows.Pairwise (fun row row' => row.sno < row'.sno))
    (hmem : ∀ row ∈ temp.rows, row.id ∈ ids table)
    : (select table temp).map Prod.fst = temp.rows := by
  have hjoin := map_fst_join hids hmem
  unfold select
  rw [List.mergeSort_of_pairwise]
  . exact hjoin
  . rw [← hjoin, List.pairwise_map] at hsno
    apply List.Pairwise.imp _ hsno
    intro row row' hlt
    rw [decide_eq_true_eq]
    omega

theorem mem_select {temp : TempHie} {row : TempRow × CsNode} (h : row ∈ select table temp)
    : row.2 ∈ table ∧ row.1.id = row.2.id := by
  unfold select at h
  rw [List.mem_mergeSort, List.mem_flatMap] at h
  rcases h with ⟨temp, _, h⟩
  rw [List.mem_map] at h
  rcases h with ⟨node, hnode, rfl⟩
  rw [List.mem_filter, decide_eq_true_eq] at hnode
  exact hnode

/-- The rows have different numbers, in the order in which they came. -/
structure Sorted (temp : TempHie) : Prop where
  pairwise : temp.rows.Pairwise (fun row row' => row.sno < row'.sno)
  bounded : ∀ row ∈ temp.rows, row.sno < temp.next ∧ row.sno ≤ maxSno

theorem Sorted.insert {temp temp' : TempHie} {id : Int} {depth : Nat} (hs : Sorted temp)
    (h : temp.insert id depth = some temp')
    : Sorted temp' := by
  have hlast {next sno : Nat} (hnext : sno < next) (hmax : sno ≤ maxSno)
      (hrows : ∀ row ∈ temp.rows, row.sno < sno)
      : Sorted { next := next, rows := temp.rows ++ [{ sno := sno, id := id, depth := depth }] } := by
    constructor
    . rw [List.pairwise_append]
      exact ⟨hs.pairwise, List.pairwise_singleton _ _, by simpa using hrows⟩
    . rw [List.forall_mem_append, List.forall_mem_singleton]
      refine ⟨?_, hnext, hmax⟩
      intro row hrow
      have := hrows row hrow
      dsimp only
      omega
  rcases TempHie.insert_cases h with ⟨hle, rfl⟩ | ⟨_, hnone, hnext, hrows⟩
  . exact hlast (Nat.lt_succ_self _) hle (fun row hrow => (hs.bounded row hrow).left)
  . cases temp'
    dsimp only at hnext hrows
    subst hnext hrows
    apply hlast (Nat.lt_succ_self _) (Nat.le_refl _)
    intro row hrow
    exact Nat.lt_of_le_of_ne (hs.bounded row hrow).right (hnone row hrow)

theorem lists_select {root : Int} {temp : TempHie} (hids : (ids table).Nodup)
    (hroot : root ∈ ids table)
    (hbounded : Forest.Bounded (IsParent table) root maxSpRecursionDepth)
    (hsno : temp.rows.Pairwise (fun row row' => row.sno < row'.sno))
    (hrows : temp.nodes = walk table (maxSpRecursionDepth + 1) root 0)
    : Lists table root (select table temp) := by
  have hmem : ∀ row ∈ temp.rows, row.id ∈ ids table := by
    intro row hrow
    have hwalk : (row.id, row.depth) ∈ walk table (maxSpRecursionDepth + 1) root 0 := by
      rw [← hrows]
      exact List.mem_map_of_mem hrow
    rcases mem_walk_iff.mp hwalk with ⟨n, _, _, hsteps⟩
    apply mem_ids_of_steps hroot hsteps
  have hfst := map_fst_select hids hsno hmem
  unfold TempHie.nodes at hrows
  rw [← hfst, List.map_map] at hrows
  constructor
  . rw [← hfst, List.pairwise_map] at hsno
    exact hsno
  . have hpreorder : Preorder table root 0 _ := preorder_walk hbounded
    rw [← hrows] at hpreorder
    exact hpreorder
  . intro row hrow
    apply mem_select hrow
  . have hmap : (select table temp).map (·.2.id)
        = (walk table (maxSpRecursionDepth + 1) root 0).map Prod.fst := by
      rw [← hrows, List.map_map]
      apply List.map_congr_left
      intro row hrow
      exact (mem_select hrow).right.symm
    rw [hmap]
    apply nodup_walk hids hbounded
  . intro b n
    have hwalk : (∃ row ∈ select table temp, row.2.id = b ∧ row.1.depth = n)
        ↔ (b, n) ∈ walk table (maxSpRecursionDepth + 1) root 0 := by
      rw [← hrows, List.mem_map]
      apply exists_congr
      intro row
      rw [Function.comp_apply, Prod.mk.injEq]
      apply and_congr_right
      intro hrow
      rw [(mem_select hrow).right]
    rw [hwalk, mem_walk_iff]
    constructor
    . rintro ⟨m, _, hm, hsteps⟩
      rw [Nat.zero_add] at hm
      rw [hm]
      exact hsteps
    . intro hsteps
      have := hbounded n b hsteps
      exact ⟨n, by omega, by omega, hsteps⟩

/-- What a call returns does not depend on the session. -/
theorem lists_of_hieQueDown {session : Option TempHie} {root : Int}
    {rows : List (TempRow × CsNode)} (hids : (ids table).Nodup) (hroot : root ∈ ids table)
    (hbounded : Forest.Bounded (IsParent table) root maxSpRecursionDepth)
    (h : (hieQueDown table session root).2 = some rows)
    : Lists table root rows := by
  have hsorted : Sorted { session.getD {} with rows := [] } →
      Sorted (hieQueDown table session root).1 := by
    apply hieQueDown_rel (R := fun temp temp' => Sorted temp → Sorted temp')
    . exact fun _ hs => hs
    . exact fun hfirst hsecond hs => hsecond (hfirst hs)
    . exact fun hinsert hs => hs.insert hinsert
  have hpairwise := (hsorted ⟨List.Pairwise.nil, by simp⟩).pairwise
  rcases rows_of_hieQueDown h with ⟨hnodes, hrows⟩
  rw [hrows]
  exact lists_select hids hroot hbounded hpairwise hnodes

/-- The last number is there still, or it is in the table. -/
def Unspent (temp : TempHie) : Prop :=
  temp.next ≤ maxSno ∨ (temp.next = maxSno + 1 ∧ ∃ row ∈ temp.rows, row.sno = maxSno)

/-- Until the table is emptied no number is given out twice. -/
def Numbers (temp temp' : TempHie) : Prop :=
  Unspent temp → Unspent temp' ∧ temp'.next + temp.nodes.length = temp.next + temp'.nodes.length

theorem Numbers.insert {temp temp' : TempHie} {id : Int} {depth : Nat}
    (h : temp.insert id depth = some temp')
    : Numbers temp temp' := by
  intro hunspent
  have hnodes := congrArg List.length (TempHie.nodes_insert h)
  rw [List.length_append, List.length_singleton] at hnodes
  rcases TempHie.insert_cases h with ⟨hle, rfl⟩ | ⟨hgt, hnone, _, _⟩
  . rw [TempHie.next_append, List.length_singleton]
    refine ⟨?_, by omega⟩
    by_cases hlast : temp.next = maxSno
    . right
      refine ⟨by rw [TempHie.next_append, hlast]; rfl, ⟨temp.next, id, depth⟩, ?_, hlast⟩
      simp [TempHie.append]
    . left
      rw [TempHie.next_append, List.length_singleton]
      omega
  . rcases hunspent with hle | ⟨_, row, hrow, hsno⟩
    . omega
    . exact absurd hsno (hnone row hrow)

theorem room_of_hieQueDown {session : Option TempHie} {root : Int} {rows : List (TempRow × CsNode)}
    (hnext : (session.getD {}).next ≤ maxSno) (h : (hieQueDown table session root).2 = some rows)
    : (session.getD {}).next + (walk table (maxSpRecursionDepth + 1) root 0).length
        ≤ maxSno + 1 := by
  have hnumbers : Numbers { session.getD {} with rows := [] } (hieQueDown table session root).1 := by
    apply hieQueDown_rel
    . intro temp hunspent
      exact ⟨hunspent, rfl⟩
    . intro temp temp' temp'' hfirst hsecond hunspent
      have hfirst := hfirst hunspent
      have hsecond := hsecond hfirst.left
      exact ⟨hsecond.left, by omega⟩
    . exact Numbers.insert
  rcases hnumbers (.inl hnext) with ⟨hunspent, hlength⟩
  rw [(rows_of_hieQueDown h).left] at hlength
  simp only [TempHie.nodes, List.map_nil, List.length_nil, Nat.add_zero] at hlength
  rcases hunspent with hle | ⟨heq, _⟩
  . omega
  . omega

/--
A call after any earlier ones lists the tree below a root, as long as the numbers of the temporary
table suffice for the rows of the calls before and for those of the tree.
-/
theorem hieQueDown_lists (calls : List Call) {root : Int} (hids : (ids table).Nodup)
    (hroot : root ∈ ids table)
    (hbounded : Forest.Bounded (IsParent table) root maxSpRecursionDepth)
    (hroom : ∀ nodes, Preorder table root 0 nodes →
      inserted none calls + nodes.length ≤ maxSno)
    : ∃ rows,
        (hieQueDown table (hieQueDowns none calls) root).2 = some rows
          ∧
        Lists table root rows := by
  have hone : (Option.getD none {} : TempHie).next = 1 := by
    rfl
  have hnext := next_hieQueDowns (by rw [hone]; decide) calls
  have hwalk := hroom _ (preorder_walk hbounded)
  have hpos : 0 < (walk table (maxSpRecursionDepth + 1) root 0).length := by
    simp [walk]
  have hroom' : ((hieQueDowns none calls).getD {}).next
      + (walk table (maxSpRecursionDepth + 1) root 0).length ≤ maxSno + 1 := by
    omega
  rcases hieQueDown_of_room hbounded hroom' with ⟨rows, hrows⟩
  exact ⟨rows, hrows, lists_of_hieQueDown hids hroot hbounded hrows⟩

theorem Preorder.unique {root : Int} {depth : Nat} {nodes nodes' : List (Int × Nat)}
    (h : Preorder table root depth nodes) (h' : Preorder table root depth nodes')
    : nodes = nodes' := by
  induction h generalizing nodes' with
  | node _ ih =>
    cases h' with
    | node hchildren' =>
      congr 1
      apply List.flatMap_congr
      intro id hid
      apply ih id hid (hchildren' id hid)

def pair : List CsNode :=
  [⟨1, none⟩, ⟨2, some 1⟩]

theorem nodup_ids_pair : (ids pair).Nodup := by
  decide

theorem bounded_pair : Forest.Bounded (IsParent pair) 1 maxSpRecursionDepth := by
  have hnil : Forest.level (expand pair) 1 2 = [] := by
    decide
  exact (expands nodup_ids_pair).bounded_of_level_eq_nil
    ((expands nodup_ids_pair).level_eq_nil_of_le hnil (by decide : 2 ≤ 256))

theorem length_walk_pair : (walk pair (maxSpRecursionDepth + 1) 1 0).length = 2 := by
  rfl

theorem hieQueDown_lists_pair
    : ∃ rows,
        (hieQueDown pair (hieQueDowns none [⟨pair, 2⟩, ⟨pair, 1⟩]) 1).2 = some rows
          ∧
        Lists pair 1 rows := by
  apply hieQueDown_lists [⟨pair, 2⟩, ⟨pair, 1⟩] nodup_ids_pair (by decide) bounded_pair
  intro nodes hnodes
  rw [hnodes.unique (preorder_walk bounded_pair), length_walk_pair]
  decide

theorem inserted_replicate_pair (k : Nat) (session : Option TempHie)
    (hroom : (session.getD {}).next + 2 * k ≤ maxSno + 1)
    : inserted session (List.replicate k ⟨pair, 1⟩) = 2 * k := by
  induction k generalizing session with
  | zero => rfl
  | succ k ih =>
    have hroom' : (session.getD {}).next + (walk pair (maxSpRecursionDepth + 1) 1 0).length
        ≤ maxSno + 1 := by
      rw [length_walk_pair]
      omega
    rcases hieQueDown_of_room bounded_pair hroom' with ⟨rows, hrows⟩
    have hcall : (hieQueDown pair session 1).1.rows.length = 2 := by
      rw [TempHie.length_rows, (rows_of_hieQueDown hrows).left, length_walk_pair]
    have hnext := @next_hieQueDown pair session (by omega) 1
    rw [hcall] at hnext
    rw [List.replicate_succ, inserted, hcall, ih]
    . omega
    . dsimp only [Option.getD_some]
      omega

theorem hieQueDown_replicate_pair {k : Nat} (hk : 2 * k + 1 = maxSno)
    : (hieQueDown pair (hieQueDowns none (List.replicate k ⟨pair, 1⟩)) 1).2 = none := by
  rw [Option.eq_none_iff_forall_ne_some]
  intro rows hrows
  have hone : (Option.getD none {} : TempHie).next = 1 := by
    rfl
  have hnext := next_hieQueDowns (by rw [hone]; decide) (List.replicate k ⟨pair, 1⟩)
  rw [inserted_replicate_pair k none (by rw [hone]; omega), hone] at hnext
  have hroom := room_of_hieQueDown (by omega) hrows
  rw [length_walk_pair] at hroom
  omega

theorem hieQueDown_not_lists_pair
    : (ids pair).Nodup
        ∧
      1 ∈ ids pair
        ∧
      Forest.Bounded (IsParent pair) 1 maxSpRecursionDepth
        ∧
      ¬ ∃ rows,
          (hieQueDown pair (hieQueDowns none (List.replicate 1073741823 ⟨pair, 1⟩)) 1).2 = some rows
            ∧
          Lists pair 1 rows := by
  refine ⟨nodup_ids_pair, by decide, bounded_pair, ?_⟩
  rintro ⟨rows, hrows, _⟩
  rw [hieQueDown_replicate_pair (by decide)] at hrows
  contradiction

end HieProcedure
