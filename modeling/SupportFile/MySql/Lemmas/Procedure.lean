import SupportFile.MySql.Lemmas.Tree

/-!
This module contains the nodes that the recursive procedure collects: its rows are those of a walk
through the tree, and it fails only if it has to go too deep or if it runs out of numbers.
-/

namespace HieProcedure

open CsNode

def walk (table : List CsNode) (levels : Nat) (root : Int) (depth : Nat) : List (Int × Nat) :=
  match levels with
  | 0 => []
  | levels + 1 =>
    (root, depth) :: (children table root).flatMap (fun id => walk table levels id (depth + 1))

def TempHie.append (temp : TempHie) (nodes : List (Int × Nat)) : TempHie :=
  match nodes with
  | [] => temp
  | node :: nodes =>
    append
      { next := temp.next + 1
        rows := temp.rows ++ [{ sno := temp.next, id := node.1, depth := node.2 }] } nodes

def TempHie.nodes (temp : TempHie) : List (Int × Nat) :=
  temp.rows.map (fun row => (row.id, row.depth))

namespace TempHie

@[simp]
theorem append_nil (temp : TempHie) : temp.append [] = temp := by
  rfl

theorem append_append (temp : TempHie) (nodes nodes' : List (Int × Nat))
    : temp.append (nodes ++ nodes') = (temp.append nodes).append nodes' := by
  induction nodes generalizing temp with
  | nil => rfl
  | cons node nodes ih => apply ih

@[simp]
theorem next_append (temp : TempHie) (nodes : List (Int × Nat))
    : (temp.append nodes).next = temp.next + nodes.length := by
  induction nodes generalizing temp with
  | nil => rfl
  | cons node nodes ih =>
    unfold append
    rw [ih, List.length_cons]
    dsimp
    omega

theorem nodes_append (temp : TempHie) (nodes : List (Int × Nat))
    : (temp.append nodes).nodes = temp.nodes ++ nodes := by
  induction nodes generalizing temp with
  | nil => simp
  | cons node nodes ih =>
    unfold append
    rw [ih]
    simp [TempHie.nodes]

theorem map_id_rows (temp : TempHie) : temp.rows.map (·.id) = temp.nodes.map Prod.fst := by
  unfold nodes
  rw [List.map_map]
  rfl

theorem length_rows (temp : TempHie) : temp.rows.length = temp.nodes.length := by
  unfold nodes
  rw [List.length_map]

theorem insert_of_le {temp : TempHie} (h : temp.next ≤ maxSno) (id : Int) (depth : Nat)
    : temp.insert id depth = some (temp.append [(id, depth)]) := by
  unfold insert
  rw [if_pos h]
  rfl

theorem insert_cases {temp temp' : TempHie} {id : Int} {depth : Nat}
    (h : temp.insert id depth = some temp')
    : (temp.next ≤ maxSno ∧ temp' = temp.append [(id, depth)])
        ∨
      (maxSno < temp.next ∧ (∀ row ∈ temp.rows, row.sno ≠ maxSno) ∧ temp'.next = maxSno + 1
        ∧ temp'.rows = temp.rows ++ [{ sno := maxSno, id := id, depth := depth }]) := by
  unfold insert at h
  split at h
  . next hle =>
    rw [Option.some.injEq] at h
    exact .inl ⟨hle, h.symm⟩
  . next hgt =>
    rw [Nat.not_le] at hgt
    split at h
    . contradiction
    . next hnone =>
      rw [Option.some.injEq] at h
      subst h
      exact .inr ⟨hgt, by simpa using hnone, rfl, rfl⟩

theorem nodes_insert {temp temp' : TempHie} {id : Int} {depth : Nat}
    (h : temp.insert id depth = some temp')
    : temp'.nodes = temp.nodes ++ [(id, depth)] := by
  rcases insert_cases h with ⟨_, rfl⟩ | ⟨_, _, _, hrows⟩
  . apply nodes_append
  . simp [nodes, hrows]

end TempHie

theorem fetch_sound {call : Int → TempHie → TempHie × Bool} {nodes : Int → List (Int × Nat)}
    (hcall : ∀ id temp temp', call id temp = (temp', true) → temp'.nodes = temp.nodes ++ nodes id)
    {curso : List Int} {temp temp' : TempHie} (h : fetch call curso temp = (temp', true))
    : temp'.nodes = temp.nodes ++ curso.flatMap nodes := by
  induction curso generalizing temp with
  | nil =>
    simp only [fetch, Prod.mk.injEq, and_true] at h
    rw [← h, List.flatMap_nil, List.append_nil]
  | cons id curso ih =>
    unfold fetch at h
    split at h
    . next temp1 hid =>
      rw [ih h, hcall _ _ _ hid, List.flatMap_cons, List.append_assoc]
    . simp at h

theorem fetch_complete {call : Int → TempHie → TempHie × Bool} {nodes : Int → List (Int × Nat)}
    {curso : List Int}
    (hcall : ∀ id ∈ curso, ∀ temp : TempHie, temp.next + (nodes id).length ≤ maxSno + 1 →
      call id temp = (temp.append (nodes id), true))
    {temp : TempHie} (hroom : temp.next + (curso.flatMap nodes).length ≤ maxSno + 1)
    : fetch call curso temp = (temp.append (curso.flatMap nodes), true) := by
  induction curso generalizing temp with
  | nil => rfl
  | cons id curso ih =>
    rw [List.flatMap_cons, List.length_append] at hroom
    unfold fetch
    rw [hcall id List.mem_cons_self temp (by omega), List.flatMap_cons, TempHie.append_append]
    apply ih
    . intro id' hid'
      apply hcall id' (List.mem_cons_of_mem _ hid')
    . rw [TempHie.next_append]
      omega

variable {table : List CsNode}

theorem hieQueRecursive_sound {levels depth : Nat} {root : Int} {temp temp' : TempHie}
    (h : hieQueRecursive table levels root depth temp = (temp', true))
    : temp'.nodes = temp.nodes ++ walk table levels root depth := by
  induction levels generalizing root depth temp temp' with
  | zero => simp [hieQueRecursive] at h
  | succ levels ih =>
    unfold hieQueRecursive at h
    split at h
    . simp at h
    . next temp1 hinsert =>
      have hfetch := fetch_sound (fun id temp temp' hcall => ih hcall) h
      rw [hfetch, TempHie.nodes_insert hinsert, List.append_assoc, List.singleton_append, walk]

theorem children_eq_nil {root : Int} (hbounded : Forest.Bounded (IsParent table) root 0)
    : children table root = [] := by
  rw [List.eq_nil_iff_forall_not_mem]
  intro id hid
  have := hbounded 1 id (.tail .refl (mem_children_iff.mp hid))
  omega

theorem hieQueRecursive_complete {d depth : Nat} {root : Int} {temp : TempHie}
    (hbounded : Forest.Bounded (IsParent table) root d)
    (hroom : temp.next + (walk table (d + 1) root depth).length ≤ maxSno + 1)
    : hieQueRecursive table (d + 1) root depth temp
        = (temp.append (walk table (d + 1) root depth), true) := by
  induction d generalizing root depth temp with
  | zero =>
    unfold hieQueRecursive walk at *
    simp only [children_eq_nil hbounded, List.flatMap_nil, List.length_singleton] at *
    rw [TempHie.insert_of_le (by omega)]
    rfl
  | succ d ih =>
    unfold hieQueRecursive
    rw [walk, List.length_cons] at hroom
    rw [TempHie.insert_of_le (by omega)]
    dsimp only
    have hcall : ∀ id ∈ children table root, ∀ temp : TempHie,
        temp.next + (walk table (d + 1) id (depth + 1)).length ≤ maxSno + 1 →
          hieQueRecursive table (d + 1) id (depth + 1) temp
            = (temp.append (walk table (d + 1) id (depth + 1)), true) := by
      intro id hid temp hroom
      apply ih (hbounded.child (mem_children_iff.mp hid)) hroom
    rw [fetch_complete hcall]
    . rw [← TempHie.append_append]
      rfl
    . rw [TempHie.next_append, List.length_singleton]
      omega

theorem mem_walk_iff {levels depth : Nat} {root b : Int} {m : Nat}
    : (b, m) ∈ walk table levels root depth
        ↔
      ∃ n, n < levels ∧ m = depth + n ∧ Forest.Steps (IsParent table) n root b := by
  induction levels generalizing root depth with
  | zero => simp [walk]
  | succ levels ih =>
    rw [walk, List.mem_cons, Prod.mk.injEq, List.mem_flatMap]
    simp only [mem_children_iff, ih]
    constructor
    . intro h
      cases h with
      | inl h =>
        rw [h.left, h.right]
        exact ⟨0, by omega, rfl, .refl⟩
      | inr h =>
        rcases h with ⟨id, hedge, n, hn, hm, hsteps⟩
        exact ⟨n + 1, by omega, by omega, .head hedge hsteps⟩
    . rintro ⟨n, hn, hm, hsteps⟩
      cases n with
      | zero =>
        left
        cases hsteps
        exact ⟨rfl, hm⟩
      | succ n =>
        right
        rw [Nat.add_comm] at hsteps
        rcases hsteps.split with ⟨id, hedge, hsteps⟩
        cases hedge with
        | tail hrefl hedge =>
          cases hrefl
          exact ⟨id, hedge, n, by omega, by omega, hsteps⟩

theorem mem_map_walk_iff {levels depth : Nat} {root b : Int}
    : b ∈ (walk table levels root depth).map Prod.fst
        ↔
      ∃ n, n < levels ∧ Forest.Steps (IsParent table) n root b := by
  rw [List.mem_map]
  constructor
  . rintro ⟨⟨b, m⟩, hmem, rfl⟩
    rcases mem_walk_iff.mp hmem with ⟨n, hn, _, hsteps⟩
    exact ⟨n, hn, hsteps⟩
  . rintro ⟨n, hn, hsteps⟩
    exact ⟨(b, depth + n), mem_walk_iff.mpr ⟨n, hn, rfl, hsteps⟩, rfl⟩

theorem nodup_walk (hids : (ids table).Nodup) {d levels depth : Nat} {root : Int}
    (hbounded : Forest.Bounded (IsParent table) root d)
    : ((walk table levels root depth).map Prod.fst).Nodup := by
  have hR := isParent_leftUnique hids
  induction levels generalizing d root depth with
  | zero => simp [walk]
  | succ levels ih =>
    rw [walk, List.map_cons, List.nodup_cons, List.map_flatMap, List.nodup_flatMap]
    refine ⟨?_, ?_, ?_⟩
    . intro hmem
      simp only [List.mem_flatMap, mem_children_iff, mem_map_walk_iff] at hmem
      rcases hmem with ⟨id, hedge, n, _, hsteps⟩
      have := hbounded.eq_zero_of_cycle (Forest.Steps.head hedge hsteps)
      omega
    . intro id hid
      apply ih (hbounded.child (mem_children_iff.mp hid))
    . apply List.Pairwise.imp_of_mem _ (nodup_children hids root)
      intro id id' hid hid' hne b hb hb'
      rw [mem_children_iff] at hid hid'
      rw [mem_map_walk_iff] at hb hb'
      rcases hb with ⟨n, _, hb⟩
      rcases hb' with ⟨n', _, hb'⟩
      have := hbounded.level_unique hR (Forest.Steps.head hid hb) (Forest.Steps.head hid' hb')
      rw [Nat.add_right_cancel_iff] at this
      subst this
      apply hne (hb.start_unique hR hb')

theorem mem_select_iff {temp : TempHie} {b : Int}
    : b ∈ (select table temp).map (·.2.id) ↔ b ∈ temp.rows.map (·.id) ∧ b ∈ ids table := by
  unfold select ids
  simp only [List.mem_map, List.mem_mergeSort, List.mem_flatMap, List.mem_filter,
    decide_eq_true_eq]
  constructor
  . rintro ⟨_, ⟨row, hrow, node, ⟨hnode, hid⟩, rfl⟩, rfl⟩
    exact ⟨⟨row, hrow, hid⟩, node, hnode, rfl⟩
  . rintro ⟨⟨row, hrow, hid⟩, node, hnode, hid'⟩
    exact ⟨_, ⟨row, hrow, node, ⟨hnode, hid.trans hid'.symm⟩, rfl⟩, hid'⟩

/-- A call that returns has collected the whole tree. -/
theorem rows_of_hieQueDown {session : Option TempHie} {root : Int}
    {rows : List (TempRow × CsNode)} (h : (hieQueDown table session root).2 = some rows)
    : (hieQueDown table session root).1.nodes = walk table (maxSpRecursionDepth + 1) root 0
        ∧
      rows = select table (hieQueDown table session root).1 := by
  unfold hieQueDown at *
  dsimp only at *
  split at h
  . next temp heq => exact ⟨hieQueRecursive_sound heq, (Option.some.inj h).symm⟩
  . contradiction

theorem mem_hieQueDown_iff {session : Option TempHie} {root : Int}
    {rows : List (TempRow × CsNode)} (hroot : root ∈ ids table)
    (hbounded : Forest.Bounded (IsParent table) root maxSpRecursionDepth)
    (h : (hieQueDown table session root).2 = some rows) (b : Int)
    : b ∈ rows.map (·.2.id) ↔ ∃ n, Forest.Steps (IsParent table) n root b := by
  rcases rows_of_hieQueDown h with ⟨hnodes, hrows⟩
  rw [hrows, mem_select_iff, TempHie.map_id_rows, hnodes, mem_map_walk_iff]
  constructor
  . rintro ⟨⟨n, _, hsteps⟩, _⟩
    exact ⟨n, hsteps⟩
  . rintro ⟨n, hsteps⟩
    have := hbounded n b hsteps
    exact ⟨⟨n, by omega, hsteps⟩, mem_ids_of_steps hroot hsteps⟩

theorem hieQueDown_of_room {session : Option TempHie} {root : Int}
    (hbounded : Forest.Bounded (IsParent table) root maxSpRecursionDepth)
    (hroom : (session.getD {}).next + (walk table (maxSpRecursionDepth + 1) root 0).length
      ≤ maxSno + 1)
    : ∃ rows, (hieQueDown table session root).2 = some rows := by
  have hcomplete := @hieQueRecursive_complete table _ 0 root
    { session.getD {} with rows := [] } hbounded hroom
  unfold hieQueDown
  dsimp only
  rw [hcomplete]
  exact ⟨_, rfl⟩

theorem hieQueDown_returns {root : Int} {rest : List Int} (hids : (ids table).Nodup)
    (hbounded : Forest.Bounded (IsParent table) root maxSpRecursionDepth)
    (hmem : ∀ n b, Forest.Steps (IsParent table) n root b → b ∈ rest)
    (hroom : rest.length ≤ maxSno)
    : ∃ rows, (hieQueDown table none root).2 = some rows := by
  have hsubset : (walk table (maxSpRecursionDepth + 1) root 0).map Prod.fst ⊆ rest := by
    intro b hb
    rw [mem_map_walk_iff] at hb
    rcases hb with ⟨n, _, hsteps⟩
    apply hmem n b hsteps
  have hlength := (List.subperm_of_subset (nodup_walk hids hbounded) hsubset).length_le
  rw [List.length_map] at hlength
  have hroom' : (Option.getD none {} : TempHie).next
      + (walk table (maxSpRecursionDepth + 1) root 0).length ≤ maxSno + 1 := by
    dsimp only [Option.getD_none]
    omega
  exact hieQueDown_of_room hbounded hroom'

end HieProcedure
