import SupportFile.MySql.Impl.HieFunction
import SupportFile.MySql.Impl.HieProcedure
import SupportFile.MySql.Lemmas.Text
import SupportFile.Forest.Basic

/-!
This module contains the forest that the table denotes, and what the queries of both routines have
to do with its edges.
-/

namespace CsNode

def IsParent (table : List CsNode) (a b : Int) : Prop :=
  ∃ row ∈ table, row.id = b ∧ row.pId = some a

instance : Decidable (IsParent table a b) :=
  inferInstanceAs (Decidable (∃ row ∈ table, row.id = b ∧ row.pId = some a))

def ids (table : List CsNode) : List Int :=
  table.map (·.id)

def expand (table : List CsNode) (parents : List Int) : List Int :=
  (table.filter (fun row => row.pId.any (· ∈ parents))).map (·.id)

variable {table : List CsNode}

theorem eq_of_id_eq (hids : (ids table).Nodup) {row row' : CsNode} (hrow : row ∈ table)
    (hrow' : row' ∈ table) (h : row.id = row'.id)
    : row = row' := by
  apply List.inj_on_of_nodup_map hids hrow hrow' h

theorem filter_id_eq (hids : (ids table).Nodup) {row : CsNode} (hrow : row ∈ table)
    : table.filter (fun row' => row'.id = row.id) = [row] := by
  have hnodup : (table.filter (fun row' => row'.id = row.id)).Nodup := by
    exact (List.Nodup.of_map _ hids).filter _
  apply List.perm_singleton.mp
  rw [List.perm_ext_iff_of_nodup hnodup (List.nodup_singleton row)]
  intro row'
  rw [List.mem_filter, decide_eq_true_eq, List.mem_singleton]
  constructor
  . rintro ⟨hrow', hid⟩
    apply eq_of_id_eq hids hrow' hrow hid
  . rintro rfl
    exact ⟨hrow, rfl⟩

theorem isParent_leftUnique (hids : (ids table).Nodup) : Relator.LeftUnique (IsParent table) := by
  rintro a a' b ⟨row, hrow, hid, hpId⟩ ⟨row', hrow', hid', hpId'⟩
  have := eq_of_id_eq hids hrow hrow' (hid.trans hid'.symm)
  subst this
  rw [hpId, Option.some.injEq] at hpId'
  exact hpId'

theorem nodup_map_filter (hids : (ids table).Nodup) (p : CsNode → Bool)
    : ((table.filter p).map (·.id)).Nodup := by
  apply List.Nodup.sublist _ hids
  apply List.Sublist.map _ List.filter_sublist

theorem expands (hids : (ids table).Nodup) : Forest.Expands (IsParent table) (expand table) := by
  constructor
  . intro parents b
    unfold expand IsParent
    simp only [List.mem_map, List.mem_filter, Option.any_eq_true, decide_eq_true_eq]
    constructor
    . rintro ⟨row, ⟨hrow, a, hpId, ha⟩, hid⟩
      exact ⟨a, ha, row, hrow, hid, hpId⟩
    . rintro ⟨a, ha, row, hrow, hid, hpId⟩
      exact ⟨row, ⟨hrow, a, hpId, ha⟩, hid⟩
  . intro parents
    apply nodup_map_filter hids _

theorem mem_ids_of_steps {root b : Int} {n : Nat} (hroot : root ∈ ids table)
    (h : Forest.Steps (IsParent table) n root b)
    : b ∈ ids table := by
  cases h with
  | refl => exact hroot
  | tail _ hedge =>
    rcases hedge with ⟨row, hrow, hid, _⟩
    rw [← hid]
    apply List.mem_map_of_mem hrow

end CsNode

namespace HieFunction

open CsNode

variable {table : List CsNode}

theorem mem_select_iff {childIds : List Char} {b : Int}
    : b ∈ select table childIds
        ↔
      ∃ a, castAsChar a ∈ childIds.splitOn ',' ∧ IsParent table a b := by
  unfold select IsParent
  simp only [List.mem_map, List.mem_filter, Option.any_eq_true, decide_eq_true_eq,
    findInSet_pos_iff (castAsChar_ne_nil _)]
  constructor
  . rintro ⟨row, ⟨hrow, a, hpId, ha⟩, hid⟩
    exact ⟨a, ha, row, hrow, hid, hpId⟩
  . rintro ⟨a, ha, row, hrow, hid, hpId⟩
    exact ⟨row, ⟨hrow, a, hpId, ha⟩, hid⟩

theorem nodup_select (hids : (ids table).Nodup) (childIds : List Char)
    : (select table childIds).Nodup := by
  apply nodup_map_filter hids _

theorem select_commaList {parents : List Int} (h : parents ≠ [])
    : select table (commaList parents) = expand table parents := by
  unfold select expand
  congr 2
  funext row
  rw [Bool.eq_iff_iff]
  simp only [Option.any_eq_true, decide_eq_true_eq, findInSet_pos_iff (castAsChar_ne_nil _),
    splitOn_commaList h, List.mem_map_of_injective castAsChar_injective]

end HieFunction

namespace HieProcedure

open CsNode

variable {table : List CsNode}

theorem mem_children_iff {a b : Int} : b ∈ children table a ↔ IsParent table a b := by
  unfold children IsParent
  simp only [List.mem_map, List.mem_filter, decide_eq_true_eq]
  constructor
  . rintro ⟨row, ⟨hrow, hpId⟩, hid⟩
    exact ⟨row, hrow, hid, hpId⟩
  . rintro ⟨row, hrow, hid, hpId⟩
    exact ⟨row, ⟨hrow, hpId⟩, hid⟩

theorem nodup_children (hids : (ids table).Nodup) (a : Int) : (children table a).Nodup := by
  apply nodup_map_filter hids _

end HieProcedure
