import Mathlib.Data.List.Sort
import SupportFile.JQuery.Impl.Value

/-!
This module contains the names of the elements of an array, and the order in which an object lists its
properties.
-/

namespace SerializeJson

section Index

def digits (n : Nat) : JsString :=
  (Nat.toDigits 10 n).map (fun c => UInt16.ofNat c.toNat)

theorem digits_of_lt {n : Nat} (h : n < 10) : digits n = [UInt16.ofNat (0x30 + n)] := by
  have hall : ∀ n < 10, UInt16.ofNat (Nat.digitChar n).toNat = UInt16.ofNat (0x30 + n) := by
    decide
  unfold digits
  rw [Nat.toDigits_of_lt_base h, List.map_singleton, hall n h]

theorem digits_of_le {n : Nat} (h : 10 ≤ n) : digits n = digits (n / 10) ++ digits (n % 10) := by
  unfold digits
  rw [Nat.toDigits_of_base_le (by decide) h, Nat.toDigits_of_lt_base (Nat.mod_lt n (by decide)),
    List.map_append]

theorem digit_spec {d : Nat} (h : d < 10)
    : isDigit (UInt16.ofNat (0x30 + d)) = true ∧ (UInt16.ofNat (0x30 + d)).toNat - 0x30 = d
        ∧ (UInt16.ofNat (0x30 + d) = 0x30 ↔ d = 0) := by
  have hall : ∀ d < 10, isDigit (UInt16.ofNat (0x30 + d)) = true
      ∧ (UInt16.ofNat (0x30 + d)).toNat - 0x30 = d
      ∧ (UInt16.ofNat (0x30 + d) = 0x30 ↔ d = 0) := by
    decide
  exact hall d h

theorem digits_spec (n : Nat)
    : (digits n).all isDigit = true
        ∧ (digits n).foldl (fun n u => n * 10 + (u.toNat - 0x30)) 0 = n
        ∧ ∃ u rest, digits n = u :: rest ∧ (u = 0x30 ↔ n = 0) := by
  induction n using Nat.strongRecOn with
  | ind n ih =>
    by_cases h : n < 10
    . have hdigit := digit_spec h
      rw [digits_of_lt h]
      refine ⟨by simpa using hdigit.left, by simpa using hdigit.right.left, _, _, rfl,
        hdigit.right.right⟩
    . have hhigh := ih (n / 10) (by omega)
      have hlow := ih (n % 10) (by omega)
      have hlt := digits_of_lt (Nat.mod_lt n (show 0 < 10 by decide))
      have hdigit := digit_spec (Nat.mod_lt n (show 0 < 10 by decide))
      rcases hhigh.right.right with ⟨u, rest, heq, hzero⟩
      rw [digits_of_le (by omega)]
      refine ⟨?_, ?_, u, rest ++ digits (n % 10), by rw [heq]; rfl, ?_⟩
      . rw [List.all_append, hhigh.left, hlow.left]
        rfl
      . rw [List.foldl_append, hhigh.right.left, hlt, List.foldl_cons, List.foldl_nil,
          hdigit.right.left]
        omega
      . rw [hzero]
        omega

theorem arrayIndex_digits {n : Nat} (h : n < maxLength) : arrayIndex? (digits n) = some n := by
  rcases digits_spec n with ⟨hall, hvalue, u, rest, heq, hzero⟩
  unfold arrayIndex?
  dsimp only
  rw [hvalue, hall]
  have hnil : (digits n != []) = true := by
    rw [heq]
    rfl
  have hlead : (digits n == [0x30] || (digits n).head? != some 0x30) = true := by
    by_cases hn : n = 0
    . subst hn
      rfl
    . rw [heq, List.head?_cons]
      have hu : u ≠ 0x30 := fun hu => hn (hzero.mp hu)
      simp [hu]
  rw [hnil, hlead, decide_eq_true h]
  rfl

theorem ofInt_natCast (n : Nat) : ofInt n = digits n := by
  rfl

theorem lt_of_arrayIndex {key : JsString} {i : Nat} (h : arrayIndex? key = some i) : i < maxLength := by
  unfold arrayIndex? at h
  dsimp only at h
  split at h
  . next hvalid =>
    rw [Option.some.injEq] at h
    simp only [Bool.and_eq_true, decide_eq_true_eq] at hvalid
    omega
  . contradiction

end Index

section Props

variable {α : Type} {props : List (JsString × α)} {key : JsString}

theorem lookup_eq_none_iff : lookup props key = none ↔ key ∉ props.map Prod.fst := by
  induction props with
  | nil => simp [lookup]
  | cons prop props ih =>
    rw [lookup, List.map_cons, List.mem_cons, not_or, ← ih]
    split
    . next h => simp [h]
    . next h => simp only [Ne.symm h, not_false_eq_true, true_and]

theorem lookup_replaceProp (h : (lookup props key).isSome) (value : α)
    : lookup (replaceProp props key value) key = some value := by
  induction props with
  | nil => contradiction
  | cons prop props ih =>
    rw [lookup] at h
    rw [replaceProp]
    split
    . next heq => rw [lookup, if_pos heq]
    . next hne =>
      rw [if_neg hne] at h
      rw [lookup, if_neg hne, ih h]

theorem lookup_insertProp (h : lookup props key = none) (value : α)
    : lookup (insertProp props key value) key = some value := by
  induction props with
  | nil => simp [insertProp, lookup]
  | cons prop props ih =>
    rw [lookup, ite_eq_iff] at h
    rw [insertProp]
    split
    . rw [lookup, if_pos rfl]
    . rcases h with ⟨_, h⟩ | ⟨hne, h⟩
      . contradiction
      . rw [lookup, if_neg hne, ih h]

theorem lookup_assign (props : List (JsString × α)) (key : JsString) (value : α)
    : lookup (assign props key value) key = some value := by
  unfold assign
  split
  . next h => exact lookup_replaceProp h value
  . next h =>
    rw [Option.not_isSome_iff_eq_none] at h
    exact lookup_insertProp h value

theorem replaceProp_replaceProp (props : List (JsString × α)) (key : JsString) (value value' : α)
    : replaceProp (replaceProp props key value) key value' = replaceProp props key value' := by
  induction props with
  | nil => rfl
  | cons prop props ih =>
    rw [replaceProp]
    split
    . next heq => rw [replaceProp, if_pos heq, replaceProp, if_pos heq]
    . next hne => rw [replaceProp, if_neg hne, ih, replaceProp, if_neg hne]

theorem replaceProp_insertProp (h : lookup props key = none) (value value' : α)
    : replaceProp (insertProp props key value) key value' = insertProp props key value' := by
  induction props with
  | nil => simp [insertProp, replaceProp]
  | cons prop props ih =>
    rw [lookup, ite_eq_iff] at h
    rw [insertProp]
    split
    . next hbefore => rw [replaceProp, if_pos rfl, insertProp, if_pos hbefore]
    . next hbefore =>
      rcases h with ⟨_, h⟩ | ⟨hne, h⟩
      . contradiction
      . rw [replaceProp, if_neg hne, ih h, insertProp, if_neg hbefore]

theorem assign_assign (props : List (JsString × α)) (key : JsString) (value value' : α)
    : assign (assign props key value) key value' = assign props key value' := by
  rw [assign, lookup_assign, Option.isSome_some, if_pos rfl, assign, assign]
  split
  . rw [replaceProp_replaceProp]
  . next h =>
    rw [Option.not_isSome_iff_eq_none] at h
    exact replaceProp_insertProp h value value'

end Props

section Ordered

variable {α : Type}

def position (key : JsString) : Nat :=
  (arrayIndex? key).getD maxLength

/-- The array indices are sorted, and the keys that are none keep their order behind them. -/
def ordered (props : List (JsString × α)) : List (JsString × α) :=
  props.insertionSort (fun prop prop' => position prop.1 ≤ position prop'.1)

theorem comesBefore_iff (key key' : JsString)
    : comesBefore key key' = true ↔ position key < position key' := by
  unfold comesBefore position
  cases hkey : arrayIndex? key with
  | none =>
    cases hkey' : arrayIndex? key' with
    | none => simp
    | some j =>
      have hj := lt_of_arrayIndex hkey'
      simp only [Bool.false_eq_true, Option.getD_none, Option.getD_some, false_iff]
      omega
  | some i =>
    have hi := lt_of_arrayIndex hkey
    cases hkey' : arrayIndex? key' with
    | none => simpa using hi
    | some j => simp

/-- It makes no difference which of two properties is inserted first. -/
theorem insertProp_orderedInsert (props : List (JsString × α)) (prop : JsString × α) (key : JsString)
    (value : α)
    : insertProp (props.orderedInsert (fun prop prop' => position prop.1 ≤ position prop'.1) prop) key
        value
        =
      (insertProp props key value).orderedInsert
        (fun prop prop' => position prop.1 ≤ position prop'.1) prop := by
  induction props with
  | nil =>
    rw [List.orderedInsert_nil]
    simp only [insertProp, comesBefore_iff]
    split
    . next h => rw [List.orderedInsert_cons, if_neg (by dsimp only; omega), List.orderedInsert_nil]
    . next h => rw [List.orderedInsert_cons, if_pos (by dsimp only; omega)]
  | cons prop' props ih =>
    rw [List.orderedInsert_cons]
    by_cases hprop : position prop.1 ≤ position prop'.1
    . rw [if_pos hprop]
      simp only [insertProp, comesBefore_iff]
      by_cases hkey : position key < position prop'.1
      . rw [if_pos hkey]
        split
        . next h =>
          rw [List.orderedInsert_cons, if_neg (by dsimp only; omega), List.orderedInsert_cons,
            if_pos hprop]
        . next h => rw [List.orderedInsert_cons, if_pos (by dsimp only; omega)]
      . rw [if_neg hkey, if_neg (by omega), List.orderedInsert_cons, if_pos hprop]
    . rw [if_neg hprop]
      simp only [insertProp, comesBefore_iff]
      by_cases hkey : position key < position prop'.1
      . rw [if_pos hkey, if_pos hkey, List.orderedInsert_cons, if_neg (by dsimp only; omega),
          List.orderedInsert_cons, if_neg hprop]
      . rw [if_neg hkey, if_neg hkey, ih, List.orderedInsert_cons, if_neg hprop]

theorem insertProp_ordered (props : List (JsString × α)) (key : JsString) (value : α)
    : insertProp (ordered props) key value = ordered (props ++ [(key, value)]) := by
  unfold ordered
  induction props with
  | nil => rfl
  | cons prop props ih =>
    rw [List.insertionSort_cons, insertProp_orderedInsert, ih, List.cons_append,
      List.insertionSort_cons]

theorem mem_keys_ordered (props : List (JsString × α)) (key : JsString)
    : key ∈ (ordered props).map Prod.fst ↔ key ∈ props.map Prod.fst := by
  exact ((List.perm_insertionSort _ props).map Prod.fst).mem_iff

theorem assign_ordered {props : List (JsString × α)} {key : JsString}
    (h : key ∉ props.map Prod.fst) (value : α)
    : assign (ordered props) key value = ordered (props ++ [(key, value)]) := by
  rw [← mem_keys_ordered, ← lookup_eq_none_iff] at h
  rw [assign, h, Option.isSome_none, if_neg Bool.false_ne_true, insertProp_ordered]

end Ordered

end SerializeJson
