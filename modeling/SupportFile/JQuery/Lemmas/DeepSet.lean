import Mathlib.Data.List.Induction
import SupportFile.JQuery.Impl.SerializeJson
import SupportFile.JQuery.Lemmas.Props

/-!
This module contains what setting one value does to an object, to an array of values and to an array of
objects.
-/

namespace SerializeJson

variable {Num : Type} {opts : Opts Num}

section Object

theorem deepSet_object_singleton (props : List (JsString × Value Num)) {key : JsString}
    (hkey : key ≠ []) (value : Value Num)
    : deepSet opts (.object props) [key] value = .ok (.object (assign props key value)) := by
  simp [deepSet, Value.isObject, Value.set, hkey]

theorem deepSet_object_cons (props : List (JsString × Value Num)) {key : JsString} (hkey : key ≠ [])
    (nextKey : JsString) (tail : List JsString) (value : Value Num)
    : deepSet opts (.object props) (key :: nextKey :: tail) value
        =
      (deepSet opts ((lookup props key).getD (newContainer opts nextKey)) (nextKey :: tail) value).map
        (fun inner => .object (assign props key inner)) := by
  rw [deepSet]
  simp only [Value.isObject, if_true, if_neg hkey, Value.get, Value.set]
  cases deepSet opts ((lookup props key).getD (newContainer opts nextKey)) (nextKey :: tail) value with
  | ok inner => rfl
  | error failure => rfl

/-- The first of the values below a key makes the container for all of them. -/
theorem deepSet_container {props : List (JsString × Value Num)} {key : JsString} (hkey : key ≠ [])
    (hprops : key ∉ props.map Prod.fst) (nextKey : JsString) (tail : List JsString) (value : Value Num)
    : deepSet opts (.object props) (key :: nextKey :: tail) value
        =
      deepSet opts (.object (assign props key (newContainer opts nextKey))) (key :: nextKey :: tail)
        value := by
  rw [deepSet_object_cons _ hkey, deepSet_object_cons _ hkey, lookup_assign,
    lookup_eq_none_iff.mpr hprops]
  simp only [Option.getD_none, Option.getD_some, assign_assign]

end Object

section Array

theorem deepSet_array_push {items : List (Option (Value Num))} (hlength : items.length < maxLength)
    (value : Value Num)
    : deepSet opts (.array items []) [[]] value = .ok (.array (items ++ [some value]) []) := by
  rw [deepSet]
  simp only [Value.isObject, if_true, if_pos hlength]

theorem get_array_digits (items : List (Option (Value Num))) {i : Nat} (hi : i < maxLength)
    : (Value.array items []).get (digits i) = items[i]?.join := by
  simp only [Value.get, arrayIndex_digits hi]

theorem set_array_digits (items : List (Option (Value Num))) {i : Nat} (hi : i < maxLength)
    (value : Value Num)
    : (Value.array items []).set (digits i) value = .array (assignItem items i value) [] := by
  simp only [Value.set, arrayIndex_digits hi]

theorem lastKey_of_last {items : List (Option (Value Num))} {last : Option (Value Num)}
    {nextKey : JsString} (hlength : items.length < maxLength)
    : lastKey (.array (items ++ [last]) []) nextKey false
        =
      match last with
      | some lastVal =>
        if lastVal.isObject && (lastVal.get nextKey).isNone then
          digits items.length
        else
          digits (items.length + 1)
      | none => digits (items.length + 1) := by
  have hidx : ((items ++ [last]).length : Int) - 1 = (items.length : Nat) := by
    simp
  unfold lastKey
  dsimp only
  rw [hidx, ofInt_natCast, get_array_digits _ hlength]
  simp only [List.getElem?_concat_length, Option.join_some, Bool.or_false]
  cases last with
  | none => rfl
  | some lastVal => rfl

/-- A key that the last object has begins a new one. -/
theorem deepSet_array_next {items : List (Option (Value Num))} {nextKey : JsString}
    (hnextKey : nextKey ≠ [])
    (hindex : (opts.useIntKeysAsArrayIndex && isValidArrayIndex nextKey) = false)
    (hlength : items.length < maxLength)
    (hlast : ∀ last ∈ items.getLast?, ∃ lastVal, last = some lastVal ∧ (lastVal.get nextKey).isSome)
    (value : Value Num)
    : deepSet opts (.array items []) [[], nextKey] value
        =
      .ok (.array (items ++ [some (.object [(nextKey, value)])]) []) := by
  have hkey : lastKey (.array items []) nextKey false = digits items.length := by
    cases items using List.reverseRecOn with
    | nil => rfl
    | append_singleton items last _ =>
      rw [List.length_append, List.length_singleton] at hlength ⊢
      rw [lastKey_of_last (by omega)]
      rw [List.getLast?_concat] at hlast
      rcases hlast last rfl with ⟨lastVal, rfl, hsome⟩
      have hnone : (lastVal.get nextKey).isNone = false := by
        rw [← Option.not_isSome, hsome]
        rfl
      simp only [hnone, Bool.and_false, Bool.false_eq_true, if_false]
  have hcontainer : newContainer opts nextKey = .object [] := by
    simp [newContainer, hnextKey, hindex]
  have hassign : assign [] nextKey value = [(nextKey, value)] := by
    rfl
  rw [deepSet]
  simp only [Value.isObject, if_true]
  rw [show ([] != ([] : List JsString)) = false by rfl, hkey, get_array_digits _ hlength,
    List.getElem?_eq_none (Nat.le_refl _), Option.join_none, Option.getD_none, hcontainer,
    deepSet_object_singleton _ hnextKey]
  simp only [set_array_digits _ hlength, assignItem, Nat.lt_irrefl, if_false, Nat.sub_self,
    List.replicate_zero, List.append_nil, hassign]

/-- Any other key goes into the last object. -/
theorem deepSet_array_same {items : List (Option (Value Num))}
    {props : List (JsString × Value Num)} {nextKey : JsString} (hnextKey : nextKey ≠ [])
    (hprops : nextKey ∉ props.map Prod.fst) (hlength : items.length < maxLength) (value : Value Num)
    : deepSet opts (.array (items ++ [some (.object props)]) []) [[], nextKey] value
        =
      .ok (.array (items ++ [some (.object (assign props nextKey value))]) []) := by
  have hkey : lastKey (.array (items ++ [some (.object props)]) []) nextKey false
      = digits items.length := by
    rw [lastKey_of_last hlength]
    simp only [Value.isObject, Value.get, lookup_eq_none_iff.mpr hprops, Option.isNone_none,
      Bool.and_self, if_true]
  rw [deepSet]
  simp only [Value.isObject, if_true]
  rw [show ([] != ([] : List JsString)) = false by rfl, hkey, get_array_digits _ hlength,
    List.getElem?_concat_length, Option.join_some, Option.getD_some,
    deepSet_object_singleton _ hnextKey]
  simp only [set_array_digits _ hlength]
  rw [assignItem, if_pos (by simp)]
  simp

end Array

end SerializeJson
