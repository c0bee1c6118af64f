import SupportFile.MySql.Impl.CsNode
import SupportFile.SepList.Basic

namespace CsNode

theorem isDigit_of_mem_toDigits {n : Nat} {c : Char} (h : c ∈ Nat.toDigits 10 n)
    : c.isDigit = true := by
  apply Nat.isDigit_of_mem_toDigits (by omega) (by omega) h

theorem comma_not_mem_castAsChar (n : Int) : ',' ∉ castAsChar n := by
  intro h
  unfold castAsChar at h
  split at h
  . rw [List.mem_cons] at h
    cases h with
    | inl h => contradiction
    | inr h =>
      have := isDigit_of_mem_toDigits h
      contradiction
  . have := isDigit_of_mem_toDigits h
    contradiction

theorem castAsChar_ne_nil (n : Int) : castAsChar n ≠ [] := by
  unfold castAsChar
  split
  . simp
  . apply Nat.toDigits_ne_nil

theorem asNumber_castAsChar (n : Int) : asNumber (castAsChar n) = n := by
  unfold castAsChar
  split
  . simp only [asNumber, Nat.ofDigitChars_ten_toDigits]
    omega
  . unfold asNumber
    split
    . next heq =>
      have hmem : '-' ∈ Nat.toDigits 10 n.natAbs := by
        rw [heq]
        apply List.mem_cons_self
      have := isDigit_of_mem_toDigits hmem
      contradiction
    . rw [Nat.ofDigitChars_ten_toDigits]
      omega

theorem castAsChar_injective : Function.Injective castAsChar := by
  intro m n h
  rw [← asNumber_castAsChar m, h, asNumber_castAsChar]

theorem findInSet_pos_iff {s strlist : List Char} (hs : s ≠ [])
    : 0 < findInSet s strlist ↔ s ∈ strlist.splitOn ',' := by
  unfold findInSet
  cases strlist with
  | nil => simp [hs]
  | cons c strlist =>
    simp only [List.isEmpty_cons, Bool.false_eq_true, if_false]
    split
    . next i heq =>
      rw [List.findIdx?_eq_some_iff_getElem] at heq
      rcases heq with ⟨hlt, hfound, _⟩
      rw [beq_iff_eq] at hfound
      simp only [Nat.zero_lt_succ, true_iff]
      rw [← hfound]
      apply List.getElem_mem
    . next heq =>
      rw [List.findIdx?_eq_none_iff] at heq
      simp only [Nat.lt_irrefl, false_iff]
      intro hmem
      have := heq s hmem
      simp at this

def commaList (ids : List Int) : List Char :=
  [','].intercalate (ids.map castAsChar)

theorem splitOn_castAsChar (n : Int) : (castAsChar n).splitOn ',' = [castAsChar n] := by
  apply List.splitOn_eq_singleton (comma_not_mem_castAsChar n)

theorem splitOn_commaList {ids : List Int} (h : ids ≠ [])
    : (commaList ids).splitOn ',' = ids.map castAsChar := by
  unfold commaList
  rw [List.splitOn_intercalate]
  . intro s hs
    rw [List.mem_map] at hs
    rcases hs with ⟨n, _, rfl⟩
    apply comma_not_mem_castAsChar
  . simp [h]

theorem commaList_inj {ids ids' : List Int} (h : ids ≠ []) (h' : ids' ≠ [])
    : commaList ids = commaList ids' ↔ ids = ids' := by
  constructor
  . intro heq
    apply List.map_injective_iff.mpr castAsChar_injective
    rw [← splitOn_commaList h, heq, splitOn_commaList h']
  . rintro rfl
    rfl

theorem commaList_singleton (n : Int) : commaList [n] = castAsChar n := by
  simp [commaList]

theorem length_commaList {ids : List Int} (h : ids ≠ [])
    : (commaList ids).length + 1 = SepList.weight (ids.map castAsChar) := by
  unfold commaList
  apply SepList.length_intercalate
  simp [h]

theorem groupConcat_eq_none_iff {limits : Limits} {ids : List Int}
    : groupConcat limits ids = none ↔ ids = [] := by
  unfold groupConcat
  cases ids with
  | nil => simp
  | cons n ids =>
    simp only [List.isEmpty_cons, Bool.false_eq_true, if_false]
    split <;> simp

theorem groupConcat_of_fits {limits : Limits} {ids : List Int} (h : ids ≠ [])
    (hfits : limits.groupConcatMaxLen.all ((commaList ids).length ≤ ·) = true)
    : groupConcat limits ids = some (commaList ids) := by
  unfold groupConcat
  rw [if_neg (by simp [h])]
  dsimp only
  split
  . next n hn =>
    rw [hn, Option.all_some, decide_eq_true_eq] at hfits
    rw [Option.some.injEq, ← commaList]
    apply List.take_of_length_le hfits
  . rfl

theorem length_groupConcat {limits : Limits} {ids : List Int} {s : List Char}
    (h : groupConcat limits ids = some s)
    : s.length + 1 ≤ SepList.weight (ids.map castAsChar)
        ∧
      (SepList.weight (ids.map castAsChar) ≤ s.length + 1 → s = commaList ids) := by
  have hne : ids ≠ [] := by
    intro hnil
    rw [groupConcat_eq_none_iff.mpr hnil] at h
    contradiction
  rw [← length_commaList hne]
  unfold groupConcat at h
  rw [if_neg (by simp [hne])] at h
  dsimp only at h
  split at h
  . next n _ =>
    rw [Option.some.injEq, ← commaList] at h
    have hlen := congrArg List.length h
    rw [List.length_take] at hlen
    constructor
    . omega
    . intro hle
      rw [← h]
      apply List.take_of_length_le (by omega)
  . rw [Option.some.injEq, ← commaList] at h
    rw [h]
    exact ⟨Nat.le_refl _, fun _ => rfl⟩

theorem length_groupConcat_le {limits : Limits} {ids : List Int} {s : List Char} {n : Nat}
    (hlimit : limits.groupConcatMaxLen = some n) (h : groupConcat limits ids = some s)
    : s.length ≤ n := by
  unfold groupConcat at h
  split at h
  . contradiction
  . dsimp only at h
    rw [hlimit] at h
    dsimp only at h
    rw [Option.some.injEq] at h
    rw [← h]
    apply List.length_take_le

end CsNode
