import SupportFile.CustomJs.Impl.SortOnTheadClick
import SupportFile.JsString.Lemmas

/-!
This module contains what the cells of a header call when they are clicked. The numbers that the
function hands out leave out the cells that have a handler already, so they are positions only as long
as these cells come last.
-/

namespace CustomJs

open JsString

theorem serviceCall_injective {table_id : JsString} {i j : Nat}
    (h : serviceCall table_id i = serviceCall table_id j)
    : i = j := by
  unfold serviceCall at h
  rw [List.append_cancel_right_eq, List.append_cancel_left_eq] at h
  rw [← Nat.ofDigitChars_ten_toDigits (n := i), ofChars_injective h, Nat.ofDigitChars_ten_toDigits]

theorem customSortOnTheadClick.go_getElem? (table_id : JsString) (i : Nat)
    (tds : List (Option JsString)) (p : Nat)
    : (go table_id i tds)[p]?
        =
      tds[p]?.map (fun onclick =>
        some (onclick.getD (serviceCall table_id (i + (tds.take p).count none)))) := by
  induction tds generalizing i p with
  | nil => rfl
  | cons onclick tds ih =>
    cases p with
    | zero =>
      cases onclick with
      | none => rfl
      | some onclick => rfl
    | succ p =>
      cases onclick with
      | none =>
        rw [go, List.getElem?_cons_succ, List.getElem?_cons_succ, ih, List.take_succ_cons,
          List.count_cons_self, Nat.add_assoc, Nat.add_comm 1]
      | some onclick =>
        rw [go, List.getElem?_cons_succ, List.getElem?_cons_succ, ih, List.take_succ_cons,
          List.count_cons_of_ne (by simp)]

theorem customSortOnTheadClick_of_some {tds : List (Option JsString)} {p : Nat} {onclick : JsString}
    (h : tds[p]? = some (some onclick)) (table_id : JsString)
    : (customSortOnTheadClick table_id tds)[p]? = some (some onclick) := by
  unfold customSortOnTheadClick
  rw [customSortOnTheadClick.go_getElem?, h]
  rfl

theorem customSortOnTheadClick_of_none {tds : List (Option JsString)} {p : Nat}
    (h : tds[p]? = some none) (table_id : JsString)
    : (customSortOnTheadClick table_id tds)[p]?
        =
      some (some (serviceCall table_id ((tds.take p).count none))) := by
  unfold customSortOnTheadClick
  rw [customSortOnTheadClick.go_getElem?, h, Nat.zero_add]
  rfl

theorem length_customSortOnTheadClick (table_id : JsString) (tds : List (Option JsString))
    : (customSortOnTheadClick table_id tds).length = tds.length := by
  unfold customSortOnTheadClick
  generalize 0 = i
  induction tds generalizing i with
  | nil => rfl
  | cons onclick tds ih =>
    cases onclick with
    | none => rw [customSortOnTheadClick.go, List.length_cons, List.length_cons, ih]
    | some onclick => rw [customSortOnTheadClick.go, List.length_cons, List.length_cons, ih]

/-- The attributes that the cells had when they came into the header. -/
def given (tds_thead : List (Option JsString)) (steps : List HeaderStep) : List (Option JsString) :=
  tds_thead ++ steps.filterMap (fun step =>
    match step with
    | .bind => none
    | .append onclick => some onclick)

theorem given_nil (tds : List (Option JsString)) : given tds [] = tds := by
  simp [given]

theorem given_bind (tds : List (Option JsString)) (steps : List HeaderStep)
    : given tds (.bind :: steps) = given tds steps := by
  rfl

theorem given_append (tds : List (Option JsString)) (onclick : Option JsString)
    (steps : List HeaderStep)
    : given tds (.append onclick :: steps) = given (tds ++ [onclick]) steps := by
  simp [given]

structure IsBound (table_id : JsString) (given tds : List (Option JsString)) : Prop where
  kept : ∀ {p : Nat} {onclick : JsString}, given[p]? = some (some onclick) → tds[p]? = some (some onclick)
  own : ∀ {p : Nat} {onclick : JsString}, given[p]? = some none → tds[p]? = some (some onclick) →
    onclick = serviceCall table_id p

def UnboundFirst (tds : List (Option JsString)) : Prop :=
  ∀ p : Nat, tds[p]? = some none → ∀ onclick ∈ tds.take p, onclick = none

def RunUnboundFirst (table_id : JsString) (tds : List (Option JsString)) (steps : List HeaderStep)
    : Prop :=
  match steps with
  | [] => True
  | step :: steps => (step = .bind → UnboundFirst tds)
      ∧ RunUnboundFirst table_id (step.apply table_id tds) steps

theorem count_take_eq_iff {tds : List (Option JsString)} {p : Nat} (hp : p < tds.length)
    : (tds.take p).count none = p ↔ ∀ onclick ∈ tds.take p, onclick = none := by
  have hlength : (tds.take p).length = p := by
    rw [List.length_take]
    omega
  constructor
  . intro h onclick honclick
    have hall : (tds.take p).count none = (tds.take p).length := by
      rw [h, hlength]
    apply (List.count_eq_length.mp hall onclick honclick).symm
  . intro h
    rw [List.count_eq_length.mpr, hlength]
    intro onclick honclick
    apply (h onclick honclick).symm

section Bind

variable {table_id : JsString} {first tds : List (Option JsString)}
  (hlength : tds.length = first.length)

include hlength

theorem IsBound.bind (h : IsBound table_id first tds) (hunbound : UnboundFirst tds)
    : IsBound table_id first (customSortOnTheadClick table_id tds) where
  kept hfirst := customSortOnTheadClick_of_some (h.kept hfirst) table_id
  own := by
    intro p onclick hfirst honclick
    have hp : p < tds.length := by
      rw [hlength]
      apply (List.getElem?_eq_some_iff.mp hfirst).choose
    cases htds : tds[p] with
    | none =>
      have hnone : tds[p]? = some none := by
        rw [List.getElem?_eq_getElem hp, htds]
      rw [customSortOnTheadClick_of_none hnone, (count_take_eq_iff hp).mpr (hunbound p hnone)]
        at honclick
      simpa using honclick.symm
    | some onclick' =>
      have hsome : tds[p]? = some (some onclick') := by
        rw [List.getElem?_eq_getElem hp, htds]
      rw [customSortOnTheadClick_of_some hsome, ← hsome] at honclick
      apply h.own hfirst honclick

theorem IsBound.append (h : IsBound table_id first tds) (onclick : Option JsString)
    : IsBound table_id (first ++ [onclick]) (tds ++ [onclick]) := by
  constructor
  . intro p onclick' hfirst
    rw [List.getElem?_append] at hfirst ⊢
    rw [hlength]
    split at hfirst
    . next hp =>
      rw [if_pos hp]
      apply h.kept hfirst
    . next hp =>
      rw [if_neg hp]
      exact hfirst
  . intro p onclick' hfirst honclick
    rw [List.getElem?_append] at hfirst honclick
    rw [hlength] at honclick
    split at hfirst
    . next hp =>
      rw [if_pos hp] at honclick
      apply h.own hfirst honclick
    . next hp =>
      rw [if_neg hp, hfirst] at honclick
      simp at honclick

def Misbound (table_id : JsString) (first tds : List (Option JsString)) : Prop :=
  ∃ p onclick, first[p]? = some none ∧ tds[p]? = some (some onclick)
    ∧ onclick ≠ serviceCall table_id p

theorem IsBound.misbound (h : IsBound table_id first tds) (hunbound : ¬UnboundFirst tds)
    : Misbound table_id first (customSortOnTheadClick table_id tds) := by
  unfold UnboundFirst at hunbound
  push Not at hunbound
  rcases hunbound with ⟨p, hnone, onclick, honclick, hne⟩
  have hp : p < tds.length := (List.getElem?_eq_some_iff.mp hnone).choose
  refine ⟨p, _, ?_, customSortOnTheadClick_of_none hnone table_id, ?_⟩
  . have hp' : p < first.length := by
      rw [← hlength]
      exact hp
    cases hfirst : first[p] with
    | none => rw [List.getElem?_eq_getElem hp', hfirst]
    | some onclick' =>
      have hkept := h.kept (p := p) (by rw [List.getElem?_eq_getElem hp', hfirst])
      rw [hnone] at hkept
      simp at hkept
  . intro hcall
    apply hne
    apply (count_take_eq_iff hp).mp (serviceCall_injective hcall) onclick honclick

end Bind

theorem Misbound.bind {table_id : JsString} {first tds : List (Option JsString)}
    (h : Misbound table_id first tds)
    : Misbound table_id first (customSortOnTheadClick table_id tds) := by
  rcases h with ⟨p, onclick, hfirst, honclick, hne⟩
  exact ⟨p, onclick, hfirst, customSortOnTheadClick_of_some honclick table_id, hne⟩

theorem Misbound.append {table_id : JsString} {first tds : List (Option JsString)}
    (h : Misbound table_id first tds) (onclick : Option JsString)
    : Misbound table_id (first ++ [onclick]) (tds ++ [onclick]) := by
  rcases h with ⟨p, onclick', hfirst, honclick, hne⟩
  refine ⟨p, onclick', ?_, ?_, hne⟩
  . rw [List.getElem?_append_left (List.getElem?_eq_some_iff.mp hfirst).choose, hfirst]
  . rw [List.getElem?_append_left (List.getElem?_eq_some_iff.mp honclick).choose, honclick]

theorem Misbound.not_isBound {table_id : JsString} {first tds : List (Option JsString)}
    (h : Misbound table_id first tds)
    : ¬IsBound table_id first tds := by
  rcases h with ⟨p, onclick, hfirst, honclick, hne⟩
  intro hbound
  apply hne (hbound.own hfirst honclick)

theorem Misbound.run {table_id : JsString} (steps : List HeaderStep)
    {first tds : List (Option JsString)} (h : Misbound table_id first tds)
    : Misbound table_id (given first steps) (runHeader table_id tds steps) := by
  induction steps generalizing first tds with
  | nil =>
    rw [given_nil]
    exact h
  | cons step steps ih =>
    cases step with
    | bind => exact ih h.bind
    | append onclick =>
      rw [given_append]
      exact ih (h.append onclick)

theorem isBound_run_iff {table_id : JsString} (steps : List HeaderStep)
    {first tds : List (Option JsString)} (hlength : tds.length = first.length)
    (h : IsBound table_id first tds)
    : IsBound table_id (given first steps) (runHeader table_id tds steps)
        ↔
      RunUnboundFirst table_id tds steps := by
  induction steps generalizing first tds with
  | nil =>
    rw [given_nil]
    constructor
    . intro _
      trivial
    . intro _
      exact h
  | cons step steps ih =>
    cases step with
    | bind =>
      have hlength' := (length_customSortOnTheadClick table_id tds).trans hlength
      rw [given_bind, RunUnboundFirst]
      by_cases hunbound : UnboundFirst tds
      . have hrun := ih hlength' (h.bind hlength hunbound)
        constructor
        . intro hbound
          exact ⟨fun _ => hunbound, hrun.mp hbound⟩
        . intro hrest
          exact hrun.mpr hrest.right
      . -- A cell with a wrong number keeps it for good.
        have hmisbound := (h.misbound hlength hunbound).run steps
        constructor
        . intro hbound
          exact (hmisbound.not_isBound hbound).elim
        . intro hrest
          exact (hunbound (hrest.left rfl)).elim
    | append onclick =>
      have hlength' : (tds ++ [onclick]).length = (first ++ [onclick]).length := by
        rw [List.length_append, List.length_append, hlength]
      rw [given_append, RunUnboundFirst]
      have hrun := ih hlength' (h.append hlength onclick)
      constructor
      . intro hbound
        exact ⟨by simp, hrun.mp hbound⟩
      . intro hrest
        exact hrun.mpr hrest.right

theorem runHeader_isBound_iff (table_id : JsString) (tds_thead : List (Option JsString))
    (steps : List HeaderStep)
    : IsBound table_id (given tds_thead steps) (runHeader table_id tds_thead steps)
        ↔
      RunUnboundFirst table_id tds_thead steps := by
  apply isBound_run_iff steps rfl
  constructor
  . intro p onclick h
    exact h
  . intro p onclick hnone hsome
    rw [hnone] at hsome
    simp at hsome

def firstColumnBound : List (Option JsString) :=
  [some (JsString.ofChars "alert(1)".toList), none]

theorem not_runHeader_isBound_firstColumnBound
    : let table_id := JsString.ofChars "t".toList
      ¬IsBound table_id (given firstColumnBound [.bind])
        (runHeader table_id firstColumnBound [.bind]) := by
  intro table_id h
  have hown : serviceCall table_id 0 = serviceCall table_id 1 :=
    h.own (p := 1) rfl rfl
  have hzero := serviceCall_injective hown
  contradiction

end CustomJs
