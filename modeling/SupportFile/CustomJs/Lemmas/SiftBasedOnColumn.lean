import SupportFile.CustomJs.Impl.SiftBasedOnColumn
import SupportFile.JsString.Lemmas
import Mathlib.Data.List.Induction

namespace CustomJs

namespace Table

def cell (table : Table) (k colName : Nat) : Option Td :=
  table.tbody[k]?.bind (fun tr => tr.tds[colName]?)

/-- Row `k` neither contains a table nor is a part of one that another row contains. -/
def Plain (table : Table) (k : Nat) : Prop :=
  ∀ j tr, table.tbody[j]? = some tr → ∀ td ∈ tr.tds, td.parent = k ↔ j = k

theorem mem_findTdEq {table : Table} {colName : Nat} {td : Td}
    : td ∈ table.findTdEq colName ↔ ∃ j, table.cell j colName = some td := by
  unfold findTdEq uniqueSort cell
  rw [List.mem_dedup, List.mem_mergeSort, List.mem_filterMap]
  simp only [Option.bind_eq_some_iff]
  constructor
  . rintro ⟨tr, htr, htd⟩
    rcases List.mem_iff_getElem?.mp htr with ⟨j, hj⟩
    exact ⟨j, tr, hj, htd⟩
  . rintro ⟨j, tr, hj, htd⟩
    exact ⟨tr, List.mem_of_getElem? hj, htd⟩

theorem parent_eq_iff {table : Table} {k j colName : Nat} {td : Td} (hplain : table.Plain k)
    (hcell : table.cell j colName = some td)
    : td.parent = k ↔ j = k := by
  unfold cell at hcell
  rw [Option.bind_eq_some_iff] at hcell
  rcases hcell with ⟨tr, htr, htd⟩
  apply hplain j tr htr td (List.mem_of_getElem? htd)

end Table

namespace SiftCall

def Contains (call : SiftCall) (td : Td) : Prop :=
  call.value <:+: td.text

instance (call : SiftCall) (td : Td) : Decidable (call.Contains td) :=
  decidable_of_iff _ (JsString.indexOf_nonneg_iff td.text call.value)

def after (call : SiftCall) (td : Td) (visible : Bool) : Bool :=
  match call.mode with
  | .zero => decide (call.Contains td)
  | .one => visible && decide (call.Contains td)
  | .other => visible

theorem after_after (call : SiftCall) (td : Td) (visible : Bool)
    : call.after td (call.after td visible) = call.after td visible := by
  unfold after
  split
  . rfl
  . rw [Bool.and_assoc, Bool.and_self]
  . rfl

end SiftCall

theorem set_getElem? (visible : List Bool) (i k : Nat) (b : Bool)
    : (visible.set i b)[k]? = if i = k then visible[k]?.map (fun _ => b) else visible[k]? := by
  rw [List.getElem?_set']
  rfl

theorem siftTd_getElem? (call : SiftCall) (visible : List Bool) (td : Td) (k : Nat)
    : (siftTd call visible td)[k]?
        =
      if td.parent = k then visible[k]?.map (call.after td) else visible[k]? := by
  have hiff := JsString.indexOf_nonneg_iff td.text call.value
  unfold siftTd SiftCall.after SiftCall.Contains
  cases call.mode with
  | zero =>
    dsimp
    split
    . next h => simp [set_getElem?, hiff.mp h]
    . next h => simp [set_getElem?, mt hiff.mpr h]
  | one =>
    dsimp
    split
    . next h => simp [set_getElem?, mt hiff.mpr (by omega)]
    . next h => simp [hiff.mp (by omega)]
  | other => simp

theorem foldl_siftTd_getElem? (call : SiftCall) {k : Nat} {cell : Td} {v : Bool}
    (hcell : cell.parent = k) {tds : List Td} (htds : ∀ td ∈ tds, td.parent = k → td = cell)
    {visible : List Bool} (hv : visible[k]? = some v)
    : (tds.foldl (siftTd call) visible)[k]? = some (if cell ∈ tds then call.after cell v else v) := by
  induction tds generalizing visible v with
  | nil => simpa using hv
  | cons td tds ih =>
    rw [List.forall_mem_cons] at htds
    rw [List.foldl_cons]
    have hstep := siftTd_getElem? call visible td k
    by_cases hparent : td.parent = k
    . have htd := htds.left hparent
      subst htd
      rw [if_pos hparent, hv, Option.map_some] at hstep
      rw [ih htds.right hstep]
      -- The cell may be there again, which makes no difference any more.
      simp [SiftCall.after_after]
    . rw [if_neg hparent, hv] at hstep
      have hne : cell ≠ td := by
        rintro rfl
        contradiction
      rw [ih htds.right hstep]
      simp [hne]

theorem customSift_bound {table : Table} {s : SiftState} (hs : s.onkeydown = true) (call : SiftCall)
    : (customSiftBasedOnColumn table s call).onkeydown = true
        ∧ (customSiftBasedOnColumn table s call).visible
            = (table.findTdEq call.colName).foldl (siftTd call) s.visible := by
  unfold customSiftBasedOnColumn
  split <;> simp [hs]

theorem customSift_unbound {table : Table} {s : SiftState} (hs : s.onkeydown = false)
    (call : SiftCall)
    : (customSiftBasedOnColumn table s call).onkeydown = true
        ∧ (customSiftBasedOnColumn table s call).visible = s.visible := by
  unfold customSiftBasedOnColumn
  split <;> simp [hs]

theorem customSift_other {table : Table} {s : SiftState} {call : SiftCall} (hmode : call.mode = .other)
    : (customSiftBasedOnColumn table s call).visible = s.visible := by
  have hfold (tds : List Td) (visible : List Bool) : tds.foldl (siftTd call) visible = visible := by
    induction tds with
    | nil => rfl
    | cons td tds ih => rw [List.foldl_cons, siftTd, hmode, ih]
  cases hs : s.onkeydown with
  | true => rw [(customSift_bound hs call).right, hfold]
  | false => rw [(customSift_unbound hs call).right]

theorem customSift_getElem? {table : Table} {k : Nat} (hplain : table.Plain k) {s : SiftState}
    (hs : s.onkeydown = true) {call : SiftCall} {td : Td}
    (hcell : table.cell k call.colName = some td) {v : Bool} (hv : s.visible[k]? = some v)
    : (customSiftBasedOnColumn table s call).visible[k]? = some (call.after td v) := by
  have hparent : td.parent = k := (Table.parent_eq_iff hplain hcell).mpr rfl
  have hmem := Table.mem_findTdEq.mpr ⟨k, hcell⟩
  have huniq : ∀ td' ∈ table.findTdEq call.colName, td'.parent = k → td' = td := by
    intro td' htd' hparent'
    rcases Table.mem_findTdEq.mp htd' with ⟨j, hj⟩
    rw [(Table.parent_eq_iff hplain hj).mp hparent', hcell] at hj
    exact (Option.some.inj hj).symm
  rw [(customSift_bound hs call).right, foldl_siftTd_getElem? call hparent huniq hv, if_pos hmem]

/--
A call that still counts: it selected mode 0 or 1, and no later one selected mode 0.
-/
def Active (calls : List SiftCall) (call : SiftCall) : Prop :=
  ∃ before after, calls = before ++ call :: after ∧ call.mode ≠ .other
    ∧ ∀ call' ∈ after, call'.mode ≠ .zero

theorem active_append_iff {calls : List SiftCall} {last call : SiftCall}
    : Active (calls ++ [last]) call
        ↔
      (call = last ∧ last.mode ≠ .other) ∨ (Active calls call ∧ last.mode ≠ .zero) := by
  unfold Active
  constructor
  . rintro ⟨before, after, heq, hmode, hafter⟩
    cases after using List.reverseRecOn with
    | nil =>
      rcases List.append_inj' heq rfl with ⟨rfl, hlast⟩
      rw [List.singleton_inj] at hlast
      rw [hlast]
      exact Or.inl ⟨rfl, hmode⟩
    | append_singleton after last' =>
      rw [← List.cons_append, ← List.append_assoc] at heq
      rcases List.append_inj' heq rfl with ⟨rfl, hlast⟩
      rw [List.singleton_inj] at hlast
      rw [hlast]
      refine Or.inr ⟨⟨before, after, rfl, hmode, ?_⟩, ?_⟩
      . intro call' h
        apply hafter
        apply List.mem_append_left _ h
      . apply hafter
        apply List.mem_append_right
        apply List.mem_singleton_self
  . rintro (⟨rfl, hmode⟩ | ⟨⟨before, after, rfl, hmode, hafter⟩, hlast⟩)
    . exact ⟨calls, [], by simp, hmode, by simp⟩
    . refine ⟨before, after ++ [last], by simp, hmode, ?_⟩
      simp only [List.mem_append, List.mem_singleton]
      rintro call' (h | rfl)
      . apply hafter call' h
      . exact hlast

def Passes (table : Table) (k : Nat) (call : SiftCall) : Prop :=
  ∃ td, table.cell k call.colName = some td ∧ call.Contains td

theorem passes_iff {table : Table} {k : Nat} {call : SiftCall} {td : Td}
    (hcell : table.cell k call.colName = some td)
    : Passes table k call ↔ call.Contains td := by
  unfold Passes
  rw [hcell]
  constructor
  . rintro ⟨td', htd, h⟩
    cases htd
    exact h
  . intro h
    exact ⟨td, rfl, h⟩

def runSift (table : Table) (s : SiftState) (calls : List SiftCall) : SiftState :=
  calls.foldl (customSiftBasedOnColumn table) s

theorem runSift_append (table : Table) (s : SiftState) (calls : List SiftCall) (call : SiftCall)
    : runSift table s (calls ++ [call])
        =
      customSiftBasedOnColumn table (runSift table s calls) call := by
  unfold runSift
  rw [List.foldl_append, List.foldl_cons, List.foldl_nil]

theorem runSift_bound {table : Table} {s : SiftState} (hs : s.onkeydown = true)
    (calls : List SiftCall)
    : (runSift table s calls).onkeydown = true := by
  induction calls using List.reverseRecOn with
  | nil => exact hs
  | append_singleton calls call ih =>
    rw [runSift_append]
    exact (customSift_bound ih call).left

theorem runSift_getElem? {table : Table} {k : Nat} (hplain : table.Plain k) {s : SiftState}
    (hs : s.onkeydown = true) (hv : s.visible[k]? = some true) {calls : List SiftCall}
    (hcells : ∀ call ∈ calls, ∃ td, table.cell k call.colName = some td)
    : ∃ v, (runSift table s calls).visible[k]? = some v
        ∧ (v = true ↔ ∀ call, Active calls call → Passes table k call) := by
  induction calls using List.reverseRecOn with
  | nil =>
    refine ⟨true, hv, ?_⟩
    simp [Active]
  | append_singleton calls last ih =>
    rcases hcells last (by simp) with ⟨td, htd⟩
    rcases ih (fun call hcall => hcells call (List.mem_append_left _ hcall)) with ⟨v, hv, hiff⟩
    have hstep := customSift_getElem? hplain (runSift_bound hs calls) htd hv
    refine ⟨last.after td v, ?_, ?_⟩
    . rw [runSift_append, hstep]
    . have hlast := passes_iff htd
      simp only [active_append_iff]
      unfold SiftCall.after
      cases hmode : last.mode with
      | zero =>
        -- The call starts anew, so that nothing before it counts any more.
        simp [hlast]
      | one =>
        simp only [Bool.and_eq_true, decide_eq_true_eq, hiff, ne_eq, reduceCtorEq,
          not_false_eq_true, and_true, or_imp, forall_and, forall_eq]
        rw [hlast, and_comm]
      | other => simp [hiff]

def initial (table : Table) (options : List (Nat × JsString)) : SiftState where
  options := options
  onkeydown := false
  visible := List.replicate table.tbody.length true

/--
After any calls, a row is visible exactly if it passes the last search in mode 0 and each search in
mode 1 after it. The first call and the calls in other modes show and hide nothing.
-/
theorem visible_iff_active (table : Table) (options : List (Nat × JsString)) (first : SiftCall)
    (calls : List SiftCall)
    : let bound := customSiftBasedOnColumn table (initial table options) first
      let s := runSift table bound calls
      bound.visible = (initial table options).visible
        ∧ (∀ call, call.mode = .other → (customSiftBasedOnColumn table s call).visible = s.visible)
        ∧ ∀ k < table.tbody.length, table.Plain k →
          (∀ call ∈ calls, ∃ td, table.cell k call.colName = some td) →
          (s.visible[k]? = some true ↔ ∀ call, Active calls call → Passes table k call) := by
  have hunbound : (initial table options).onkeydown = false := rfl
  have hfirst := @customSift_unbound table (initial table options) hunbound first
  refine ⟨hfirst.right, fun call hmode => customSift_other hmode, ?_⟩
  intro k hk hplain hcells
  have hvisible : (customSiftBasedOnColumn table (initial table options) first).visible[k]?
      = some true := by
    rw [hfirst.right]
    simp [initial, hk]
  rcases runSift_getElem? hplain hfirst.left hvisible hcells with ⟨v, hv, hiff⟩
  rw [hv, Option.some.injEq, hiff]

def letterRows : Table where
  thead := [JsString.ofChars ['x']]
  tbody :=
    [{ node := 0, tds := [{ pos := 0, parent := 0, text := JsString.ofChars ['a'] }] },
      { node := 1, tds := [{ pos := 1, parent := 1, text := JsString.ofChars ['b'] }] }]

theorem visible_iff_active_letterRows
    : (runSift letterRows
          (customSiftBasedOnColumn letterRows (initial letterRows [])
            { mode := .one, colName := 0, value := [] })
          [{ mode := .zero, colName := 0, value := JsString.ofChars ['b'] }]).visible[0]? = some true
        ↔
      ∀ call, Active [{ mode := .zero, colName := 0, value := JsString.ofChars ['b'] }] call →
        Passes letterRows 0 call := by
  apply (visible_iff_active letterRows [] _ _).right.right 0 (by decide)
  . rintro (_ | _ | j) tr htr
    . cases htr
      simp
    . cases htr
      simp
    . simp [letterRows] at htr
  . simp only [List.mem_singleton, forall_eq]
    exact ⟨_, rfl⟩

end CustomJs
