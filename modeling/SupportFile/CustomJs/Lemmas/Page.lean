import SupportFile.CustomJs.Impl.Page
import SupportFile.CustomJs.Lemmas.SiftBasedOnColumn
import SupportFile.CustomJs.Lemmas.SortOnTheadClick

/-!
This module contains the runs of searches and clicks on one table. The searches do not see the order
of the rows and the clicks do not see which rows are shown, so that both can be taken apart.
-/

namespace CustomJs

theorem layout.go_getElem? {rows : List Row} {k : Nat} {row : Row} (h : rows[k]? = some row)
    (pos parent : Nat)
    : ∃ pos', (layout.go pos parent rows)[k]? = some (row.toTr pos' (parent + k)) := by
  induction rows generalizing k pos parent with
  | nil => contradiction
  | cons first rows ih =>
    cases k with
    | zero =>
      rw [List.getElem?_cons_zero, Option.some.injEq] at h
      rw [h]
      exact ⟨pos, rfl⟩
    | succ k =>
      rw [List.getElem?_cons_succ] at h
      rw [layout.go, List.getElem?_cons_succ, show parent + (k + 1) = parent + 1 + k by omega]
      exact ih h _ _

theorem layout.length_go (pos parent : Nat) (rows : List Row)
    : (layout.go pos parent rows).length = rows.length := by
  induction rows generalizing pos parent with
  | nil => rfl
  | cons row rows ih => rw [layout.go, List.length_cons, ih, List.length_cons]

theorem layout_getElem? {rows : List Row} {k : Nat} {row : Row} (h : rows[k]? = some row)
    : ∃ pos, (layout rows)[k]? = some (row.toTr pos k) := by
  rcases layout.go_getElem? h 0 0 with ⟨pos, hpos⟩
  rw [Nat.zero_add] at hpos
  exact ⟨pos, hpos⟩

theorem exists_row_of_layout {rows : List Row} {k : Nat} {tr : Tr} (h : (layout rows)[k]? = some tr)
    : ∃ row pos, rows[k]? = some row ∧ tr = row.toTr pos k := by
  have hk : k < rows.length := by
    rw [← layout.length_go 0 0 rows]
    exact (List.getElem?_eq_some_iff.mp h).choose
  have hrow := List.getElem?_eq_getElem hk
  rcases layout_getElem? hrow with ⟨pos, hpos⟩
  rw [h, Option.some.injEq] at hpos
  exact ⟨_, pos, hrow, hpos⟩

theorem toTr_getElem? (row : Row) (pos parent colName : Nat)
    : (row.toTr pos parent).tds[colName]?
        = row.cells[colName]?.map (fun text =>
          { pos := pos + colName, parent := parent, text := text }) := by
  unfold Row.toTr
  rw [List.getElem?_map, List.getElem?_zipIdx]
  cases row.cells[colName]? with
  | none => rfl
  | some text => simp

theorem layout.map_node_go (pos parent : Nat) (rows : List Row)
    : (layout.go pos parent rows).map (·.node) = rows.map (·.node) := by
  induction rows generalizing pos parent with
  | nil => rfl
  | cons row rows ih =>
    rw [layout.go, List.map_cons, List.map_cons, ih]
    rfl

theorem plain_layout (page : Page) (k : Nat) : page.table.Plain k := by
  intro j tr htr td htd
  rcases exists_row_of_layout htr with ⟨row, pos, _, rfl⟩
  rcases List.mem_iff_getElem?.mp htd with ⟨i, hi⟩
  rw [toTr_getElem?, Option.map_eq_some_iff] at hi
  rcases hi with ⟨text, _, rfl⟩
  exact Iff.rfl

def Row.sift (call : SiftCall) (row : Row) : Row :=
  match row.cells[call.colName]? with
  | some text => { row with visible := call.after { pos := 0, parent := 0, text := text } row.visible }
  -- A row without a cell in the column is left alone.
  | none => row

theorem foldl_siftTd_of_ne (call : SiftCall) {k : Nat} {tds : List Td}
    (htds : ∀ td ∈ tds, td.parent ≠ k) (visible : List Bool)
    : (tds.foldl (siftTd call) visible)[k]? = visible[k]? := by
  induction tds generalizing visible with
  | nil => rfl
  | cons td tds ih =>
    rw [List.forall_mem_cons] at htds
    rw [List.foldl_cons, ih htds.right, siftTd_getElem?, if_neg htds.left]

theorem exists_cell_iff {page : Page} {k colName : Nat} {text : JsString}
    : (∃ td, page.table.cell k colName = some td ∧ td.text = text)
        ↔
      ∃ row, page.rows[k]? = some row ∧ row.cells[colName]? = some text := by
  unfold Table.cell
  simp only [Option.bind_eq_some_iff]
  constructor
  . rintro ⟨td, ⟨tr, htr, htd⟩, rfl⟩
    rcases exists_row_of_layout htr with ⟨row, pos, hrow, rfl⟩
    rw [toTr_getElem?, Option.map_eq_some_iff] at htd
    rcases htd with ⟨text, htext, rfl⟩
    exact ⟨row, hrow, htext⟩
  . rintro ⟨row, hrow, htext⟩
    rcases layout_getElem? hrow with ⟨pos, htr⟩
    refine ⟨{ pos := pos + colName, parent := k, text := text }, ⟨_, htr, ?_⟩, rfl⟩
    rw [toTr_getElem?, htext, Option.map_some]

theorem siftTd_findTdEq_of_none {page : Page} {call : SiftCall} {k : Nat}
    (h : ∀ row, page.rows[k]? = some row → row.cells[call.colName]? = none)
    : ((page.table.findTdEq call.colName).foldl (siftTd call) page.siftState.visible)[k]?
        = page.siftState.visible[k]? := by
  apply foldl_siftTd_of_ne
  intro td htd hk
  rcases Table.mem_findTdEq.mp htd with ⟨j, hcell⟩
  rw [(Table.parent_eq_iff (plain_layout page k) hcell).mp hk] at hcell
  rcases exists_cell_iff.mp ⟨td, hcell, rfl⟩ with ⟨row, hrow, htext⟩
  rw [h row hrow] at htext
  contradiction

theorem siftTd_findTdEq (page : Page) (call : SiftCall)
    : (page.table.findTdEq call.colName).foldl (siftTd call) page.siftState.visible
        = (page.rows.map (Row.sift call)).map (·.visible) := by
  apply List.ext_getElem?
  intro k
  rw [List.getElem?_map, List.getElem?_map]
  cases hrow : page.rows[k]? with
  | none =>
    rw [siftTd_findTdEq_of_none, Page.siftState, List.getElem?_map, hrow]
    . rfl
    . intro row hrow'
      rw [hrow] at hrow'
      contradiction
  | some row =>
    have hvisible : page.siftState.visible[k]? = some row.visible := by
      rw [Page.siftState, List.getElem?_map, hrow, Option.map_some]
    rw [Option.map_some, Option.map_some, Row.sift]
    cases htext : row.cells[call.colName]? with
    | none =>
      rw [siftTd_findTdEq_of_none, hvisible]
      intro row' hrow'
      rw [hrow, Option.some.injEq] at hrow'
      rw [← hrow', htext]
    | some text =>
      rcases exists_cell_iff.mpr ⟨row, hrow, htext⟩ with ⟨td, hcell, rfl⟩
      have hbound : ({ page.siftState with onkeydown := true } : SiftState).onkeydown = true := rfl
      have hsift := customSift_getElem? (plain_layout page k) hbound hcell hvisible
      rw [(customSift_bound hbound call).right] at hsift
      exact hsift

theorem zipWith_visible (rows : List Row) (f : Row → Row)
    (hf : ∀ row, ∃ visible, f row = { row with visible := visible })
    : rows.zipWith (fun row visible => { row with visible := visible })
        ((rows.map f).map (·.visible)) = rows.map f := by
  induction rows with
  | nil => rfl
  | cons row rows ih =>
    rcases hf row with ⟨visible, heq⟩
    rw [List.map_cons, List.map_cons, List.zipWith_cons_cons, ih, heq]

theorem Row.sift_eq (call : SiftCall) (row : Row)
    : ∃ visible, row.sift call = { row with visible := visible } := by
  unfold Row.sift
  split
  . exact ⟨_, rfl⟩
  . exact ⟨_, rfl⟩

theorem sift_eq (page : Page) (call : SiftCall)
    : page.sift call
        =
      { page with
        options :=
          if page.options.length < 1 then
            page.thead.zipIdx.map (fun (text, i) => (i, text))
          else
            page.options
        onkeydown := true
        rows := if page.onkeydown then page.rows.map (Row.sift call) else page.rows } := by
  have hoptions : (customSiftBasedOnColumn page.table page.siftState call).options
      = if page.options.length < 1 then
          page.thead.zipIdx.map (fun (text, i) => (i, text))
        else
          page.options := by
    unfold customSiftBasedOnColumn
    cases hs : page.onkeydown with
    | true =>
      simp only [Page.siftState, hs]
      split <;> rfl
    | false =>
      simp only [Page.siftState, hs]
      split <;> rfl
  unfold Page.sift
  dsimp only
  rw [hoptions]
  cases hs : page.onkeydown with
  | true =>
    have hbound := @customSift_bound page.table page.siftState hs call
    rw [hbound.left, hbound.right, siftTd_findTdEq, zipWith_visible _ _ (Row.sift_eq call),
      if_pos rfl]
  | false =>
    have hunbound := @customSift_unbound page.table page.siftState hs call
    have hid := zipWith_visible page.rows id (fun row => ⟨row.visible, rfl⟩)
    rw [List.map_id] at hid
    rw [hunbound.left, hunbound.right, if_neg Bool.false_ne_true]
    dsimp only
    rw [Page.siftState, hid]

/-- What a row is, apart from whether it is shown. -/
def Row.content (row : Row) : Nat × List JsString :=
  (row.node, row.cells)

section Map

variable {f : Row → Row} (hf : ∀ row, (f row).content = row.content)

include hf

theorem layout_map (rows : List Row) : layout (rows.map f) = layout rows := by
  have hgo (pos parent : Nat) : layout.go pos parent (rows.map f) = layout.go pos parent rows := by
    induction rows generalizing pos parent with
    | nil => rfl
    | cons row rows ih =>
      have hrow := hf row
      rw [Row.content, Row.content, Prod.mk.injEq] at hrow
      rw [List.map_cons, layout.go, layout.go, ih, Row.toTr, Row.toTr, hrow.left, hrow.right]
  exact hgo 0 0

theorem find?_map_node (rows : List Row) (node : Nat)
    : (rows.map f).find? (·.node = node) = (rows.find? (·.node = node)).map f := by
  rw [List.find?_map]
  congr 2
  funext row
  have hrow := congrArg Prod.fst (hf row)
  replace hrow : (f row).node = row.node := hrow
  rw [Function.comp_apply, hrow]

theorem click_map (array : ArraySort) (page : Page) (colPo : Nat)
    : ({ page with rows := page.rows.map f } : Page).click array colPo
        = { page.click array colPo with rows := (page.click array colPo).rows.map f } := by
  unfold Page.click
  dsimp only
  rw [layout_map hf, List.map_filterMap]
  simp only [find?_map_node hf]

end Map

theorem Row.content_sift (call : SiftCall) (row : Row) : (row.sift call).content = row.content := by
  rcases row.sift_eq call with ⟨visible, heq⟩
  rw [heq]
  rfl

theorem sift_click (array : ArraySort) (page : Page) (colPo : Nat) (call : SiftCall)
    : (page.click array colPo).sift call = (page.sift call).click array colPo := by
  rw [sift_eq, sift_eq]
  cases hs : page.onkeydown with
  | true =>
    rw [if_pos (show (page.click array colPo).onkeydown = true from hs), if_pos rfl]
    exact (click_map (Row.content_sift call) array { page with options := _, onkeydown := true }
      colPo).symm
  | false =>
    have hclick : ¬(page.click array colPo).onkeydown = true := by
      rw [show (page.click array colPo).onkeydown = false from hs]
      exact Bool.false_ne_true
    rw [if_neg hclick, if_neg Bool.false_ne_true]
    rfl

def PageEvent.isSift (event : PageEvent) : Bool :=
  match event with
  | .sift _ => true
  | .click _ => false

theorem run_click (array : ArraySort) (page : Page) (colPo : Nat) {events : List PageEvent}
    (hevents : ∀ event ∈ events, event.isSift = true)
    : (page.click array colPo).run array events = (page.run array events).click array colPo := by
  unfold Page.run
  induction events generalizing page with
  | nil => rfl
  | cons event events ih =>
    rw [List.forall_mem_cons] at hevents
    cases event with
    | sift call =>
      rw [List.foldl_cons, List.foldl_cons, Page.step, sift_click]
      exact ih _ hevents.right
    | click colPo => simp [PageEvent.isSift] at hevents

theorem run_eq (array : ArraySort) (page : Page) (events : List PageEvent)
    : page.run array events
        = (page.run array (events.filter PageEvent.isSift)).run array
          (events.filter (fun event => !event.isSift)) := by
  induction events generalizing page with
  | nil => rfl
  | cons event events ih =>
    have hsifts : ∀ event ∈ events.filter PageEvent.isSift, event.isSift = true := by
      intro event hevent
      exact List.of_mem_filter hevent
    cases event with
    | sift call =>
      have hstep : page.run array (.sift call :: events) = (page.sift call).run array events := rfl
      rw [hstep, ih]
      rfl
    | click colPo =>
      have hstep : page.run array (.click colPo :: events)
          = (page.click array colPo).run array events := rfl
      rw [hstep, ih, run_click array page colPo hsifts]
      rfl

theorem find?_node {rows : List Row} (hnodes : (rows.map (·.node)).Nodup) {row : Row}
    (hrow : row ∈ rows)
    : rows.find? (·.node = row.node) = some row := by
  induction rows with
  | nil => simp at hrow
  | cons first rows ih =>
    rw [List.map_cons, List.nodup_cons] at hnodes
    rw [List.find?_cons]
    rw [List.mem_cons] at hrow
    cases hrow with
    | inl heq => simp [heq]
    | inr hrow =>
      have hne : first.node ≠ row.node := by
        intro heq
        apply hnodes.left
        rw [heq]
        exact List.mem_map_of_mem hrow
      simp [hne, ih hnodes.right hrow]

theorem perm_click (array : ArraySort) {page : Page} (hnodes : (page.rows.map (·.node)).Nodup)
    (colPo : Nat)
    : (page.click array colPo).rows.Perm page.rows := by
  have hperm := perm_customSortOnTheadClickService array [layout page.rows] colPo
  rw [List.flatten_singleton] at hperm
  apply (hperm.filterMap _).trans
  have hfind : (layout page.rows).filterMap (fun tr => page.rows.find? (·.node = tr.node))
      = page.rows.filterMap (fun row => page.rows.find? (·.node = row.node)) := by
    have hnode := congrArg (List.filterMap (fun node => page.rows.find? (·.node = node)))
      (layout.map_node_go 0 0 page.rows)
    rw [List.filterMap_map, List.filterMap_map] at hnode
    exact hnode
  rw [hfind, List.filterMap_congr (g := some) (fun row hrow => find?_node hnodes hrow),
    List.filterMap_some]

theorem perm_run (array : ArraySort) {page : Page} (hnodes : (page.rows.map (·.node)).Nodup)
    {events : List PageEvent} (hevents : ∀ event ∈ events, event.isSift = false)
    : (page.run array events).rows.Perm page.rows := by
  unfold Page.run
  induction events generalizing page with
  | nil => exact List.Perm.refl _
  | cons event events ih =>
    rw [List.forall_mem_cons] at hevents
    cases event with
    | sift call => simp [PageEvent.isSift] at hevents
    | click colPo =>
      have hperm := perm_click array hnodes colPo
      have hnodes' : ((page.click array colPo).rows.map (·.node)).Nodup := by
        rw [(hperm.map (·.node)).nodup_iff]
        exact hnodes
      exact (ih hnodes' hevents.right).trans hperm

def PageEvent.call? (event : PageEvent) : Option SiftCall :=
  match event with
  | .sift call => some call
  | .click _ => none

def Row.siftAll (calls : List SiftCall) (row : Row) : Row :=
  calls.foldl (fun row call => row.sift call) row

theorem rows_run_of_bound (array : ArraySort) {page : Page} (hbound : page.onkeydown = true)
    {events : List PageEvent} (hevents : ∀ event ∈ events, event.isSift = true)
    : (page.run array events).rows
        = page.rows.map (Row.siftAll (events.filterMap PageEvent.call?)) := by
  unfold Page.run
  induction events generalizing page with
  | nil => exact (List.map_id page.rows).symm
  | cons event events ih =>
    rw [List.forall_mem_cons] at hevents
    cases event with
    | sift call =>
      have hsift := sift_eq page call
      rw [if_pos hbound] at hsift
      have hbound' : (page.sift call).onkeydown = true := by
        rw [hsift]
      have hrows : (page.sift call).rows = page.rows.map (Row.sift call) := by
        rw [hsift]
      rw [List.foldl_cons, Page.step, ih hbound' hevents.right, hrows, List.map_map]
      rfl
    | click colPo => simp [PageEvent.isSift] at hevents

theorem Row.content_siftAll (calls : List SiftCall) (row : Row)
    : (row.siftAll calls).content = row.content := by
  unfold Row.siftAll
  induction calls generalizing row with
  | nil => rfl
  | cons call calls ih => rw [List.foldl_cons, ih, Row.content_sift]

def Row.Passes (row : Row) (call : SiftCall) : Prop :=
  ∃ text, row.cells[call.colName]? = some text ∧ call.value <:+: text

def Row.concerns (row : Row) (call : SiftCall) : Bool :=
  row.cells[call.colName]?.isSome

theorem Row.visible_siftAll_iff {row : Row} (hvisible : row.visible = true) (calls : List SiftCall)
    : (row.siftAll calls).visible = true
        ↔
      ∀ call, Active (calls.filter row.concerns) call → row.Passes call := by
  induction calls using List.reverseRecOn with
  | nil => simp [Row.siftAll, hvisible, Active]
  | append_singleton calls last ih =>
    have hcells : (row.siftAll calls).cells = row.cells :=
      congrArg Prod.snd (row.content_siftAll calls)
    have hlast : row.siftAll (calls ++ [last]) = (row.siftAll calls).sift last := by
      simp [Row.siftAll]
    rw [hlast, Row.sift, hcells, List.filter_append]
    cases htext : row.cells[last.colName]? with
    | none =>
      have hconcerns : row.concerns last = false := by
        simp [Row.concerns, htext]
      simp [hconcerns, ih]
    | some text =>
      have hconcerns : row.concerns last = true := by
        simp [Row.concerns, htext]
      have hpasses : row.Passes last ↔ last.Contains { pos := 0, parent := 0, text := text } := by
        simp [Row.Passes, SiftCall.Contains, htext]
      rw [List.filter_singleton, hconcerns, cond_true]
      simp only [active_append_iff]
      unfold SiftCall.after
      cases hmode : last.mode with
      | zero => simp [hpasses]
      | one =>
        simp only [Bool.and_eq_true, decide_eq_true_eq, ih, ne_eq, reduceCtorEq,
          not_false_eq_true, and_true, or_imp, forall_and, forall_eq]
        rw [hpasses, and_comm]
      | other => simp [ih]

theorem run_run (array : ArraySort) (page : Page) {clicks sifts : List PageEvent}
    (hclicks : ∀ event ∈ clicks, event.isSift = false)
    (hsifts : ∀ event ∈ sifts, event.isSift = true)
    : (page.run array sifts).run array clicks = (page.run array clicks).run array sifts := by
  induction clicks generalizing page with
  | nil => rfl
  | cons event clicks ih =>
    rw [List.forall_mem_cons] at hclicks
    cases event with
    | sift call => simp [PageEvent.isSift] at hclicks
    | click colPo =>
      have hstep (page : Page) : page.run array (.click colPo :: clicks)
          = (page.click array colPo).run array clicks := rfl
      rw [hstep, hstep, ← run_click array page colPo hsifts, ih _ hclicks.right]

theorem onkeydown_run (array : ArraySort) (page : Page) {clicks : List PageEvent}
    (hclicks : ∀ event ∈ clicks, event.isSift = false)
    : (page.run array clicks).onkeydown = page.onkeydown := by
  induction clicks generalizing page with
  | nil => rfl
  | cons event clicks ih =>
    rw [List.forall_mem_cons] at hclicks
    cases event with
    | sift call => simp [PageEvent.isSift] at hclicks
    | click colPo => exact ih (page.click array colPo) hclicks.right

theorem map_content_siftAll (calls : List SiftCall) (rows : List Row)
    : (rows.map (Row.siftAll calls)).map Row.content = rows.map Row.content := by
  rw [List.map_map]
  apply List.map_congr_left
  intro row _
  exact row.content_siftAll calls

/--
After any searches and clicks the rows stand as the clicks alone would have put them, each of them as it
was before, and a row is shown exactly if it passes the searches that still count for it, wherever it
stood when they were made.
-/
theorem run_page (array : ArraySort) {page : Page} (hbound : page.onkeydown = true)
    (hvisible : ∀ row ∈ page.rows, row.visible = true)
    (hnodes : (page.rows.map (·.node)).Nodup) (events : List PageEvent)
    : ((page.run array events).rows.map Row.content).Perm (page.rows.map Row.content)
        ∧
      (page.run array events).rows.map Row.content
        = (page.run array (events.filter (fun event => !event.isSift))).rows.map Row.content
        ∧
      ∀ row ∈ (page.run array events).rows, row.visible = true
        ↔ ∀ call, Active ((events.filterMap PageEvent.call?).filter row.concerns) call →
          row.Passes call := by
  have hsifts : ∀ event ∈ events.filter PageEvent.isSift, event.isSift = true := by
    intro event hevent
    exact List.of_mem_filter hevent
  have hclicks : ∀ event ∈ events.filter (fun event => !event.isSift), event.isSift = false := by
    intro event hevent
    simpa using List.of_mem_filter hevent
  have hcalls : (events.filter PageEvent.isSift).filterMap PageEvent.call?
      = events.filterMap PageEvent.call? := by
    rw [List.filterMap_filter]
    congr 1
    funext event
    cases event <;> rfl
  have hrows := rows_run_of_bound array hbound hsifts
  rw [hcalls] at hrows
  have hnodes' : ((page.run array (events.filter PageEvent.isSift)).rows.map (·.node)).Nodup := by
    have hcontent := congrArg (List.map Prod.fst)
      (map_content_siftAll (events.filterMap PageEvent.call?) page.rows)
    rw [← hrows, List.map_map, List.map_map] at hcontent
    exact hcontent ▸ hnodes
  have hperm := perm_run array hnodes' hclicks
  rw [← run_eq, hrows] at hperm
  refine ⟨?_, ?_, ?_⟩
  . rw [← map_content_siftAll (events.filterMap PageEvent.call?) page.rows]
    exact hperm.map _
  . rw [run_eq, run_run array page hclicks hsifts, rows_run_of_bound array _ hsifts,
      map_content_siftAll]
    rw [onkeydown_run array page hclicks, hbound]
  . intro row hrow
    rcases List.mem_map.mp (hperm.mem_iff.mp hrow) with ⟨row', hrow', rfl⟩
    have hcells : (row'.siftAll (events.filterMap PageEvent.call?)).cells = row'.cells :=
      congrArg Prod.snd (row'.content_siftAll _)
    have hconcerns : (row'.siftAll (events.filterMap PageEvent.call?)).concerns = row'.concerns := by
      funext call
      rw [Row.concerns, Row.concerns, hcells]
    rw [Row.visible_siftAll_iff (hvisible row' hrow'), hconcerns]
    unfold Row.Passes
    rw [hcells]

def letterPage : Page where
  thead := [JsString.ofChars ['x']]
  options := []
  onkeydown := true
  rows :=
    [{ node := 0, cells := [JsString.ofChars ['b']], visible := true },
      { node := 1, cells := [JsString.ofChars ['a']], visible := true },
      { node := 2, cells := [], visible := true }]

def searchA : SiftCall :=
  { mode := .zero, colName := 0, value := JsString.ofChars ['a'] }

def searchAll : SiftCall :=
  { mode := .one, colName := 0, value := [] }

def letterEvents : List PageEvent :=
  [.sift searchA, .click 0, .sift searchAll, .click 0]

theorem active_letterEvents_iff (call : SiftCall)
    : Active [searchA, searchAll] call ↔ call = searchAll ∨ call = searchA := by
  rw [show [searchA, searchAll] = ([] ++ [searchA]) ++ [searchAll] by rfl, active_append_iff,
    active_append_iff]
  simp [Active, searchA, searchAll]

/-- The row that has no cell in the column stays on the page. -/
theorem run_page_letterPage
    : let page := letterPage.run .halving letterEvents
      (page.rows.map Row.content).Perm (letterPage.rows.map Row.content)
        ∧
      page.rows.map Row.content
          = (letterPage.run .halving [.click 0, .click 0]).rows.map Row.content
        ∧
      ∀ row ∈ page.rows, row.visible = true ↔ row.cells ≠ [JsString.ofChars ['b']] := by
  intro page
  rcases run_page .halving (show letterPage.onkeydown = true by rfl) (by decide) (by decide)
    letterEvents with ⟨hperm, horder, hshown⟩
  refine ⟨hperm, horder, ?_⟩
  intro row hrow
  have hcells : row.cells = [JsString.ofChars ['b']] ∨ row.cells = [JsString.ofChars ['a']]
      ∨ row.cells = [] := by
    have hcontent := hperm.mem_iff.mp (List.mem_map_of_mem hrow)
    simp only [letterPage, List.map_cons, List.map_nil, List.mem_cons, List.not_mem_nil, or_false,
      Row.content, Prod.mk.injEq] at hcontent
    tauto
  have hcalls : letterEvents.filterMap PageEvent.call? = [searchA, searchAll] := by
    rfl
  rw [hshown row hrow, hcalls]
  rcases hcells with hcells | hcells | hcells
  . have hfilter : [searchA, searchAll].filter row.concerns = [searchA, searchAll] := by
      simp [Row.concerns, hcells, searchA, searchAll]
    have hfails : ¬row.Passes searchA := by
      unfold Row.Passes
      rw [hcells]
      decide
    rw [hfilter, hcells]
    simp only [active_letterEvents_iff, ne_eq, not_true_eq_false, iff_false]
    intro hall
    exact hfails (hall searchA (.inr rfl))
  . have hfilter : [searchA, searchAll].filter row.concerns = [searchA, searchAll] := by
      simp [Row.concerns, hcells, searchA, searchAll]
    rw [hfilter, hcells]
    simp only [active_letterEvents_iff, Row.Passes, hcells, forall_eq_or_imp, forall_eq]
    decide
  . have hfilter : [searchA, searchAll].filter row.concerns = [] := by
      simp [Row.concerns, hcells]
    rw [hfilter, hcells]
    simp [Active]

end CustomJs
