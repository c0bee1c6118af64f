import SupportFile.CustomJs.Impl.SortOnTheadClick

/-!
This module contains a page whose table is both searched and sorted. Its rows have no tables inside,
and each of them keeps what it is, and whether it is shown, when it moves.
-/

namespace CustomJs

structure Row where
  node : Nat
  cells : List JsString
  visible : Bool
  deriving DecidableEq, Repr

structure Page where
  thead : List JsString
  options : List (Nat × JsString)
  onkeydown : Bool
  rows : List Row
  deriving DecidableEq, Repr

inductive PageEvent where
  | sift (call : SiftCall)
  | click (colPo : Nat)
  deriving DecidableEq, Repr

def Row.toTr (pos parent : Nat) (row : Row) : Tr where
  node := row.node
  tds := row.cells.zipIdx.map (fun (text, i) => { pos := pos + i, parent := parent, text := text })

/-- The rows as the functions find them in the document. -/
def layout (rows : List Row) : List Tr :=
  go 0 0 rows
where
  go (pos parent : Nat) (rows : List Row) : List Tr :=
    match rows with
    | [] => []
    | row :: rows => row.toTr pos parent :: go (pos + row.cells.length) (parent + 1) rows

namespace Page

def table (page : Page) : Table where
  thead := page.thead
  tbody := layout page.rows

def siftState (page : Page) : SiftState where
  options := page.options
  onkeydown := page.onkeydown
  visible := page.rows.map (·.visible)

def sift (page : Page) (call : SiftCall) : Page :=
  let s := customSiftBasedOnColumn page.table page.siftState call
  { page with
    options := s.options
    onkeydown := s.onkeydown
    rows := page.rows.zipWith (fun row visible => { row with visible := visible }) s.visible }

-- Each row that is appended is taken away from where it was.
def click (array : ArraySort) (page : Page) (colPo : Nat) : Page :=
  let trs := (customSortOnTheadClickService array [layout page.rows] colPo).flatten
  { page with rows := trs.filterMap (fun tr => page.rows.find? (·.node = tr.node)) }

def step (array : ArraySort) (page : Page) (event : PageEvent) : Page :=
  match event with
  | .sift call => page.sift call
  | .click colPo => page.click array colPo

def run (array : ArraySort) (page : Page) (events : List PageEvent) : Page :=
  events.foldl (step array) page

end Page

end CustomJs
