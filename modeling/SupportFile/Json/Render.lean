import SupportFile.Json.Lemmas.Shortest
import SupportFile.Json.Lemmas.Soundness

/-!
This module contains a printer that gives each member and each element a line of its own, and that what
it prints is a text of the value. It does not escape anything, so that it is for values whose strings
need no escapes.
-/

namespace Json

abbrev PlainString := { s : List Char // s.all isUnescaped = true }

abbrev Lexeme := { s : List Char // isNumber s = true }

inductive Doc where
  | bool (b : Bool)
  | num (lexeme : Lexeme)
  | str (s : PlainString)
  | arr (elems : List Doc)
  | obj (members : List (PlainString × Doc))

namespace Doc

mutual

def toJson (d : Doc) : Json :=
  match d with
  | .bool b => .bool b
  | .num lexeme => .num lexeme.val
  | .str s => .str (JsString.ofChars s.val)
  | .arr elems => .arr (elemsToJson elems)
  | .obj members => .obj (membersToJson members)

def elemsToJson (elems : List Doc) : List Json :=
  match elems with
  | [] => []
  | d :: elems => d.toJson :: elemsToJson elems

def membersToJson (members : List (PlainString × Doc)) : List (List UInt16 × Json) :=
  match members with
  | [] => []
  | (k, d) :: members => (JsString.ofChars k.val, d.toJson) :: membersToJson members

end

def quoted (s : PlainString) : List Char :=
  ['"'] ++ s.val ++ ['"']

def indentation (depth : Nat) : List Char :=
  List.replicate (2 * depth) ' '

def comma (isLast : Bool) : List Char :=
  if isLast then [] else [',']

mutual

def lines (depth : Nat) (before : List Char) (d : Doc) (after : List Char) : List (List Char) :=
  match d with
  | .bool true => [indentation depth ++ before ++ ['t', 'r', 'u', 'e'] ++ after]
  | .bool false => [indentation depth ++ before ++ ['f', 'a', 'l', 's', 'e'] ++ after]
  | .num lexeme => [indentation depth ++ before ++ lexeme.val ++ after]
  | .str s => [indentation depth ++ before ++ quoted s ++ after]
  | .arr elems =>
    if elems.isEmpty then
      [indentation depth ++ before ++ ['[', ']'] ++ after]
    else
      (indentation depth ++ before ++ ['[']) :: elemLines (depth + 1) elems
        ++ [indentation depth ++ [']'] ++ after]
  | .obj members =>
    if members.isEmpty then
      [indentation depth ++ before ++ ['{', '}'] ++ after]
    else
      (indentation depth ++ before ++ ['{']) :: memberLines (depth + 1) members
        ++ [indentation depth ++ ['}'] ++ after]

def elemLines (depth : Nat) (elems : List Doc) : List (List Char) :=
  match elems with
  | [] => []
  | d :: elems => lines depth [] d (comma elems.isEmpty) ++ elemLines depth elems

def memberLines (depth : Nat) (members : List (PlainString × Doc)) : List (List Char) :=
  match members with
  | [] => []
  | (k, d) :: members =>
    lines depth (quoted k ++ [':', ' ']) d (comma members.isEmpty) ++ memberLines depth members

end

def unlines (ls : List (List Char)) : List Char :=
  ['\n'].intercalate ls

theorem unlines_append {ls ls' : List (List Char)} (hne : ls ≠ []) (hne' : ls' ≠ [])
    : unlines (ls ++ ls') = unlines ls ++ ['\n'] ++ unlines ls' := by
  unfold unlines
  induction ls with
  | nil => contradiction
  | cons l ls ih =>
    cases ls with
    | nil =>
      cases ls' with
      | nil => contradiction
      | cons l' ls' => simp
    | cons l' ls =>
      have hrest : l' :: ls ++ ls' ≠ [] := by
        simp
      rw [List.cons_append, List.intercalate_cons_of_ne_nil hrest, ih (List.cons_ne_nil _ _),
        List.intercalate_cons_cons]
      simp only [List.append_assoc]

@[simp]
theorem unlines_singleton (l : List Char) : unlines [l] = l := by
  simp [unlines]

theorem lines_ne_nil (depth : Nat) (before : List Char) (d : Doc) (after : List Char)
    : lines depth before d after ≠ [] := by
  unfold lines
  split
  . simp
  . simp
  . simp
  . simp
  . split <;> simp
  . split <;> simp

theorem elemLines_ne_nil (depth : Nat) {elems : List Doc} (hne : elems ≠ [])
    : elemLines depth elems ≠ [] := by
  cases elems with
  | nil => contradiction
  | cons d elems => simp [elemLines, lines_ne_nil]

theorem memberLines_ne_nil (depth : Nat) {members : List (PlainString × Doc)} (hne : members ≠ [])
    : memberLines depth members ≠ [] := by
  cases members with
  | nil => contradiction
  | cons member members => simp [memberLines, lines_ne_nil]

theorem ws_newline_indentation (depth : Nat) : Ws (['\n'] ++ indentation depth) := by
  intro c hc
  unfold indentation at hc
  rw [List.mem_append, List.mem_singleton, List.mem_replicate] at hc
  rcases hc with rfl | ⟨_, rfl⟩
  . rfl
  . rfl

theorem str_quoted (s : PlainString) : Str (quoted s) (JsString.ofChars s.val) := by
  apply str_of_unescaped
  simpa using s.property

theorem unlines_brackets {depth : Nat} {o c : Char} {before after inner : List Char}
    {ls : List (List Char)} (hne : ls ≠ []) (hls : unlines ls = indentation (depth + 1) ++ inner)
    : unlines ((indentation depth ++ before ++ [o]) :: ls ++ [indentation depth ++ [c] ++ after])
        =
      indentation depth ++ before
        ++ ((o :: (['\n'] ++ indentation (depth + 1))) ++ inner
          ++ ((['\n'] ++ indentation depth) ++ [c])) ++ after := by
  rw [unlines_append (by simp) (by simp), ← List.singleton_append, unlines_append (by simp) hne,
    unlines_singleton, unlines_singleton, hls]
  simp only [List.append_assoc, List.cons_append, List.nil_append]

mutual

theorem derives_lines (depth : Nat) (before : List Char) (d : Doc) (after : List Char)
    : ∃ body, Derives (.value d.toJson) body
        ∧ unlines (lines depth before d after) = indentation depth ++ before ++ body ++ after := by
  match d with
  | .bool true => exact ⟨_, Derives.true, unlines_singleton _⟩
  | .bool false => exact ⟨_, Derives.false, unlines_singleton _⟩
  | .num lexeme => exact ⟨_, Derives.num lexeme.property, unlines_singleton _⟩
  | .str s => exact ⟨_, Derives.str (str_quoted s), unlines_singleton _⟩
  | .arr [] =>
    have hempty := Derives.emptyArr (structural_self '[') (structural_self ']')
    exact ⟨_, hempty, unlines_singleton _⟩
  | .arr (d :: elems) =>
    rcases derives_elemLines (depth + 1) (d :: elems) (List.cons_ne_nil _ _) with
      ⟨inner, hinner, hunlines⟩
    have hne := elemLines_ne_nil (depth + 1) (List.cons_ne_nil d elems)
    have hopen := structural_cons '[' (ws_newline_indentation (depth + 1))
    have hclose : Structural ']' (['\n'] ++ indentation depth ++ [']']) :=
      ⟨_, [], ws_newline_indentation depth, Ws.nil, rfl⟩
    exact ⟨_, Derives.arr hopen hinner hclose, unlines_brackets hne hunlines⟩
  | .obj [] =>
    have hempty := Derives.emptyObj (structural_self '{') (structural_self '}')
    exact ⟨_, hempty, unlines_singleton _⟩
  | .obj (member :: members) =>
    rcases derives_memberLines (depth + 1) (member :: members) (List.cons_ne_nil _ _) with
      ⟨inner, hinner, hunlines⟩
    have hne := memberLines_ne_nil (depth + 1) (List.cons_ne_nil member members)
    have hopen := structural_cons '{' (ws_newline_indentation (depth + 1))
    have hclose : Structural '}' (['\n'] ++ indentation depth ++ ['}']) :=
      ⟨_, [], ws_newline_indentation depth, Ws.nil, rfl⟩
    exact ⟨_, Derives.obj hopen hinner hclose, unlines_brackets hne hunlines⟩

theorem derives_elemLines (depth : Nat) (elems : List Doc) (hne : elems ≠ [])
    : ∃ inner, Derives (.elements (elemsToJson elems)) inner
        ∧ unlines (elemLines depth elems) = indentation depth ++ inner := by
  match elems with
  | [] => contradiction
  | [d] =>
    rcases derives_lines depth [] d [] with ⟨body, hbody, hunlines⟩
    refine ⟨body, Derives.lastElement hbody, ?_⟩
    simpa [elemLines, comma] using hunlines
  | d :: d' :: elems =>
    rcases derives_lines depth [] d [','] with ⟨body, hbody, hunlines⟩
    rcases derives_elemLines depth (d' :: elems) (List.cons_ne_nil _ _) with ⟨rest, hrest, hunlines'⟩
    have hcomma := structural_cons ',' (ws_newline_indentation depth)
    refine ⟨_, Derives.consElement hbody hcomma hrest, ?_⟩
    have hlines : elemLines depth (d :: d' :: elems)
        = lines depth [] d [','] ++ elemLines depth (d' :: elems) := rfl
    rw [hlines, unlines_append (lines_ne_nil _ _ _ _) (elemLines_ne_nil _ (List.cons_ne_nil _ _)),
      hunlines, hunlines']
    simp

theorem derives_memberLines (depth : Nat) (members : List (PlainString × Doc)) (hne : members ≠ [])
    : ∃ inner, Derives (.members (membersToJson members)) inner
        ∧ unlines (memberLines depth members) = indentation depth ++ inner := by
  match members with
  | [] => contradiction
  | [(k, d)] =>
    rcases derives_lines depth (quoted k ++ [':', ' ']) d [] with ⟨body, hbody, hunlines⟩
    have hcolon : Structural ':' [':', ' '] := ⟨[], [' '], Ws.nil, by simp [Ws, isWs], rfl⟩
    refine ⟨_, Derives.lastMember (str_quoted k) hcolon hbody, ?_⟩
    simpa [memberLines, comma] using hunlines
  | (k, d) :: member :: members =>
    rcases derives_lines depth (quoted k ++ [':', ' ']) d [','] with ⟨body, hbody, hunlines⟩
    rcases derives_memberLines depth (member :: members) (List.cons_ne_nil _ _) with
      ⟨rest, hrest, hunlines'⟩
    have hcolon : Structural ':' [':', ' '] := ⟨[], [' '], Ws.nil, by simp [Ws, isWs], rfl⟩
    have hcomma := structural_cons ',' (ws_newline_indentation depth)
    refine ⟨_, Derives.consMember (str_quoted k) hcolon hbody hcomma hrest, ?_⟩
    have hlines : memberLines depth ((k, d) :: member :: members)
        = lines depth (quoted k ++ [':', ' ']) d [','] ++ memberLines depth (member :: members) := rfl
    rw [hlines, unlines_append (lines_ne_nil _ _ _ _) (memberLines_ne_nil _ (List.cons_ne_nil _ _)),
      hunlines, hunlines']
    simp

end

theorem text_lines (d : Doc) : Text (unlines (lines 0 [] d [])) d.toJson := by
  rcases derives_lines 0 [] d [] with ⟨body, hbody, hunlines⟩
  refine ⟨[], body, [], Ws.nil, hbody, Ws.nil, ?_⟩
  rw [hunlines]
  simp [indentation]

end Doc

end Json
