import Mathlib.Data.List.DropRight
import Mathlib.Data.List.TakeDrop
import Mathlib.Data.List.TakeWhile

/-!
This module contains the line reader of the Java class library.
-/

-- The read behind the last character throws an `IOException` if `fails` is set.
structure BufferedReader where
  chars : List Char
  fails : Bool := false
  deriving DecidableEq, Repr

namespace BufferedReader

def isTerminator (c : Char) : Bool :=
  c == '\n' || c == '\r'

def stripTerminators (s : List Char) : List Char :=
  s.filter (fun c => !isTerminator c)

inductive Line where
  | line (content : List Char) (rest : BufferedReader)
  -- The result `null`.
  | eof
  | ioException
  deriving DecidableEq, Repr

def dropTerminator (c : Char) (rest : List Char) : List Char :=
  if c == '\r' then
    match rest with
    -- A line feed right behind a carriage return belongs to it.
    | '\n' :: rest => rest
    | rest => rest
  else
    rest

def readLine (r : BufferedReader) : Line :=
  match r.chars.span (fun c => !isTerminator c) with
  | (content, c :: rest) => .line content { r with chars := dropTerminator c rest }
  | (content, []) =>
    if r.fails then
      .ioException
    else if content.isEmpty then
      .eof
    else
      .line content { r with chars := [] }

example : readLine { chars := ['a', '\r', '\n', 'b'] } = .line ['a'] { chars := ['b'] } := by
  decide

@[simp]
theorem stripTerminators_nil : stripTerminators [] = [] := by
  rfl

@[simp]
theorem stripTerminators_append (s t : List Char)
    : stripTerminators (s ++ t) = stripTerminators s ++ stripTerminators t := by
  simp [stripTerminators]

theorem stripTerminators_eq_self {s : List Char} (h : ∀ c ∈ s, isTerminator c = false)
    : stripTerminators s = s := by
  unfold stripTerminators
  rw [List.filter_eq_self]
  intro c hc
  simp [h c hc]

theorem isTerminator_eq_false_of_mem_strip {s : List Char} {c : Char}
    (h : c ∈ stripTerminators s)
    : isTerminator c = false := by
  unfold stripTerminators at h
  rw [List.mem_filter] at h
  simpa using h.right

theorem stripTerminators_dropTerminator (c : Char) (rest : List Char) (h : isTerminator c = true)
    : stripTerminators (dropTerminator c rest) = stripTerminators (c :: rest) := by
  have hcons : stripTerminators (c :: rest) = stripTerminators rest := by
    simp [stripTerminators, h]
  rw [hcons]
  unfold dropTerminator
  split
  . split
    . simp [stripTerminators, isTerminator]
    . rfl
  . rfl

theorem length_dropTerminator_le (c : Char) (rest : List Char)
    : (dropTerminator c rest).length ≤ rest.length := by
  unfold dropTerminator
  split
  . split
    . simp
    . simp
  . simp

theorem readLine_cases (r : BufferedReader)
    : ((∀ c ∈ r.chars, isTerminator c = false)
        ∧ r.readLine
            =
          if r.fails then
            .ioException
          else if r.chars.isEmpty then
            .eof
          else
            .line r.chars { r with chars := [] })
        ∨
      ∃ content c rest,
        r.chars = content ++ c :: rest
          ∧
        (∀ c ∈ content, isTerminator c = false)
          ∧
        isTerminator c = true
          ∧
        r.readLine = .line content { r with chars := dropTerminator c rest } := by
  unfold readLine
  rw [List.span_eq_takeWhile_dropWhile]
  have happ := List.takeWhile_append_dropWhile (p := fun c => !isTerminator c) (l := r.chars)
  have hcontent : ∀ c ∈ r.chars.takeWhile (fun c => !isTerminator c), isTerminator c = false := by
    intro c hc
    simpa using List.mem_takeWhile_imp hc
  cases hdrop : r.chars.dropWhile (fun c => !isTerminator c) with
  | nil =>
    rw [hdrop, List.append_nil] at happ
    rw [happ] at hcontent ⊢
    exact Or.inl ⟨hcontent, rfl⟩
  | cons c rest =>
    have hc : isTerminator c = true := by
      have := List.head_dropWhile_not (fun c => !isTerminator c) (l := r.chars) (by simp [hdrop])
      simpa [hdrop] using this
    rw [hdrop] at happ
    exact Or.inr ⟨_, c, rest, happ.symm, hcontent, hc, rfl⟩

def completeLines (s : List Char) : List Char :=
  s.rdropWhile (fun c => !isTerminator c)

theorem completeLines_eq_nil {s : List Char} (h : ∀ c ∈ s, isTerminator c = false)
    : completeLines s = [] := by
  unfold completeLines
  rw [List.rdropWhile_eq_nil_iff]
  intro c hc
  simp [h c hc]

theorem completeLines_append_cons (s : List Char) {c : Char} (hc : isTerminator c = true)
    (t : List Char)
    : completeLines (s ++ c :: t) = s ++ c :: completeLines t := by
  unfold completeLines
  induction t using List.reverseRecOn with
  | nil =>
    rw [List.rdropWhile_concat_neg]
    . rfl
    . simp [hc]
  | append_singleton t d ih =>
    rw [← List.cons_append, ← List.append_assoc, List.rdropWhile_concat, List.rdropWhile_concat, ih]
    split
    . rfl
    . simp

theorem stripTerminators_completeLines_dropTerminator (c : Char) (rest : List Char)
    : stripTerminators (completeLines (dropTerminator c rest))
        =
      stripTerminators (completeLines rest) := by
  unfold dropTerminator
  split
  . split
    . next rest =>
      have hrest := completeLines_append_cons [] (c := '\n') rfl rest
      rw [List.nil_append, List.nil_append] at hrest
      rw [hrest]
      rfl
    . rfl
  . rfl

-- A line that the failure cuts off is lost as a whole.
def readable (r : BufferedReader) : List Char :=
  if r.fails then completeLines r.chars else r.chars

theorem stripTerminators_readable (r : BufferedReader) {content rest : List Char} {c : Char}
    (hchars : r.chars = content ++ c :: rest) (hcontent : ∀ c ∈ content, isTerminator c = false)
    (hc : isTerminator c = true)
    : stripTerminators r.readable
        =
      content ++ stripTerminators (readable { r with chars := dropTerminator c rest }) := by
  have hskip (s : List Char) : stripTerminators (c :: s) = stripTerminators s := by
    simp [stripTerminators, hc]
  unfold readable
  dsimp only
  rw [hchars]
  split
  . rw [completeLines_append_cons content hc, stripTerminators_append,
      stripTerminators_eq_self hcontent, hskip, stripTerminators_completeLines_dropTerminator]
  . rw [stripTerminators_append, stripTerminators_eq_self hcontent,
      stripTerminators_dropTerminator c rest hc]

theorem readLine_spec (r : BufferedReader)
    : (stripTerminators r.readable = [] ∧ (r.readLine = .eof ∨ r.readLine = .ioException))
        ∨
      ∃ content rest,
        r.readLine = .line content rest
          ∧
        rest.chars.length < r.chars.length
          ∧
        stripTerminators r.readable = content ++ stripTerminators rest.readable := by
  cases readLine_cases r with
  | inl hlast =>
    rcases hlast with ⟨hcontent, hline⟩
    split at hline
    . next hfails =>
      left
      rw [readable, if_pos hfails, completeLines_eq_nil hcontent]
      exact ⟨rfl, Or.inr hline⟩
    . next hfails =>
      have hreadable : r.readable = r.chars := if_neg hfails
      split at hline
      . next hempty =>
        left
        rw [hreadable, List.isEmpty_iff.mp hempty]
        exact ⟨rfl, Or.inl hline⟩
      . next hempty =>
        right
        rw [List.isEmpty_iff] at hempty
        refine ⟨_, _, hline, List.length_pos_of_ne_nil hempty, ?_⟩
        rw [hreadable, readable, if_neg hfails, stripTerminators_eq_self hcontent,
          stripTerminators_nil, List.append_nil]
  | inr hnext =>
    rcases hnext with ⟨content, c, rest, hchars, hcontent, hc, hline⟩
    right
    refine ⟨_, _, hline, ?_, stripTerminators_readable r hchars hcontent hc⟩
    have := length_dropTerminator_le c rest
    dsimp
    rw [hchars, List.length_append, List.length_cons]
    omega

end BufferedReader
