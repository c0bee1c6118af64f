import SupportFile.ApiTest.Lemmas.Heap

/-!
This module contains the tee invariant of the response wrapper: in every state that a handler can
reach, the copy is what the output stream of the response has accepted.
-/

namespace HttpServletResponseCopier

def setResponse (c : HttpServletResponseCopier) (response : HttpServletResponse)
    : HttpServletResponseCopier :=
  { c with heap := { c.heap with response := response } }

def setCopier (c : HttpServletResponseCopier) (response : HttpServletResponse)
    : HttpServletResponseCopier :=
  { c with
      heap := (ServletOutputStreamCopier.new { c.heap with response := response }).1
      copier := some c.heap.copiers.length }

def discards (call : Call) : Bool :=
  match call with
  | .reset => true
  | .resetBuffer => true
  | _ => false

def Quiet (r r' : HttpServletResponse) : Prop :=
  r'.accepted = r.accepted ∧ r'.body = r.body

theorem flushBuffer_of_none (env : Env) {c : HttpServletResponseCopier} (h : c.writer = none)
    : (flushBuffer env c).1 = c := by
  unfold flushBuffer
  rw [if_neg (by simp [h])]
  split <;> rfl

theorem flushStream_eq (k : Nat) (c : HttpServletResponseCopier) : (flushStream k c).1 = c := by
  unfold flushStream
  split <;> rfl

inductive Effect (c : HttpServletResponseCopier) : HttpServletResponseCopier → Prop where
  | none : Effect c c
  | response (r : HttpServletResponse) : Quiet c.heap.response r → Effect c (c.setResponse r)
  | newStream (r : HttpServletResponse) : Quiet c.heap.response r → c.writer = none →
      c.outputStream = false →
      Effect c { c.setCopier r with
        outputStream := true, streams := c.streams ++ [c.heap.copiers.length] }
  | sameStream : c.writer = none → c.outputStream = true →
      Effect c { c with streams := c.streams ++ c.copier.toList }
  | badEncoding (r : HttpServletResponse) : Quiet c.heap.response r → c.writer = none →
      c.outputStream = false → Effect c (c.setCopier r)
  | newWriter (r : HttpServletResponse) (w : PrintWriter) : Quiet c.heap.response r →
      c.writer = none → c.outputStream = false → w.out = c.heap.copiers.length →
      Effect c { c.setCopier r with writer := some w, writers := c.writers + 1 }
  | sameWriter : c.writer.isSome = true → c.outputStream = false →
      Effect c { c with writers := c.writers + 1 }
  | pass (this : Nat) (h : Heap) : this ∈ c.streams → Tee this c.heap h →
      Effect c { c with heap := h }
  | print (w w' : PrintWriter) (h : Heap) : c.writer = some w → w.Keeps c.heap (w', h) →
      Effect c { c with writer := some w', heap := h }

theorem quiet_of_calls {r r' : HttpServletResponse} {n : Nat} (h : { r with calls := n } = r')
    : Quiet r r' := by
  rw [← h]
  exact ⟨rfl, rfl⟩

theorem getOutputStream_effect (env : Env) (c : HttpServletResponseCopier)
    : Effect c (getOutputStream env c).1 := by
  unfold getOutputStream
  split
  . exact .none
  . next hwriter =>
    have hwriter : c.writer = .none := by simpa using hwriter
    split
    . next hstream => exact .sameStream hwriter hstream
    . next hstream =>
      have hstream : c.outputStream = false := by simpa using hstream
      split
      . next response heq =>
        simp only [HttpServletResponse.getOutputStream, Prod.mk.injEq] at heq
        exact .response response (quiet_of_calls heq.left)
      . next response heq =>
        simp only [HttpServletResponse.getOutputStream, Prod.mk.injEq] at heq
        exact .newStream response (quiet_of_calls heq.left) hwriter hstream

theorem getWriter_effect (env : Env) (encoding : String) (c : HttpServletResponseCopier)
    : Effect c (getWriter env encoding c).1 := by
  unfold getWriter
  split
  . exact .none
  . next hstream =>
    have hstream : c.outputStream = false := by simpa using hstream
    split
    . next hwriter => exact .sameWriter hwriter hstream
    . next hwriter =>
      have hwriter : c.writer = .none := by simpa using hwriter
      split
      . next response heq =>
        simp only [HttpServletResponse.getOutputStream, Prod.mk.injEq] at heq
        exact .response response (quiet_of_calls heq.left)
      . next response heq =>
        simp only [HttpServletResponse.getOutputStream, Prod.mk.injEq] at heq
        dsimp
        split
        . exact .badEncoding response (quiet_of_calls heq.left) hwriter hstream
        . exact .newWriter response _ (quiet_of_calls heq.left) hwriter hstream rfl

theorem onStream_effect (env : Env) (k : Nat) (bs : List UInt8) (outcome : Outcome)
    (c : HttpServletResponseCopier)
    : Effect c (onStream env k bs outcome c).1 := by
  unfold onStream
  split
  . exact .none
  . next this hthis =>
    have htee := ServletOutputStreamCopier.writeAll_tee env this bs c.heap
    have hmem := List.mem_of_getElem? hthis
    split
    . next heq =>
      rw [heq] at htee
      exact .pass this _ hmem htee
    . next heq =>
      rw [heq] at htee
      exact .pass this _ hmem htee

theorem onWriter_effect (f : PrintWriter → Heap → PrintWriter × Heap)
    (hf : ∀ w h, PrintWriter.Keeps w h (f w h)) (c : HttpServletResponseCopier)
    : Effect c (onWriter f c).1 := by
  unfold onWriter
  split
  . exact .none
  . next w hw => exact .print w (f w c.heap).1 (f w c.heap).2 hw (hf w c.heap)

theorem flushStream_effect (k : Nat) (c : HttpServletResponseCopier)
    : Effect c (flushStream k c).1 := by
  unfold flushStream
  split
  . exact .none
  . exact .none

theorem flushBuffer_effect (env : Env) (c : HttpServletResponseCopier)
    : Effect c (flushBuffer env c).1 := by
  unfold flushBuffer
  split
  . apply onWriter_effect _ (PrintWriter.flush_keeps env) c
  . split
    . exact .none
    . exact .none

theorem commit_quiet (r : HttpServletResponse) : Quiet r r.commit := by
  exact ⟨rfl, by simp [HttpServletResponse.commit, HttpServletResponse.body]⟩

theorem step_effect (env : Env) (c : HttpServletResponseCopier) {call : Call}
    (h : discards call = false)
    : Effect c (step env c call).1 := by
  cases call with
  | getOutputStream => apply getOutputStream_effect env c
  | getWriter encoding => apply getWriter_effect env encoding c
  | streamWrite k b => apply onStream_effect env k _ _ c
  | streamWriteAll k bs => apply onStream_effect env k _ _ c
  | streamWriteRange k bs off len =>
    dsimp only [step]
    split
    . apply onStream_effect env k _ _ c
    . apply onStream_effect env k _ _ c
  | streamPrint k units => apply onStream_effect env k _ _ c
  | streamFlush k => apply flushStream_effect k c
  | writerWrite units => apply onWriter_effect _ (fun w => w.write_keeps env units) c
  | writerPrintln units => apply onWriter_effect _ (fun w => w.println_keeps env units) c
  | writerFormat units => apply onWriter_effect _ (fun w => w.format_keeps env units) c
  | writerFlush => apply onWriter_effect _ (PrintWriter.flush_keeps env) c
  | flushBuffer => apply flushBuffer_effect env c
  | reset => contradiction
  | resetBuffer => contradiction
  | commit => exact .response _ (commit_quiet _)

theorem step_of_discards (env : Env) (c : HttpServletResponseCopier) {call : Call}
    (h : discards call = true)
    : (step env c call).1 = c.setResponse c.heap.response.discard.1 := by
  cases call with
  | reset => rfl
  | resetBuffer => rfl
  | _ => contradiction

theorem discard_accepted (r : HttpServletResponse) : r.discard.1.accepted = r.accepted := by
  unfold HttpServletResponse.discard
  split <;> rfl

/--
The invariant of the three linked fields. Before a stream or a writer has been obtained nothing can
have been accepted, which is why a copier may be created anew after a failure.
-/
structure Inv (c : HttpServletResponseCopier) : Prop where
  copy : c.getCopy = c.heap.response.accepted
  valid : ∀ this, c.copier = some this → this < c.heap.copiers.length
  fresh : c.writer = none → c.outputStream = false → c.heap.response.accepted = []
  exclusive : c.outputStream = true → c.writer = none
  stream : ∀ this ∈ c.streams, c.outputStream = true ∧ c.copier = some this
  writer : ∀ w, c.writer = some w → c.copier = some w.out
  handed : 0 < c.writers → c.writer.isSome = true

theorem inv_new (response : HttpServletResponse) (h : response.accepted = [])
    : Inv (new response) := by
  constructor
  . simp [new, getCopy, h]
  . simp [new]
  . intros
    exact h
  . simp [new]
  . simp [new]
  . simp [new]
  . simp [new]

theorem Inv.getCopy_eq {c : HttpServletResponseCopier} (h : Inv c) {this : Nat}
    (hthis : c.copier = some this)
    : ServletOutputStreamCopier.getCopy this c.heap = c.heap.response.accepted := by
  have := h.copy
  simpa [getCopy, hthis] using this

theorem getCopy_setCopier (c : HttpServletResponseCopier) (r : HttpServletResponse)
    : (c.setCopier r).getCopy = [] := by
  simp [setCopier, getCopy, ServletOutputStreamCopier.getCopy, ServletOutputStreamCopier.new]

theorem setCopier_valid (c : HttpServletResponseCopier) (r : HttpServletResponse)
    : ∀ this, (c.setCopier r).copier = some this →
        this < (c.setCopier r).heap.copiers.length := by
  intro this hthis
  simp only [setCopier, Option.some.injEq] at hthis
  simp [setCopier, ServletOutputStreamCopier.new, ← hthis]

theorem Inv.accepted_of_quiet {c : HttpServletResponseCopier} (h : Inv c) {r : HttpServletResponse}
    (hr : Quiet c.heap.response r) (hw : c.writer = none) (hs : c.outputStream = false)
    : r.accepted = [] := by
  rw [hr.left, h.fresh hw hs]

theorem Inv.streams_eq_nil {c : HttpServletResponseCopier} (h : Inv c)
    (hs : c.outputStream = false)
    : c.streams = [] := by
  rw [List.eq_nil_iff_forall_not_mem]
  intro this hthis
  have := (h.stream this hthis).left
  rw [hs] at this
  contradiction

theorem Inv.copy_of_tee {c : HttpServletResponseCopier} (h : Inv c) {this : Nat} {heap : Heap}
    (hthis : c.copier = some this) (ht : Tee this c.heap heap)
    : HttpServletResponseCopier.getCopy { c with heap := heap } = heap.response.accepted := by
  rcases ht with ⟨bs, hp⟩
  rw [getCopy]
  dsimp
  rw [hthis]
  dsimp
  rw [hp.copy (h.valid this hthis), hp.accepted, h.getCopy_eq hthis]

theorem Inv.valid_of_tee {c : HttpServletResponseCopier} (h : Inv c) {this : Nat} {heap : Heap}
    (ht : Tee this c.heap heap)
    : ∀ this, c.copier = some this → this < heap.copiers.length := by
  rcases ht with ⟨bs, hp⟩
  rw [hp.length]
  apply h.valid

theorem Inv.setResponse {c : HttpServletResponseCopier} (h : Inv c) {r : HttpServletResponse}
    (hr : r.accepted = c.heap.response.accepted)
    : Inv (c.setResponse r) := by
  have hcopy : (c.setResponse r).getCopy = c.getCopy := by
    rfl
  constructor
  . rw [hcopy, h.copy]
    apply hr.symm
  . apply h.valid
  . intro hw hs
    rw [← h.fresh hw hs]
    exact hr
  . apply h.exclusive
  . apply h.stream
  . apply h.writer
  . apply h.handed

theorem Inv.effect {c c' : HttpServletResponseCopier} (h : Inv c) (he : Effect c c')
    : Inv c' := by
  cases he with
  | none => exact h
  | response r hr => exact h.setResponse hr.left
  | newStream r hr hw hs =>
    constructor
    . exact (getCopy_setCopier c r).trans (h.accepted_of_quiet hr hw hs).symm
    . apply setCopier_valid c r
    . simp
    . intro _
      exact hw
    . simp [h.streams_eq_nil hs, setCopier]
    . simp [setCopier, hw]
    . apply h.handed
  | sameStream hw hs =>
    constructor
    . apply h.copy
    . apply h.valid
    . apply h.fresh
    . apply h.exclusive
    . intro this hthis
      simp only [List.mem_append, Option.mem_toList] at hthis
      cases hthis with
      | inl hmem => exact h.stream this hmem
      | inr heq => exact ⟨hs, heq⟩
    . apply h.writer
    . apply h.handed
  | badEncoding r hr hw hs =>
    constructor
    . exact (getCopy_setCopier c r).trans (h.accepted_of_quiet hr hw hs).symm
    . apply setCopier_valid c r
    . intros
      apply h.accepted_of_quiet hr hw hs
    . apply h.exclusive
    . simp [h.streams_eq_nil hs, setCopier]
    . simp [setCopier, hw]
    . apply h.handed
  | newWriter r w hr hw hs hout =>
    constructor
    . exact (getCopy_setCopier c r).trans (h.accepted_of_quiet hr hw hs).symm
    . apply setCopier_valid c r
    . simp
    . simp [setCopier, hs]
    . simp [h.streams_eq_nil hs, setCopier]
    . intro w' hw'
      simp only [Option.some.injEq] at hw'
      rw [← hw', hout]
      rfl
    . simp
  | sameWriter hw hs =>
    constructor
    . apply h.copy
    . apply h.valid
    . apply h.fresh
    . apply h.exclusive
    . apply h.stream
    . apply h.writer
    . intro _
      exact hw
  | pass this heap hthis ht =>
    -- Only the stream of the current copier can have been handed out.
    rcases h.stream this hthis with ⟨hs, hcopier⟩
    constructor
    . apply h.copy_of_tee hcopier ht
    . apply h.valid_of_tee ht
    . intro _ hs'
      rw [hs] at hs'
      contradiction
    . apply h.exclusive
    . apply h.stream
    . apply h.writer
    . apply h.handed
  | print w w' heap hw hk =>
    have hcopier := h.writer w hw
    constructor
    . apply h.copy_of_tee hcopier hk.tee
    . apply h.valid_of_tee hk.tee
    . simp
    . intro hs
      rw [h.exclusive hs] at hw
      contradiction
    . apply h.stream
    . intro w'' hw''
      simp only [Option.some.injEq] at hw''
      rw [← hw'']
      dsimp
      rw [hcopier, hk.out]
    . simp

theorem Inv.step {c : HttpServletResponseCopier} (h : Inv c) (env : Env) (call : Call)
    : Inv (step env c call).1 := by
  cases hcall : discards call with
  | false => exact h.effect (step_effect env c hcall)
  | true =>
    rw [step_of_discards env c hcall]
    apply h.setResponse (discard_accepted _)

theorem Inv.run {c : HttpServletResponseCopier} (h : Inv c) (env : Env) (calls : List Call)
    : Inv (run env c calls) := by
  induction calls generalizing c with
  | nil => exact h
  | cons call calls ih => exact ih (h.step env call)

theorem Inv.getWriter_of_stream {c : HttpServletResponseCopier} (h : Inv c)
    (hs : c.streams ≠ []) (env : Env) (encoding : String)
    : getWriter env encoding c = (c, .threw .illegalState) := by
  rcases List.exists_mem_of_ne_nil _ hs with ⟨this, hthis⟩
  simp [getWriter, (h.stream this hthis).left]

theorem Inv.getOutputStream_of_writer {c : HttpServletResponseCopier} (h : Inv c)
    (hw : 0 < c.writers) (env : Env)
    : getOutputStream env c = (c, .threw .illegalState) := by
  simp [getOutputStream, h.handed hw]

theorem run_getCopy_eq_accepted (env : Env) (calls : List Call)
    : let c := run env (new {}) calls
      c.getCopy = c.heap.response.accepted
        ∧
      ¬ (c.streams ≠ [] ∧ 0 < c.writers)
        ∧
      (c.streams ≠ [] → ∀ encoding,
        HttpServletResponseCopier.step env c (.getWriter encoding) = (c, .threw .illegalState))
        ∧
      (0 < c.writers →
        HttpServletResponseCopier.step env c .getOutputStream = (c, .threw .illegalState)) := by
  intro c
  have h : Inv c := (inv_new {} rfl).run env calls
  refine ⟨h.copy, ?_, ?_, ?_⟩
  . rintro ⟨hs, hw⟩
    rcases List.exists_mem_of_ne_nil _ hs with ⟨this, hthis⟩
    have hnone := h.exclusive (h.stream this hthis).left
    have hsome := h.handed hw
    rw [hnone] at hsome
    contradiction
  . intro hs encoding
    apply h.getWriter_of_stream hs env encoding
  . intro hw
    apply h.getOutputStream_of_writer hw env

end HttpServletResponseCopier
