import SupportFile.ApiTest.Lemmas.Tee

/-!
This module contains what becomes of the calls of a handler that flush. They end at the copier, which
does not pass them on, so that they only succeed where there is nothing to do or where the container
sends its buffer of its own accord.
-/

/-- The container takes the next `n` bytes and sends its buffer with the last of them. -/
structure Env.SendsAll (env : Env) (calls n : Nat) : Prop where
  takes : ∀ i < n, env.fails (calls + i) = false
  sends : ∃ last, last + 1 = n ∧ env.sends (calls + last) = true

theorem Env.sendsAll_one_iff (env : Env) (calls : Nat)
    : env.SendsAll calls 1 ↔ env.fails calls = false ∧ env.sends calls = true := by
  constructor
  . rintro ⟨htakes, last, hlast, hsends⟩
    rw [show last = 0 by omega] at hsends
    exact ⟨htakes 0 (by omega), hsends⟩
  . rintro ⟨htakes, hsends⟩
    refine ⟨?_, 0, rfl, hsends⟩
    intro i hi
    rw [show i = 0 by omega]
    exact htakes

theorem Env.sendsAll_succ_iff (env : Env) (calls : Nat) {n : Nat} (hn : 0 < n)
    : env.SendsAll calls (n + 1) ↔ env.fails calls = false ∧ env.SendsAll (calls + 1) n := by
  have hnext (i : Nat) : calls + 1 + i = calls + (i + 1) := by
    omega
  constructor
  . rintro ⟨htakes, last, hlast, hsends⟩
    refine ⟨htakes 0 (by omega), ?_, last - 1, by omega, ?_⟩
    . intro i hi
      rw [hnext]
      exact htakes (i + 1) (by omega)
    . rw [hnext, Nat.sub_add_cancel (by omega)]
      exact hsends
  . rintro ⟨hfirst, htakes, last, hlast, hsends⟩
    refine ⟨?_, last + 1, by omega, ?_⟩
    . intro i hi
      cases i with
      | zero => exact hfirst
      | succ i =>
        rw [← hnext]
        exact htakes i (by omega)
    . rw [← hnext]
      exact hsends

theorem ServletOutputStreamCopier.writeAll_sends_iff (env : Env) (this : Nat) {bs : List UInt8}
    (hne : bs ≠ []) (h : Heap)
    : ((writeAll env this bs h).1.response.sent
          = h.response.sent ++ (h.response.buffered ++ bs)
          ↔ env.SendsAll h.response.calls bs.length)
        ∧
      (env.SendsAll h.response.calls bs.length →
        (writeAll env this bs h).1.response.committed = true) := by
  induction bs generalizing h with
  | nil => contradiction
  | cons b bs ih =>
    rw [writeAll, write, HttpServletResponse.write]
    cases hfails : env.fails h.response.calls with
    | true =>
      have hstuck : ¬env.SendsAll h.response.calls (bs.length + 1) := by
        intro hall
        have hfirst := hall.takes 0 (by simp)
        rw [Nat.add_zero, hfails] at hfirst
        contradiction
      simp [hstuck]
    | false =>
      cases bs with
      | nil =>
        rw [List.length_singleton, Env.sendsAll_one_iff, hfails]
        cases hsends : env.sends h.response.calls with
        | true =>
          simp [writeAll, HttpServletResponse.commit, HttpServletResponse.accept]
        | false => simp [writeAll, HttpServletResponse.accept]
      | cons b' bs =>
        rw [List.length_cons, Env.sendsAll_succ_iff _ _ (by simp), hfails]
        cases hsends : env.sends h.response.calls with
        | true =>
          have hrest := ih (by simp)
            { response := (h.response.accept b).commit
              copiers := h.copiers.modify this (fun copy => copy ++ [b]) }
          simpa [HttpServletResponse.commit, HttpServletResponse.accept] using hrest
        | false =>
          have hrest := ih (by simp)
            { response := h.response.accept b
              copiers := h.copiers.modify this (fun copy => copy ++ [b]) }
          simpa [HttpServletResponse.accept] using hrest

theorem PrintWriter.flush_heap (env : Env) (w : PrintWriter) (h : Heap)
    : (flush env w h).2 = (ServletOutputStreamCopier.writeAll env w.out w.encoder.bb h).1 := by
  unfold flush StreamEncoder.flush StreamEncoder.writeBytes
  cases hbb : w.encoder.bb with
  | nil => rfl
  | cons b bs =>
    simp only [List.isEmpty_cons, Bool.false_eq_true, if_false, ServletOutputStreamCopier.stream,
      ServletOutputStreamCopier.flush]
    cases hwrite : ServletOutputStreamCopier.writeAll env w.out (b :: bs) h with
    | mk h' ok =>
      cases ok with
      | true => rfl
      | false => rfl

namespace HttpServletResponseCopier

/-- The bytes that have been written through the wrapper and that no flush has sent so far. -/
def waiting (c : HttpServletResponseCopier) : List UInt8 :=
  c.heap.response.buffered
    ++
  match c.writer with
  | some w => w.encoder.bb
  | none => []

def flushes (c : HttpServletResponseCopier) (call : Call) : Bool :=
  match call with
  | .streamFlush k => k < c.streams.length
  | .writerFlush => c.writer.isSome
  | .flushBuffer => true
  | _ => false

structure GoesThrough (env : Env) (c : HttpServletResponseCopier) (call : Call) : Prop where
  flushed : (step env c call).1.heap.response.sent = c.heap.response.sent ++ c.waiting
  committed : call = .flushBuffer → (step env c call).1.heap.response.committed = true

structure NothingToDo (c : HttpServletResponseCopier) (call : Call) : Prop where
  waiting : c.waiting = []
  committed : call = .flushBuffer → c.heap.response.committed = true

/-- The container sends what the writer drains, although the call has not told it to. -/
structure ContainerSends (env : Env) (c : HttpServletResponseCopier) (call : Call) : Prop where
  drains : call = .writerFlush ∨ call = .flushBuffer
  sends : ∃ w, c.writer = some w ∧ env.SendsAll c.heap.response.calls w.encoder.bb.length

def EveryFlush (P : HttpServletResponseCopier → Call → Prop) (env : Env)
    (c : HttpServletResponseCopier) (calls : List Call) : Prop :=
  match calls with
  | [] => True
  | call :: calls => (flushes c call = true → P c call) ∧ EveryFlush P env (step env c call).1 calls

theorem everyFlush_congr {P Q : HttpServletResponseCopier → Call → Prop}
    (h : ∀ c call, flushes c call = true → (P c call ↔ Q c call)) (env : Env) (calls : List Call)
    (c : HttpServletResponseCopier)
    : EveryFlush P env c calls ↔ EveryFlush Q env c calls := by
  induction calls generalizing c with
  | nil => rfl
  | cons call calls ih =>
    rw [EveryFlush, EveryFlush, ih]
    apply and_congr_left
    intro _
    apply forall_congr'
    apply h c call

def SendsNothing (c c' : HttpServletResponseCopier) : Prop :=
  c'.heap.response.sent = c.heap.response.sent
    ∧ c'.heap.response.committed = c.heap.response.committed

theorem goesThrough_iff_of_sendsNothing {env : Env} {c : HttpServletResponseCopier} {call : Call}
    (h : SendsNothing c (step env c call).1)
    : GoesThrough env c call ↔ NothingToDo c call := by
  rcases h with ⟨hsent, hcommitted⟩
  constructor
  . intro hthrough
    have hflushed := hthrough.flushed
    rw [hsent, List.self_eq_append_right] at hflushed
    refine ⟨hflushed, ?_⟩
    intro hcall
    rw [← hcommitted]
    apply hthrough.committed hcall
  . intro hnothing
    constructor
    . rw [hsent, hnothing.waiting, List.append_nil]
    . intro hcall
      rw [hcommitted]
      apply hnothing.committed hcall

theorem step_drains {env : Env} {c : HttpServletResponseCopier} {call : Call}
    (hcall : call = .writerFlush ∨ call = .flushBuffer) {w : PrintWriter} (hw : c.writer = some w)
    : (step env c call).1.heap
        =
      (ServletOutputStreamCopier.writeAll env w.out w.encoder.bb c.heap).1 := by
  rw [← PrintWriter.flush_heap]
  rcases hcall with rfl | rfl
  . simp [step, onWriter, hw]
  . simp [step, flushBuffer, onWriter, hw]

theorem goesThrough_iff_of_drains {env : Env} {c : HttpServletResponseCopier} {call : Call}
    (hcall : call = .writerFlush ∨ call = .flushBuffer) {w : PrintWriter} (hw : c.writer = some w)
    (hbb : w.encoder.bb ≠ [])
    : GoesThrough env c call ↔ env.SendsAll c.heap.response.calls w.encoder.bb.length := by
  have hheap := @step_drains env _ _ hcall _ hw
  rcases ServletOutputStreamCopier.writeAll_sends_iff env w.out hbb c.heap with ⟨hsent, hcommitted⟩
  have hwaiting : c.waiting = c.heap.response.buffered ++ w.encoder.bb := by
    simp [waiting, hw]
  rw [← hheap] at hsent hcommitted
  rw [← hsent, ← hwaiting]
  constructor
  . intro hthrough
    exact hthrough.flushed
  . intro hflushed
    refine ⟨hflushed, ?_⟩
    intro _
    rw [hwaiting] at hflushed
    exact hcommitted (hsent.mp hflushed)

theorem goesThrough_iff_of_writer {env : Env} {c : HttpServletResponseCopier} {call : Call}
    (hcall : call = .writerFlush ∨ call = .flushBuffer) {w : PrintWriter} (hw : c.writer = some w)
    : GoesThrough env c call ↔ NothingToDo c call ∨ ContainerSends env c call := by
  have hsends : ContainerSends env c call
      ↔ env.SendsAll c.heap.response.calls w.encoder.bb.length := by
    constructor
    . rintro ⟨_, w', hw', hall⟩
      rw [hw, Option.some.injEq] at hw'
      rw [hw']
      exact hall
    . intro hall
      exact ⟨hcall, w, hw, hall⟩
  by_cases hbb : w.encoder.bb = []
  . -- The encoder is empty, so that the flush ends right away.
    have hnothing : SendsNothing c (step env c call).1 := by
      unfold SendsNothing
      rw [step_drains hcall hw, hbb]
      exact ⟨rfl, rfl⟩
    have hnone : ¬ContainerSends env c call := by
      rw [hsends, hbb]
      rintro ⟨_, last, hlast, _⟩
      contradiction
    rw [goesThrough_iff_of_sendsNothing hnothing, or_iff_left hnone]
  . have hwait : ¬NothingToDo c call := by
      intro hnothing
      have hwaiting := hnothing.waiting
      simp [waiting, hw, hbb] at hwaiting
    rw [goesThrough_iff_of_drains hcall hw hbb, or_iff_right hwait, hsends]

theorem goesThrough_iff (env : Env) {c : HttpServletResponseCopier} {call : Call}
    (h : flushes c call = true)
    : GoesThrough env c call ↔ NothingToDo c call ∨ ContainerSends env c call := by
  have hquiet (hsame : SendsNothing c (step env c call).1) (hnone : ¬ContainerSends env c call)
      : GoesThrough env c call ↔ NothingToDo c call ∨ ContainerSends env c call := by
    rw [goesThrough_iff_of_sendsNothing hsame, or_iff_left hnone]
  cases call with
  | streamFlush k =>
    apply hquiet
    . rw [step, flushStream_eq]
      exact ⟨rfl, rfl⟩
    . rintro ⟨hdrains | hdrains, _⟩
      . contradiction
      . contradiction
  | writerFlush =>
    rcases Option.isSome_iff_exists.mp h with ⟨w, hw⟩
    exact goesThrough_iff_of_writer (.inl rfl) hw
  | flushBuffer =>
    cases hw : c.writer with
    | some w => exact goesThrough_iff_of_writer (.inr rfl) hw
    | none =>
      apply hquiet
      . rw [step, flushBuffer_of_none env hw]
        exact ⟨rfl, rfl⟩
      . rintro ⟨_, w, hw', _⟩
        rw [hw] at hw'
        contradiction
  | _ => contradiction

theorem run_goesThrough_iff (env : Env) (calls : List Call)
    : EveryFlush (GoesThrough env) env (new {}) calls
        ↔
      EveryFlush (fun c call => NothingToDo c call ∨ ContainerSends env c call) env (new {}) calls := by
  apply everyFlush_congr
  intro c call h
  apply goesThrough_iff env h

def writeAndFlush : List Call :=
  [.getOutputStream, .streamWrite 0 0x61, .streamFlush 0]

theorem not_run_goesThrough_writeAndFlush
    : let env : Env := { fails := fun _ => false, charset := fun _ => none, lineSeparator := [] }
      ¬EveryFlush (GoesThrough env) env (new {}) writeAndFlush := by
  intro env h
  have hthrough := h.right.right.left rfl
  have hflushed : ([] : List UInt8) = [0x61] := hthrough.flushed
  contradiction

end HttpServletResponseCopier
