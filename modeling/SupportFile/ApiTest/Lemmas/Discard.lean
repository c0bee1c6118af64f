import SupportFile.ApiTest.Lemmas.Tee
import SupportFile.ApiTest.Impl.GateFilter

/-!
This module compares the copy with the body of the response. They drift apart when the response is
reset, because the wrapper does not notice this call.
-/

namespace HttpServletResponseCopier

theorem Effect.grows {c c' : HttpServletResponseCopier} (h : Effect c c')
    : ∃ bs, c'.heap.response.accepted = c.heap.response.accepted ++ bs
        ∧ c'.heap.response.body = c.heap.response.body ++ bs := by
  have quiet {r : HttpServletResponse} (hr : Quiet c.heap.response r)
      : ∃ bs, r.accepted = c.heap.response.accepted ++ bs
          ∧ r.body = c.heap.response.body ++ bs := by
    refine ⟨[], ?_, ?_⟩
    . rw [hr.left, List.append_nil]
    . rw [hr.right, List.append_nil]
  have tee {this : Nat} {h : Heap} (ht : Tee this c.heap h)
      : ∃ bs, h.response.accepted = c.heap.response.accepted ++ bs
          ∧ h.response.body = c.heap.response.body ++ bs := by
    rcases ht with ⟨bs, hp⟩
    exact ⟨bs, hp.accepted, hp.body⟩
  cases h with
  | none => apply quiet ⟨rfl, rfl⟩
  | response r hr => apply quiet hr
  | newStream r hr _ _ => apply quiet hr
  | sameStream _ _ => apply quiet ⟨rfl, rfl⟩
  | badEncoding r hr _ _ => apply quiet hr
  | newWriter r w hr _ _ _ => apply quiet hr
  | sameWriter _ _ => apply quiet ⟨rfl, rfl⟩
  | pass this h _ ht => apply tee ht
  | print w w' h _ hk => apply tee hk.tee

def DropsNothing (c : HttpServletResponseCopier) (call : Call) : Prop :=
  discards call = true →
    c.heap.response.committed = true ∨ c.heap.response.buffered = []

def RunDropsNothing (env : Env) (c : HttpServletResponseCopier) (calls : List Call) : Prop :=
  match calls with
  | [] => True
  | call :: calls => DropsNothing c call ∧ RunDropsNothing env (step env c call).1 calls

theorem body_step_of_dropsNothing {env : Env} {c : HttpServletResponseCopier} {call : Call}
    (hdrops : DropsNothing c call) (h : c.heap.response.body = c.heap.response.accepted)
    : (step env c call).1.heap.response.body = (step env c call).1.heap.response.accepted := by
  cases hcall : discards call with
  | false =>
    rcases (step_effect env c hcall).grows with ⟨bs, haccepted, hbody⟩
    rw [haccepted, hbody, h]
  | true =>
    rw [step_of_discards env c hcall]
    have : c.heap.response.discard.1.body = c.heap.response.body := by
      unfold HttpServletResponse.discard
      cases hdrops hcall with
      | inl hcommitted => simp [hcommitted]
      | inr hbuffered =>
        split
        . rfl
        . simp [HttpServletResponse.body, hbuffered]
    apply this.trans (h.trans (discard_accepted _).symm)

theorem body_step_lt (env : Env) {c : HttpServletResponseCopier} (call : Call)
    (h : c.heap.response.body.length < c.heap.response.accepted.length)
    : (step env c call).1.heap.response.body.length
        <
      (step env c call).1.heap.response.accepted.length := by
  cases hcall : discards call with
  | false =>
    rcases (step_effect env c hcall).grows with ⟨bs, haccepted, hbody⟩
    rw [haccepted, hbody, List.length_append, List.length_append]
    omega
  | true =>
    rw [step_of_discards env c hcall]
    have : c.heap.response.discard.1.body.length ≤ c.heap.response.body.length := by
      unfold HttpServletResponse.discard
      split
      . apply Nat.le_refl
      . simp [HttpServletResponse.body]
    rw [← discard_accepted] at h
    apply Nat.lt_of_le_of_lt this h

theorem body_run_lt (env : Env) (calls : List Call) {c : HttpServletResponseCopier}
    (h : c.heap.response.body.length < c.heap.response.accepted.length)
    : (run env c calls).heap.response.body.length
        <
      (run env c calls).heap.response.accepted.length := by
  induction calls generalizing c with
  | nil => exact h
  | cons call calls ih => exact ih (body_step_lt env call h)

theorem body_step_of_drops (env : Env) {c : HttpServletResponseCopier} {call : Call}
    (hdrops : ¬ DropsNothing c call) (h : c.heap.response.body = c.heap.response.accepted)
    : (step env c call).1.heap.response.body.length
        <
      (step env c call).1.heap.response.accepted.length := by
  simp only [DropsNothing, Classical.not_imp, not_or, Bool.not_eq_true] at hdrops
  rcases hdrops with ⟨hcall, hcommitted, hbuffered⟩
  rw [step_of_discards env c hcall]
  have hpos := List.length_pos_of_ne_nil hbuffered
  have hlen := congrArg List.length h
  simp only [HttpServletResponse.body, List.length_append] at hlen
  simp only [setResponse, HttpServletResponse.discard, hcommitted, HttpServletResponse.body,
    Bool.false_eq_true, if_false, List.append_nil]
  omega

theorem body_run_iff (env : Env) (calls : List Call) {c : HttpServletResponseCopier}
    (h : c.heap.response.body = c.heap.response.accepted)
    : (run env c calls).heap.response.body = (run env c calls).heap.response.accepted
        ↔
      RunDropsNothing env c calls := by
  induction calls generalizing c with
  | nil =>
    constructor
    . intro _
      trivial
    . intro _
      exact h
  | cons call calls ih =>
    rw [run, RunDropsNothing]
    -- A gap between the body and what has been accepted is never closed again.
    by_cases hdrops : DropsNothing c call
    . rw [ih (body_step_of_dropsNothing hdrops h)]
      simp [hdrops]
    . have hlt := body_run_lt env calls (body_step_of_drops env hdrops h)
      constructor
      . intro heq
        rw [heq] at hlt
        omega
      . rintro ⟨hd, _⟩
        contradiction

end HttpServletResponseCopier

namespace GateFilter

open HttpServletResponseCopier

theorem run_getCopy_eq (env : Env) (calls : List Call)
    : (run env (new {}) calls).getCopy = (run env (new {}) calls).heap.response.accepted := by
  exact ((inv_new {} rfl).run env calls).copy

theorem doFilter_logs_body_iff (env : Env) (pretty : List Char → Option (List Char))
    (request : BodyStream) (chain : RequestWrapper → List Call × Exit)
    : let res := doFilter env pretty request {} chain
      (∀ copy, Log.response copy ∈ res.log → copy = res.responseWrapper.heap.response.body)
        ↔
      RunDropsNothing env (new {}) res.made := by
  intro res
  simp only [res, doFilter]
  split
  . simp [RunDropsNothing]
  . have hiff := body_run_iff env (chain (RequestWrapper.new request)).1 (c := new {}) rfl
    have hcopy := run_getCopy_eq env (chain (RequestWrapper.new request)).1
    dsimp only
    rw [← hiff, ← hcopy]
    constructor
    . intro h
      exact (h _ (by simp)).symm
    . intro h copy hmem
      rw [h]
      split at hmem <;> simpa using hmem

def resetAfterWrite : List Call :=
  [.getOutputStream, .streamWrite 0 0x61, .reset]

theorem doFilter_logs_discarded_byte
    : let env : Env := { fails := fun _ => false, charset := fun _ => none, lineSeparator := [] }
      let res := doFilter env some (.complete []) {} (fun _ => (resetAfterWrite, .returned))
      ¬ ∀ copy, Log.response copy ∈ res.log → copy = res.responseWrapper.heap.response.body := by
  intro env res h
  have heq := h [0x61] (by decide)
  revert heq
  decide

end GateFilter
