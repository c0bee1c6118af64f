import SupportFile.StreamEncoder.Lemmas
import SupportFile.ApiTest.Impl.HttpServletResponseCopier

/-!
This module contains what the output stream of the response, the copiers on top of it and the print
writer do to the heap.
-/

structure Passes (this : Nat) (h h' : Heap) (bs : List UInt8) : Prop where
  length : h'.copiers.length = h.copiers.length
  accepted : h'.response.accepted = h.response.accepted ++ bs
  copy : this < h.copiers.length →
    ServletOutputStreamCopier.getCopy this h' = ServletOutputStreamCopier.getCopy this h ++ bs
  body : h'.response.body = h.response.body ++ bs

theorem Passes.refl (this : Nat) (h : Heap) : Passes this h h [] := by
  constructor
  all_goals simp

theorem Passes.trans {this : Nat} {h h' h'' : Heap} {bs bs' : List UInt8}
    (hp : Passes this h h' bs) (hp' : Passes this h' h'' bs')
    : Passes this h h'' (bs ++ bs') where
  length := by rw [hp'.length, hp.length]
  accepted := by rw [hp'.accepted, hp.accepted, List.append_assoc]
  copy := by
    intro hlt
    rw [hp'.copy (by rw [hp.length]; exact hlt), hp.copy hlt, List.append_assoc]
  body := by rw [hp'.body, hp.body, List.append_assoc]

def Tee (this : Nat) (h h' : Heap) : Prop :=
  ∃ bs, Passes this h h' bs

theorem Tee.refl (this : Nat) (h : Heap) : Tee this h h := by
  exact ⟨[], Passes.refl this h⟩

theorem Tee.trans {this : Nat} {h h' h'' : Heap} (ht : Tee this h h') (ht' : Tee this h' h'')
    : Tee this h h'' := by
  rcases ht with ⟨bs, hp⟩
  rcases ht' with ⟨bs', hp'⟩
  exact ⟨bs ++ bs', hp.trans hp'⟩

namespace ServletOutputStreamCopier

theorem write_passes (env : Env) (this : Nat) (b : UInt8) (h : Heap)
    : Passes this h (write env this b h).1 (if (write env this b h).2 then [b] else []) := by
  have haccept (r : HttpServletResponse)
      (haccepted : r.accepted = h.response.accepted ++ [b]) (hbody : r.body = h.response.body ++ [b])
      : Passes this h
          { response := r, copiers := h.copiers.modify this (fun copy => copy ++ [b]) } [b] := by
    refine ⟨by simp, haccepted, ?_, hbody⟩
    intro hlt
    simp [getCopy, hlt]
  unfold write HttpServletResponse.write
  cases env.fails h.response.calls with
  | true =>
    constructor
    all_goals simp [getCopy, HttpServletResponse.body]
  | false =>
    -- What the container sends stays part of the body.
    cases env.sends h.response.calls with
    | true =>
      apply haccept
      . rfl
      . simp [HttpServletResponse.body, HttpServletResponse.commit, HttpServletResponse.accept]
    | false =>
      apply haccept
      . rfl
      . simp [HttpServletResponse.body, HttpServletResponse.accept]

theorem writeAll_tee (env : Env) (this : Nat) (bs : List UInt8) (h : Heap)
    : Tee this h (writeAll env this bs h).1 := by
  induction bs generalizing h with
  | nil => apply Tee.refl this h
  | cons b bs ih =>
    have hwrite := write_passes env this b h
    rw [writeAll]
    split
    . next heq =>
      rw [heq] at hwrite
      apply Tee.trans ⟨_, hwrite⟩ (ih _)
    . next heq =>
      rw [heq] at hwrite
      exact ⟨_, hwrite⟩

theorem writeAll_passes {env : Env} (henv : ∀ n, env.fails n = false) (this : Nat)
    (bs : List UInt8) (h : Heap)
    : (writeAll env this bs h).2 = true ∧ Passes this h (writeAll env this bs h).1 bs := by
  induction bs generalizing h with
  | nil => exact ⟨rfl, Passes.refl this h⟩
  | cons b bs ih =>
    have hwrite := write_passes env this b h
    have hok : (write env this b h).2 = true := by
      cases hsends : env.sends h.response.calls with
      | true => simp [write, HttpServletResponse.write, henv, hsends]
      | false => simp [write, HttpServletResponse.write, henv, hsends]
    rw [writeAll]
    split
    . next h' heq =>
      rw [heq] at hwrite
      exact ⟨(ih h').left, hwrite.trans (ih h').right⟩
    . next heq =>
      rw [heq] at hok
      contradiction

theorem reliable_stream {env : Env} (henv : ∀ n, env.fails n = false) (this : Nat)
    : StreamEncoder.Reliable (stream env this) (fun h => h.response.accepted) where
  write bs h := by
    rcases writeAll_passes henv this bs h with ⟨hok, hpasses⟩
    exact ⟨hok, hpasses.accepted⟩
  flush h := ⟨rfl, rfl⟩

end ServletOutputStreamCopier

namespace PrintWriter

open ServletOutputStreamCopier

theorem encoderWrite_tee (env : Env) (this : Nat) (e : StreamEncoder) (units : List JChar)
    (h : Heap)
    : Tee this h (e.write (stream env this) units h).2.1 := by
  apply StreamEncoder.write_rel
  . apply Tee.refl this
  . apply Tee.trans
  . intro bs h
    apply writeAll_tee env this bs h

theorem encoderFlush_tee (env : Env) (this : Nat) (e : StreamEncoder) (h : Heap)
    : Tee this h (e.flush (stream env this) h).2.1 := by
  apply StreamEncoder.flush_rel
  . apply Tee.refl this
  . apply Tee.trans
  . intro bs h
    apply writeAll_tee env this bs h
  . apply Tee.refl this

structure Keeps (w : PrintWriter) (h : Heap) (res : PrintWriter × Heap) : Prop where
  out : res.1.out = w.out
  tee : Tee w.out h res.2

theorem Keeps.trans {w : PrintWriter} {h : Heap} {res res' : PrintWriter × Heap}
    (hk : Keeps w h res) (hk' : Keeps res.1 res.2 res')
    : Keeps w h res' where
  out := by rw [hk'.out, hk.out]
  tee := by
    have := hk'.tee
    rw [hk.out] at this
    apply hk.tee.trans this

theorem write_keeps (env : Env) (w : PrintWriter) (units : List JChar) (h : Heap)
    : Keeps w h (write env w units h) where
  out := rfl
  tee := encoderWrite_tee env w.out w.encoder units h

theorem flush_keeps (env : Env) (w : PrintWriter) (h : Heap)
    : Keeps w h (flush env w h) where
  out := rfl
  tee := encoderFlush_tee env w.out w.encoder h

theorem newLine_keeps (env : Env) (w : PrintWriter) (h : Heap)
    : Keeps w h (newLine env w h) := by
  have hwrite := encoderWrite_tee env w.out w.encoder env.lineSeparator h
  unfold newLine
  split
  . next encoder h' heq =>
    rw [heq] at hwrite
    split
    . have hflush := flush_keeps env { w with encoder := encoder } h'
      exact ⟨hflush.out, hwrite.trans hflush.tee⟩
    . exact ⟨rfl, hwrite⟩
  . next heq =>
    rw [heq] at hwrite
    exact ⟨rfl, hwrite⟩

theorem println_keeps (env : Env) (w : PrintWriter) (units : List JChar) (h : Heap)
    : Keeps w h (println env w units h) := by
  unfold println
  exact (write_keeps env w units h).trans (newLine_keeps env _ _)

theorem format_keeps (env : Env) (w : PrintWriter) (units : List JChar) (h : Heap)
    : Keeps w h (format env w units h) := by
  unfold format
  dsimp
  split
  . exact (write_keeps env w units h).trans (flush_keeps env _ _)
  . apply write_keeps env w units h

end PrintWriter
