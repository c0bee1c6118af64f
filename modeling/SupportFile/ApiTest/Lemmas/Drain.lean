import SupportFile.ApiTest.Lemmas.Tee
import SupportFile.ApiTest.Impl.GateFilter

/-!
This module compares what a handler has written with what has reached the output stream of the
response when the filter is left. On the way through the writer the end of a text is lost unless it
is flushed.
-/

def Env.reliable (charset : String → Option Charset) (lineSeparator : List JChar)
    (sends : Nat → Bool) : Env where
  fails _ := false
  charset := charset
  lineSeparator := lineSeparator
  sends := sends

/--
What a handler has written so far, whatever has become of it. `unflushed` is the part of `text`
that it has written since the last call that flushes the writer.
-/
inductive Written where
  | nothing
  | stream (handed : Nat) (bytes : List UInt8)
  | writer (charset : Charset) (text unflushed : List JChar)

namespace Written

def streamCall (call : Call) : Option (Nat × List UInt8) :=
  match call with
  | .streamWrite k b => some (k, [UInt8.ofInt b])
  | .streamWriteAll k bs => some (k, bs)
  | .streamWriteRange k bs off len =>
    some (k, (ServletOutputStreamCopier.range bs off len).getD [])
  | .streamPrint k units => some (k, (ServletOutputStreamCopier.latin1 units).1)
  | _ => none

def writerCall (env : Env) (call : Call) : Option (List JChar × Bool) :=
  match call with
  | .writerWrite units => some (units, false)
  | .writerPrintln units => some (units ++ env.lineSeparator, true)
  | .writerFormat units => some (units, true)
  | .writerFlush => some ([], true)
  | .flushBuffer => some ([], true)
  | _ => none

def step (env : Env) (w : Written) (call : Call) : Written :=
  match w with
  | .nothing =>
    match call with
    | .getOutputStream => .stream 1 []
    | .getWriter encoding =>
      match env.charset encoding with
      | some charset => .writer charset [] []
      | none => .nothing
    | _ => .nothing
  | .stream handed bytes =>
    if call = .getOutputStream then
      .stream (handed + 1) bytes
    else
      match streamCall call with
      | some (k, bs) => .stream handed (if k < handed then bytes ++ bs else bytes)
      | none => .stream handed bytes
  | .writer charset text unflushed =>
    match writerCall env call with
    | some (units, true) => .writer charset (text ++ units) []
    | some (units, false) => .writer charset (text ++ units) (unflushed ++ units)
    | none => .writer charset text unflushed

def run (env : Env) (w : Written) (calls : List Call) : Written :=
  match calls with
  | [] => w
  | call :: calls => run env (step env w call) calls

def encoding (w : Written) : List UInt8 :=
  match w with
  | .nothing => []
  | .stream _ bytes => bytes
  | .writer charset text _ => charset.getBytes text

def Drained (w : Written) : Prop :=
  match w with
  | .nothing => True
  | .stream _ _ => True
  | .writer _ text unflushed => unflushed = [] ∧ (Utf16.tokens none text).2 = none

end Written

namespace PrintWriter

open StreamEncoder

structure Prints (charset : Charset) (text unflushed : List JChar) (res : PrintWriter × Heap)
    : Prop where
  autoFlush : res.1.autoFlush = true
  charset_eq : res.1.encoder.charset = charset
  history : res.1.encoder.history = (Utf16.tokens none text).1
  leftover : res.1.encoder.leftover = (Utf16.tokens none text).2
  emitted : res.2.response.accepted ++ res.1.encoder.bb
    = charset.encodeTokens [] (Utf16.tokens none text).1
  drained : unflushed = [] → res.1.encoder.bb = []
  waiting : unflushed ≠ [] → res.1.encoder.bb ≠ [] ∨ res.1.encoder.leftover ≠ none

variable {env : Env} (henv : ∀ n, env.fails n = false) {charset : Charset}
  {text unflushed : List JChar} {w : PrintWriter} {h : Heap}
include henv

theorem Prints.encoderWrite (hp : Prints charset text unflushed (w, h)) (units : List JChar)
    : let res := w.encoder.write (ServletOutputStreamCopier.stream env w.out) units h
      res.2.2 = true
        ∧
      ∀ trouble, Prints charset (text ++ units) (unflushed ++ units)
        ({ w with encoder := res.1, trouble := trouble }, res.2.1) := by
  intro res
  have hout := ServletOutputStreamCopier.reliable_stream henv w.out
  rcases write.go_emits hout units w.encoder.leftover.isSome w.encoder h with
    ⟨hemits, hleft, hnil, hcons⟩
  have hcharset := hp.charset_eq
  have hhistory := hp.history
  have hleftover := hp.leftover
  have hemitted := hp.emitted
  dsimp at hcharset hhistory hleftover hemitted
  refine ⟨hemits.ok, ?_⟩
  intro trouble
  constructor
  . apply hp.autoFlush
  . apply hemits.charset.trans hcharset
  . rw [Utf16.tokens_append, ← hhistory, ← hleftover]
    apply hemits.history
  . rw [Utf16.tokens_append, ← hleftover]
    exact hleft
  . rw [Utf16.tokens_append, Charset.encodeTokens_append, ← hemitted, ← hleftover, ← hhistory,
      ← hcharset]
    apply hemits.emitted
  . intro hempty
    rw [List.append_eq_nil_iff] at hempty
    exact (hnil hempty.right).trans (hp.drained hempty.left)
  . intro hne
    cases units with
    | cons u units => exact hcons (by simp)
    | nil =>
      rw [List.append_nil] at hne
      apply hp.waiting hne

theorem Prints.write (hp : Prints charset text unflushed (w, h)) (units : List JChar)
    : Prints charset (text ++ units) (unflushed ++ units) (write env w units h) := by
  exact (hp.encoderWrite henv units).right _

theorem Prints.flush (hp : Prints charset text unflushed (w, h))
    : Prints charset text [] (flush env w h) := by
  have hout := ServletOutputStreamCopier.reliable_stream henv w.out
  rcases flush_emits hout w.encoder h with ⟨hemits, hbb, hleft⟩
  have hemitted := hp.emitted
  dsimp at hemitted
  constructor
  . apply hp.autoFlush
  . apply hemits.charset.trans hp.charset_eq
  . rw [← hp.history]
    apply hemits.history.trans (List.append_nil _)
  . apply hleft.trans hp.leftover
  . rw [← hemitted]
    apply hemits.emitted.trans (List.append_nil _)
  . intro _
    exact hbb
  . intro hne
    contradiction

theorem Prints.newLine (hp : Prints charset text unflushed (w, h))
    : Prints charset (text ++ env.lineSeparator) [] (newLine env w h) := by
  rcases hp.encoderWrite henv env.lineSeparator with ⟨hok, hwrite⟩
  unfold PrintWriter.newLine
  split
  . next encoder h' heq =>
    have hwrite := hwrite w.trouble
    rw [heq] at hwrite
    split
    . apply hwrite.flush henv
    . next hauto => exact absurd hp.autoFlush hauto
  . next heq =>
    rw [heq] at hok
    contradiction

theorem Prints.println (hp : Prints charset text unflushed (w, h)) (units : List JChar)
    : Prints charset (text ++ (units ++ env.lineSeparator)) [] (println env w units h) := by
  unfold PrintWriter.println
  rw [← List.append_assoc]
  exact (hp.write henv units).newLine henv

theorem Prints.format (hp : Prints charset text unflushed (w, h)) (units : List JChar)
    : Prints charset (text ++ units) [] (format env w units h) := by
  have hwrite := hp.write henv units
  have hauto := hwrite.autoFlush
  unfold PrintWriter.format
  dsimp
  rw [hauto]
  apply hwrite.flush henv

end PrintWriter

namespace HttpServletResponseCopier

open PrintWriter

def Refines (c : HttpServletResponseCopier) (w : Written) : Prop :=
  match w with
  | .nothing => c.writer = none ∧ c.outputStream = false ∧ c.streams = []
      ∧ c.heap.response.accepted = []
  | .stream handed bytes => c.writer = none ∧ c.outputStream = true
      ∧ (∃ this, c.copier = some this) ∧ c.streams.length = handed
      ∧ c.heap.response.accepted = bytes
  | .writer charset text unflushed => c.outputStream = false ∧ c.streams = []
      ∧ ∃ w, c.writer = some w ∧ Prints charset text unflushed (w, c.heap)

theorem onStream_of_length_le (env : Env) {c : HttpServletResponseCopier} {k : Nat}
    (hk : c.streams.length ≤ k) (bs : List UInt8) (outcome : Outcome)
    : (onStream env k bs outcome c).1 = c := by
  unfold onStream
  rw [List.getElem?_eq_none hk]

theorem onWriter_of_none (f : PrintWriter → Heap → PrintWriter × Heap)
    {c : HttpServletResponseCopier} (h : c.writer = none)
    : (onWriter f c).1 = c := by
  simp [onWriter, h]

theorem refines_setResponse {c : HttpServletResponseCopier} {w : Written} (h : Refines c w)
    {r : HttpServletResponse} (hr : r.accepted = c.heap.response.accepted)
    : Refines (c.setResponse r) w := by
  cases w with
  | nothing => exact ⟨h.1, h.2.1, h.2.2.1, hr.trans h.2.2.2⟩
  | stream handed bytes => exact ⟨h.1, h.2.1, h.2.2.1, h.2.2.2.1, hr.trans h.2.2.2.2⟩
  | writer charset text unflushed =>
    rcases h with ⟨hs, hstreams, w, hw, hp⟩
    refine ⟨hs, hstreams, w, hw, ?_⟩
    constructor
    . apply hp.autoFlush
    . apply hp.charset_eq
    . apply hp.history
    . apply hp.leftover
    . rw [← hp.emitted]
      apply congrArg (fun bs => bs ++ w.encoder.bb) hr
    . apply hp.drained
    . apply hp.waiting

theorem forward_refines {c : HttpServletResponseCopier} {w : Written} (h : Refines c w)
    {f : HttpServletResponse → HttpServletResponse × Bool}
    (hf : ∀ r, (f r).1.accepted = r.accepted)
    : Refines (forward f c).1 w := by
  unfold forward
  apply refines_setResponse h (hf _)

theorem onWriter_refines {c : HttpServletResponseCopier} {charset : Charset}
    {text unflushed : List JChar} (h : Refines c (.writer charset text unflushed))
    {f : PrintWriter → Heap → PrintWriter × Heap} {text' unflushed' : List JChar}
    (hf : ∀ w heap, Prints charset text unflushed (w, heap) →
      Prints charset text' unflushed' (f w heap))
    : Refines (onWriter f c).1 (.writer charset text' unflushed') := by
  rcases h with ⟨hs, hstreams, w, hw, hp⟩
  simp only [onWriter, hw]
  exact ⟨hs, hstreams, _, rfl, hf w c.heap hp⟩

variable {env : Env} (henv : ∀ n, env.fails n = false)
include henv

theorem onStream_reliable {c : HttpServletResponseCopier} {k : Nat} (hk : k < c.streams.length)
    (bs : List UInt8) (outcome : Outcome)
    : ∃ heap, (onStream env k bs outcome c).1 = { c with heap := heap }
        ∧ heap.response.accepted = c.heap.response.accepted ++ bs := by
  have hget := List.getElem?_eq_getElem hk
  rcases ServletOutputStreamCopier.writeAll_passes henv c.streams[k] bs c.heap with
    ⟨hok, hpasses⟩
  refine ⟨_, ?_, hpasses.accepted⟩
  unfold onStream
  rw [hget]
  dsimp
  split
  . next heq => rw [heq]
  . next heq =>
    rw [heq] at hok
    contradiction

theorem onStream_refines {c : HttpServletResponseCopier} {handed : Nat} {bytes : List UInt8}
    (h : Refines c (.stream handed bytes)) (k : Nat) (bs : List UInt8) (outcome : Outcome)
    : Refines (onStream env k bs outcome c).1
        (.stream handed (if k < handed then bytes ++ bs else bytes)) := by
  rcases h with ⟨hw, hs, hcopier, hlen, haccepted⟩
  split
  . next hk =>
    rw [← hlen] at hk
    rcases onStream_reliable henv hk bs outcome with ⟨heap, heq, hheap⟩
    rw [heq]
    refine ⟨hw, hs, hcopier, hlen, ?_⟩
    dsimp
    rw [hheap, haccepted]
  . next hk =>
    -- The handler does not hold this stream.
    rw [onStream_of_length_le env (by omega)]
    exact ⟨hw, hs, hcopier, hlen, haccepted⟩

theorem step_refines_nothing {c : HttpServletResponseCopier} (h : Refines c .nothing)
    (call : Call)
    : Refines (step env c call).1 (Written.step env .nothing call) := by
  have hc := h
  rcases h with ⟨hw, hs, hstreams, haccepted⟩
  cases call with
  | getOutputStream =>
    dsimp only [step]
    unfold getOutputStream
    rw [if_neg (by simp [hw]), if_neg (by simp [hs])]
    simp only [HttpServletResponse.getOutputStream, henv, Bool.not_false]
    exact ⟨hw, rfl, ⟨_, rfl⟩, by simp [hstreams], haccepted⟩
  | getWriter encoding =>
    dsimp only [step, Written.step]
    unfold getWriter
    rw [if_neg (by simp [hs]), if_neg (by simp [hw])]
    simp only [HttpServletResponse.getOutputStream, henv, Bool.not_false]
    cases env.charset encoding with
    | none => exact ⟨hw, hs, hstreams, haccepted⟩
    | some charset =>
      refine ⟨hs, hstreams, _, rfl, ?_⟩
      constructor
      . rfl
      . rfl
      . rfl
      . rfl
      . apply congrArg (fun bs => bs ++ []) haccepted
      . intro _
        rfl
      . simp
  | streamWrite k b | streamWriteAll k bs | streamPrint k us =>
    simp only [step, Written.step]
    rw [onStream_of_length_le env (by simp [hstreams])]
    exact hc
  | streamWriteRange k bs off len =>
    simp only [step, Written.step]
    split
    all_goals
      rw [onStream_of_length_le env (by simp [hstreams])]
      exact hc
  | streamFlush k =>
    simp only [step, Written.step]
    rw [flushStream_eq]
    exact hc
  | writerWrite us | writerPrintln us | writerFormat us | writerFlush =>
    simp only [step, Written.step]
    rw [onWriter_of_none _ hw]
    exact hc
  | flushBuffer =>
    simp only [step, Written.step]
    rw [flushBuffer_of_none env hw]
    exact hc
  | reset | resetBuffer => apply forward_refines hc discard_accepted
  | commit => apply forward_refines hc (fun _ => rfl)

theorem step_refines_stream {c : HttpServletResponseCopier} {handed : Nat} {bytes : List UInt8}
    (h : Refines c (.stream handed bytes)) (call : Call)
    : Refines (step env c call).1 (Written.step env (.stream handed bytes) call) := by
  have hc := h
  rcases h with ⟨hw, hs, hcopier, hlen, haccepted⟩
  cases call with
  | getOutputStream =>
    rcases hcopier with ⟨this, hthis⟩
    dsimp only [step]
    unfold getOutputStream
    rw [if_neg (by simp [hw]), if_pos hs]
    exact ⟨hw, hs, ⟨this, hthis⟩, by simp [hthis, hlen], haccepted⟩
  | getWriter encoding =>
    dsimp only [step]
    unfold getWriter
    rw [if_pos hs]
    exact hc
  | streamWrite k b | streamWriteAll k bs | streamPrint k us =>
    apply onStream_refines henv hc k _ _
  | streamWriteRange k bs off len =>
    simp only [step, Written.step, Written.streamCall]
    split
    . next heq =>
      rw [heq]
      apply onStream_refines henv hc k _ _
    . next heq =>
      rw [heq]
      apply onStream_refines henv hc k _ _
  | streamFlush k =>
    simp only [step]
    rw [flushStream_eq]
    exact hc
  | writerWrite us | writerPrintln us | writerFormat us | writerFlush =>
    simp only [step]
    rw [onWriter_of_none _ hw]
    exact hc
  | flushBuffer =>
    simp only [step]
    rw [flushBuffer_of_none env hw]
    exact hc
  | reset | resetBuffer => apply forward_refines hc discard_accepted
  | commit => apply forward_refines hc (fun _ => rfl)

theorem step_refines_writer {c : HttpServletResponseCopier} {charset : Charset}
    {text unflushed : List JChar} (h : Refines c (.writer charset text unflushed)) (call : Call)
    : Refines (step env c call).1 (Written.step env (.writer charset text unflushed) call) := by
  have hc := h
  rcases h with ⟨hs, hstreams, w, hw, hp⟩
  cases call with
  | getOutputStream =>
    dsimp only [step]
    unfold getOutputStream
    rw [if_pos (by simp [hw])]
    exact hc
  | getWriter encoding =>
    dsimp only [step]
    unfold getWriter
    rw [if_neg (by simp [hs]), if_pos (by simp [hw])]
    exact ⟨hs, hstreams, w, hw, hp⟩
  | streamWrite k b | streamWriteAll k bs | streamPrint k us =>
    simp only [step]
    rw [onStream_of_length_le env (by simp [hstreams])]
    exact hc
  | streamWriteRange k bs off len =>
    simp only [step]
    split
    all_goals
      rw [onStream_of_length_le env (by simp [hstreams])]
      exact hc
  | streamFlush k =>
    simp only [step]
    rw [flushStream_eq]
    exact hc
  | writerWrite us => apply onWriter_refines hc (fun w heap hp => hp.write henv us)
  | writerPrintln us => apply onWriter_refines hc (fun w heap hp => hp.println henv us)
  | writerFormat us => apply onWriter_refines hc (fun w heap hp => hp.format henv us)
  | writerFlush =>
    simp only [Written.step, Written.writerCall, List.append_nil]
    apply onWriter_refines hc (fun w heap hp => hp.flush henv)
  | flushBuffer =>
    simp only [step, flushBuffer, hw, Option.isSome_some, if_true, Written.step,
      Written.writerCall, List.append_nil]
    apply onWriter_refines hc (fun w heap hp => hp.flush henv)
  | reset | resetBuffer => apply forward_refines hc discard_accepted
  | commit => apply forward_refines hc (fun _ => rfl)

theorem run_refines (calls : List Call) {c : HttpServletResponseCopier} {w : Written}
    (h : Refines c w)
    : Refines (run env c calls) (Written.run env w calls) := by
  induction calls generalizing c w with
  | nil => exact h
  | cons call calls ih =>
    apply ih
    cases w with
    | nothing => apply step_refines_nothing henv h call
    | stream handed bytes => apply step_refines_stream henv h call
    | writer charset text unflushed => apply step_refines_writer henv h call

omit henv in
theorem Refines.accepted_iff {c : HttpServletResponseCopier} {w : Written} (h : Refines c w)
    : c.heap.response.accepted = w.encoding ↔ w.Drained := by
  cases w with
  | nothing =>
    simp only [Written.encoding, Written.Drained, iff_true]
    apply h.2.2.2
  | stream handed bytes =>
    simp only [Written.encoding, Written.Drained, iff_true]
    apply h.2.2.2.2
  | writer charset text unflushed =>
    rcases h with ⟨hs, hstreams, w, hw, hp⟩
    have hemitted := hp.emitted
    have hleftover := hp.leftover
    have hwaiting := hp.waiting
    dsimp at hemitted hleftover hwaiting
    simp only [Written.encoding, Written.Drained]
    cases hpending : (Utf16.tokens none text).2 with
    | none =>
      rw [charset.getBytes_of_complete hpending, ← hemitted]
      rw [hpending] at hleftover
      constructor
      . intro heq
        have hbb : w.encoder.bb = [] := by
          simpa using heq
        refine ⟨?_, rfl⟩
        by_contra hne
        cases hwaiting hne with
        | inl h => exact h hbb
        | inr h => exact h hleftover
      . rintro ⟨hnil, _⟩
        have hbb : w.encoder.bb = [] := hp.drained hnil
        rw [hbb, List.append_nil]
    | some high =>
      -- The replacement of the last surrogate has never left the encoder.
      rw [charset.getBytes_of_pending hpending, ← hemitted]
      simp [charset.encode_ne_nil]

end HttpServletResponseCopier

namespace GateFilter

open HttpServletResponseCopier

theorem doFilter_passes_iff (charset : String → Option Charset) (lineSeparator : List JChar)
    (sends : Nat → Bool) (pretty : List Char → Option (List Char)) (request : BodyStream)
    (chain : RequestWrapper → List Call × Exit)
    : let env := Env.reliable charset lineSeparator sends
      let res := doFilter env pretty request {} chain
      res.responseWrapper.heap.response.accepted = (Written.run env .nothing res.made).encoding
        ↔
      (Written.run env .nothing res.made).Drained := by
  intro env res
  simp only [res, doFilter]
  split
  . simp [new, Written.run, Written.encoding, Written.Drained]
  . apply Refines.accepted_iff
    apply run_refines
    . intro n
      rfl
    . exact ⟨rfl, rfl, rfl, rfl⟩

def writeWithoutFlush : List Call :=
  [.getWriter "ISO-8859-1", .writerWrite [0x61]]

theorem doFilter_loses_unflushed_letter
    : let env := Env.reliable (fun _ => some Charset.iso88591) [0x0a] (fun _ => false)
      let res := doFilter env some (.complete []) {} (fun _ => (writeWithoutFlush, .returned))
      res.responseWrapper.heap.response.accepted
        ≠
      (Written.run env .nothing res.made).encoding := by
  decide

end GateFilter
