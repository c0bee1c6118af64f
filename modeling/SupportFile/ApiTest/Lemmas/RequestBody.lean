import SupportFile.ApiTest.Impl.GateFilter
import SupportFile.Utf8.Lemmas

/-!
This module contains what the code behind the filter reads as the body of a request. The body is
kept as the line terminators leave it, so not every sequence of bytes comes out as it went in.
-/

namespace ByteArrayInputStream

theorem drain.go_eq (fuel : Nat) (s : ByteArrayInputStream) (h : s.buf.length - s.pos ≤ fuel)
    : go fuel s = s.buf.drop s.pos := by
  induction fuel generalizing s with
  | zero =>
    unfold go
    rw [List.drop_eq_nil_of_le (by omega)]
  | succ fuel ih =>
    unfold go read
    cases hget : s.buf[s.pos]? with
    | none =>
      dsimp
      rw [List.drop_eq_nil_of_le (List.getElem?_eq_none_iff.mp hget)]
    | some b =>
      dsimp
      rcases List.getElem?_eq_some_iff.mp hget with ⟨hlt, hb⟩
      rw [ih]
      . rw [List.drop_eq_getElem_cons hlt, hb]
      . dsimp
        omega

theorem drain_eq (s : ByteArrayInputStream) : s.drain = s.buf.drop s.pos := by
  unfold drain
  apply drain.go_eq
  omega

end ByteArrayInputStream

namespace RequestWrapper

open BufferedReader

theorem appendLines_eq (fuel : Nat) (strBuilder : List Char) (reader : BufferedReader)
    (hfuel : reader.chars.length < fuel)
    : appendLines fuel strBuilder reader = strBuilder ++ stripTerminators reader.readable := by
  induction fuel generalizing strBuilder reader with
  | zero => omega
  | succ fuel ih =>
    unfold appendLines
    cases readLine_spec reader with
    | inl hlast =>
      rcases hlast with ⟨hnil, hlast⟩
      rw [hnil, List.append_nil]
      cases hlast with
      | inl heof => rw [heof]
      | inr hfailed => rw [hfailed]
    | inr hline =>
      rcases hline with ⟨content, rest, hline, hlt, hstrip⟩
      rw [hline, hstrip, ← List.append_assoc]
      apply ih
      omega

theorem new_eq (request : BodyStream)
    : new request = { body := some (stripTerminators request.reader.readable) } := by
  unfold new
  dsimp
  rw [appendLines_eq]
  . rfl
  . apply Nat.lt_succ_self

theorem new_body (bytes : List UInt8)
    : (new (.complete bytes)).body = some (stripTerminators (Utf8.decode true bytes)) := by
  rw [new_eq]
  rfl

structure Opened.Serves (buf : List UInt8) (o : Opened) : Prop where
  buf_eq : o.stream.buf = buf
  delivered : o.delivered = buf.take o.stream.pos

theorem Opened.Serves.delivers {buf : List UInt8} {o : Opened} (h : o.Serves buf)
    : o.delivered ++ o.stream.drain = buf := by
  rw [ByteArrayInputStream.drain_eq, h.buf_eq, h.delivered, List.take_append_drop]

theorem Opened.Serves.read {buf : List UInt8} {o : Opened} (h : o.Serves buf)
    : Opened.Serves buf
        (match o.stream.read with
        | (stream, some b) => { stream := stream, delivered := o.delivered ++ [b] }
        | (stream, none) => { o with stream := stream }) := by
  unfold ByteArrayInputStream.read
  cases hget : o.stream.buf[o.stream.pos]? with
  | none => exact ⟨h.buf_eq, h.delivered⟩
  | some b =>
    refine ⟨h.buf_eq, ?_⟩
    dsimp
    rw [h.buf_eq] at hget
    rw [h.delivered, List.take_add_one, hget, Option.toList_some]

theorem step_serves (w : RequestWrapper) {body : List Char} (hbody : w.body = some body)
    {opened : List Opened} (h : ∀ o ∈ opened, o.Serves (Utf8.encode body)) (call : Call)
    : ∀ o ∈ step w opened call, o.Serves (Utf8.encode body) := by
  intro o ho
  cases call with
  | getInputStream =>
    simp only [step, getInputStream, hbody, Option.map_some, Option.toList_some, List.mem_append,
      List.mem_singleton] at ho
    cases ho with
    | inl ho => exact h o ho
    | inr ho =>
      subst ho
      exact ⟨rfl, rfl⟩
  | read k =>
    simp only [step] at ho
    -- Every other stream is where it was.
    rcases List.mem_iff_getElem?.mp ho with ⟨i, hi⟩
    rw [List.getElem?_modify] at hi
    rcases Option.map_eq_some_iff.mp hi with ⟨o', ho', heq⟩
    have hserves := h o' (List.mem_of_getElem? ho')
    split at heq
    . rw [← heq]
      apply hserves.read
    . rw [← heq]
      exact hserves

theorem run_serves (w : RequestWrapper) {body : List Char} (hbody : w.body = some body)
    (calls : List Call)
    : ∀ o ∈ w.run calls, o.Serves (Utf8.encode body) := by
  unfold run
  suffices h : ∀ opened : List Opened, (∀ o ∈ opened, o.Serves (Utf8.encode body)) →
      ∀ o ∈ calls.foldl (step w) opened, o.Serves (Utf8.encode body) by
    apply h [] (by simp)
  induction calls with
  | nil =>
    intro opened h
    exact h
  | cons call calls ih =>
    intro opened h
    apply ih _ (step_serves w hbody h call)

theorem encode_strip_decode_iff (bytes : List UInt8)
    : Utf8.encode (stripTerminators (Utf8.decode true bytes)) = bytes
        ↔
      Utf8.Valid bytes ∧ 0x0a ∉ bytes ∧ 0x0d ∉ bytes := by
  constructor
  . intro h
    refine ⟨⟨_, h⟩, ?_, ?_⟩
    all_goals
      intro hmem
      rw [← h] at hmem
      have := isTerminator_eq_false_of_mem_strip (Utf8.mem_of_mem_encode hmem (by decide))
      contradiction
  . rintro ⟨⟨s, rfl⟩, hlf, hcr⟩
    rw [Utf8.decode_encode, stripTerminators_eq_self]
    intro c hc
    cases hterm : isTerminator c with
    | false => rfl
    | true =>
      simp only [isTerminator, Bool.or_eq_true, beq_iff_eq] at hterm
      cases hterm with
      | inl hterm =>
        subst hterm
        exact absurd (Utf8.mem_encode_of_mem hc (by decide)) hlf
      | inr hterm =>
        subst hterm
        exact absurd (Utf8.mem_encode_of_mem hc (by decide)) hcr

end RequestWrapper

namespace GateFilter

theorem doFilter_handed_eq (env : Env) (pretty : List Char → Option (List Char)) (request : BodyStream)
    (response : HttpServletResponse) (chain : RequestWrapper → List Call × Exit)
    : (doFilter env pretty request response chain).handed
        =
      ((RequestWrapper.new request).getBody.bind pretty).map
        (fun _ => RequestWrapper.new request) := by
  unfold doFilter
  dsimp only
  split
  . next hnone => rw [hnone, Option.map_none]
  . next content hsome => rw [hsome, Option.map_some]

theorem doFilter_handed {env : Env} {pretty : List Char → Option (List Char)}
    {request : BodyStream} {response : HttpServletResponse}
    {chain : RequestWrapper → List Call × Exit} {w : RequestWrapper}
    (h : (doFilter env pretty request response chain).handed = some w)
    : w = RequestWrapper.new request := by
  rw [doFilter_handed_eq, Option.map_eq_some_iff] at h
  rcases h with ⟨_, _, heq⟩
  exact heq.symm

theorem doFilter_transparent_iff (env : Env) (pretty : List Char → Option (List Char))
    (bytes : List UInt8) (response : HttpServletResponse)
    (chain : RequestWrapper → List Call × Exit) (w : RequestWrapper)
    (hw : (doFilter env pretty (.complete bytes) response chain).handed = some w)
    : (∀ calls, ∀ o ∈ w.run calls, o.delivered ++ o.stream.drain = bytes)
        ↔
      Utf8.Valid bytes ∧ 0x0a ∉ bytes ∧ 0x0d ∉ bytes := by
  have hw := doFilter_handed hw
  subst hw
  have hbody := RequestWrapper.new_body bytes
  rw [← RequestWrapper.encode_strip_decode_iff]
  constructor
  . intro h
    have hserves := RequestWrapper.run_serves _ hbody [.getInputStream]
    simp only [RequestWrapper.run, RequestWrapper.step, RequestWrapper.getInputStream, hbody,
      List.foldl_cons, List.foldl_nil, Option.map_some, Option.toList_some, List.nil_append,
      List.mem_singleton, forall_eq] at hserves
    rw [← hserves.delivers]
    apply h [.getInputStream]
    simp [RequestWrapper.run, RequestWrapper.step, RequestWrapper.getInputStream, hbody]
  . intro h calls o ho
    rw [← h]
    exact (RequestWrapper.run_serves _ hbody calls o ho).delivers

def letterAndLineFeed : List UInt8 :=
  [0x61, 0x0a]

theorem doFilter_transparent_iff_letter
    : let env : Env := { fails := fun _ => false, charset := fun _ => none, lineSeparator := [] }
      let w := RequestWrapper.new (.complete [0x61])
      (∀ calls, ∀ o ∈ w.run calls, o.delivered ++ o.stream.drain = [0x61])
        ∧
      (doFilter env some (.complete [0x61]) {} (fun _ => ([], .returned))).handed = some w := by
  intro env w
  have hw : (doFilter env some (.complete [0x61]) {} (fun _ => ([], .returned))).handed = some w := by
    decide
  refine ⟨?_, hw⟩
  rw [doFilter_transparent_iff env some [0x61] {} (fun _ => ([], .returned)) w hw]
  exact ⟨⟨['a'], rfl⟩, by decide, by decide⟩

theorem doFilter_drops_line_feed
    : let env : Env := { fails := fun _ => false, charset := fun _ => none, lineSeparator := [] }
      let res := doFilter env some (.complete letterAndLineFeed) {} (fun _ => ([], .returned))
      ∃ w, res.handed = some w
        ∧
      ¬∀ calls, ∀ o ∈ w.run calls, o.delivered ++ o.stream.drain = letterAndLineFeed := by
  refine ⟨RequestWrapper.new (.complete letterAndLineFeed), by decide, ?_⟩
  intro h
  have := h [.getInputStream] { stream := { buf := [0x61] } } (by decide)
  revert this
  decide

end GateFilter
