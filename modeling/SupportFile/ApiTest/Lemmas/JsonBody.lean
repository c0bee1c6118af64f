import SupportFile.ApiTest.Lemmas.RequestBody
import SupportFile.ApiTest.Impl.Proxy
import SupportFile.Json.Lemmas.Erase
import SupportFile.Json.Lemmas.Completeness

/-!
This module contains the proof that the endpoints behind the filter read the JSON value that the
client has sent, although its text loses its line terminators on the way.
-/

theorem BufferedReader.erasable_isTerminator : Json.Erasable isTerminator := by
  constructor
  all_goals
    intro c hc
    simp only [isTerminator, Bool.or_eq_true, beq_iff_eq] at hc
    cases hc with
    | inl hc => rw [hc]; decide
    | inr hc => rw [hc]; decide

namespace RequestWrapper

open BufferedReader

theorem new_encode_body (text : List Char)
    : (new (.complete (Utf8.encode text))).body = some (Json.erase isTerminator text) := by
  rw [new_body, Utf8.decode_encode]
  rfl

theorem copyToString_getInputStream {w : RequestWrapper} {body : List Char}
    (hbody : w.body = some body)
    : w.getInputStream.map Proxy.copyToString = some body := by
  simp only [getInputStream, hbody, Option.map_some]
  unfold Proxy.copyToString
  rw [ByteArrayInputStream.drain_eq, List.drop_zero, Utf8.decode_encode]

/-- The reader hands out the body, which is one line only. -/
theorem appendLines_getReader {w : RequestWrapper} {body : List Char} (hbody : w.body = some body)
    (hline : stripTerminators body = body)
    : w.getReader.map (fun reader => appendLines (reader.chars.length + 1) [] reader) = some body := by
  simp only [getReader, hbody, Option.map_some]
  have happend := appendLines_eq (body.length + 1) [] { chars := body } (Nat.lt_succ_self _)
  rw [happend, List.nil_append]
  exact congrArg some hline

end RequestWrapper

namespace GateFilter

theorem doFilter_keeps_json {env : Env} {pretty : List Char → Option (List Char)}
    {text : List Char} {v : Json} {response : HttpServletResponse}
    {chain : RequestWrapper → List Call × Exit} (htext : Json.Text text v)
    : let w := RequestWrapper.new (.complete (Utf8.encode text))
      ∃ body,
        w.getBody = some body
          ∧
        (doFilter env pretty (.complete (Utf8.encode text)) response chain).handed
            = (pretty body).map (fun _ => w)
          ∧
        Json.Text body v
          ∧
        (∀ v', Json.Text body v' → v' = v)
          ∧
        Json.parse body = some v
          ∧
        Json.parse text = some v
          ∧
        w.getInputStream.map Proxy.copyToString = some body
          ∧
        w.getReader.map
            (fun reader => RequestWrapper.appendLines (reader.chars.length + 1) [] reader) = some body
          ∧
        ∀ calls, ∀ o ∈ w.run calls, Utf8.decode true (o.delivered ++ o.stream.drain) = body := by
  intro w
  have hbody : w.body = some (Json.erase BufferedReader.isTerminator text) :=
    RequestWrapper.new_encode_body text
  have hkept := BufferedReader.erasable_isTerminator.erase_text htext
  have hline : BufferedReader.stripTerminators (Json.erase BufferedReader.isTerminator text)
      = Json.erase BufferedReader.isTerminator text := by
    apply BufferedReader.stripTerminators_eq_self
    intro c hc
    exact BufferedReader.isTerminator_eq_false_of_mem_strip hc
  refine ⟨_, hbody, ?_, hkept, ?_, Json.parse_of_text hkept, Json.parse_of_text htext,
    RequestWrapper.copyToString_getInputStream hbody,
    RequestWrapper.appendLines_getReader hbody hline, ?_⟩
  . rw [doFilter_handed_eq, RequestWrapper.getBody, hbody, Option.bind_some]
  . intro v' hv'
    exact hv'.unique hkept
  . intro calls o ho
    rw [(RequestWrapper.run_serves w hbody calls o ho).delivers, Utf8.decode_encode]

theorem doFilter_keeps_json_array
    : let env : Env := { fails := fun _ => false, charset := fun _ => none, lineSeparator := [] }
      let request := BodyStream.complete (Utf8.encode ['[', '\r', '\n', '1', ']'])
      let w := RequestWrapper.new request
      (doFilter env some request {} (fun _ => ([], .returned))).handed = some w
        ∧
      Json.Text ['[', '1', ']'] (.arr [.num ['1']])
        ∧
      Json.parse ['[', '1', ']'] = Json.parse ['[', '\r', '\n', '1', ']']
        ∧
      w.getInputStream.map Proxy.copyToString = some ['[', '1', ']'] := by
  have htext : Json.Text ['[', '\r', '\n', '1', ']'] (.arr [.num ['1']]) := by
    have hopen : Json.Structural '[' ['[', '\r', '\n'] := by
      refine ⟨[], ['\r', '\n'], by simp, ?_, rfl⟩
      intro c hc
      simp only [List.mem_cons, List.not_mem_nil, or_false] at hc
      rcases hc with rfl | rfl
      all_goals rfl
    have hclose : Json.Structural ']' [']'] := by
      exact ⟨[], [], by simp, by simp, rfl⟩
    exact ⟨[], _, [], by simp, .arr hopen (.lastElement (.num rfl)) hclose, by simp, rfl⟩
  intro env request w
  have hkeeps := @doFilter_keeps_json env some _ _ {} (fun _ => ([], .returned)) htext
  rcases hkeeps with ⟨body, hbody, hhanded, hkept, _, hparse, hparse', hstream, _⟩
  have hline : body = ['[', '1', ']'] := by
    exact (Option.some.inj hbody).symm
  rw [hline] at hkept hparse hstream
  exact ⟨hhanded, hkept, by rw [hparse, hparse'], hstream⟩

end GateFilter
