import SupportFile.StreamEncoder.Basic

namespace Utf16

theorem tokens_append (pending : Option JChar) (us vs : List JChar)
    : tokens pending (us ++ vs)
        =
      ((tokens pending us).1 ++ (tokens (tokens pending us).2 vs).1,
        (tokens (tokens pending us).2 vs).2) := by
  induction us generalizing pending with
  | nil => simp [tokens]
  | cons u us ih => simp [tokens, ih]

theorem step_progress (pending : Option JChar) (u : JChar)
    : (step pending u).1 ≠ [] ∨ (step pending u).2.isSome = true := by
  unfold step
  split
  . split
    . simp
    . split <;> simp
  . split
    . simp
    . split <;> simp

end Utf16

namespace Charset

theorem encodeTokens_append (cs : Charset) (history ts ts' : List Token)
    : cs.encodeTokens history (ts ++ ts')
        =
      cs.encodeTokens history ts ++ cs.encodeTokens (history ++ ts) ts' := by
  induction ts generalizing history with
  | nil => simp [encodeTokens]
  | cons t ts ih => simp [encodeTokens, ih]

theorem getBytes_of_complete (cs : Charset) {units : List JChar}
    (h : (Utf16.tokens none units).2 = none)
    : cs.getBytes units = cs.encodeTokens [] (Utf16.tokens none units).1 := by
  simp [getBytes, h]

theorem getBytes_of_pending (cs : Charset) {units : List JChar} {high : JChar}
    (h : (Utf16.tokens none units).2 = some high)
    : cs.getBytes units
        =
      cs.encodeTokens [] (Utf16.tokens none units).1
        ++ cs.encode (Utf16.tokens none units).1 none := by
  simp [getBytes, h, encodeTokens_append, encodeTokens]

end Charset

namespace StreamEncoder

variable {σ : Type u}

/-! Whatever the encoder does to the state below it, it does through the output stream. -/

section Relation

variable {out : OutputStream σ} {R : σ → σ → Prop} (hrefl : ∀ s, R s s)
  (htrans : ∀ {a b c}, R a b → R b c → R a c) (hwrite : ∀ bytes s, R s (out.write bytes s).1)
  (hflush : ∀ s, R s (out.flush s).1)

include hrefl hwrite

theorem writeBytes_rel (e : StreamEncoder) (s : σ) : R s (writeBytes out e s).2.1 := by
  unfold writeBytes
  split
  . apply hrefl s
  . have := hwrite e.bb s
    split
    . next heq => rwa [heq] at this
    . next heq => rwa [heq] at this

theorem put_rel (e : StreamEncoder) (t : Token) (s : σ) : R s (put out e t s).2.1 := by
  unfold put
  dsimp
  split
  . apply hrefl s
  . have := writeBytes_rel hrefl hwrite e s
    split
    . next heq => rwa [heq] at this
    . next heq => rwa [heq] at this

include htrans

theorem putAll_rel (ts : List Token) (e : StreamEncoder) (s : σ)
    : R s (putAll out e ts s).2.1 := by
  induction ts generalizing e s with
  | nil => exact hrefl s
  | cons t ts ih =>
    have hput := put_rel hrefl hwrite e t s
    rw [putAll]
    split
    . next heq =>
      rw [heq] at hput
      apply htrans hput (ih _ _)
    . next heq => rwa [heq] at hput

theorem write.go_rel (units : List JChar) (chained : Bool) (e : StreamEncoder) (s : σ)
    : R s (write.go out chained e units s).2.1 := by
  induction units generalizing chained e s with
  | nil => exact hrefl s
  | cons u units ih =>
    have hput := putAll_rel hrefl htrans hwrite (Utf16.step e.leftover u).1 e s
    rw [write.go]
    dsimp
    split
    . next heq =>
      rw [heq] at hput
      apply htrans hput (ih _ _ _)
    . next heq => rwa [heq] at hput

theorem write_rel (e : StreamEncoder) (units : List JChar) (s : σ)
    : R s (write out e units s).2.1 := by
  unfold write
  apply write.go_rel hrefl htrans hwrite

include hflush

theorem flush_rel (e : StreamEncoder) (s : σ) : R s (flush out e s).2.1 := by
  unfold flush
  split
  . apply hflush s
  . have := writeBytes_rel hrefl hwrite e s
    split
    . next heq =>
      rw [heq] at this
      apply htrans this (hflush _)
    . next heq => rwa [heq] at this

end Relation

/-! On a stream that accepts everything the encoder loses nothing. -/

structure Reliable (out : OutputStream σ) (bytes : σ → List UInt8) : Prop where
  write : ∀ bs s, (out.write bs s).2 = true ∧ bytes (out.write bs s).1 = bytes s ++ bs
  flush : ∀ s, (out.flush s).2 = true ∧ bytes (out.flush s).1 = bytes s

structure Emits (bytes : σ → List UInt8) (e : StreamEncoder) (s : σ) (ts : List Token)
    (res : StreamEncoder × σ × Bool) : Prop where
  ok : res.2.2 = true
  charset : res.1.charset = e.charset
  history : res.1.history = e.history ++ ts
  emitted : bytes res.2.1 ++ res.1.bb
    = bytes s ++ e.bb ++ e.charset.encodeTokens e.history ts

theorem Emits.refl (bytes : σ → List UInt8) (e : StreamEncoder) (s : σ)
    : Emits bytes e s [] (e, s, true) := by
  constructor
  all_goals simp [Charset.encodeTokens]

theorem Emits.trans {bytes : σ → List UInt8} {e e' : StreamEncoder} {s s' : σ}
    {ts ts' : List Token} {ok : Bool} {res : StreamEncoder × σ × Bool}
    (h : Emits bytes e s ts (e', s', ok)) (h' : Emits bytes e' s' ts' res)
    : Emits bytes e s (ts ++ ts') res := by
  have hcharset := h.charset
  have hhistory := h.history
  have hemitted := h.emitted
  dsimp at hcharset hhistory hemitted
  constructor
  . apply h'.ok
  . rw [h'.charset, hcharset]
  . rw [h'.history, hhistory, List.append_assoc]
  . rw [h'.emitted, hemitted, hcharset, hhistory, List.append_assoc, ← Charset.encodeTokens_append]

section Reliable

variable {out : OutputStream σ} {bytes : σ → List UInt8} (hout : Reliable out bytes)
include hout

theorem writeBytes_emits (e : StreamEncoder) (s : σ)
    : Emits bytes e s [] (writeBytes out e s) ∧ (writeBytes out e s).1.bb = []
        ∧ (writeBytes out e s).1.leftover = e.leftover := by
  have hwrite := hout.write e.bb s
  unfold writeBytes
  split
  . next hempty =>
    rw [List.isEmpty_iff] at hempty
    refine ⟨⟨rfl, rfl, ?_, ?_⟩, hempty, rfl⟩
    . simp
    . simp [hempty, Charset.encodeTokens]
  . split
    . next heq =>
      rw [heq] at hwrite
      refine ⟨⟨rfl, rfl, ?_, ?_⟩, rfl, rfl⟩
      . simp
      . simp [hwrite.right, Charset.encodeTokens]
    . next heq =>
      rw [heq] at hwrite
      simp at hwrite

theorem put_emits (e : StreamEncoder) (t : Token) (s : σ)
    : Emits bytes e s [t] (put out e t s) ∧ (put out e t s).1.bb ≠ []
        ∧ (put out e t s).1.leftover = e.leftover := by
  have hne := e.charset.encode_ne_nil e.history t
  unfold put
  dsimp
  split
  . refine ⟨⟨rfl, rfl, rfl, ?_⟩, ?_, rfl⟩
    . simp [Charset.encodeTokens]
    . simp [hne]
  . rcases writeBytes_emits hout e s with ⟨hemits, hbb, hleft⟩
    split
    . next heq =>
      rw [heq] at hemits hbb hleft
      dsimp at hbb hleft
      refine ⟨⟨rfl, hemits.charset, ?_, ?_⟩, ?_, hleft⟩
      . have := hemits.history
        dsimp at this
        simp [this]
      . have := hemits.emitted
        simp only [Charset.encodeTokens, List.append_nil] at this
        simp only [Charset.encodeTokens, List.append_nil, ← List.append_assoc, this]
      . simp [hne]
    . next heq =>
      have := hemits.ok
      rw [heq] at this
      contradiction

theorem putAll_emits (ts : List Token) (e : StreamEncoder) (s : σ)
    : Emits bytes e s ts (putAll out e ts s)
        ∧ (ts ≠ [] → (putAll out e ts s).1.bb ≠ [])
        ∧ (ts = [] → (putAll out e ts s).1.bb = e.bb)
        ∧ (putAll out e ts s).1.leftover = e.leftover := by
  induction ts generalizing e s with
  | nil => exact ⟨.refl bytes e s, by simp, fun _ => rfl, rfl⟩
  | cons t ts ih =>
    rcases put_emits hout e t s with ⟨hemits, hbb, hleft⟩
    rw [putAll]
    split
    . next e' s' heq =>
      rw [heq] at hemits hbb hleft
      dsimp at hbb hleft
      rcases ih e' s' with ⟨hemits', hbb', hbb'', hleft'⟩
      refine ⟨hemits.trans hemits', ?_, by simp, ?_⟩
      . intro _
        cases ts with
        | nil => rwa [hbb'' rfl]
        | cons => exact hbb' (by simp)
      . rw [hleft', hleft]
    . next heq =>
      have := hemits.ok
      rw [heq] at this
      contradiction

theorem write.go_emits (units : List JChar) (chained : Bool) (e : StreamEncoder) (s : σ)
    : Emits bytes e s (Utf16.tokens e.leftover units).1 (write.go out chained e units s)
        ∧ (write.go out chained e units s).1.leftover = (Utf16.tokens e.leftover units).2
        ∧ (units = [] → (write.go out chained e units s).1.bb = e.bb)
        ∧ (units ≠ [] → (write.go out chained e units s).1.bb ≠ []
            ∨ (write.go out chained e units s).1.leftover ≠ none) := by
  induction units generalizing chained e s with
  | nil => exact ⟨.refl bytes e s, rfl, fun _ => rfl, by simp⟩
  | cons u units ih =>
    rcases putAll_emits hout (Utf16.step e.leftover u).1 e s with ⟨hemits, hbb, hbb', hleft⟩
    rw [write.go, Utf16.tokens]
    dsimp
    split
    . next e' s' heq =>
      rw [heq] at hemits hbb
      dsimp at hbb
      rcases ih (chained && (Utf16.step e.leftover u).2.isSome)
        { e' with leftover := (Utf16.step e.leftover u).2 } s' with ⟨hemits', hleft', hnil, hcons⟩
      -- What is emitted does not depend on the surrogate that waits.
      have hemits'' : Emits bytes e' s' (Utf16.tokens (Utf16.step e.leftover u).2 units).1
          (write.go out (chained && (Utf16.step e.leftover u).2.isSome)
            { e' with leftover := (Utf16.step e.leftover u).2 } units s') :=
        ⟨hemits'.ok, hemits'.charset, hemits'.history, hemits'.emitted⟩
      refine ⟨hemits.trans hemits'', hleft', by simp, ?_⟩
      intro _
      cases units with
      | cons => exact hcons (by simp)
      | nil =>
        rw [hnil rfl, hleft']
        cases Utf16.step_progress e.leftover u with
        | inl h => exact .inl (hbb h)
        | inr h =>
          right
          simp only [Utf16.tokens]
          apply Option.isSome_iff_ne_none.mp h
    . next heq =>
      have := hemits.ok
      rw [heq] at this
      contradiction

theorem flush_emits (e : StreamEncoder) (s : σ)
    : Emits bytes e s [] (flush out e s) ∧ (flush out e s).1.bb = []
        ∧ (flush out e s).1.leftover = e.leftover := by
  unfold flush
  split
  . next hempty =>
    have hflush := hout.flush s
    rw [List.isEmpty_iff] at hempty
    refine ⟨⟨hflush.left, rfl, ?_, ?_⟩, hempty, rfl⟩
    . simp
    . simp [hempty, hflush.right, Charset.encodeTokens]
  . rcases writeBytes_emits hout e s with ⟨hemits, hbb, hleft⟩
    split
    . next e' s' heq =>
      rw [heq] at hemits hbb hleft
      have hflush := hout.flush s'
      refine ⟨⟨hflush.left, hemits.charset, hemits.history, ?_⟩, hbb, hleft⟩
      have := hemits.emitted
      dsimp at this ⊢
      rw [hflush.right, this]
    . next heq =>
      have := hemits.ok
      rw [heq] at this
      contradiction

end Reliable

end StreamEncoder
