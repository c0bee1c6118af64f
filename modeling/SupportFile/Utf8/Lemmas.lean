import SupportFile.Utf8.Basic

namespace Utf8

@[simp]
theorem encode_cons (c : Char) (s : List Char)
    : encode (c :: s) = String.utf8EncodeChar c ++ encode s := by
  rfl

theorem decodeChar?_encodeChar_append (c : Char) (rest : List UInt8)
    : decodeChar? (String.utf8EncodeChar c ++ rest) = some c := by
  unfold decodeChar?
  rw [List.toByteArray_append]
  apply ByteArray.utf8DecodeChar?_utf8EncodeChar_append

theorem encodeChar_ne_nil (c : Char) : String.utf8EncodeChar c ≠ [] := by
  intro h
  have hlen := String.length_utf8EncodeChar c
  have hpos := Char.utf8Size_pos c
  rw [h] at hlen
  simp only [List.length_nil] at hlen
  omega

theorem decode.go_encode (eof : Bool) (s : List Char)
    : ∀ (fuel : Nat), (encode s).length ≤ fuel → decode.go eof fuel (encode s) = s := by
  induction s with
  | nil =>
    intro fuel _
    cases fuel with
    | zero => rfl
    | succ => rfl
  | cons c s ih =>
    intro fuel hfuel
    have hsize := String.length_utf8EncodeChar c
    cases henc : String.utf8EncodeChar c with
    | nil => exact absurd henc (encodeChar_ne_nil c)
    | cons b1 tail =>
      -- One round of the loop decodes `c` and drops exactly its bytes.
      have hdec := decodeChar?_encodeChar_append c (encode s)
      rw [henc] at hdec hsize
      simp only [List.cons_append] at hdec
      simp only [encode_cons, henc, List.cons_append, List.length_cons, List.length_append] at hfuel
      cases fuel with
      | zero => omega
      | succ fuel =>
        simp only [encode_cons, henc, List.cons_append, go, step, hdec]
        have hdrop : (b1 :: (tail ++ encode s)).drop c.utf8Size = encode s := by
          rw [← hsize, ← List.cons_append, List.drop_left]
        rw [hdrop, ih]
        omega

theorem decode_encode (eof : Bool) (s : List Char) : decode eof (encode s) = s := by
  unfold decode
  apply decode.go_encode
  apply Nat.le_refl

def Valid (bytes : List UInt8) : Prop :=
  ∃ s : List Char, encode s = bytes

theorem encodeChar_of_lt {c : Char} {b : UInt8} (hmem : b ∈ String.utf8EncodeChar c) (hb : b < 0x80)
    : c.toNat = b.toNat := by
  have hb : b.toNat < 128 := hb
  revert hmem
  unfold String.utf8EncodeChar
  dsimp
  split
  . next hle =>
    intro hmem
    simp only [List.mem_singleton] at hmem
    subst hmem
    have hle : c.toNat ≤ 127 := hle
    rw [UInt8.toNat_ofNat']
    change c.toNat = c.toNat % 2 ^ 8
    omega
  . intro hmem
    exfalso
    -- The bytes of a longer character all have their highest bit set.
    split at hmem
    . simp only [List.mem_cons, List.not_mem_nil, or_false] at hmem
      rcases hmem with rfl | rfl
      all_goals
        simp only [UInt8.toNat_ofNat'] at hb
        omega
    . split at hmem
      all_goals
        simp only [List.mem_cons, List.not_mem_nil, or_false] at hmem
      . rcases hmem with rfl | rfl | rfl
        all_goals
          simp only [UInt8.toNat_ofNat'] at hb
          omega
      . rcases hmem with rfl | rfl | rfl | rfl
        all_goals
          simp only [UInt8.toNat_ofNat'] at hb
          omega

theorem mem_of_mem_encode {s : List Char} {b : UInt8} (hmem : b ∈ encode s) (hb : b < 0x80)
    : Char.ofNat b.toNat ∈ s := by
  unfold encode at hmem
  rw [List.mem_flatMap] at hmem
  rcases hmem with ⟨c, hc, hbc⟩
  rw [← encodeChar_of_lt hbc hb, Char.ofNat_toNat]
  assumption

theorem mem_encode_of_mem {s : List Char} {c : Char} (hmem : c ∈ s) (hc : c.toNat < 0x80)
    : UInt8.ofNat c.toNat ∈ encode s := by
  unfold encode
  rw [List.mem_flatMap]
  refine ⟨c, hmem, ?_⟩
  have hle : c.val.toNat ≤ 127 := by
    change c.toNat ≤ 127
    omega
  simp only [String.utf8EncodeChar, hle, if_true]
  apply List.mem_cons_self

theorem mem_of_decodeChar? {bytes : List UInt8} {c : Char} (h : decodeChar? bytes = some c)
    (hc : c.toNat < 0x80)
    : UInt8.ofNat c.toNat ∈ bytes := by
  rcases ByteArray.exists_of_utf8DecodeChar?_eq_some h with ⟨rest, heq⟩
  have hbytes : bytes = String.utf8EncodeChar c ++ rest.data.toList := by
    have hdata := congrArg (fun b => b.data.toList) heq
    simpa using hdata
  have hmem : UInt8.ofNat c.toNat ∈ encode [c] := mem_encode_of_mem List.mem_cons_self hc
  rw [encode_cons, List.mem_append] at hmem
  rw [hbytes, List.mem_append]
  cases hmem with
  | inl hmem => exact Or.inl hmem
  | inr hmem => simp [encode] at hmem

theorem stepMalformed_ne_char (b1 : UInt8) (rest : List UInt8) (c : Char)
    : stepMalformed b1 rest ≠ .char c := by
  unfold stepMalformed
  repeat' split
  all_goals simp

theorem mem_of_mem_decode {eof : Bool} {bytes : List UInt8} {c : Char} (h : c ∈ decode eof bytes)
    (hc : c.toNat < 0x80)
    : UInt8.ofNat c.toNat ∈ bytes := by
  have hreplacement : c ≠ replacement := by
    rintro rfl
    revert hc
    decide
  unfold decode at h
  generalize bytes.length = fuel at h
  induction fuel generalizing bytes with
  | zero => simp [decode.go] at h
  | succ fuel ih =>
    cases bytes with
    | nil => simp [decode.go] at h
    | cons b1 rest =>
      rw [decode.go, step] at h
      split at h
      . next c' hstep =>
        rw [List.mem_cons] at h
        cases h with
        | inl heq =>
          subst heq
          split at hstep
          . next c'' hdecode =>
            rw [Step.char.injEq] at hstep
            rw [hstep] at hdecode
            apply mem_of_decodeChar? hdecode hc
          . next hdecode =>
            exact absurd hstep (stepMalformed_ne_char b1 rest c)
        | inr hmem => exact List.mem_of_mem_drop (ih hmem)
      . rw [List.mem_cons] at h
        cases h with
        | inl heq => contradiction
        | inr hmem => exact List.mem_of_mem_drop (ih hmem)
      . split at h
        . simp [hreplacement] at h
        . simp at h

end Utf8
