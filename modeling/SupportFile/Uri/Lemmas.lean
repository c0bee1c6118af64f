import SupportFile.Uri.Basic
import SupportFile.JsString.Lemmas
import SupportFile.Utf8.Lemmas

namespace Uri

theorem decodeBytes_cons {p : UInt8} (hp : p ≠ 0x25) (bytes : List UInt8)
    : decodeBytes (p :: bytes) = p :: decodeBytes bytes := by
  match bytes with
  | [] => rfl
  | [a] => rfl
  | a :: b :: bytes =>
    have hbeq : (p == 0x25) = false := by
      simpa using hp
    rw [decodeBytes]
    simp only [hbeq, Bool.false_eq_true, if_false]

theorem decodeBytes_escape {a b : UInt8} {high low : Nat} (ha : hexValue a = some high)
    (hb : hexValue b = some low) (bytes : List UInt8)
    : decodeBytes (0x25 :: a :: b :: bytes)
        =
      UInt8.ofNat (high * 16 + low) :: decodeBytes bytes := by
  simp [decodeBytes, ha, hb]

theorem utf8_encode_append (s t : List Char)
    : Utf8.encode (s ++ t) = Utf8.encode s ++ Utf8.encode t := by
  apply List.flatMap_append

theorem utf8EncodeChar_hexDigit {n : Nat} (h : n < 16)
    : ∃ b, String.utf8EncodeChar (hexDigit n) = [b] ∧ hexValue b = some n := by
  have hall : ∀ m < 16, String.utf8EncodeChar (hexDigit m) = [UInt8.ofNat (hexDigit m).toNat]
      ∧ hexValue (UInt8.ofNat (hexDigit m).toNat) = some m := by
    decide
  exact ⟨_, hall n h⟩

theorem decodeBytes_encodeByte (b : UInt8) (bytes : List UInt8)
    : decodeBytes (Utf8.encode (encodeByte b) ++ bytes) = b :: decodeBytes bytes := by
  have hb := b.toNat_lt
  rcases @utf8EncodeChar_hexDigit (b.toNat / 16) (by omega) with ⟨high, hhigh, hhigh'⟩
  rcases @utf8EncodeChar_hexDigit (b.toNat % 16) (by omega) with ⟨low, hlow, hlow'⟩
  have hpercent : String.utf8EncodeChar '%' = [0x25] := by
    decide
  have hbytes : Utf8.encode (encodeByte b) = [0x25, high, low] := by
    simp [encodeByte, Utf8.encode, hpercent, hhigh, hlow]
  rw [hbytes]
  simp only [List.cons_append, List.nil_append]
  rw [decodeBytes_escape hhigh' hlow', Nat.div_add_mod', UInt8.ofNat_toNat]

theorem decodeBytes_encodeBytes (bs bytes : List UInt8)
    : decodeBytes (Utf8.encode (bs.flatMap encodeByte) ++ bytes) = bs ++ decodeBytes bytes := by
  induction bs with
  | nil => rfl
  | cons b bs ih =>
    rw [List.flatMap_cons, utf8_encode_append, List.append_assoc, decodeBytes_encodeByte, ih]
    rfl

theorem isUnescaped_spec {c : Char} (h : isUnescaped c = true)
    : c.toNat < 0x80 ∧ c ≠ '%' ∧ c ≠ '&' ∧ c ≠ '=' := by
  refine ⟨?_, ?_, ?_, ?_⟩
  . have hle : c ≤ '\x7f' := by
      simp only [isUnescaped, Bool.or_eq_true, Bool.and_eq_true, decide_eq_true_eq, beq_iff_eq]
        at h
      rcases h with (((((((((((h | h) | h) | h) | h) | h) | h) | h) | h) | h) | h) | h)
      . apply Char.le_trans h.right (by decide)
      . apply Char.le_trans h.right (by decide)
      . apply Char.le_trans h.right (by decide)
      all_goals
        subst h
        decide
    apply Nat.lt_succ_of_le hle
  all_goals
    rintro rfl
    revert h
    decide

theorem utf8EncodeChar_of_ascii {c : Char} (h : c.toNat < 0x80)
    : String.utf8EncodeChar c = [UInt8.ofNat c.toNat] := by
  have hle : c.val.toNat ≤ 127 := Nat.le_of_lt_succ h
  simp only [String.utf8EncodeChar, hle, if_true]
  rfl

theorem decodeBytes_encodeChar (c : Char) (bytes : List UInt8)
    : decodeBytes (Utf8.encode (encodeChar c) ++ bytes)
        =
      String.utf8EncodeChar c ++ decodeBytes bytes := by
  unfold encodeChar
  split
  . next h =>
    rcases isUnescaped_spec h with ⟨hascii, hpercent, _, _⟩
    have hchar := utf8EncodeChar_of_ascii hascii
    simp only [Utf8.encode, List.flatMap_cons, List.flatMap_nil, List.append_nil, hchar,
      List.cons_append, List.nil_append]
    apply decodeBytes_cons
    intro hbyte
    apply hpercent
    have hnat := congrArg UInt8.toNat hbyte
    rw [UInt8.toNat_ofNat', Nat.mod_eq_of_lt (by omega)] at hnat
    apply Char.toNat_inj.mp hnat
  . apply decodeBytes_encodeBytes

theorem decodeBytes_encode (s : List Char)
    : decodeBytes (Utf8.encode (encode s)) = Utf8.encode s := by
  induction s with
  | nil => rfl
  | cons c s ih =>
    unfold encode at *
    rw [List.flatMap_cons, utf8_encode_append, decodeBytes_encodeChar, ih, Utf8.encode_cons]

theorem percentDecode_encode (s : List Char)
    : percentDecode (JsString.ofChars (encode s)) = JsString.ofChars s := by
  unfold percentDecode
  rw [JsString.toWellFormed_ofChars, decodeBytes_encode, Utf8.decode_encode]

theorem encode_eq_nil_iff {s : List Char} : encode s = [] ↔ s = [] := by
  constructor
  . intro h
    cases s with
    | nil => rfl
    | cons c s =>
      unfold encode encodeChar at h
      rw [List.flatMap_cons, List.append_eq_nil_iff] at h
      exfalso
      have hnil := h.left
      split at hnil
      . contradiction
      . cases hbytes : String.utf8EncodeChar c with
        | nil => exact Utf8.encodeChar_ne_nil c hbytes
        | cons b bs => simp [hbytes, encodeByte] at hnil
  . rintro rfl
    rfl

theorem isUnescaped_hexDigit {n : Nat} (h : n < 16) : isUnescaped (hexDigit n) = true := by
  have hall : ∀ m < 16, isUnescaped (hexDigit m) = true := by
    decide
  apply hall n h

theorem mem_encode {s : List Char} {c : Char} (h : c ∈ encode s) : isUnescaped c = true ∨ c = '%' := by
  unfold encode at h
  rw [List.mem_flatMap] at h
  rcases h with ⟨d, _, hc⟩
  unfold encodeChar at hc
  split at hc
  . next hd =>
    rw [List.mem_singleton] at hc
    rw [hc]
    exact Or.inl hd
  . rw [List.mem_flatMap] at hc
    rcases hc with ⟨b, _, hc⟩
    have hb := b.toNat_lt
    simp only [encodeByte, List.mem_cons, List.not_mem_nil, or_false] at hc
    rcases hc with rfl | rfl | rfl
    . exact Or.inr rfl
    . exact Or.inl (isUnescaped_hexDigit (by omega))
    . exact Or.inl (isUnescaped_hexDigit (by omega))

theorem not_mem_ofChars_encode (s : List Char) {u : JChar} (hu : u = 0x26 ∨ u = 0x3d)
    : u ∉ JsString.ofChars (encode s) := by
  intro hmem
  have hlt : u.toNat < 0xd800 := by
    rcases hu with rfl | rfl
    all_goals decide
  have hmem := mem_encode (JsString.mem_ofChars hlt hmem)
  revert hmem
  rcases hu with rfl | rfl
  all_goals decide

theorem encodeURIComponent_eq_some_iff {s e : JsString}
    : encodeURIComponent s = some e
        ↔
      ∃ cs, JsString.ofChars cs = s ∧ JsString.ofChars (encode cs) = e := by
  unfold encodeURIComponent
  simp only [Option.map_eq_some_iff, JsString.chars?_eq_some_iff]

theorem not_mem_of_encodeURIComponent {s e : JsString} (h : encodeURIComponent s = some e)
    {u : JChar} (hu : u = 0x26 ∨ u = 0x3d)
    : u ∉ e := by
  rcases encodeURIComponent_eq_some_iff.mp h with ⟨cs, _, rfl⟩
  apply not_mem_ofChars_encode
  exact hu

theorem percentDecode_of_encodeURIComponent {s e : JsString} (h : encodeURIComponent s = some e)
    : percentDecode e = s := by
  rcases encodeURIComponent_eq_some_iff.mp h with ⟨cs, rfl, rfl⟩
  apply percentDecode_encode

theorem eq_nil_of_encodeURIComponent {s e : JsString} (h : encodeURIComponent s = some e)
    : e = [] ↔ s = [] := by
  rcases encodeURIComponent_eq_some_iff.mp h with ⟨cs, rfl, rfl⟩
  rw [JsString.ofChars_eq_nil_iff, JsString.ofChars_eq_nil_iff, encode_eq_nil_iff]

theorem exists_encodeURIComponent {s : JsString}
    : (∃ e, encodeURIComponent s = some e) ↔ s.WellFormed := by
  rw [JsString.wellFormed_iff]
  simp only [encodeURIComponent_eq_some_iff]
  constructor
  . rintro ⟨e, cs, hcs, _⟩
    exact ⟨cs, hcs⟩
  . rintro ⟨cs, hcs⟩
    exact ⟨_, cs, hcs, rfl⟩

end Uri
