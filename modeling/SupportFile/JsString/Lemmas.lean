import SupportFile.JsString.Basic

namespace Utf16

theorem not_surrogate {u : JChar} (h : u.toNat < 0xd800 ∨ 0xdfff < u.toNat)
    : isHighSurrogate u = false ∧ isLowSurrogate u = false := by
  simp only [isHighSurrogate, isLowSurrogate, Bool.and_eq_false_iff, decide_eq_false_iff_not,
    UInt16.le_iff_toNat_le]
  simp only [UInt16.reduceToNat]
  omega

theorem isHighSurrogate_iff {u : JChar}
    : isHighSurrogate u = true ↔ 0xd800 ≤ u.toNat ∧ u.toNat ≤ 0xdbff := by
  simp [isHighSurrogate, UInt16.le_iff_toNat_le]

theorem isLowSurrogate_iff {u : JChar}
    : isLowSurrogate u = true ↔ 0xdc00 ≤ u.toNat ∧ u.toNat ≤ 0xdfff := by
  simp [isLowSurrogate, UInt16.le_iff_toNat_le]

theorem toNat_valid (c : Char) : c.toNat < 0xd800 ∨ (0xdfff < c.toNat ∧ c.toNat < 0x110000) := by
  apply c.valid

theorem toNat_ofNat_of_valid {n : Nat} (h : n < 0xd800 ∨ (0xdfff < n ∧ n < 0x110000))
    : (Char.ofNat n).toNat = n := by
  have hvalid : n.isValidChar := h
  unfold Char.ofNat
  rw [dif_pos hvalid]
  rfl

theorem tokens_of_not_surrogate {u : JChar} (hhigh : isHighSurrogate u = false)
    (hlow : isLowSurrogate u = false) (s : List JChar)
    : tokens none (u :: s) = (some u.toNat :: (tokens none s).1, (tokens none s).2) := by
  simp [tokens, step, hhigh, hlow]

theorem tokens_of_surrogates {high low : JChar} (hhigh : isHighSurrogate high = true)
    (hlow : isLowSurrogate low = true) (s : List JChar)
    : tokens none (high :: low :: s)
        =
      (some (toCodePoint high low) :: (tokens none s).1, (tokens none s).2) := by
  simp [tokens, step, hhigh, hlow]

theorem toNat_ofNat_of_lt {n : Nat} (h : n < 0x10000) : (UInt16.ofNat n).toNat = n := by
  rw [UInt16.toNat_ofNat']
  apply Nat.mod_eq_of_lt h

theorem tokens_utf16_append (c : Char) (s : List JChar)
    : tokens none (Json.utf16 c ++ s) = (some c.toNat :: (tokens none s).1, (tokens none s).2) := by
  have hvalid := toNat_valid c
  unfold Json.utf16
  split
  . next hbmp =>
    have hunit := toNat_ofNat_of_lt hbmp
    have hno := @not_surrogate (UInt16.ofNat c.toNat) (by omega)
    rw [List.singleton_append, tokens_of_not_surrogate hno.left hno.right, hunit]
  . next hbmp =>
    have hfst := @toNat_ofNat_of_lt (0xd800 + (c.toNat - 0x10000) / 0x400) (by omega)
    have hsnd := @toNat_ofNat_of_lt (0xdc00 + (c.toNat - 0x10000) % 0x400) (by omega)
    have hhigh := (@isHighSurrogate_iff _).mpr (by rw [hfst]; omega)
    have hlow := (@isLowSurrogate_iff _).mpr (by rw [hsnd]; omega)
    rw [List.cons_append, List.singleton_append, tokens_of_surrogates hhigh hlow]
    unfold toCodePoint
    rw [hfst, hsnd]
    have hcp : 0x10000 + (0xd800 + (c.toNat - 0x10000) / 0x400 - 0xd800) * 0x400
        + (0xdc00 + (c.toNat - 0x10000) % 0x400 - 0xdc00) = c.toNat := by
      omega
    rw [hcp]

theorem utf16_of_not_surrogate {u : JChar} (hhigh : isHighSurrogate u = false)
    (hlow : isLowSurrogate u = false)
    : Json.utf16 (Char.ofNat u.toNat) = [u] := by
  have hlt := u.toNat_lt
  have hvalid : u.toNat < 0xd800 ∨ (0xdfff < u.toNat ∧ u.toNat < 0x110000) := by
    rw [← Bool.not_eq_true, isHighSurrogate_iff] at hhigh
    rw [← Bool.not_eq_true, isLowSurrogate_iff] at hlow
    omega
  unfold Json.utf16
  rw [toNat_ofNat_of_valid hvalid, if_pos hlt, UInt16.ofNat_toNat]

theorem utf16_toCodePoint {high low : JChar} (hhigh : isHighSurrogate high = true)
    (hlow : isLowSurrogate low = true)
    : Json.utf16 (Char.ofNat (toCodePoint high low)) = [high, low] := by
  rw [isHighSurrogate_iff] at hhigh
  rw [isLowSurrogate_iff] at hlow
  unfold Json.utf16
  rw [toNat_ofNat_of_valid (by unfold toCodePoint; omega), if_neg (by unfold toCodePoint; omega)]
  have hfst : 0xd800 + (toCodePoint high low - 0x10000) / 0x400 = high.toNat := by
    unfold toCodePoint
    omega
  have hsnd : 0xdc00 + (toCodePoint high low - 0x10000) % 0x400 = low.toNat := by
    unfold toCodePoint
    omega
  rw [hfst, hsnd, UInt16.ofNat_toNat, UInt16.ofNat_toNat]

end Utf16

namespace JsString

open Utf16

@[simp]
theorem ofChars_nil : ofChars [] = [] := by
  rfl

@[simp]
theorem ofChars_cons (c : Char) (s : List Char) : ofChars (c :: s) = Json.utf16 c ++ ofChars s := by
  rfl

@[simp]
theorem ofChars_append (s t : List Char) : ofChars (s ++ t) = ofChars s ++ ofChars t := by
  apply List.flatMap_append

theorem tokens_ofChars (s : List Char)
    : tokens none (ofChars s) = (s.map (fun c => some c.toNat), none) := by
  induction s with
  | nil => rfl
  | cons c s ih => rw [ofChars_cons, tokens_utf16_append, ih, List.map_cons]

theorem mapM_toNat (s : List Char)
    : (s.map (fun c => some c.toNat)).mapM (fun (t : Token) => t.map Char.ofNat) = some s := by
  induction s with
  | nil => rfl
  | cons c s ih =>
    rw [List.map_cons, List.mapM_cons, ih]
    simp

@[simp]
theorem chars?_ofChars (s : List Char) : chars? (ofChars s) = some s := by
  unfold chars?
  rw [tokens_ofChars]
  apply mapM_toNat

@[simp]
theorem toWellFormed_ofChars (s : List Char) : toWellFormed (ofChars s) = s := by
  unfold toWellFormed
  rw [tokens_ofChars]
  simp [Function.comp_def, toWellFormed.ofToken]

theorem mem_ofChars {s : List Char} {u : JChar} (hu : u.toNat < 0xd800) (hmem : u ∈ ofChars s)
    : Char.ofNat u.toNat ∈ s := by
  unfold ofChars at hmem
  rw [List.mem_flatMap] at hmem
  rcases hmem with ⟨c, hc, huc⟩
  have hvalid := toNat_valid c
  unfold Json.utf16 at huc
  split at huc
  . next hbmp =>
    rw [List.mem_singleton] at huc
    rw [huc, toNat_ofNat_of_lt hbmp, Char.ofNat_toNat]
    exact hc
  . next hbmp =>
    -- Both surrogates are above the unit.
    exfalso
    simp only [List.mem_cons, List.not_mem_nil, or_false] at huc
    cases huc with
    | inl huc =>
      rw [huc, toNat_ofNat_of_lt (by omega)] at hu
      omega
    | inr huc =>
      rw [huc, toNat_ofNat_of_lt (by omega)] at hu
      omega

theorem ofChars_injective {s t : List Char} (h : ofChars s = ofChars t) : s = t := by
  have hs := chars?_ofChars s
  rw [h, chars?_ofChars] at hs
  exact (Option.some.inj hs).symm

theorem mapM_some_cons {cp : Nat} {ts : List Token} {cs : List Char}
    (h : (some cp :: ts).mapM (fun (t : Token) => t.map Char.ofNat) = some cs)
    : ∃ cs', ts.mapM (fun (t : Token) => t.map Char.ofNat) = some cs'
        ∧ cs = Char.ofNat cp :: cs' := by
  rw [List.mapM_cons] at h
  simp only [Option.map_some, Option.bind_eq_bind, Option.bind_some, Option.bind_eq_some_iff,
    Option.pure_def, Option.some.injEq] at h
  rcases h with ⟨cs', hcs', rfl⟩
  exact ⟨cs', hcs', rfl⟩

theorem ofChars_of_tokens {s : JsString} {pending : Option JChar} {ts : List Token} {cs : List Char}
    (hpending : ∀ u ∈ pending, isHighSurrogate u = true) (htokens : tokens pending s = (ts, none))
    (hcs : ts.mapM (fun (t : Token) => t.map Char.ofNat) = some cs)
    : ofChars cs = pending.toList ++ s := by
  induction s generalizing pending ts cs with
  | nil =>
    simp only [tokens, Prod.mk.injEq] at htokens
    rcases htokens with ⟨rfl, rfl⟩
    cases hcs
    rfl
  | cons u s ih =>
    unfold tokens at htokens
    simp only [Prod.mk.injEq] at htokens
    rcases htokens with ⟨rfl, hend⟩
    unfold step at hcs hend
    cases pending with
    | none =>
      cases hhigh : isHighSurrogate u with
      | true =>
        -- The surrogate waits for its partner.
        simp only [hhigh, if_true, List.nil_append] at hcs hend
        have ih := @ih (some u) _ _ (by simpa using hhigh) (Prod.ext rfl hend) hcs
        simpa using ih
      | false =>
        cases hlow : isLowSurrogate u with
        | true =>
          simp [hhigh, hlow] at hcs
        | false =>
          simp only [hhigh, hlow, Bool.false_eq_true, if_false, List.singleton_append] at hcs hend
          rcases mapM_some_cons hcs with ⟨cs', hcs', rfl⟩
          have ih := @ih none _ _ (by simp) (Prod.ext rfl hend) hcs'
          rw [ofChars_cons, ih, utf16_of_not_surrogate hhigh hlow]
          rfl
    | some high =>
      have hpending := hpending high rfl
      cases hlow : isLowSurrogate u with
      | true =>
        simp only [hlow, if_true, List.singleton_append] at hcs hend
        rcases mapM_some_cons hcs with ⟨cs', hcs', rfl⟩
        have ih := @ih none _ _ (by simp) (Prod.ext rfl hend) hcs'
        rw [ofChars_cons, ih, utf16_toCodePoint hpending hlow]
        rfl
      | false =>
        -- The surrogate that waited has no partner, so that there is no text.
        cases hhigh : isHighSurrogate u with
        | true => simp [hhigh, hlow] at hcs
        | false => simp [hhigh, hlow] at hcs

theorem chars?_eq_some_iff {s : JsString} {cs : List Char}
    : chars? s = some cs ↔ ofChars cs = s := by
  constructor
  . intro h
    unfold chars? at h
    split at h
    . next ts htokens => exact @ofChars_of_tokens s none ts cs (by simp) htokens h
    . contradiction
  . rintro rfl
    apply chars?_ofChars

theorem ofChars_eq_nil_iff {s : List Char} : ofChars s = [] ↔ s = [] := by
  constructor
  . intro h
    apply ofChars_injective h
  . rintro rfl
    rfl

theorem wellFormed_iff {s : JsString} : WellFormed s ↔ ∃ cs, ofChars cs = s := by
  unfold WellFormed
  rw [Option.isSome_iff_exists]
  simp only [chars?_eq_some_iff]

theorem trim_eq_nil_iff {s : JsString} : trim s = [] ↔ ∀ u ∈ s, isWhiteSpace u = true := by
  unfold trim
  rw [List.reverse_eq_nil_iff, List.dropWhile_eq_nil_iff]
  constructor
  . intro h u hu
    rw [← List.takeWhile_append_dropWhile (p := isWhiteSpace) (l := s), List.mem_append] at hu
    cases hu with
    | inl hu => exact List.mem_takeWhile_imp hu
    | inr hu => exact h u (List.mem_reverse.mpr hu)
  . intro h u hu
    apply h
    apply (List.dropWhile_sublist isWhiteSpace).mem
    apply List.mem_reverse.mp hu

theorem indexOf.go_spec (searched s : JsString) {i : Int} (hi : 0 ≤ i)
    : 0 ≤ indexOf.go searched i s ↔ searched <:+: s := by
  induction s generalizing i with
  | nil =>
    unfold go
    split
    . next hpre =>
      rw [List.isPrefixOf_iff_prefix] at hpre
      apply iff_of_true hi hpre.isInfix
    . next hpre =>
      rw [List.isPrefixOf_iff_prefix, List.prefix_nil] at hpre
      simpa using hpre
  | cons u s ih =>
    unfold go
    rw [List.infix_cons_iff, ← List.isPrefixOf_iff_prefix]
    split
    . next hpre => simp [hi, hpre]
    . next hpre =>
      dsimp
      rw [ih (by omega)]
      simp [hpre]

theorem indexOf_nonneg_iff (s searched : JsString) : 0 ≤ indexOf s searched ↔ searched <:+: s := by
  apply indexOf.go_spec
  apply Int.le_refl

theorem lt_iff_lex (s t : JsString) : lt s t = true ↔ List.Lex (· < ·) s t := by
  induction s generalizing t with
  | nil =>
    cases t with
    | nil => simp [lt]
    | cons v t => simp [lt]
  | cons u s ih =>
    cases t with
    | nil => simp [lt]
    | cons v t =>
      simp only [lt, Bool.or_eq_true, Bool.and_eq_true, decide_eq_true_eq, beq_iff_eq, ih]
      rw [List.cons_lex_cons_iff]

end JsString
