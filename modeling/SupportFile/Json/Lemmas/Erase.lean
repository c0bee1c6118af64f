import SupportFile.Json.Basic

/-!
This module contains the proof that whitespace which cannot stand in a string may be erased from a
JSON text without changing its value.
-/

namespace Json

@[simp]
theorem Ws.nil : Ws [] := by
  intro c hc
  simp at hc

theorem Ws.append {s t : List Char} (hs : Ws s) (ht : Ws t) : Ws (s ++ t) := by
  intro c hc
  rw [List.mem_append] at hc
  cases hc with
  | inl hc => exact hs c hc
  | inr hc => exact ht c hc

theorem Ws.filter {s : List Char} (h : Ws s) (p : Char → Bool) : Ws (s.filter p) := by
  intro c hc
  apply h c (List.mem_filter.mp hc).left

theorem isWs_eq_false_of_isDigit {c : Char} (h : isDigit c = true) : isWs c = false := by
  simp only [isDigit, Bool.and_eq_true, decide_eq_true_eq, Char.le_def] at h
  cases hw : isWs c with
  | false => rfl
  | true =>
    simp only [isWs, Bool.or_eq_true, beq_iff_eq] at hw
    rcases hw with ((rfl | rfl) | rfl) | rfl
    all_goals
      revert h
      decide

theorem isNumberChar_of_isDigit {c : Char} (h : isDigit c = true) : isNumberChar c = true := by
  simp [isNumberChar, h]

theorem isWs_eq_false_of_isNumberChar {c : Char} (h : isNumberChar c = true)
    : isWs c = false := by
  simp only [isNumberChar, Bool.or_eq_true, beq_iff_eq] at h
  rcases h with ((((h | rfl) | rfl) | rfl) | rfl) | rfl
  . apply isWs_eq_false_of_isDigit h
  all_goals rfl

theorem isNumberChar_of_isDigits {s : List Char} (h : isDigits s = true)
    : ∀ c ∈ s, isNumberChar c = true := by
  simp only [isDigits, Bool.and_eq_true, List.all_eq_true] at h
  intro c hc
  apply isNumberChar_of_isDigit (h.right c hc)

theorem isNumberChar_of_isExp {s : List Char} (h : isExp s = true)
    : ∀ c ∈ s, isNumberChar c = true := by
  cases s with
  | nil => simp
  | cons e s =>
    simp only [isExp, Bool.and_eq_true, Bool.or_eq_true, beq_iff_eq] at h
    have he : isNumberChar e = true := by
      rcases h.left with rfl | rfl
      all_goals rfl
    rcases h with ⟨_, h⟩
    cases s with
    | nil => simp at h
    | cons sign ds =>
      dsimp at h
      rw [List.forall_mem_cons]
      refine ⟨he, ?_⟩
      split at h
      . next hsign =>
        have hsign : isNumberChar sign = true := by
          rcases hsign with rfl | rfl
          all_goals rfl
        rw [List.forall_mem_cons]
        exact ⟨hsign, isNumberChar_of_isDigits h⟩
      . apply isNumberChar_of_isDigits h

theorem isNumberChar_of_span {s : List Char}
    (h : ∀ c ∈ s.dropWhile isDigit, isNumberChar c = true)
    : ∀ c ∈ s, isNumberChar c = true := by
  intro c hc
  rw [← List.takeWhile_append_dropWhile (p := isDigit) (l := s), List.mem_append] at hc
  cases hc with
  | inl hc => apply isNumberChar_of_isDigit (List.mem_takeWhile_imp hc)
  | inr hc => exact h c hc

theorem isNumberChar_of_isFrac {s : List Char} (h : isFrac s = true)
    : ∀ c ∈ s, isNumberChar c = true := by
  cases s with
  | nil => simp
  | cons c s =>
    rw [isFrac] at h
    split at h
    . next hdot =>
      simp only [beq_iff_eq] at hdot
      subst hdot
      rw [Bool.and_eq_true] at h
      rw [List.forall_mem_cons]
      exact ⟨rfl, isNumberChar_of_span (isNumberChar_of_isExp h.right)⟩
    . apply isNumberChar_of_isExp h

theorem isNumberChar_of_isUnsigned {s : List Char} (h : isUnsigned s = true)
    : ∀ c ∈ s, isNumberChar c = true := by
  unfold isUnsigned at h
  split at h
  . contradiction
  . rw [Bool.and_eq_true] at h
    apply isNumberChar_of_span (isNumberChar_of_isFrac h.right)

theorem isNumberChar_of_isNumber {s : List Char} (h : isNumber s = true)
    : ∀ c ∈ s, isNumberChar c = true := by
  cases s with
  | nil => simp
  | cons c s =>
    rw [isNumber] at h
    split at h
    . next hminus =>
      simp only [beq_iff_eq] at hminus
      subst hminus
      rw [List.forall_mem_cons]
      exact ⟨rfl, isNumberChar_of_isUnsigned h⟩
    . apply isNumberChar_of_isUnsigned h

structure Erasable (p : Char → Bool) : Prop where
  isWs : ∀ c, p c = true → isWs c = true
  not_isUnescaped : ∀ c, p c = true → isUnescaped c = false

def erase (p : Char → Bool) (s : List Char) : List Char :=
  s.filter (fun c => !p c)

@[simp]
theorem erase_append (p : Char → Bool) (s t : List Char)
    : erase p (s ++ t) = erase p s ++ erase p t := by
  simp [erase]

theorem erase_eq_self {p : Char → Bool} {s : List Char} (h : ∀ c ∈ s, p c = false)
    : erase p s = s := by
  unfold erase
  rw [List.filter_eq_self]
  intro c hc
  simp [h c hc]

namespace Erasable

variable {p : Char → Bool} (hp : Erasable p)
include hp

theorem eq_false_of_isWs {c : Char} (h : Json.isWs c = false) : p c = false := by
  cases hc : p c with
  | false => rfl
  | true => rw [hp.isWs c hc] at h; contradiction

theorem eq_false_of_isUnescaped {c : Char} (h : isUnescaped c = true) : p c = false := by
  cases hc : p c with
  | false => rfl
  | true => rw [hp.not_isUnescaped c hc] at h; contradiction

theorem erase_structural {c : Char} {s : List Char} (hc : Json.isWs c = false)
    (h : Structural c s)
    : Structural c (erase p s) := by
  rcases h with ⟨before, after, hbefore, hafter, rfl⟩
  refine ⟨erase p before, erase p after, hbefore.filter _, hafter.filter _, ?_⟩
  rw [erase_append, List.append_cancel_left_eq]
  simp [erase, hp.eq_false_of_isWs hc]

theorem eq_false_of_hexDigit {c : Char} {n : Nat} (h : hexDigit c = some n) : p c = false := by
  apply hp.eq_false_of_isWs
  cases hw : Json.isWs c with
  | false => rfl
  | true =>
    simp only [Json.isWs, Bool.or_eq_true, beq_iff_eq] at hw
    rcases hw with ((rfl | rfl) | rfl) | rfl
    all_goals
      revert h
      simp [hexDigit]

theorem eq_false_of_unescape {c : Char} {u : UInt16} (h : unescape c = some u) : p c = false := by
  apply hp.eq_false_of_isWs
  unfold unescape at h
  split at h
  all_goals first | rfl | contradiction

theorem eq_false_of_chars {s : List Char} {us : List UInt16} (h : Chars s us)
    : ∀ c ∈ s, p c = false := by
  induction h with
  | nil => simp
  | unescaped c hc _ ih =>
    rw [List.forall_mem_cons]
    exact ⟨hp.eq_false_of_isUnescaped hc, ih⟩
  | escaped c hc _ ih =>
    rw [List.forall_mem_cons, List.forall_mem_cons]
    exact ⟨hp.eq_false_of_isWs rfl, hp.eq_false_of_unescape hc, ih⟩
  | hex a b c d hu _ ih =>
    simp only [hex4, Option.bind_eq_bind, Option.bind_eq_some_iff] at hu
    rcases hu with ⟨_, ha, _, hb, _, hc, _, hd, _⟩
    simp only [List.forall_mem_cons]
    exact ⟨hp.eq_false_of_isWs rfl, hp.eq_false_of_isWs rfl, hp.eq_false_of_hexDigit ha,
      hp.eq_false_of_hexDigit hb, hp.eq_false_of_hexDigit hc, hp.eq_false_of_hexDigit hd, ih⟩

theorem erase_str {s : List Char} {us : List UInt16} (h : Str s us) : erase p s = s := by
  rcases h with ⟨body, hbody, rfl⟩
  apply erase_eq_self
  have hquote : p '"' = false := hp.eq_false_of_isWs rfl
  have hchars := hp.eq_false_of_chars hbody
  intro c hc
  simp only [List.cons_append, List.mem_cons, List.mem_append, List.not_mem_nil, or_false] at hc
  rcases hc with rfl | hc | rfl
  . exact hquote
  . apply hchars c hc
  . exact hquote

theorem erase_derives {φ : Phrase} {s : List Char} (h : Derives φ s)
    : Derives φ (erase p s) := by
  -- A token loses nothing, and the whitespace around a structural character stays whitespace.
  induction h with
  | null | true | false =>
    rw [erase_eq_self]
    . constructor
    . intro c hc
      apply hp.eq_false_of_isWs
      revert c
      simp [Json.isWs]
  | num h =>
    rw [erase_eq_self]
    . exact .num h
    . intro c hc
      apply hp.eq_false_of_isWs (isWs_eq_false_of_isNumberChar (isNumberChar_of_isNumber h c hc))
  | str h =>
    rw [hp.erase_str h]
    exact .str h
  | emptyArr hb he =>
    rw [erase_append]
    exact .emptyArr (hp.erase_structural rfl hb) (hp.erase_structural rfl he)
  | arr hb _ he ih =>
    rw [erase_append, erase_append]
    exact .arr (hp.erase_structural rfl hb) ih (hp.erase_structural rfl he)
  | emptyObj hb he =>
    rw [erase_append]
    exact .emptyObj (hp.erase_structural rfl hb) (hp.erase_structural rfl he)
  | obj hb _ he ih =>
    rw [erase_append, erase_append]
    exact .obj (hp.erase_structural rfl hb) ih (hp.erase_structural rfl he)
  | lastElement _ ih => exact .lastElement ih
  | consElement _ hm _ ihv ihr =>
    rw [erase_append, erase_append]
    exact .consElement ihv (hp.erase_structural rfl hm) ihr
  | lastMember hk hc _ ih =>
    rw [erase_append, erase_append, hp.erase_str hk]
    exact .lastMember hk (hp.erase_structural rfl hc) ih
  | consMember hk hc _ hm _ ihv ihr =>
    rw [erase_append, erase_append, erase_append, erase_append, hp.erase_str hk]
    exact .consMember hk (hp.erase_structural rfl hc) ihv (hp.erase_structural rfl hm) ihr

theorem erase_text {s : List Char} {v : Json} (h : Text s v) : Text (erase p s) v := by
  rcases h with ⟨before, body, after, hbefore, hbody, hafter, rfl⟩
  refine ⟨erase p before, erase p body, erase p after, hbefore.filter _, ?_, hafter.filter _, ?_⟩
  . apply hp.erase_derives hbody
  . rw [erase_append, erase_append]

end Erasable

end Json
