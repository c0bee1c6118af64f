import SupportFile.JsString.Lemmas

/-!
This module contains the shortest texts of the objects whose members are all strings. Their strings
have no escapes, and there is no whitespace.
-/

namespace Json

def Plain (us : List UInt16) : Prop :=
  ∃ body, (∀ c ∈ body, isUnescaped c = true) ∧ JsString.ofChars body = us

def strMembers (ms : List (List UInt16 × List UInt16)) : List (List UInt16 × Json) :=
  ms.map (fun (k, us) => (k, .str us))

def minLength : List (List UInt16 × List UInt16) → Nat
  | [] => 0
  | (k, us) :: ms => k.length + us.length + 6 + minLength ms

def unitLength (s : List Char) : Nat :=
  (JsString.ofChars s).length

@[simp]
theorem unitLength_nil : unitLength [] = 0 := by
  rfl

@[simp]
theorem unitLength_cons (c : Char) (s : List Char)
    : unitLength (c :: s) = (utf16 c).length + unitLength s := by
  simp [unitLength]

@[simp]
theorem unitLength_append (s t : List Char) : unitLength (s ++ t) = unitLength s + unitLength t := by
  simp [unitLength]

theorem utf16_length_pos (c : Char) : 0 < (utf16 c).length := by
  unfold utf16
  split <;> simp

theorem chars_of_unescaped {body : List Char} (h : ∀ c ∈ body, isUnescaped c = true)
    : Chars body (JsString.ofChars body) := by
  induction body with
  | nil => apply Chars.nil
  | cons c body ih =>
    rw [List.forall_mem_cons] at h
    rw [JsString.ofChars_cons]
    apply Chars.unescaped
    . apply h.left
    . apply ih h.right

theorem chars_length {body : List Char} {us : List UInt16} (h : Chars body us)
    : us.length ≤ unitLength body
        ∧ (us.length = unitLength body
          → (∀ c ∈ body, isUnescaped c = true) ∧ JsString.ofChars body = us) := by
  induction h with
  | nil => simp
  | @unescaped s us c hc _ ih =>
    rw [List.length_append, unitLength_cons, List.forall_mem_cons, JsString.ofChars_cons]
    constructor
    . omega
    . intro heq
      rcases ih.right (by omega) with ⟨hall, hus⟩
      exact ⟨⟨hc, hall⟩, by rw [hus]⟩
  | @escaped u s us c hc _ ih =>
    -- An escape takes more room than what it stands for.
    have hbackslash := utf16_length_pos '\\'
    have hpos := utf16_length_pos c
    rw [List.length_cons, unitLength_cons, unitLength_cons]
    omega
  | @hex u s us a b c d hu _ ih =>
    have hbackslash := utf16_length_pos '\\'
    have hpos := utf16_length_pos 'u'
    rw [List.length_cons, unitLength_cons, unitLength_cons]
    simp only [unitLength_cons]
    omega

theorem str_length {s : List Char} {us : List UInt16} (h : Str s us)
    : us.length + 2 ≤ unitLength s ∧ (us.length + 2 = unitLength s → Plain us) := by
  rcases h with ⟨body, hbody, rfl⟩
  have hquote : (utf16 '"').length = 1 := by
    decide
  have hlen := chars_length hbody
  simp only [List.cons_append, unitLength_cons, unitLength_append, unitLength_nil, hquote]
  constructor
  . omega
  . intro heq
    exact ⟨body, hlen.right (by omega)⟩

theorem structural_unitLength {c : Char} {s : List Char} (h : Structural c s)
    : 1 ≤ unitLength s := by
  rcases h with ⟨before, after, _, _, rfl⟩
  have hpos := utf16_length_pos c
  rw [unitLength_append, unitLength_cons]
  omega

theorem str_of_value {s : List Char} {us : List UInt16} (h : Derives (.value (.str us)) s)
    : Str s us := by
  cases h with
  | str h => exact h

theorem members_length {ms : List (List UInt16 × List UInt16)} {s : List Char}
    (h : Derives (.members (strMembers ms)) s)
    : minLength ms ≤ unitLength s + 1
        ∧ (minLength ms = unitLength s + 1 → ∀ m ∈ ms, Plain m.1 ∧ Plain m.2) := by
  induction ms generalizing s with
  | nil => cases h
  | cons m ms ih =>
    rcases m with ⟨key, us⟩
    unfold minLength
    cases ms with
    | nil =>
      cases h with
      | @lastMember k c _ _ _ hkey hcolon hvalue =>
        have hkey := str_length hkey
        have hcolon := structural_unitLength hcolon
        have hvalue := str_length (str_of_value hvalue)
        simp only [unitLength_append, minLength, List.forall_mem_singleton]
        constructor
        . omega
        . intro heq
          exact ⟨hkey.right (by omega), hvalue.right (by omega)⟩
      | consMember _ _ _ _ hrest => cases hrest
    | cons m' ms =>
      cases h with
      | @consMember k c _ _ _ _ _ _ hkey hcolon hvalue hcomma hrest =>
        have hkey := str_length hkey
        have hcolon := structural_unitLength hcolon
        have hvalue := str_length (str_of_value hvalue)
        have hcomma := structural_unitLength hcomma
        have hrest := ih hrest
        simp only [unitLength_append]
        rw [List.forall_mem_cons]
        constructor
        . omega
        . intro heq
          exact ⟨⟨hkey.right (by omega), hvalue.right (by omega)⟩, hrest.right (by omega)⟩

def memberText (m : List Char × List Char) : List Char :=
  ['"'] ++ m.1 ++ ['"', ':', '"'] ++ m.2 ++ ['"']

def objText (ms : List (List Char × List Char)) : List Char :=
  ['{'] ++ [','].intercalate (ms.map memberText) ++ ['}']

def units (ms : List (List Char × List Char)) : List (List UInt16 × List UInt16) :=
  ms.map (fun (k, v) => (JsString.ofChars k, JsString.ofChars v))

def Unescaped (m : List Char × List Char) : Prop :=
  (∀ c ∈ m.1, isUnescaped c = true) ∧ ∀ c ∈ m.2, isUnescaped c = true

theorem structural_self (c : Char) : Structural c [c] := by
  exact ⟨[], [], by simp [Ws], by simp [Ws], rfl⟩

theorem str_of_unescaped {s : List Char} (h : ∀ c ∈ s, isUnescaped c = true)
    : Str (['"'] ++ s ++ ['"']) (JsString.ofChars s) := by
  exact ⟨s, chars_of_unescaped h, rfl⟩

theorem derives_members {ms : List (List Char × List Char)} (hne : ms ≠ [])
    (h : ∀ m ∈ ms, Unescaped m)
    : Derives (.members (strMembers (units ms))) ([','].intercalate (ms.map memberText)) := by
  induction ms with
  | nil => contradiction
  | cons m ms ih =>
    rw [List.forall_mem_cons] at h
    rcases h with ⟨⟨hkey, hvalue⟩, h⟩
    have hkey := str_of_unescaped hkey
    have hvalue := Derives.str (str_of_unescaped hvalue)
    cases ms with
    | nil =>
      have hlast := Derives.lastMember hkey (structural_self ':') hvalue
      simpa [memberText, strMembers, units] using hlast
    | cons m' ms =>
      have hcons := Derives.consMember hkey (structural_self ':') hvalue (structural_self ',')
        (ih (List.cons_ne_nil _ _) h)
      simpa [memberText, strMembers, units] using hcons

theorem text_objText {ms : List (List Char × List Char)} (h : ∀ m ∈ ms, Unescaped m)
    : Text (objText ms) (.obj (strMembers (units ms))) := by
  refine ⟨[], objText ms, [], by simp [Ws], ?_, by simp [Ws], by simp⟩
  unfold objText
  cases ms with
  | nil => exact Derives.emptyObj (structural_self '{') (structural_self '}')
  | cons m ms =>
    apply Derives.obj
    . apply structural_self
    . apply derives_members (List.cons_ne_nil _ _) h
    . apply structural_self

theorem unitLength_intercalate {ms : List (List Char × List Char)} (hne : ms ≠ [])
    : unitLength ([','].intercalate (ms.map memberText)) + 1 = minLength (units ms) := by
  have hquote : (utf16 '"').length = 1 := by
    decide
  have hcolon : (utf16 ':').length = 1 := by
    decide
  have hcomma : (utf16 ',').length = 1 := by
    decide
  have hmember (m : List Char × List Char) : unitLength (memberText m)
      = (JsString.ofChars m.1).length + (JsString.ofChars m.2).length + 5 := by
    simp only [memberText, unitLength_append, unitLength_cons, unitLength_nil, hquote, hcolon]
    unfold unitLength
    omega
  induction ms with
  | nil => contradiction
  | cons m ms ih =>
    cases ms with
    | nil =>
      simp only [List.map_cons, List.map_nil, List.intercalate_singleton, hmember, units, minLength]
    | cons m' ms =>
      have ih := ih (List.cons_ne_nil _ _)
      simp only [List.map_cons, List.intercalate_cons_cons, unitLength_append, unitLength_cons,
        unitLength_nil, hmember, hcomma] at ih ⊢
      simp only [units, List.map_cons, minLength] at ih ⊢
      omega

theorem unescaped_of_plain {ms : List (List Char × List Char)}
    (h : ∀ m ∈ units ms, Plain m.1 ∧ Plain m.2)
    : ∀ m ∈ ms, Unescaped m := by
  rintro ⟨key, value⟩ hmem
  rcases h (JsString.ofChars key, JsString.ofChars value) (List.mem_map.mpr ⟨_, hmem, rfl⟩)
    with ⟨⟨key', hkey, hkeq⟩, ⟨value', hvalue, hveq⟩⟩
  rw [← JsString.ofChars_injective hkeq, ← JsString.ofChars_injective hveq]
  exact ⟨hkey, hvalue⟩

theorem text_objText_iff (ms : List (List Char × List Char))
    : Text (objText ms) (.obj (strMembers (units ms))) ↔ ∀ m ∈ ms, Unescaped m := by
  constructor
  . rintro ⟨before, body, after, _, hbody, _, heq⟩
    cases ms with
    | nil => simp
    | cons m ms =>
      cases hbody with
      | @obj b s e _ hopen hmembers hclose =>
        -- No other text of these members is shorter, so that this one has to be the shortest.
        have hlen := congrArg unitLength heq
        have hmin := unitLength_intercalate (List.cons_ne_nil m ms)
        have hopen := structural_unitLength hopen
        have hclose := structural_unitLength hclose
        have hmembers := members_length hmembers
        have hbraces : (utf16 '{').length = 1 ∧ (utf16 '}').length = 1 := by
          decide
        simp only [objText, unitLength_append, unitLength_cons, unitLength_nil, hbraces] at hlen
        apply unescaped_of_plain
        apply hmembers.right
        omega
  . apply text_objText

end Json
