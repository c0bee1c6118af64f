import SupportFile.Json.Lemmas.Soundness

/-!
This module contains the proof that the parser accepts everything that the grammar derives. Together
with soundness it shows that the grammar is unambiguous.
-/

namespace Json

theorem skipWs_append {w : List Char} (hw : Ws w) (s : List Char)
    : skipWs (w ++ s) = skipWs s := by
  induction w with
  | nil => rfl
  | cons c w ih =>
    have hc : isWs c = true := hw c List.mem_cons_self
    rw [List.cons_append, skipWs, List.dropWhile_cons_of_pos hc]
    apply ih
    intro c' hc'
    apply hw c' (List.mem_cons_of_mem c hc')

theorem next_append {w : List Char} (hw : Ws w) (s : List Char) : next (w ++ s) = next s := by
  unfold next
  rw [skipWs_append hw]

theorem next_cons {c : Char} (hc : isWs c = false) (s : List Char) : next (c :: s) = some (c, s) := by
  simp [next, skipWs, hc]

theorem next_structural {c : Char} {m : List Char} (hc : isWs c = false) (h : Structural c m)
    : ∃ w, Ws w ∧ ∀ w' s, Ws w' → next (w' ++ (m ++ s)) = some (c, w ++ s) := by
  rcases h with ⟨before, after, hbefore, hafter, rfl⟩
  refine ⟨after, hafter, ?_⟩
  intro w' s hw'
  rw [next_append hw', List.append_assoc, next_append hbefore, List.cons_append, next_cons hc]

theorem parseValue_append {w : List Char} (hw : Ws w) (fuel : Nat) (s : List Char)
    : parseValue fuel (w ++ s) = parseValue fuel s := by
  cases fuel with
  | zero => rfl
  | succ fuel => rw [parseValue, parseValue, next_append hw]

theorem parseElements_append {w : List Char} (hw : Ws w) (fuel : Nat) (s : List Char)
    : parseElements fuel (w ++ s) = parseElements fuel s := by
  cases fuel with
  | zero => rfl
  | succ fuel => rw [parseElements, parseElements, parseValue_append hw]

theorem parseMembers_append {w : List Char} (hw : Ws w) (fuel : Nat) (s : List Char)
    : parseMembers fuel (w ++ s) = parseMembers fuel s := by
  cases fuel with
  | zero => rfl
  | succ fuel => rw [parseMembers, parseMembers, next_append hw]

theorem parseChars_complete {body : List Char} {us : List UInt16} (h : Chars body us)
    (r : List Char)
    : parseChars (body ++ '"' :: r) = some (us, r) := by
  induction h with
  | nil =>
    rw [List.nil_append, parseChars.eq_def]
    simp
  | unescaped c hc _ ih =>
    have hc' := hc
    simp only [isUnescaped, Bool.and_eq_true, bne_iff_ne, ne_eq] at hc'
    rw [List.cons_append, parseChars.eq_def]
    simp [hc, hc', ih]
  | escaped c hu _ ih =>
    have hc : c ≠ 'u' := by
      intro hc
      rw [hc] at hu
      simp [unescape] at hu
    rw [List.cons_append, List.cons_append, parseChars.eq_def]
    simp [hc, hu, ih]
  | hex a b c d hu _ ih =>
    simp only [List.cons_append]
    rw [parseChars.eq_def]
    simp [hu, ih]

def Follow (rest : List Char) : Prop :=
  ∀ c r, rest = c :: r → isNumberChar c = false

theorem isNumberChar_eq_false_of_isWs {c : Char} (h : isWs c = true) : isNumberChar c = false := by
  cases hc : isNumberChar c with
  | false => rfl
  | true => rw [isWs_eq_false_of_isNumberChar hc] at h; contradiction

theorem Follow.ws_append {w rest : List Char} (hw : Ws w) (h : Follow rest)
    : Follow (w ++ rest) := by
  cases w with
  | nil => exact h
  | cons c w =>
    intro c' r heq
    simp only [List.cons_append, List.cons.injEq] at heq
    rw [← heq.left]
    apply isNumberChar_eq_false_of_isWs (hw c List.mem_cons_self)

theorem Follow.structural_append {c : Char} {m : List Char} (hc : isNumberChar c = false)
    (h : Structural c m) (rest : List Char)
    : Follow (m ++ rest) := by
  rcases h with ⟨before, after, hbefore, _, rfl⟩
  rw [List.append_assoc]
  apply Follow.ws_append hbefore
  intro c' r heq
  simp only [List.cons_append, List.cons.injEq] at heq
  rw [← heq.left]
  assumption

theorem takeWhile_append_of_follow {s rest : List Char} (h : ∀ c ∈ s, isNumberChar c = true)
    (hrest : Follow rest)
    : (s ++ rest).takeWhile isNumberChar = s ∧ (s ++ rest).dropWhile isNumberChar = rest := by
  have htail : rest.takeWhile isNumberChar = [] ∧ rest.dropWhile isNumberChar = rest := by
    cases rest with
    | nil => simp
    | cons c r => simp [hrest c r rfl]
  constructor
  . rw [List.takeWhile_append_of_pos h, htail.left, List.append_nil]
  . rw [List.dropWhile_append_of_pos h, htail.right]

theorem ne_of_isNumberChar {c : Char} (h : isNumberChar c = true)
    : c ≠ '"' ∧ c ≠ '[' ∧ c ≠ '{' ∧ c ≠ 'n' ∧ c ≠ 't' ∧ c ≠ 'f' := by
  refine ⟨?_, ?_, ?_, ?_, ?_, ?_⟩
  all_goals
    intro hc
    subst hc
    revert h
    decide

theorem parseValue_number {s rest : List Char} (h : isNumber s = true) (hrest : Follow rest)
    (fuel : Nat)
    : parseValue (fuel + 1) (s ++ rest) = some (.num s, rest) := by
  have hchars := isNumberChar_of_isNumber h
  cases s with
  | nil => contradiction
  | cons c s =>
    have hc := hchars c List.mem_cons_self
    have hne := ne_of_isNumberChar hc
    have hspan := takeWhile_append_of_follow hchars hrest
    rw [parseValue, List.cons_append, next_cons (isWs_eq_false_of_isNumberChar hc)]
    rw [List.cons_append] at hspan
    simp [hne, parseNumber, hspan, h]

theorem parseValue_close {c : Char} (hc : isWs c = false) (hnum : isNumberChar c = false)
    (hne : c ≠ '"' ∧ c ≠ '[' ∧ c ≠ '{' ∧ c ≠ 'n' ∧ c ≠ 't' ∧ c ≠ 'f') (fuel : Nat)
    (s : List Char)
    : parseValue fuel (c :: s) = none := by
  cases fuel with
  | zero => rfl
  | succ fuel =>
    rw [parseValue, next_cons hc]
    simp [hne, parseNumber, hnum, isNumber]

theorem parseElements_close (fuel : Nat) (s : List Char)
    : parseElements fuel (']' :: s) = none := by
  cases fuel with
  | zero => rfl
  | succ fuel =>
    rw [parseElements, parseValue_close rfl rfl (by decide)]
    rfl

theorem parseMembers_close (fuel : Nat) (s : List Char)
    : parseMembers fuel ('}' :: s) = none := by
  cases fuel with
  | zero => rfl
  | succ fuel =>
    rw [parseMembers, next_cons rfl]
    simp

theorem structural_length {c : Char} {m : List Char} (h : Structural c m) : 0 < m.length := by
  rcases h with ⟨before, after, _, _, rfl⟩
  rw [List.length_append, List.length_cons]
  omega

theorem derives_length {φ : Phrase} {s : List Char} (h : Derives φ s) : 0 < s.length := by
  induction h with
  | null | true | false => simp
  | @num s h =>
    cases s with
    | nil => contradiction
    | cons => simp
  | str h =>
    rcases h with ⟨body, _, rfl⟩
    simp
  | emptyArr hb _ | emptyObj hb _ | arr hb _ _ _ | obj hb _ _ _ =>
    have := structural_length hb
    simp only [List.length_append]
    omega
  | lastElement _ ih => exact ih
  | consElement _ _ _ ih _ =>
    simp only [List.length_append]
    omega
  | lastMember _ _ _ ih | consMember _ _ _ _ _ ih _ =>
    simp only [List.length_append]
    omega

def Complete (s : List Char) : Phrase → Prop
  | .value v =>
    ∀ fuel rest, 2 * s.length ≤ fuel → Follow rest →
      ∃ w, Ws w ∧ parseValue fuel (s ++ rest) = some (v, w ++ rest)
  | .elements vs =>
    ∀ fuel e rest, 2 * s.length < fuel → Structural ']' e →
      ∃ w, Ws w ∧ parseElements fuel (s ++ (e ++ rest)) = some (vs, w ++ rest)
  | .members ms =>
    ∀ fuel e rest, 2 * s.length < fuel → Structural '}' e →
      ∃ w, Ws w ∧ parseMembers fuel (s ++ (e ++ rest)) = some (ms, w ++ rest)

theorem parseValue_str {s : List Char} {us : List UInt16} (h : Str s us) (fuel : Nat)
    (rest : List Char)
    : parseValue (fuel + 1) (s ++ rest) = some (.str us, rest) := by
  rcases h with ⟨body, hbody, rfl⟩
  rw [parseValue, List.cons_append, List.cons_append, next_cons rfl]
  have := parseChars_complete hbody rest
  simp [this]

theorem structural_pair {o c : Char} {b e : List Char} (hb : Structural o b) (he : Structural c e)
    (rest : List Char)
    : ∃ before inner w, Ws before ∧ Ws inner ∧ Ws w
        ∧ b ++ e ++ rest = before ++ o :: (inner ++ c :: (w ++ rest)) := by
  rcases hb with ⟨before, after, hbefore, hafter, rfl⟩
  rcases he with ⟨before', after', hbefore', hafter', rfl⟩
  refine ⟨before, after ++ before', after', hbefore, hafter.append hbefore', hafter', ?_⟩
  simp

theorem complete_emptyArr {b e : List Char} (hb : Structural '[' b) (he : Structural ']' e)
    : Complete (b ++ e) (.value (.arr [])) := by
  intro fuel rest hfuel _
  have hblen := structural_length hb
  rcases structural_pair hb he rest with ⟨before, inner, w, hbefore, hinner, hw, heq⟩
  refine ⟨w, hw, ?_⟩
  simp only [List.length_append] at hfuel
  cases fuel with
  | zero => omega
  | succ fuel =>
    -- There is no element, so the bracket behind the whitespace closes the array.
    have hnone : parseElements fuel (inner ++ ']' :: (w ++ rest)) = none := by
      rw [parseElements_append hinner, parseElements_close]
    have hclose : next (inner ++ ']' :: (w ++ rest)) = some (']', w ++ rest) := by
      rw [next_append hinner, next_cons rfl]
    rw [heq, parseValue_append hbefore, parseValue, next_cons rfl]
    simp [hnone, parseClose, hclose]

theorem complete_emptyObj {b e : List Char} (hb : Structural '{' b) (he : Structural '}' e)
    : Complete (b ++ e) (.value (.obj [])) := by
  intro fuel rest hfuel _
  have hblen := structural_length hb
  rcases structural_pair hb he rest with ⟨before, inner, w, hbefore, hinner, hw, heq⟩
  refine ⟨w, hw, ?_⟩
  simp only [List.length_append] at hfuel
  cases fuel with
  | zero => omega
  | succ fuel =>
    have hnone : parseMembers fuel (inner ++ '}' :: (w ++ rest)) = none := by
      rw [parseMembers_append hinner, parseMembers_close]
    have hclose : next (inner ++ '}' :: (w ++ rest)) = some ('}', w ++ rest) := by
      rw [next_append hinner, next_cons rfl]
    rw [heq, parseValue_append hbefore, parseValue, next_cons rfl]
    simp [hnone, parseClose, hclose]

theorem complete_arr {b s e : List Char} {vs : List Json} (hb : Structural '[' b)
    (ih : Complete s (.elements vs)) (he : Structural ']' e)
    : Complete (b ++ s ++ e) (.value (.arr vs)) := by
  intro fuel rest hfuel _
  have helen := structural_length he
  rcases hb with ⟨before, after, hbefore, hafter, rfl⟩
  simp only [List.length_append, List.length_cons] at hfuel
  cases fuel with
  | zero => omega
  | succ fuel =>
    rcases ih fuel e rest (by omega) he with ⟨w, hw, hparse⟩
    refine ⟨w, hw, ?_⟩
    simp only [List.append_assoc, List.cons_append]
    rw [parseValue_append hbefore, parseValue, next_cons rfl]
    simp [parseElements_append hafter, hparse]

theorem complete_obj {b s e : List Char} {ms : List (List UInt16 × Json)} (hb : Structural '{' b)
    (ih : Complete s (.members ms)) (he : Structural '}' e)
    : Complete (b ++ s ++ e) (.value (.obj ms)) := by
  intro fuel rest hfuel _
  have helen := structural_length he
  rcases hb with ⟨before, after, hbefore, hafter, rfl⟩
  simp only [List.length_append, List.length_cons] at hfuel
  cases fuel with
  | zero => omega
  | succ fuel =>
    rcases ih fuel e rest (by omega) he with ⟨w, hw, hparse⟩
    refine ⟨w, hw, ?_⟩
    simp only [List.append_assoc, List.cons_append]
    rw [parseValue_append hbefore, parseValue, next_cons rfl]
    simp [parseMembers_append hafter, hparse]

theorem complete_lastElement {s : List Char} {v : Json} (ih : Complete s (.value v))
    : Complete s (.elements [v]) := by
  intro fuel e rest hfuel he
  cases fuel with
  | zero => omega
  | succ fuel =>
    rcases ih fuel (e ++ rest) (by omega) (Follow.structural_append rfl he rest) with
      ⟨w, hw, hvalue⟩
    rcases next_structural rfl he with ⟨w', hw', hnext⟩
    refine ⟨w', hw', ?_⟩
    rw [parseElements, hvalue]
    simp [hnext w rest hw]

theorem complete_consElement {s m r : List Char} {v : Json} {vs : List Json}
    (ihv : Complete s (.value v)) (hm : Structural ',' m) (ihr : Complete r (.elements vs))
    : Complete (s ++ m ++ r) (.elements (v :: vs)) := by
  intro fuel e rest hfuel he
  have hmlen := structural_length hm
  simp only [List.length_append] at hfuel
  cases fuel with
  | zero => omega
  | succ fuel =>
    -- The comma keeps the element from going on, and it takes the whitespace on both sides of it.
    rcases ihv fuel (m ++ (r ++ (e ++ rest))) (by omega) (Follow.structural_append rfl hm _) with
      ⟨w, hw, hvalue⟩
    rcases next_structural rfl hm with ⟨w', hw', hnext⟩
    rcases ihr fuel e rest (by omega) he with ⟨w'', hw'', helems⟩
    refine ⟨w'', hw'', ?_⟩
    rw [List.append_assoc, List.append_assoc, parseElements, hvalue]
    simp [hnext w _ hw, parseElements_append hw', helems]

theorem parseMembers_key {k c : List Char} {us : List UInt16} (hk : Str k us)
    (hc : Structural ':' c)
    : ∃ body w, Ws w ∧ ∀ r, next (k ++ (c ++ r)) = some ('"', body ++ '"' :: (c ++ r))
        ∧ parseChars (body ++ '"' :: (c ++ r)) = some (us, c ++ r)
        ∧ next (c ++ r) = some (':', w ++ r) := by
  rcases hk with ⟨body, hbody, rfl⟩
  rcases next_structural rfl hc with ⟨w, hw, hnext⟩
  refine ⟨body, w, hw, ?_⟩
  intro r
  refine ⟨?_, parseChars_complete hbody _, hnext [] r Ws.nil⟩
  simp only [List.cons_append, List.append_assoc, List.nil_append]
  apply next_cons
  rfl

theorem complete_lastMember {k c s : List Char} {us : List UInt16} {v : Json} (hk : Str k us)
    (hc : Structural ':' c) (ih : Complete s (.value v))
    : Complete (k ++ c ++ s) (.members [(us, v)]) := by
  intro fuel e rest hfuel he
  simp only [List.length_append] at hfuel
  cases fuel with
  | zero => omega
  | succ fuel =>
    rcases ih fuel (e ++ rest) (by omega) (Follow.structural_append rfl he rest) with
      ⟨w, hw, hvalue⟩
    rcases next_structural rfl he with ⟨w', hw', hnext⟩
    rcases parseMembers_key hk hc with ⟨body, w'', hw'', hkey⟩
    refine ⟨w', hw', ?_⟩
    rcases hkey (s ++ (e ++ rest)) with ⟨hquote, hchars, hcolon⟩
    rw [List.append_assoc, List.append_assoc, parseMembers, hquote]
    simp [hchars, hcolon, parseValue_append hw'', hvalue, hnext w rest hw]

theorem complete_consMember {k c s m r : List Char} {us : List UInt16} {v : Json}
    {ms : List (List UInt16 × Json)} (hk : Str k us) (hc : Structural ':' c)
    (ihv : Complete s (.value v)) (hm : Structural ',' m) (ihr : Complete r (.members ms))
    : Complete (k ++ c ++ s ++ m ++ r) (.members ((us, v) :: ms)) := by
  intro fuel e rest hfuel he
  have hmlen := structural_length hm
  simp only [List.length_append] at hfuel
  cases fuel with
  | zero => omega
  | succ fuel =>
    rcases ihv fuel (m ++ (r ++ (e ++ rest))) (by omega) (Follow.structural_append rfl hm _) with
      ⟨w, hw, hvalue⟩
    rcases next_structural rfl hm with ⟨w', hw', hnext⟩
    rcases ihr fuel e rest (by omega) he with ⟨w'', hw'', hmembers⟩
    rcases parseMembers_key hk hc with ⟨body, w3, hw3, hkey⟩
    refine ⟨w'', hw'', ?_⟩
    rcases hkey (s ++ (m ++ (r ++ (e ++ rest)))) with ⟨hquote, hchars, hcolon⟩
    simp only [List.append_assoc]
    rw [parseMembers, hquote]
    simp [hchars, hcolon, parseValue_append hw3, hvalue, hnext w _ hw, parseMembers_append hw',
      hmembers]

theorem complete {φ : Phrase} {s : List Char} (h : Derives φ s) : Complete s φ := by
  induction h with
  | null | true | false =>
    intro fuel rest hfuel _
    refine ⟨[], Ws.nil, ?_⟩
    cases fuel with
    | zero => simp at hfuel
    | succ fuel =>
      simp only [List.cons_append]
      rw [parseValue, next_cons rfl]
      simp [parseKeyword]
  | @num s h =>
    intro fuel rest hfuel hrest
    have hlen := derives_length (.num h)
    refine ⟨[], Ws.nil, ?_⟩
    cases fuel with
    | zero => omega
    | succ fuel => apply parseValue_number h hrest fuel
  | @str s us h =>
    intro fuel rest hfuel _
    have hlen := derives_length (.str h)
    refine ⟨[], Ws.nil, ?_⟩
    cases fuel with
    | zero => omega
    | succ fuel => apply parseValue_str h fuel rest
  | emptyArr hb he => apply complete_emptyArr hb he
  | arr hb _ he ih => apply complete_arr hb ih he
  | emptyObj hb he => apply complete_emptyObj hb he
  | obj hb _ he ih => apply complete_obj hb ih he
  | lastElement _ ih => apply complete_lastElement ih
  | consElement _ hm _ ihv ihr => apply complete_consElement ihv hm ihr
  | lastMember hk hc _ ih => apply complete_lastMember hk hc ih
  | consMember hk hc _ hm _ ihv ihr => apply complete_consMember hk hc ihv hm ihr

theorem parse_of_text {s : List Char} {v : Json} (h : Text s v) : parse s = some v := by
  rcases h with ⟨before, body, after, hbefore, hbody, hafter, rfl⟩
  have hfollow : Follow after := by
    have hnil : Follow [] := by
      intro c r heq
      contradiction
    have := Follow.ws_append hafter hnil
    rwa [List.append_nil] at this
  rcases complete hbody (2 * (before ++ body ++ after).length) after
    (by simp only [List.length_append]; omega) hfollow with ⟨w, hw, hvalue⟩
  have hrest : skipWs (w ++ after) = [] := by
    have := skipWs_append (hw.append hafter) []
    rwa [List.append_nil] at this
  unfold parse
  rw [List.append_assoc, parseValue_append hbefore, ← List.append_assoc, hvalue]
  simp [hrest]

theorem parse_eq_some_iff {s : List Char} {v : Json} : parse s = some v ↔ Text s v := by
  constructor
  . apply text_of_parse
  . apply parse_of_text

theorem Text.unique {s : List Char} {v v' : Json} (h : Text s v) (h' : Text s v') : v = v' := by
  rw [← parse_eq_some_iff] at h h'
  rw [h] at h'
  simpa using h'

end Json
