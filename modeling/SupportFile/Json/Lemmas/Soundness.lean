import SupportFile.Json.Parser
import SupportFile.Json.Lemmas.Erase

/-!
This module contains the proof that the parser only accepts what the grammar derives.
-/

namespace Json

theorem skipWs_spec (s : List Char) : ∃ w, Ws w ∧ s = w ++ skipWs s := by
  refine ⟨s.takeWhile isWs, ?_, ?_⟩
  . intro c hc
    apply List.mem_takeWhile_imp hc
  . unfold skipWs
    rw [List.takeWhile_append_dropWhile]

theorem next_sound {s r : List Char} {c : Char} (h : next s = some (c, r))
    : ∃ w, Ws w ∧ s = w ++ c :: r := by
  rcases skipWs_spec s with ⟨w, hw, hs⟩
  refine ⟨w, hw, ?_⟩
  unfold next at h
  split at h
  . contradiction
  . next heq =>
    simp only [Option.some.injEq, Prod.mk.injEq] at h
    rw [← h.left, ← h.right, ← heq]
    assumption

theorem structural_of_next {s r w : List Char} {c : Char} (h : next s = some (c, w ++ r))
    (hw : Ws w)
    : ∃ m, Structural c m ∧ s = m ++ r := by
  rcases next_sound h with ⟨w', hw', rfl⟩
  refine ⟨w' ++ c :: w, ⟨w', w, hw', hw, rfl⟩, ?_⟩
  simp

theorem parseChars_sound {s r : List Char} {us : List UInt16} (h : parseChars s = some (us, r))
    : ∃ body, Chars body us ∧ s = body ++ '"' :: r := by
  fun_induction parseChars s generalizing us r with
  | case1 => contradiction
  | case2 c s hc =>
    simp only [beq_iff_eq] at hc
    simp only [Option.some.injEq, Prod.mk.injEq] at h
    refine ⟨[], ?_, ?_⟩
    . rw [← h.left]
      exact .nil
    . rw [hc, h.right]
      rfl
  | case3 => contradiction
  | case4 c hc hesc e he a b c' d r' ih =>
    simp only [beq_iff_eq] at hesc he
    simp only [Option.bind_eq_bind, Option.bind_eq_some_iff] at h
    rcases h with ⟨u, hu, ⟨us', r''⟩, hrec, h⟩
    simp only [Option.pure_def, Option.some.injEq, Prod.mk.injEq] at h
    rcases ih hrec with ⟨body, hbody, rfl⟩
    refine ⟨'\\' :: 'u' :: a :: b :: c' :: d :: body, ?_, ?_⟩
    . rw [← h.left]
      exact .hex a b c' d hu hbody
    . rw [← h.right, hesc, he]
      rfl
  | case5 => contradiction
  | case6 c hc hesc e r' he ih =>
    simp only [beq_iff_eq] at hesc
    simp only [Option.bind_eq_bind, Option.bind_eq_some_iff] at h
    rcases h with ⟨u, hu, ⟨us', r''⟩, hrec, h⟩
    simp only [Option.pure_def, Option.some.injEq, Prod.mk.injEq] at h
    rcases ih hrec with ⟨body, hbody, rfl⟩
    refine ⟨'\\' :: e :: body, ?_, ?_⟩
    . rw [← h.left]
      exact .escaped e hu hbody
    . rw [← h.right, hesc]
      rfl
  | case7 c s hc hesc hun ih =>
    simp only [Option.bind_eq_bind, Option.bind_eq_some_iff] at h
    rcases h with ⟨⟨us', r''⟩, hrec, h⟩
    simp only [Option.pure_def, Option.some.injEq, Prod.mk.injEq] at h
    rcases ih hrec with ⟨body, hbody, rfl⟩
    refine ⟨c :: body, ?_, ?_⟩
    . rw [← h.left]
      exact .unescaped c hun hbody
    . rw [← h.right]
      rfl
  | case8 => contradiction

theorem parseKeyword_sound {word s r : List Char} {v v' : Json}
    (h : parseKeyword word v s = some (v', r))
    : v' = v ∧ s = word ++ r := by
  unfold parseKeyword at h
  split at h
  . next hprefix =>
    rw [List.isPrefixOf_iff_prefix] at hprefix
    rcases hprefix with ⟨t, rfl⟩
    simp only [List.drop_left, Option.some.injEq, Prod.mk.injEq] at h
    rw [h.right]
    exact ⟨h.left.symm, rfl⟩
  . contradiction

theorem parseNumber_sound {s r : List Char} {v : Json} (h : parseNumber s = some (v, r))
    : ∃ t, Derives (.value v) t ∧ s = t ++ r := by
  unfold parseNumber at h
  split at h
  . next hnum =>
    simp only [Option.some.injEq, Prod.mk.injEq] at h
    refine ⟨s.takeWhile isNumberChar, ?_, ?_⟩
    . rw [← h.left]
      exact .num hnum
    . rw [← h.right, List.takeWhile_append_dropWhile]
  . contradiction

theorem parseClose_sound {c : Char} {s r : List Char} {v v' : Json}
    (h : parseClose c v s = some (v', r))
    : v' = v ∧ ∃ e, Structural c e ∧ s = e ++ r := by
  simp only [parseClose, Option.bind_eq_bind, Option.bind_eq_some_iff] at h
  rcases h with ⟨⟨c', r'⟩, hnext, h⟩
  dsimp at h
  split at h
  . next hc =>
    simp only [beq_iff_eq] at hc
    simp only [Option.some.injEq, Prod.mk.injEq] at h
    subst hc
    rw [h.right] at hnext
    exact ⟨h.left.symm, structural_of_next (w := []) hnext Ws.nil⟩
  . contradiction

def Sound (fuel : Nat) : Prop :=
  (∀ s v r, parseValue fuel s = some (v, r) →
    ∃ w t, Ws w ∧ Derives (.value v) t ∧ s = w ++ (t ++ r))
  ∧
  (∀ s vs r, parseElements fuel s = some (vs, r) →
    ∃ w t e, Ws w ∧ Derives (.elements vs) t ∧ Structural ']' e ∧ s = w ++ (t ++ (e ++ r)))
  ∧
  (∀ s ms r, parseMembers fuel s = some (ms, r) →
    ∃ w t e, Ws w ∧ Derives (.members ms) t ∧ Structural '}' e ∧ s = w ++ (t ++ (e ++ r)))

theorem structural_cons (c : Char) {w : List Char} (hw : Ws w) : Structural c (c :: w) := by
  exact ⟨[], w, Ws.nil, hw, rfl⟩

theorem parseValue_sound {fuel : Nat} (ih : Sound fuel) {s r : List Char} {v : Json}
    (h : parseValue (fuel + 1) s = some (v, r))
    : ∃ w t, Ws w ∧ Derives (.value v) t ∧ s = w ++ (t ++ r) := by
  rcases ih with ⟨_, ihelems, ihmembers⟩
  simp only [parseValue, Option.bind_eq_bind, Option.bind_eq_some_iff] at h
  rcases h with ⟨⟨c, r1⟩, hnext, h⟩
  rcases next_sound hnext with ⟨w, hw, rfl⟩
  refine ⟨w, ?_⟩
  dsimp at h
  split at h
  . next hc =>
    simp only [beq_iff_eq] at hc
    simp only [Option.bind_eq_some_iff] at h
    rcases h with ⟨⟨us, r2⟩, hchars, h⟩
    simp only [Option.some.injEq, Prod.mk.injEq] at h
    rcases parseChars_sound hchars with ⟨body, hbody, rfl⟩
    refine ⟨'"' :: body ++ ['"'], hw, ?_, ?_⟩
    . rw [← h.left]
      exact .str ⟨body, hbody, rfl⟩
    . rw [← h.right, hc]
      simp
  . split at h
    . next hc =>
      simp only [beq_iff_eq] at hc
      subst hc
      split at h
      . next vs r2 helems =>
        simp only [Option.some.injEq, Prod.mk.injEq] at h
        rcases ihelems _ _ _ helems with ⟨w', t, e, hw', ht, he, rfl⟩
        refine ⟨'[' :: w' ++ t ++ e, hw, ?_, ?_⟩
        . rw [← h.left]
          exact .arr (structural_cons '[' hw') ht he
        . rw [← h.right]
          simp
      . rcases parseClose_sound h with ⟨rfl, e, he, rfl⟩
        refine ⟨['['] ++ e, hw, .emptyArr (structural_cons '[' Ws.nil) he, ?_⟩
        simp
    . split at h
      . next hc =>
        simp only [beq_iff_eq] at hc
        subst hc
        split at h
        . next ms r2 hmembers =>
          simp only [Option.some.injEq, Prod.mk.injEq] at h
          rcases ihmembers _ _ _ hmembers with ⟨w', t, e, hw', ht, he, rfl⟩
          refine ⟨'{' :: w' ++ t ++ e, hw, ?_, ?_⟩
          . rw [← h.left]
            exact .obj (structural_cons '{' hw') ht he
          . rw [← h.right]
            simp
        . rcases parseClose_sound h with ⟨rfl, e, he, rfl⟩
          refine ⟨['{'] ++ e, hw, .emptyObj (structural_cons '{' Ws.nil) he, ?_⟩
          simp
      . split at h
        . next hc =>
          simp only [beq_iff_eq] at hc
          rcases parseKeyword_sound h with ⟨rfl, rfl⟩
          exact ⟨_, hw, .null, by rw [hc]; rfl⟩
        . split at h
          . next hc =>
            simp only [beq_iff_eq] at hc
            rcases parseKeyword_sound h with ⟨rfl, rfl⟩
            exact ⟨_, hw, .true, by rw [hc]; rfl⟩
          . split at h
            . next hc =>
              simp only [beq_iff_eq] at hc
              rcases parseKeyword_sound h with ⟨rfl, rfl⟩
              exact ⟨_, hw, .false, by rw [hc]; rfl⟩
            . rcases parseNumber_sound h with ⟨t, ht, heq⟩
              exact ⟨t, hw, ht, by rw [heq]⟩

theorem parseElements_sound {fuel : Nat} (ih : Sound fuel) {s r : List Char} {vs : List Json}
    (h : parseElements (fuel + 1) s = some (vs, r))
    : ∃ w t e, Ws w ∧ Derives (.elements vs) t ∧ Structural ']' e
        ∧ s = w ++ (t ++ (e ++ r)) := by
  rcases ih with ⟨ihvalue, ihelems, _⟩
  simp only [parseElements, Option.bind_eq_bind, Option.bind_eq_some_iff] at h
  rcases h with ⟨⟨v, r1⟩, hvalue, ⟨c, r2⟩, hnext, h⟩
  rcases ihvalue _ _ _ hvalue with ⟨w, t, hw, ht, rfl⟩
  dsimp at h hnext
  split at h
  . next hc =>
    simp only [beq_iff_eq] at hc
    subst hc
    simp only [Option.bind_eq_some_iff] at h
    rcases h with ⟨⟨vs', r3⟩, helems, h⟩
    simp only [Option.some.injEq, Prod.mk.injEq] at h
    rcases ihelems _ _ _ helems with ⟨w', t', e, hw', ht', he, rfl⟩
    rcases structural_of_next hnext hw' with ⟨m, hm, rfl⟩
    refine ⟨w, t ++ m ++ t', e, hw, ?_, he, ?_⟩
    . rw [← h.left]
      exact .consElement ht hm ht'
    . rw [← h.right]
      simp
  . split at h
    . next hc =>
      simp only [beq_iff_eq] at hc
      simp only [Option.some.injEq, Prod.mk.injEq] at h
      subst hc
      rcases structural_of_next (w := []) hnext Ws.nil with ⟨e, he, rfl⟩
      refine ⟨w, t, e, hw, ?_, he, ?_⟩
      . rw [← h.left]
        exact .lastElement ht
      . rw [← h.right]
    . contradiction

theorem parseMembers_sound {fuel : Nat} (ih : Sound fuel) {s r : List Char}
    {ms : List (List UInt16 × Json)} (h : parseMembers (fuel + 1) s = some (ms, r))
    : ∃ w t e, Ws w ∧ Derives (.members ms) t ∧ Structural '}' e
        ∧ s = w ++ (t ++ (e ++ r)) := by
  rcases ih with ⟨ihvalue, _, ihmembers⟩
  simp only [parseMembers, Option.bind_eq_bind, Option.bind_eq_some_iff] at h
  rcases h with ⟨⟨q, r1⟩, hquote, h⟩
  rcases next_sound hquote with ⟨w, hw, rfl⟩
  dsimp at h
  split at h
  . next hq =>
    simp only [beq_iff_eq] at hq
    simp only [Option.bind_eq_some_iff] at h
    rcases h with ⟨⟨us, r2⟩, hchars, ⟨c, r3⟩, hcolon, h⟩
    rcases parseChars_sound hchars with ⟨body, hbody, rfl⟩
    have hkey : Str ('"' :: body ++ ['"']) us := ⟨body, hbody, rfl⟩
    dsimp at h hcolon
    split at h
    . next hc =>
      simp only [beq_iff_eq] at hc
      subst hc
      simp only [Option.bind_eq_some_iff] at h
      rcases h with ⟨⟨v, r4⟩, hvalue, ⟨c, r5⟩, hnext, h⟩
      rcases ihvalue _ _ _ hvalue with ⟨w', t, hw', ht, rfl⟩
      rcases structural_of_next hcolon hw' with ⟨m, hm, rfl⟩
      dsimp at h hnext
      split at h
      . next hc =>
        simp only [beq_iff_eq] at hc
        subst hc
        simp only [Option.bind_eq_some_iff] at h
        rcases h with ⟨⟨ms', r6⟩, hmembers, h⟩
        simp only [Option.some.injEq, Prod.mk.injEq] at h
        rcases ihmembers _ _ _ hmembers with ⟨w'', t', e, hw'', ht', he, rfl⟩
        rcases structural_of_next hnext hw'' with ⟨m', hm', rfl⟩
        refine ⟨w, '"' :: body ++ ['"'] ++ m ++ t ++ m' ++ t', e, hw, ?_, he, ?_⟩
        . rw [← h.left]
          exact .consMember hkey hm ht hm' ht'
        . rw [← h.right, hq]
          simp
      . split at h
        . next hc =>
          simp only [beq_iff_eq] at hc
          simp only [Option.some.injEq, Prod.mk.injEq] at h
          subst hc
          rcases structural_of_next (w := []) hnext Ws.nil with ⟨e, he, rfl⟩
          refine ⟨w, '"' :: body ++ ['"'] ++ m ++ t, e, hw, ?_, he, ?_⟩
          . rw [← h.left]
            exact .lastMember hkey hm ht
          . rw [← h.right, hq]
            simp
        . contradiction
    . contradiction
  . contradiction

theorem sound (fuel : Nat) : Sound fuel := by
  induction fuel with
  | zero =>
    refine ⟨?_, ?_, ?_⟩
    . intro s v r h
      simp [parseValue] at h
    . intro s vs r h
      simp [parseElements] at h
    . intro s ms r h
      simp [parseMembers] at h
  | succ fuel ih =>
    refine ⟨?_, ?_, ?_⟩
    . intro s v r h
      apply parseValue_sound ih h
    . intro s vs r h
      apply parseElements_sound ih h
    . intro s ms r h
      apply parseMembers_sound ih h

theorem text_of_parse {s : List Char} {v : Json} (h : parse s = some v) : Text s v := by
  simp only [parse, Option.bind_eq_bind, Option.bind_eq_some_iff] at h
  rcases h with ⟨⟨v', r⟩, hvalue, h⟩
  dsimp at h
  split at h
  . next hr =>
    simp only [Option.some.injEq] at h
    subst h
    rcases (sound _).left _ _ _ hvalue with ⟨w, t, hw, ht, heq⟩
    rcases skipWs_spec r with ⟨w', hw', hr'⟩
    simp only [List.isEmpty_iff] at hr
    rw [hr, List.append_nil] at hr'
    subst hr'
    refine ⟨w, t, r, hw, ht, hw', ?_⟩
    rw [heq, List.append_assoc]
  . contradiction

end Json
