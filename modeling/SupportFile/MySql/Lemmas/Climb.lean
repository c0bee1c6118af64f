import SupportFile.MySql.Lemmas.Tree

/-!
This module contains the function that climbs to the ancestors of a node. It ends where the parents
end, and its list is that of the nodes it has gone through if this list fits into its variable.
-/

namespace HieFunction

open CsNode SepList

variable {table : List CsNode}

/-- The parents of a node end at a `NULL`, at an id that is not there, or at a node of its own. -/
inductive ChainEnds (table : List CsNode) : Int → Prop where
  | null : row ∈ table → row.pId = none → ChainEnds table row.id
  | missing : IsParent table p a → p ∉ ids table → ChainEnds table a
  | self : IsParent table a a → ChainEnds table a
  | up : IsParent table p a → ChainEnds table p → ChainEnds table a

/-- The ids that the loop upwards goes through, which may end with one that is not there. -/
inductive Climbs (table : List CsNode) : Int → List Int → Prop where
  | null : row ∈ table → row.pId = none → Climbs table row.id [row.id]
  | missing : IsParent table p a → p ∉ ids table → Climbs table a [a, p]
  | self : IsParent table a a → Climbs table a [a]
  | up : IsParent table p a → p ≠ a → Climbs table p l → Climbs table a (a :: l)

theorem ChainEnds.climbs {id : Int} (h : ChainEnds table id) : ∃ l, Climbs table id l := by
  induction h with
  | null hrow hpId => exact ⟨_, .null hrow hpId⟩
  | missing hedge hmissing => exact ⟨_, .missing hedge hmissing⟩
  | self hedge => exact ⟨_, .self hedge⟩
  | @up p id hedge _ ih =>
    by_cases hself : p = id
    . subst hself
      exact ⟨_, .self hedge⟩
    . rcases ih with ⟨l, hl⟩
      exact ⟨_, .up hedge hself hl⟩

theorem mem_ids_of_isParent {a b : Int} (h : IsParent table a b) : b ∈ ids table := by
  rcases h with ⟨row, hrow, rfl, _⟩
  apply List.mem_map_of_mem hrow

theorem not_isParent_of_null (hids : (ids table).Nodup) {row : CsNode} (hrow : row ∈ table)
    (hpId : row.pId = none) (a : Int)
    : ¬ IsParent table a row.id := by
  rintro ⟨row', hrow', hid, hpId'⟩
  have := eq_of_id_eq hids hrow hrow' hid.symm
  subst this
  rw [hpId] at hpId'
  contradiction

theorem not_isParent_of_missing {p : Int} (hmissing : p ∉ ids table) (a : Int)
    : ¬ IsParent table a p := by
  intro hedge
  apply hmissing (mem_ids_of_isParent hedge)

theorem Climbs.mem_iff (hids : (ids table).Nodup) {a x : Int} {l : List Int}
    (h : Climbs table a l)
    : x ∈ l ↔ ∃ n, Forest.Steps (IsParent table) n x a := by
  have hR := isParent_leftUnique hids
  induction h with
  | null hrow hpId =>
    rw [List.mem_singleton]
    rw [Forest.Steps.exists_iff_of_root (not_isParent_of_null hids hrow hpId)]
  | missing hedge hmissing =>
    rw [List.mem_cons, List.mem_singleton, Forest.Steps.exists_iff_of_edge hR hedge]
    rw [Forest.Steps.exists_iff_of_root (not_isParent_of_missing hmissing)]
  | self hedge => rw [List.mem_singleton, Forest.Steps.exists_iff_of_loop hR hedge]
  | up hedge _ _ ih =>
    rw [List.mem_cons, Forest.Steps.exists_iff_of_edge hR hedge]
    apply or_congr_right ih

theorem selectInto_of_mem (hids : (ids table).Nodup) {row : CsNode} (hrow : row ∈ table)
    : hieQueUp.selectInto table (castAsChar row.id) = some (row.pId.map castAsChar) := by
  unfold hieQueUp.selectInto
  rw [asNumber_castAsChar, filter_id_eq hids hrow]

theorem selectInto_of_isParent (hids : (ids table).Nodup) {p id : Int}
    (hedge : IsParent table p id)
    : hieQueUp.selectInto table (castAsChar id) = some (some (castAsChar p)) := by
  rcases hedge with ⟨row, hrow, rfl, hpId⟩
  rw [selectInto_of_mem hids hrow, hpId, Option.map_some]

theorem selectInto_of_not_mem {id : Int} (hid : id ∉ ids table)
    : hieQueUp.selectInto table (castAsChar id) = some (some (castAsChar id)) := by
  have hnil : table.filter (fun row => row.id = id) = [] := by
    rw [List.filter_eq_nil_iff]
    intro row hrow heq
    rw [decide_eq_true_eq] at heq
    apply hid
    rw [← heq]
    apply List.mem_map_of_mem hrow
  unfold hieQueUp.selectInto
  rw [asNumber_castAsChar, hnil]

theorem fits_of_append {limits : Limits} {s s' : List Char}
    (h : limits.fits (s' ++ s) = true)
    : limits.fits s = true := by
  unfold Limits.fits at *
  cases hvarchar : limits.varchar with
  | none => rfl
  | some n =>
    rw [hvarchar, Option.all_some, decide_eq_true_eq, List.length_append] at h
    rw [Option.all_some, decide_eq_true_eq]
    omega

def resultIfFits (limits : Limits) (ids : List Char) : Outcome :=
  if limits.fits ids then result ids else .error

def EndsWith (call : Nat → Outcome) (outcome : Outcome) : Prop :=
  (∀ fuel, call fuel = .running ∨ call fuel = outcome) ∧ ∃ fuel, call fuel = outcome

theorem EndsWith.of_forall {call : Nat → Outcome} {outcome : Outcome}
    (h : ∀ fuel, call fuel = outcome)
    : EndsWith call outcome := by
  constructor
  . intro fuel
    exact .inr (h fuel)
  . exact ⟨0, h 0⟩

theorem EndsWith.of_succ {call rest : Nat → Outcome} {outcome : Outcome} (hzero : call 0 = .running)
    (hsucc : ∀ fuel, call (fuel + 1) = rest fuel) (h : EndsWith rest outcome)
    : EndsWith call outcome := by
  constructor
  . intro fuel
    cases fuel with
    | zero => exact .inl hzero
    | succ fuel =>
      rw [hsucc]
      apply h.left
  . rcases h.right with ⟨fuel, hfuel⟩
    refine ⟨fuel + 1, ?_⟩
    rw [hsucc, hfuel]

theorem EndsWith.returns_iff {call : Nat → Outcome} {limits : Limits} {ids out : List Char}
    (h : EndsWith call (resultIfFits limits ids))
    : Returns call out ↔ limits.fits ids = true ∧ out = ids.drop 1 := by
  unfold EndsWith resultIfFits at h
  split at h
  . next hfits =>
    constructor
    . rintro ⟨fuel, hout⟩
      have hfuel := h.left fuel
      rw [hout] at hfuel
      simpa [hfits, result] using hfuel
    . rintro ⟨_, rfl⟩
      apply h.right
  . next hfits =>
    constructor
    . rintro ⟨fuel, hout⟩
      have hfuel := h.left fuel
      rw [hout] at hfuel
      simp at hfuel
    . rintro ⟨hfits', _⟩
      contradiction

variable {limits : Limits}

theorem up_loop_null {fuel : Nat} {ids tempId : List Char}
    : hieQueUp.loop limits table fuel ids tempId none = result ids := by
  rw [hieQueUp.loop.eq_def]

theorem up_loop_eq {fuel : Nat} {ids : List Char} {a : Int}
    : hieQueUp.loop limits table fuel ids (castAsChar a) (some (castAsChar a)) = result ids := by
  rw [hieQueUp.loop.eq_def]
  dsimp only
  rw [if_pos rfl]

theorem EndsWith.up_loop {ids tempId all before : List Char} {a : Int} {next : Option (List Char)}
    (hne : tempId ≠ castAsChar a) (hall : all = before ++ (',' :: castAsChar a ++ ids))
    (hselect : hieQueUp.selectInto table (castAsChar a) = some next)
    (h : limits.fits (',' :: castAsChar a ++ ids) = true → EndsWith
      (fun fuel => hieQueUp.loop limits table fuel (',' :: castAsChar a ++ ids) (castAsChar a) next)
      (resultIfFits limits all))
    : EndsWith (fun fuel => hieQueUp.loop limits table fuel ids tempId (some (castAsChar a)))
        (resultIfFits limits all) := by
  apply @EndsWith.of_succ _ (fun fuel =>
    if limits.fits (',' :: castAsChar a ++ ids) then
      hieQueUp.loop limits table fuel (',' :: castAsChar a ++ ids) (castAsChar a) next
    else
      .error)
  . rw [hieQueUp.loop, if_neg hne]
  . intro fuel
    rw [hieQueUp.loop]
    dsimp only
    rw [if_neg hne, hselect]
  . by_cases hfits : limits.fits (',' :: castAsChar a ++ ids) = true
    . simp only [hfits, if_true]
      apply h hfits
    . apply EndsWith.of_forall
      intro fuel
      unfold resultIfFits
      rw [if_neg hfits, if_neg]
      rw [hall]
      apply mt fits_of_append hfits

theorem EndsWith.up_loop_last {ids tempId : List Char} {a : Int} {next : Option (List Char)}
    (hne : tempId ≠ castAsChar a) (hselect : hieQueUp.selectInto table (castAsChar a) = some next)
    (hlast : ∀ fuel, hieQueUp.loop limits table fuel (',' :: castAsChar a ++ ids) (castAsChar a) next
      = result (',' :: castAsChar a ++ ids))
    : EndsWith (fun fuel => hieQueUp.loop limits table fuel ids tempId (some (castAsChar a)))
        (resultIfFits limits (',' :: castAsChar a ++ ids)) := by
  apply EndsWith.up_loop hne (List.nil_append _).symm hselect
  intro hfits
  apply EndsWith.of_forall
  intro fuel
  rw [hlast, resultIfFits, if_pos hfits]

theorem Climbs.loop (hids : (ids table).Nodup) {a : Int} {l : List Int} (h : Climbs table a l)
    (ids tempId : List Char) (hne : tempId ≠ castAsChar a)
    : EndsWith (fun fuel => hieQueUp.loop limits table fuel ids tempId (some (castAsChar a)))
        (resultIfFits limits (joined ',' (l.reverse.map castAsChar) ++ ids)) := by
  induction h generalizing ids tempId with
  | @null row hrow hpId =>
    have hall : joined ',' ([row.id].reverse.map castAsChar) ++ ids
        = ',' :: castAsChar row.id ++ ids := by
      simp [joined]
    rw [hall]
    apply EndsWith.up_loop_last hne (selectInto_of_mem hids hrow)
    intro fuel
    rw [hpId, Option.map_none, up_loop_null]
  | @missing p id hedge hmissing =>
    have hpid : castAsChar id ≠ castAsChar p := by
      intro heq
      rw [← castAsChar_injective heq] at hmissing
      apply hmissing (mem_ids_of_isParent hedge)
    have hall : joined ',' ([id, p].reverse.map castAsChar) ++ ids
        = ',' :: castAsChar p ++ (',' :: castAsChar id ++ ids) := by
      simp [joined]
    rw [hall]
    apply EndsWith.up_loop hne rfl (selectInto_of_isParent hids hedge)
    intro _
    apply EndsWith.up_loop_last hpid (selectInto_of_not_mem hmissing)
    intro fuel
    rw [up_loop_eq]
  | @self id hedge =>
    have hall : joined ',' ([id].reverse.map castAsChar) ++ ids
        = ',' :: castAsChar id ++ ids := by
      simp [joined]
    rw [hall]
    apply EndsWith.up_loop_last hne (selectInto_of_isParent hids hedge)
    intro fuel
    rw [up_loop_eq]
  | @up p id l hedge hpid _ ih =>
    have hpid : castAsChar id ≠ castAsChar p := by
      intro heq
      apply hpid (castAsChar_injective heq).symm
    have hall : joined ',' ((id :: l).reverse.map castAsChar) ++ ids
        = joined ',' (l.reverse.map castAsChar) ++ (',' :: castAsChar id ++ ids) := by
      simp [joined]
    rw [hall]
    apply EndsWith.up_loop hne rfl (selectInto_of_isParent hids hedge)
    intro _
    apply ih _ _ hpid

theorem Climbs.returns_iff (hids : (ids table).Nodup) {a : Int} {l : List Int}
    (h : Climbs table a l) {up : List Char}
    : Returns (fun fuel => hieQueUp limits table fuel a) up
        ↔
      limits.fits (joined ',' (l.reverse.map castAsChar)) = true ∧ up = commaList l.reverse := by
  have hne : castAsChar (a + 1) ≠ castAsChar a := by
    intro heq
    have := castAsChar_injective heq
    omega
  have hloop : EndsWith (fun fuel => hieQueUp limits table fuel a) _ := h.loop hids [] _ hne
  rw [List.append_nil] at hloop
  rw [commaList, ← drop_joined]
  apply hloop.returns_iff

theorem Climbs.ne_nil {a : Int} {l : List Int} (h : Climbs table a l) : l ≠ [] := by
  cases h <;> simp

theorem hieQueUp_returns (hids : (ids table).Nodup) {y : Int} (hchain : ChainEnds table y)
    : ∃ up,
        Returns (fun fuel => hieQueUp .unbounded table fuel y) up
          ∧
        ∀ x, castAsChar x ∈ up.splitOn ',' ↔ ∃ n, Forest.Steps (IsParent table) n x y := by
  rcases hchain.climbs with ⟨l, hl⟩
  refine ⟨_, (hl.returns_iff hids).mpr ⟨rfl, rfl⟩, ?_⟩
  intro x
  have hreverse : l.reverse ≠ [] := by
    simp [hl.ne_nil]
  rw [splitOn_commaList hreverse, List.mem_map_of_injective castAsChar_injective,
    List.mem_reverse, hl.mem_iff hids]

theorem ChainEnds.bounded (hids : (ids table).Nodup) {b : Int} (h : ChainEnds table b)
    : ∃ d, ∀ n x, ¬ IsParent table x x → Forest.Steps (IsParent table) n x b → n ≤ d := by
  have hR := isParent_leftUnique hids
  induction h with
  | null hrow hpId =>
    refine ⟨0, ?_⟩
    intro n x _ hsteps
    have := (hsteps.cases_root (not_isParent_of_null hids hrow hpId)).left
    omega
  | missing hedge hmissing =>
    refine ⟨1, ?_⟩
    intro n x _ hsteps
    cases hsteps.cases_edge hR hedge with
    | inl h => omega
    | inr h =>
      rcases h with ⟨m, hm, hsteps⟩
      have := (hsteps.cases_root (not_isParent_of_missing hmissing)).left
      omega
  | self hedge =>
    -- Only the node itself is above it, and that is what the condition on `x` excludes.
    refine ⟨0, ?_⟩
    intro n x hself hsteps
    rw [hsteps.start_of_loop hR hedge] at hself
    contradiction
  | up hedge _ ih =>
    rcases ih with ⟨d, hd⟩
    refine ⟨d + 1, ?_⟩
    intro n x hself hsteps
    cases hsteps.cases_edge hR hedge with
    | inl h => omega
    | inr h =>
      rcases h with ⟨m, hm, hsteps⟩
      have := hd _ x hself hsteps
      omega

end HieFunction
