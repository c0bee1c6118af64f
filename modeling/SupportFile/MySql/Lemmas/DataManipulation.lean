import Mathlib.Data.List.MinMax
import Mathlib.Data.List.Perm.Subperm
import SupportFile.MySql.Impl.DataManipulation

/-!
This module contains what the query for consecutive numbers finds and what the deletion of duplicate
e-mails leaves behind.
-/

namespace ConsecutiveNums

variable {Num : Type u} [DecidableEq Num]

theorem replicate_suffix_concat_iff {α : Type u} {x y : α} {k : Nat} {l : List α}
    : List.replicate (k + 1) x <:+ l ++ [y] ↔ y = x ∧ List.replicate k x <:+ l := by
  rw [List.suffix_concat_iff, List.replicate_succ']
  constructor
  . rintro (h | ⟨l', heq, hsuffix⟩)
    . simp at h
    . rcases List.append_inj' heq rfl with ⟨rfl, hlast⟩
      rw [List.singleton_inj] at hlast
      exact ⟨hlast.symm, hsuffix⟩
  . rintro ⟨rfl, hsuffix⟩
    exact .inr ⟨_, rfl, hsuffix⟩

/-- The variables know the run that the rows so far end with, and the rows know all runs so far. -/
structure Runs (vars : B Num) (done : List (A Num)) : Prop where
  suffix : ∀ n k, List.replicate (k + 1) (some n) <:+ done.map (·.num)
    ↔ vars.pre = some n ∧ k + 1 ≤ vars.cnt
  found : ∀ n k, List.replicate (k + 1) (some n) <:+: done.map (·.num)
    ↔ ∃ row ∈ done, row.num = some n ∧ k + 1 ≤ row.cnt
  null : ∀ row ∈ done, row.num = none → row.cnt = 1

theorem runs_item {vars : B Num} {done : List (A Num)} (h : Runs vars done) (num : Option Num)
    : Runs (a.item vars num).1 (done ++ [(a.item vars num).2]) := by
  have hsuffix (n : Num) (k : Nat)
      : List.replicate (k + 1) (some n) <:+ (done ++ [(a.item vars num).2]).map (·.num)
          ↔ num = some n ∧ k + 1 ≤ (a.item vars num).1.cnt := by
    rw [List.map_append, List.map_singleton, replicate_suffix_concat_iff]
    apply and_congr_right
    intro hnum
    replace hnum : num = some n := hnum
    subst hnum
    unfold a.item
    cases k with
    | zero =>
      dsimp only
      split <;> simp
    | succ k =>
      rw [h.suffix]
      dsimp only
      split
      . next hpre => simp [hpre.right]
      . next hpre =>
        constructor
        . rintro ⟨heq, _⟩
          simp [heq] at hpre
        . intro hk
          omega
  constructor
  . exact hsuffix
  . intro n k
    have hinfix := hsuffix n k
    rw [List.map_append, List.map_singleton] at hinfix ⊢
    rw [List.infix_concat_iff, hinfix, h.found]
    simp only [List.mem_append, List.mem_singleton, or_and_right, exists_or, exists_eq_left]
    exact or_comm
  . intro row hrow hnull
    rw [List.mem_append, List.mem_singleton] at hrow
    cases hrow with
    | inl hrow => exact h.null row hrow hnull
    | inr hrow =>
      rw [hrow] at hnull ⊢
      replace hnull : num = none := hnull
      subst hnull
      unfold a.item
      dsimp only
      rw [if_neg]
      rintro ⟨hsome, hnone⟩
      rw [hnone] at hsome
      contradiction

theorem runs_a (logs : List (Option Num)) : ∃ vars, Runs vars (a logs) := by
  have hstart : Runs ({ pre := none, cnt := 0 } : B Num) [] := by
    constructor
    . simp
    . simp
    . simp
  rcases @Scan.scan_invariant _ _ _ a.item (fun vars done _ => Runs vars done)
    (fun _ _ _ _ h => runs_item h _) _ _ logs hstart with ⟨vars, h⟩
  exact ⟨vars, h⟩

theorem map_num_a (logs : List (Option Num)) : (a logs).map (·.num) = logs := by
  apply Scan.map_scan
  intro vars row
  rfl

/-- The query finds the numbers that are in three rows in a row, each once, and never a `NULL`. -/
theorem select_consecutive (logs : List (Option Num))
    : (select logs).Nodup
        ∧
      ∀ num, num ∈ select logs ↔ ∃ n, num = some n ∧ [some n, some n, some n] <:+: logs := by
  rcases runs_a logs with ⟨vars, h⟩
  have hfound := h.found
  rw [map_num_a] at hfound
  refine ⟨List.nodup_dedup _, ?_⟩
  intro num
  unfold select
  simp only [List.mem_dedup, List.mem_map, List.mem_filter, decide_eq_true_eq]
  constructor
  . rintro ⟨row, ⟨hrow, hcnt⟩, rfl⟩
    cases hnum : row.num with
    | none =>
      have hone := h.null row hrow hnum
      omega
    | some n => exact ⟨n, rfl, (hfound n 2).mpr ⟨row, hrow, hnum, hcnt⟩⟩
  . rintro ⟨n, rfl, hrun⟩
    rcases (hfound n 2).mp hrun with ⟨row, hrow, hnum, hcnt⟩
    exact ⟨row, ⟨hrow, hcnt⟩, hnum⟩

end ConsecutiveNums

namespace DuplicateEmails

variable {Email : Type u} [DecidableEq Email] {person person' : List (Person Email)}
  {p d : Person Email}

theorem matched_iff
    : matched p d = true ↔ ∃ e, p.email = some e ∧ d.email = some e ∧ d.id < p.id := by
  unfold matched
  rw [Bool.and_eq_true, Bool.and_eq_true, decide_eq_true_eq, decide_eq_true_eq,
    Option.isSome_iff_exists]
  constructor
  . rintro ⟨⟨⟨e, he⟩, heq⟩, hlt⟩
    exact ⟨e, he, heq ▸ he, hlt⟩
  . rintro ⟨e, he, heq, hlt⟩
    exact ⟨⟨⟨e, he⟩, by rw [he, heq]⟩, hlt⟩

theorem mem_delete_iff : p ∈ delete person ↔ p ∈ person ∧ ∀ d ∈ person, ¬matched p d = true := by
  unfold delete
  rw [List.mem_filter, Bool.not_eq_true', List.any_eq_false]

theorem exists_least {e : Email} (hp : p ∈ person) (he : p.email = some e)
    : ∃ least ∈ delete person,
        least.email = some e ∧ ∀ d ∈ person, d.email = some e → least.id ≤ d.id := by
  have hmem : p ∈ person.filter (fun d => d.email = some e) := by
    simp [hp, he]
  cases hmin : (person.filter (fun d => d.email = some e)).argmin (·.id) with
  | none =>
    rw [List.argmin_eq_none] at hmin
    simp [hmin] at hmem
  | some least =>
    have hleast := List.mem_filter.mp (List.argmin_mem hmin)
    rw [decide_eq_true_eq] at hleast
    have hle : ∀ d ∈ person, d.email = some e → least.id ≤ d.id := by
      intro d hd hde
      apply List.le_of_mem_argmin _ hmin
      simp [hd, hde]
    refine ⟨least, mem_delete_iff.mpr ⟨hleast.left, ?_⟩, hleast.right, hle⟩
    intro d hd hmatched
    rcases matched_iff.mp hmatched with ⟨e', he', hde', hlt⟩
    rw [hleast.right] at he'
    have := hle d hd (by rw [hde', he'])
    omega

theorem Deletes.sublist (h : Deletes person person')
    : person'.Sublist person ∧ (delete person).Sublist person' := by
  induction h with
  | refl => exact ⟨List.Sublist.refl _, List.filter_sublist⟩
  | @step person' p d _ _ hd hmatched ih =>
    refine ⟨List.erase_sublist.trans ih.left, ?_⟩
    have hp : p ∉ delete person := by
      intro hp
      exact (mem_delete_iff.mp hp).right d (ih.left.subset hd) hmatched
    rw [← List.erase_of_not_mem hp]
    exact ih.right.erase p

theorem Deletes.eq_delete (hids : (person.map (·.id)).Nodup) (h : Deletes person person')
    (hend : ∀ p ∈ person', ∀ d ∈ person', ¬matched p d = true)
    : person' = delete person := by
  rcases h.sublist with ⟨hsublist, hkept⟩
  have hsubset : person' ⊆ delete person := by
    intro p hp
    refine mem_delete_iff.mpr ⟨hsublist.subset hp, ?_⟩
    intro d hd hmatched
    rcases matched_iff.mp hmatched with ⟨e, he, hde, hlt⟩
    -- The least row with this e-mail is still there, and the row matches it too.
    rcases exists_least hd hde with ⟨least, hleast, hleaste, hle⟩
    have := hle d hd hde
    apply hend p hp least (hkept.subset hleast)
    exact matched_iff.mpr ⟨e, he, hleaste, by omega⟩
  have hnodup : person'.Nodup := (List.Nodup.of_map _ hids).sublist hsublist
  exact (hkept.eq_of_length_le (List.subperm_of_subset hnodup hsubset).length_le).symm

/--
Of the persons with the same e-mail the one with the least id stays, those without an e-mail stay all,
and it makes no difference in which order the rows are deleted.
-/
theorem delete_duplicates (hids : (person.map (·.id)).Nodup)
    : (∀ p ∈ person, ∀ e, p.email = some e →
        ∃ least ∈ delete person, least.email = some e
          ∧ (∀ d ∈ person, d.email = some e → least.id ≤ d.id)
          ∧ ∀ p' ∈ delete person, p'.email = some e → p' = least)
        ∧
      (∀ p ∈ person, p.email = none → p ∈ delete person)
        ∧
      ∀ person', Deletes person person' →
        (∀ p ∈ person', ∀ d ∈ person', ¬matched p d = true) → person' = delete person := by
  refine ⟨?_, ?_, fun _ h hend => h.eq_delete hids hend⟩
  . intro p hp e he
    rcases exists_least hp he with ⟨least, hleast, hleaste, hle⟩
    refine ⟨least, hleast, hleaste, hle, ?_⟩
    intro p' hp' he'
    rw [mem_delete_iff] at hp' hleast
    have hge : ¬least.id < p'.id := by
      intro hlt
      exact hp'.right least hleast.left (matched_iff.mpr ⟨e, he', hleaste, hlt⟩)
    have hle' := hle p' hp'.left he'
    exact List.inj_on_of_nodup_map hids hp'.left hleast.left (by omega)
  . intro p hp he
    refine mem_delete_iff.mpr ⟨hp, ?_⟩
    intro d _ hmatched
    rcases matched_iff.mp hmatched with ⟨e, he', _⟩
    rw [he] at he'
    contradiction

def persons : List (Person String) :=
  [⟨3, some "a"⟩, ⟨1, some "a"⟩, ⟨4, none⟩, ⟨2, some "b"⟩, ⟨5, some "a"⟩]

theorem delete_duplicates_persons
    : delete persons = [⟨1, some "a"⟩, ⟨4, none⟩, ⟨2, some "b"⟩] := by
  have hend := (@delete_duplicates _ _ persons (by decide)).right.right
  have hdeletes : Deletes persons [⟨1, some "a"⟩, ⟨4, none⟩, ⟨2, some "b"⟩] := by
    have hfirst : Deletes persons (persons.erase ⟨5, some "a"⟩) := by
      exact .step (d := ⟨3, some "a"⟩) .refl (by decide) (by decide) (by decide)
    exact .step (d := ⟨1, some "a"⟩) hfirst (p := ⟨3, some "a"⟩) (by decide) (by decide) (by decide)
  exact (hend _ hdeletes (by decide)).symm

end DuplicateEmails
