import SupportFile.ApiTest.Lemmas.Linear

/-!
This module contains which requests can share a session: those that have presented its id, and the
one for which the container has created it. What a check is answered speaks of the logins and logouts of
these requests.
-/

namespace Proxy

variable {Node : Type}

def Pc.sid (pc : Pc Node) : Option SessionId :=
  match pc with
  | .identified sid _ => some sid
  | _ => none

-- The container has given the session `sid` to the request `k`.
def Uses (s : State Node) (k : Nat) (sid : SessionId) : Prop :=
  (∃ t, s.threads[k]? = some t ∧ t.pc.sid = some sid)
    ∨
  ∃ e ∈ s.history, e.thread = k ∧ e.sid = some sid

def Presents (s : State Node) (k : Nat) (sid : SessionId) : Prop :=
  ∃ t, s.threads[k]? = some t ∧ t.request.requested = some sid

structure Isolated (s : State Node) : Prop where
  valid : s.valid ⊆ s.issued
  issued : ∀ {k : Nat} {sid : SessionId}, Uses s k sid → sid ∈ s.issued
  apart : ∀ {k k' : Nat} {sid : SessionId}, Uses s k sid → Uses s k' sid → k ≠ k' →
    Presents s k sid ∨ Presents s k' sid

theorem getSession_cases {s s' : State Node} {request : Request} {fresh sid : SessionId}
    (h : s.getSession request fresh = some (s', sid))
    : (s' = s ∧ sid ∈ s.valid ∧ request.requested = some sid)
        ∨
      (s' = { s with issued := sid :: s.issued, valid := sid :: s.valid } ∧ sid ∉ s.issued) := by
  unfold State.getSession at h
  split at h
  . next hfilter =>
    rw [Option.filter_eq_some_iff, decide_eq_true_eq] at hfilter
    simp only [Option.some.injEq, Prod.mk.injEq] at h
    rcases h with ⟨rfl, rfl⟩
    exact .inl ⟨rfl, hfilter.right, hfilter.left⟩
  . split at h
    . contradiction
    . next hfresh =>
      simp only [Option.some.injEq, Prod.mk.injEq] at h
      rcases h with ⟨rfl, rfl⟩
      exact .inr ⟨rfl, hfresh⟩

section Goto

variable {s s' : State Node} {k : Nat} {t : Thread Node} {pc : Pc Node}
  (ht : s.threads[k]? = some t) (hthreads : s'.threads = s.threads)

include ht hthreads

theorem Presents.goto {k' : Nat} {sid : SessionId} (h : Presents s k' sid)
    : Presents (s'.goto k t pc) k' sid := by
  rcases h with ⟨t', ht', hrequested⟩
  unfold Presents
  rw [threads_goto hthreads]
  have hk := (List.getElem?_eq_some_iff.mp ht).choose
  by_cases heq : k = k'
  . subst heq
    rw [ht, Option.some.injEq] at ht'
    exact ⟨_, List.getElem?_set_self hk, by rw [ht', hrequested]⟩
  . exact ⟨t', by rw [List.getElem?_set_ne heq, ht'], hrequested⟩

theorem uses_of_goto {later : List Event} (hhistory : s'.history = s.history ++ later)
    (hlater : ∀ e ∈ later, e.thread = k ∧ (e.sid = none ∨ e.sid = t.pc.sid)) {k' : Nat}
    {sid : SessionId} (h : Uses (s'.goto k t pc) k' sid)
    : Uses s k' sid ∨ (k' = k ∧ pc.sid = some sid) := by
  cases h with
  | inl h =>
    rcases h with ⟨t', ht', hsid⟩
    rw [threads_goto hthreads] at ht'
    rcases eq_of_getElem?_set ht' with ⟨rfl, rfl⟩ | ⟨_, ht'⟩
    . exact .inr ⟨rfl, hsid⟩
    . exact .inl (.inl ⟨t', ht', hsid⟩)
  | inr h =>
    rcases h with ⟨e, he, hthread, hsid⟩
    replace he : e ∈ s'.history := he
    rw [hhistory, List.mem_append] at he
    cases he with
    | inl he => exact .inl (.inr ⟨e, he, hthread, hsid⟩)
    | inr he =>
      -- An access concerns the session that the request has got before.
      rcases hlater e he with ⟨hk, hnone | hpc⟩
      . rw [hnone] at hsid
        contradiction
      . rw [hk] at hthread
        rw [← hthread]
        exact .inl (.inl ⟨t, ht, by rw [← hpc, hsid]⟩)

theorem Isolated.goto (hs : Isolated s) {later : List Event}
    (hhistory : s'.history = s.history ++ later)
    (hlater : ∀ e ∈ later, e.thread = k ∧ (e.sid = none ∨ e.sid = t.pc.sid))
    (hissued : s.issued ⊆ s'.issued) (hvalid : s'.valid ⊆ s'.issued)
    (hpc : ∀ sid, pc.sid = some sid →
      sid ∈ s'.issued ∧ (t.request.requested = some sid ∨ ∀ k', ¬Uses s k' sid))
    : Isolated (s'.goto k t pc) := by
  constructor
  . exact hvalid
  . intro k' sid huses
    rcases uses_of_goto ht hthreads hhistory hlater huses with huses | ⟨_, hsid⟩
    . exact hissued (hs.issued huses)
    . exact (hpc sid hsid).left
  . intro k1 k2 sid huses1 huses2 hne
    have hrequested : t.request.requested = some sid → Presents (s'.goto k t pc) k sid := by
      intro h
      exact Presents.goto ht hthreads ⟨t, ht, h⟩
    rcases uses_of_goto ht hthreads hhistory hlater huses1 with h1 | ⟨rfl, hsid1⟩
    . rcases uses_of_goto ht hthreads hhistory hlater huses2 with h2 | ⟨rfl, hsid2⟩
      . rcases hs.apart h1 h2 hne with hpresents | hpresents
        . exact .inl (hpresents.goto ht hthreads)
        . exact .inr (hpresents.goto ht hthreads)
      . rcases (hpc sid hsid2).right with hpresents | hunused
        . exact .inr (hrequested hpresents)
        . exact absurd h1 (hunused k1)
    . rcases uses_of_goto ht hthreads hhistory hlater huses2 with h2 | ⟨rfl, _⟩
      . rcases (hpc sid hsid1).right with hpresents | hunused
        . exact .inl (hrequested hpresents)
        . exact absurd h2 (hunused k2)
      . contradiction

end Goto

variable {J : Jackson Node}

theorem Isolated.proceed {s s' : State Node} (hs : Isolated s) {k : Nat} {t : Thread Node}
    (ht : s.threads[k]? = some t) {fresh : SessionId} (h : proceed J s k t fresh = some s')
    : Isolated s' := by
  cases proceeds_of_proceed h with
  | @identify s1 _ sid _ _ hget =>
    rcases getSession_frame hget with ⟨_, _, hthreads, hhistory⟩
    rw [← List.append_nil s.history] at hhistory
    rcases getSession_cases hget with ⟨rfl, hvalid, hrequested⟩ | ⟨rfl, hfresh⟩
    . refine hs.goto ht hthreads hhistory (by simp) (List.Subset.refl _) hs.valid ?_
      intro sid' hsid
      rw [Pc.sid, Option.some.injEq] at hsid
      rw [← hsid]
      exact ⟨hs.valid hvalid, .inl hrequested⟩
    . refine hs.goto ht hthreads hhistory (by simp) (List.subset_cons_self _ _)
        (List.cons_subset_cons _ hs.valid) ?_
      intro sid' hsid
      rw [Pc.sid, Option.some.injEq] at hsid
      rw [← hsid]
      refine ⟨List.mem_cons_self, .inr ?_⟩
      intro k' huses
      exact hfresh (hs.issued huses)
  | parse | answer =>
    refine hs.goto ht rfl (List.append_nil _).symm (by simp) (List.Subset.refl _) hs.valid ?_
    simp [Pc.sid]
  | unparsable =>
    refine hs.goto ht rfl rfl (by simp) (List.Subset.refl _) hs.valid ?_
    simp [Pc.sid]
  | put hpc | reject hpc | look hpc | remove hpc =>
    refine hs.goto ht rfl rfl (by simp [hpc, Pc.sid]) (List.Subset.refl _) hs.valid ?_
    simp [Pc.sid]

theorem Isolated.receive {s : State Node} (hs : Isolated s) (request : Request)
    : Isolated { s with threads := s.threads ++ [{ request := request, pc := .received }] } := by
  have huses {k : Nat} {sid : SessionId}
      (h : Uses { s with threads := s.threads ++ [{ request := request, pc := .received }] } k sid)
      : Uses s k sid := by
    rcases h with ⟨t, ht, hsid⟩ | h
    . dsimp at ht
      rw [List.getElem?_append] at ht
      split at ht
      . exact .inl ⟨t, ht, hsid⟩
      . rcases List.mem_singleton.mp (List.mem_of_getElem? ht) with rfl
        contradiction
    . exact .inr h
  have hpresents {k : Nat} {sid : SessionId} (h : Presents s k sid)
      : Presents { s with threads := s.threads ++ [{ request := request, pc := .received }] } k sid := by
    rcases h with ⟨t, ht, hrequested⟩
    have hk := (List.getElem?_eq_some_iff.mp ht).choose
    exact ⟨t, by rw [List.getElem?_append_left hk, ht], hrequested⟩
  constructor
  . exact hs.valid
  . intro k sid h
    exact hs.issued (huses h)
  . intro k k' sid h h' hne
    exact (hs.apart (huses h) (huses h') hne).imp hpresents hpresents

end Proxy
