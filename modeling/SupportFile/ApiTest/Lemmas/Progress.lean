import SupportFile.ApiTest.Lemmas.Linear

/-!
This module contains the progress of the requests on the session table. No request ever waits for
another one, and each is answered after at most three steps of its own.
-/

namespace Proxy

variable {Node : Type} {J : Jackson Node}

def Thread.remaining (t : Thread Node) : Nat :=
  match t.pc with
  | .received => 3
  | .parsed _ => 2
  | .identified _ _ => if t.request.operation = .auth then 2 else 1
  | .looked _ => 1
  | .done _ => 0

def Action.isOf (k : Nat) (action : Action) : Bool :=
  match action with
  | .proceed k' _ => k' = k
  | .receive _ | .invalidate _ => false

theorem remaining_le (t : Thread Node) : t.remaining ≤ 3 := by
  unfold Thread.remaining
  split
  . omega
  . omega
  . split <;> omega
  . omega
  . omega

theorem remaining_eq_zero_iff {t : Thread Node} : t.remaining = 0 ↔ ∃ outcome, t.pc = .done outcome := by
  unfold Thread.remaining
  constructor
  . intro h
    split at h
    . contradiction
    . contradiction
    . split at h <;> contradiction
    . contradiction
    . next outcome hpc => exact ⟨outcome, hpc⟩
  . rintro ⟨outcome, hpc⟩
    rw [hpc]

theorem getSession_isSome (s : State Node) (request : Request) {fresh : SessionId}
    (hfresh : fresh ∉ s.issued)
    : (s.getSession request fresh).isSome := by
  unfold State.getSession
  split
  . rfl
  . rw [if_neg hfresh]
    rfl

theorem proceed_isSome (s : State Node) (k : Nat) {t : Thread Node} (ht : t.remaining ≠ 0)
    {fresh : SessionId} (hfresh : fresh ∉ s.issued)
    : (proceed J s k t fresh).isSome := by
  have hget := getSession_isSome s t.request hfresh
  unfold proceed
  split
  . split
    . split
      . rfl
      . rfl
      . rfl
    . rwa [Option.isSome_map]
    . rwa [Option.isSome_map]
  . rwa [Option.isSome_map]
  . split
    . split
      . rfl
      . rfl
    . rfl
    . rfl
  . rfl
  . next hpc => exact absurd (remaining_eq_zero_iff.mpr ⟨_, hpc⟩) ht

theorem Proceeds.thread {s s' : State Node} {k : Nat} {t : Thread Node} (h : Proceeds J s k t s')
    (ht : s.threads[k]? = some t) (hparses : Parses J t)
    : ∃ t', s'.threads[k]? = some t' ∧ t'.request = t.request ∧ t'.remaining < t.remaining := by
  have hk := (List.getElem?_eq_some_iff.mp ht).choose
  -- It is enough to look at the place that the request goes to.
  have hgoto {s1 : State Node} {pc : Pc Node} (hthreads : s1.threads = s.threads)
      (hlt : { t with pc := pc }.remaining < t.remaining)
      : ∃ t', (s1.goto k t pc).threads[k]? = some t' ∧ t'.request = t.request
        ∧ t'.remaining < t.remaining := by
    rw [threads_goto hthreads]
    exact ⟨_, List.getElem?_set_self hk, rfl, hlt⟩
  unfold Parses at hparses
  cases h with
  | unparsable hpc =>
    apply hgoto rfl
    simp [Thread.remaining, hpc]
  | parse hpc =>
    apply hgoto rfl
    simp [Thread.remaining, hpc]
  | identify hpc hget =>
    apply hgoto (getSession_frame hget).right.right.left
    rcases hpc with ⟨hpc, _⟩ | hpc
    . simp only [Thread.remaining, hpc]
      split <;> omega
    . rw [hpc] at hparses
      rcases hparses with ⟨requestBody, hop, _⟩
      simp [Thread.remaining, hpc, hop]
  | put hpc hop | reject hpc hop | remove hpc hop =>
    apply hgoto rfl
    simp [Thread.remaining, hpc, hop]
  | look hpc hop =>
    apply hgoto rfl
    simp [Thread.remaining, hpc, hop]
  | answer hpc =>
    apply hgoto rfl
    simp [Thread.remaining, hpc]

theorem remaining_of_step {s s' : State Node} (hs : Linear J s) {k : Nat} {t : Thread Node}
    (ht : s.threads[k]? = some t) {action : Action} (h : step J s action = some s')
    : ∃ t', s'.threads[k]? = some t' ∧ t'.request = t.request
        ∧ (action.isOf k).toNat + t'.remaining ≤ t.remaining := by
  cases action with
  | receive request =>
    rw [step, Option.some.injEq] at h
    subst h
    have hk := (List.getElem?_eq_some_iff.mp ht).choose
    exact ⟨t, by rw [List.getElem?_append_left hk, ht], rfl, by simp [Action.isOf]⟩
  | proceed k' fresh =>
    rw [step, Option.bind_eq_some_iff] at h
    rcases h with ⟨t', ht', h⟩
    have hproceeds := proceeds_of_proceed h
    by_cases hk : k' = k
    . subst hk
      rw [ht, Option.some.injEq] at ht'
      subst ht'
      rcases hproceeds.thread ht (hs.parses ht) with ⟨t', ht', hrequest, hlt⟩
      refine ⟨t', ht', hrequest, ?_⟩
      simp only [Action.isOf, decide_true, Bool.toNat_true]
      omega
    . rcases hproceeds.threads with ⟨pc, hthreads⟩
      refine ⟨t, ?_, rfl, by simp [Action.isOf, hk]⟩
      rw [hthreads, List.getElem?_set_ne hk, ht]
  | invalidate sid =>
    rw [step, Option.some.injEq] at h
    subst h
    exact ⟨t, ht, rfl, by simp [Action.isOf]⟩

theorem remaining_of_exec (actions : List Action) {s s' : State Node}
    (hs : (system J).Reachable s) {k : Nat} {t : Thread Node} (ht : s.threads[k]? = some t)
    (h : Lts.exec (step J) s actions = some s')
    : ∃ t', s'.threads[k]? = some t' ∧ t'.request = t.request
        ∧ actions.countP (Action.isOf k) + t'.remaining ≤ t.remaining := by
  induction actions generalizing s t with
  | nil =>
    rw [Lts.exec, Option.some.injEq] at h
    exact ⟨t, by rw [← h, ht], rfl, by simp⟩
  | cons action actions ih =>
    rcases Lts.exec_cons_eq_some_iff.mp h with ⟨s1, hstep, h⟩
    have hlinear := linear_inductive.reachable (fun _ => trivial) hs
    rcases remaining_of_step hlinear ht hstep with ⟨t1, ht1, hrequest1, hle1⟩
    rcases ih (.step hs hstep) ht1 h with ⟨t', ht', hrequest, hle⟩
    refine ⟨t', ht', by rw [hrequest, hrequest1], ?_⟩
    rw [List.countP_cons]
    cases hof : action.isOf k with
    | true =>
      rw [hof, Bool.toNat_true] at hle1
      rw [if_pos rfl]
      omega
    | false =>
      rw [hof, Bool.toNat_false] at hle1
      rw [if_neg Bool.false_ne_true]
      omega

/--
In every run a request takes at most three steps, it has been answered when it has taken three, and
as long as it has not been answered its next step is possible, whatever the others have done.
-/
theorem system_waitFree (J : Jackson Node) {s s' : State Node} {actions : List Action}
    (hs : (system J).Reachable s) {k : Nat} {t : Thread Node} (ht : s.threads[k]? = some t)
    (h : Lts.exec (step J) s actions = some s')
    : actions.countP (Action.isOf k) ≤ 3
        ∧
      ∃ t', s'.threads[k]? = some t' ∧ t'.request = t.request
        ∧ (actions.countP (Action.isOf k) = 3 → ∃ outcome, t'.pc = .done outcome)
        ∧ ((∃ outcome, t'.pc = .done outcome)
          ∨ ∀ fresh, fresh ∉ s'.issued → (step J s' (.proceed k fresh)).isSome) := by
  rcases remaining_of_exec actions hs ht h with ⟨t', ht', hrequest, hle⟩
  have hle3 := remaining_le t
  refine ⟨by omega, t', ht', hrequest, ?_, ?_⟩
  . intro hcount
    apply remaining_eq_zero_iff.mp
    omega
  . by_cases hdone : t'.remaining = 0
    . exact .inl (remaining_eq_zero_iff.mp hdone)
    . refine .inr ?_
      intro fresh hfresh
      rw [step, ht', Option.bind_some]
      exact proceed_isSome s' k hdone hfresh

theorem system_waitFree_loginAndAuth
    : ∃ s, Lts.exec (step jacksonOfUserOne) {} loginAndAuth = some s
        ∧ ∃ t, s.threads[0]? = some t ∧ ∃ outcome, t.pc = .done outcome := by
  refine ⟨_, rfl, ?_⟩
  have hreceived : (system jacksonOfUserOne).Reachable _ :=
    Lts.reachable_of_exec (loginAndAuth.take 1) (.init rfl) rfl
  rcases (system_waitFree jacksonOfUserOne hreceived (k := 0) rfl
    (rfl : Lts.exec (step jacksonOfUserOne) _ (loginAndAuth.drop 1) = some _)).right with
    ⟨t, ht, _, hdone, _⟩
  exact ⟨t, ht, hdone (by decide)⟩

end Proxy
