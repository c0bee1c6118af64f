import SupportFile.ApiTest.Lemmas.Session

/-!
This module contains the session table as a sequential object. Whatever the order in which concurrent
requests access it, the table and all the answers are those of the requests being served one by one.
-/

namespace Proxy

variable {Node : Type} (J : Jackson Node)

abbrev Table (Node : Type) := SessionId → Option Node

/-- What a request does if it is served alone. -/
def serve (table : Table Node) (e : Event) : Table Node × Outcome :=
  match e.sid with
  | none => (table, .threw)
  | some sid =>
    match e.operation with
    | .login requestBody =>
      match J.readTree requestBody with
      | .node jsonNode => (Function.update table sid (some jsonNode), .returned (some []))
      | _ => (table, .threw)
    | .auth => (table, .returned ((table sid).map (response J)))
    | .logout => (Function.update table sid none, .returned (some []))

def replay (history : List Event) : Table Node :=
  history.foldl (fun table e => (serve J table e).1) (fun _ => none)

variable {J}

@[simp]
theorem replay_append_singleton (history : List Event) (e : Event)
    : replay J (history ++ [e]) = (serve J (replay J history) e).1 := by
  simp [replay]

-- The answer is fixed as soon as the table has been accessed.
def Pc.outcome (J : Jackson Node) (pc : Pc Node) : Option Outcome :=
  match pc with
  | .looked jsonNode => some (.returned (jsonNode.map (response J)))
  | .done outcome => some outcome
  | _ => none

def Parses (J : Jackson Node) (t : Thread Node) : Prop :=
  match t.pc with
  | .parsed jsonNode => ∃ requestBody, t.request.operation = .login requestBody
      ∧ J.readTree requestBody = ofOption jsonNode
  | .identified _ jsonNode => ∀ requestBody, t.request.operation = .login requestBody →
      J.readTree requestBody = ofOption jsonNode
  | _ => True

def ServedAt (J : Jackson Node) (history : List Event) (k : Nat) (t : Thread Node)
    (outcome : Outcome) : Prop :=
  ∃ before sid after,
    history = before ++ { thread := k, sid := sid, operation := t.request.operation } :: after
      ∧
    (∀ e ∈ before ++ after, e.thread ≠ k)
      ∧
    outcome = (serve J (replay J before)
      { thread := k, sid := sid, operation := t.request.operation }).2

structure Linear (J : Jackson Node) (s : State Node) : Prop where
  session : s.session = replay J s.history
  known : ∀ e ∈ s.history, e.thread < s.threads.length
  parses : ∀ {k : Nat} {t : Thread Node}, s.threads[k]? = some t → Parses J t
  waiting : ∀ {k : Nat} {t : Thread Node}, s.threads[k]? = some t → t.pc.outcome J = none →
    Waiting s.history k
  served : ∀ {k : Nat} {t : Thread Node} {outcome : Outcome}, s.threads[k]? = some t →
    t.pc.outcome J = some outcome → ServedAt J s.history k t outcome

theorem ServedAt.append {history : List Event} {k : Nat} {t : Thread Node} {outcome : Outcome}
    (h : ServedAt J history k t outcome) {e : Event} (he : e.thread ≠ k)
    : ServedAt J (history ++ [e]) k t outcome := by
  rcases h with ⟨before, sid, after, rfl, hother, houtcome⟩
  refine ⟨before, sid, after ++ [e], by simp, ?_, houtcome⟩
  rw [← List.append_assoc]
  apply Waiting.append hother he

theorem eq_of_getElem?_set {threads : List (Thread Node)} {k k' : Nat} {t t' : Thread Node}
    (h : (threads.set k t)[k']? = some t')
    : (k = k' ∧ t = t') ∨ (k ≠ k' ∧ threads[k']? = some t') := by
  rw [List.getElem?_set] at h
  split at h
  . next heq =>
    split at h
    . rw [Option.some.injEq] at h
      exact .inl ⟨heq, h⟩
    . contradiction
  . next hne => exact .inr ⟨hne, h⟩

section Goto

variable {s s' : State Node} {k : Nat} {t : Thread Node} {pc : Pc Node} (hs : Linear J s)
  (ht : s.threads[k]? = some t) (hthreads : s'.threads = s.threads)
  (hparses : Parses J { t with pc := pc })

include hthreads

theorem threads_goto
    : (s'.goto k t pc).threads = s.threads.set k { t with pc := pc } := by
  dsimp only [State.goto]
  rw [hthreads]

include hs hparses

theorem Linear.parses_goto {k' : Nat} {t' : Thread Node}
    (ht' : (s'.goto k t pc).threads[k']? = some t')
    : Parses J t' := by
  rw [threads_goto hthreads] at ht'
  rcases eq_of_getElem?_set ht' with ⟨_, rfl⟩ | ⟨_, ht'⟩
  . exact hparses
  . exact hs.parses ht'

include ht

theorem Linear.silent (hsession : s'.session = s.session) (hhistory : s'.history = s.history)
    (houtcome : pc.outcome J = t.pc.outcome J)
    : Linear J (s'.goto k t pc) := by
  have hhistory' : (s'.goto k t pc).history = s.history := hhistory
  constructor
  . rw [hhistory', ← hs.session]
    exact hsession
  . rw [hhistory', threads_goto hthreads, List.length_set]
    apply hs.known
  . intro k' t' ht'
    exact hs.parses_goto hthreads hparses ht'
  . intro k' t' ht' hnone
    rw [threads_goto hthreads] at ht'
    rw [hhistory']
    rcases eq_of_getElem?_set ht' with ⟨rfl, rfl⟩ | ⟨_, ht'⟩
    . apply hs.waiting ht
      rw [← houtcome]
      exact hnone
    . exact hs.waiting ht' hnone
  . intro k' t' outcome ht' hsome
    rw [threads_goto hthreads] at ht'
    rw [hhistory']
    rcases eq_of_getElem?_set ht' with ⟨rfl, rfl⟩ | ⟨_, ht'⟩
    . apply hs.served ht
      rw [← houtcome]
      exact hsome
    . exact hs.served ht' hsome

theorem Linear.access {sid : Option SessionId} (hbefore : t.pc.outcome J = none)
    (hhistory : s'.history
      = s.history ++ [{ thread := k, sid := sid, operation := t.request.operation }])
    (hsession : s'.session
      = (serve J s.session { thread := k, sid := sid, operation := t.request.operation }).1)
    (houtcome : pc.outcome J = some
      (serve J s.session { thread := k, sid := sid, operation := t.request.operation }).2)
    : Linear J (s'.goto k t pc) := by
  rw [hs.session] at hsession houtcome
  have hhistory' : (s'.goto k t pc).history = _ := hhistory
  constructor
  . rw [hhistory', replay_append_singleton, ← hsession]
    rfl
  . rw [hhistory', threads_goto hthreads, List.length_set, List.forall_mem_append,
      List.forall_mem_singleton]
    exact ⟨hs.known, (List.getElem?_eq_some_iff.mp ht).choose⟩
  . intro k' t' ht'
    exact hs.parses_goto hthreads hparses ht'
  . intro k' t' ht' hnone
    rw [threads_goto hthreads] at ht'
    rw [hhistory']
    rcases eq_of_getElem?_set ht' with ⟨rfl, rfl⟩ | ⟨hne, ht'⟩
    . rw [houtcome] at hnone
      contradiction
    . exact (hs.waiting ht' hnone).append hne
  . intro k' t' outcome ht' hsome
    rw [threads_goto hthreads] at ht'
    rw [hhistory']
    rcases eq_of_getElem?_set ht' with ⟨rfl, rfl⟩ | ⟨hne, ht'⟩
    . rw [houtcome, Option.some.injEq] at hsome
      refine ⟨s.history, sid, [], rfl, ?_, hsome.symm⟩
      rw [List.append_nil]
      exact hs.waiting ht hbefore
    . exact (hs.served ht' hsome).append hne

end Goto

theorem Linear.proceed {s s' : State Node} (hs : Linear J s) {k : Nat} {t : Thread Node}
    (ht : s.threads[k]? = some t) {fresh : SessionId} (h : proceed J s k t fresh = some s')
    : Linear J s' := by
  have hparse := hs.parses ht
  unfold Parses at hparse
  cases proceeds_of_proceed h with
  | unparsable hpc hop hexception =>
    refine hs.access ht rfl trivial ?_ rfl ?_ ?_
    . simp [hpc, Pc.outcome]
    . simp [serve, State.record]
    . simp [serve, Pc.outcome]
  | parse hpc hop hnode =>
    have hparses : Parses J { t with pc := .parsed _ } := ⟨_, hop, hnode⟩
    refine hs.silent ht rfl hparses rfl rfl ?_
    simp [hpc, Pc.outcome]
  | @identify s1 _ sid jsonNode hpc hget =>
    rcases getSession_frame hget with ⟨hsession, _, hthreads, hhistory⟩
    have hparses : Parses J { t with pc := .identified sid jsonNode } := by
      intro requestBody hlogin
      rcases hpc with ⟨_, hop⟩ | hpc
      . exact absurd hlogin (hop requestBody)
      . rw [hpc] at hparse
        rcases hparse with ⟨requestBody', hop, hnode⟩
        dsimp at hlogin
        rw [hop, Operation.login.injEq] at hlogin
        rw [← hlogin, hnode]
    refine hs.silent ht hthreads hparses hsession hhistory ?_
    rcases hpc with ⟨hpc, _⟩ | hpc
    . simp [hpc, Pc.outcome]
    . simp [hpc, Pc.outcome]
  | @put requestBody sid jsonNode hpc hop =>
    rw [hpc] at hparse
    have hnode := hparse requestBody hop
    refine hs.access ht rfl trivial ?_ rfl ?_ ?_
    . simp [hpc, Pc.outcome]
    . simp [serve, hop, hnode, ofOption, State.record, State.put]
    . simp [serve, hop, hnode, ofOption, Pc.outcome]
  | @reject requestBody sid hpc hop =>
    rw [hpc] at hparse
    have hnull := hparse requestBody hop
    refine hs.access ht rfl trivial ?_ rfl ?_ ?_
    . simp [hpc, Pc.outcome]
    . simp [serve, hop, hnull, ofOption, State.record]
    . simp [serve, hop, hnull, ofOption, Pc.outcome]
  | @look sid _ hpc hop =>
    refine hs.access ht rfl trivial ?_ rfl ?_ ?_
    . simp [hpc, Pc.outcome]
    . simp [serve, hop, State.record]
    . simp [serve, hop, Pc.outcome]
  | @remove sid _ hpc hop =>
    refine hs.access ht rfl trivial ?_ rfl ?_ ?_
    . simp [hpc, Pc.outcome]
    . simp [serve, hop, State.record, State.remove]
    . simp [serve, hop, Pc.outcome]
  | answer hpc =>
    refine hs.silent ht rfl trivial rfl rfl ?_
    simp [hpc, Pc.outcome]

theorem Linear.receive {s : State Node} (hs : Linear J s) (request : Request)
    : Linear J { s with threads := s.threads ++ [{ request := request, pc := .received }] } := by
  have hcases {k : Nat} {t : Thread Node}
      (ht : (s.threads ++ [{ request := request, pc := .received }])[k]? = some t)
      : s.threads[k]? = some t ∨ (s.threads.length ≤ k ∧ t.pc = .received) := by
    rw [List.getElem?_append] at ht
    split at ht
    . exact .inl ht
    . next hge =>
      rcases List.mem_singleton.mp (List.mem_of_getElem? ht) with rfl
      exact .inr ⟨Nat.le_of_not_lt hge, rfl⟩
  constructor
  . apply hs.session
  . intro e he
    have := hs.known e he
    dsimp
    rw [List.length_append]
    omega
  . intro k t ht
    rcases hcases ht with ht | ⟨_, hpc⟩
    . exact hs.parses ht
    . simp [Parses, hpc]
  . intro k t ht hnone e he
    rcases hcases ht with ht | ⟨hge, _⟩
    . exact hs.waiting ht hnone e he
    . -- The number of the new request is not in use yet.
      have := hs.known e he
      omega
  . intro k t outcome ht hsome
    rcases hcases ht with ht | ⟨_, hpc⟩
    . exact hs.served ht hsome
    . rw [hpc] at hsome
      contradiction

theorem linear_inductive : (system J).Inductive (fun _ => True) (Linear J) := by
  constructor
  . rintro s rfl
    constructor
    . rfl
    . simp
    . intro k t ht
      simp at ht
    . intro k t ht
      simp at ht
    . intro k t outcome ht
      simp at ht
  . intro s action s' _ hs hstep
    replace hstep : step J s action = some s' := hstep
    cases action with
    | receive request =>
      rw [step, Option.some.injEq] at hstep
      rw [← hstep]
      exact hs.receive request
    | proceed k fresh =>
      rw [step, Option.bind_eq_some_iff] at hstep
      rcases hstep with ⟨t, ht, hstep⟩
      exact hs.proceed ht hstep
    | invalidate sid =>
      rw [step, Option.some.injEq] at hstep
      rw [← hstep]
      exact ⟨hs.session, hs.known, hs.parses, hs.waiting, hs.served⟩

theorem Proceeds.ne_done {s s' : State Node} {k : Nat} {t : Thread Node}
    (h : Proceeds J s k t s') (outcome : Outcome)
    : t.pc ≠ .done outcome := by
  cases h with
  | identify hpc =>
    rcases hpc with ⟨hpc, _⟩ | hpc
    . simp [hpc]
    . simp [hpc]
  | unparsable hpc => simp [hpc]
  | parse hpc => simp [hpc]
  | put hpc => simp [hpc]
  | reject hpc => simp [hpc]
  | look hpc => simp [hpc]
  | remove hpc => simp [hpc]
  | answer hpc => simp [hpc]

theorem Proceeds.threads {s s' : State Node} {k : Nat} {t : Thread Node} (h : Proceeds J s k t s')
    : ∃ pc, s'.threads = s.threads.set k { t with pc := pc } := by
  cases h with
  | identify _ hget => exact ⟨_, threads_goto (getSession_frame hget).right.right.left⟩
  | _ => exact ⟨_, rfl⟩

theorem Proceeds.history {s s' : State Node} {k : Nat} {t : Thread Node} (h : Proceeds J s k t s')
    : ∃ later, s'.history = s.history ++ later
        ∧ ∀ e ∈ later, e.thread = k ∧ e.operation = t.request.operation := by
  cases h with
  | parse => exact ⟨[], by simp [State.goto], by simp⟩
  | identify _ hget =>
    refine ⟨[], ?_, by simp⟩
    rw [List.append_nil, ← (getSession_frame hget).right.right.right]
    rfl
  | answer => exact ⟨[], by simp [State.goto], by simp⟩
  | unparsable | put | reject | look | remove =>
    exact ⟨[_], rfl, by simp⟩

-- The requests that have been answered in `s` keep their answers, and the events since are not theirs.
structure Follows (s s' : State Node) : Prop where
  done : ∀ {k : Nat} {t : Thread Node} {outcome : Outcome}, s.threads[k]? = some t →
    t.pc = .done outcome → s'.threads[k]? = some t
  history : ∃ later, s'.history = s.history ++ later
    ∧ ∀ e ∈ later, ∀ t outcome, s.threads[e.thread]? = some t → t.pc ≠ .done outcome

theorem Follows.refl (s : State Node) : Follows s s := by
  constructor
  . intro k t outcome ht _
    exact ht
  . exact ⟨[], by simp, by simp⟩

theorem Follows.trans {s s' s'' : State Node} (h : Follows s s') (h' : Follows s' s'')
    : Follows s s'' := by
  constructor
  . intro k t outcome ht hpc
    exact h'.done (h.done ht hpc) hpc
  . rcases h.history with ⟨later, heq, hlater⟩
    rcases h'.history with ⟨later', heq', hlater'⟩
    refine ⟨later ++ later', by rw [heq', heq, List.append_assoc], ?_⟩
    intro e he t outcome ht hpc
    rw [List.mem_append] at he
    cases he with
    | inl he => exact hlater e he t outcome ht hpc
    | inr he => exact hlater' e he t outcome (h.done ht hpc) hpc

theorem follows_of_step {s s' : State Node} {action : Action} (h : step J s action = some s')
    : Follows s s' := by
  cases action with
  | receive request =>
    rw [step, Option.some.injEq] at h
    subst h
    constructor
    . intro k t outcome ht _
      have hk := (List.getElem?_eq_some_iff.mp ht).choose
      dsimp only
      rw [List.getElem?_append_left hk, ht]
    . exact ⟨[], by simp, by simp⟩
  | proceed k fresh =>
    rw [step, Option.bind_eq_some_iff] at h
    rcases h with ⟨t, ht, h⟩
    have hproceeds := proceeds_of_proceed h
    rcases hproceeds.threads with ⟨pc, hthreads⟩
    rcases hproceeds.history with ⟨later, hhistory, hlater⟩
    constructor
    . intro k' t' outcome ht' hpc
      rw [hthreads, List.getElem?_set_ne, ht']
      rintro rfl
      rw [ht, Option.some.injEq] at ht'
      rw [← ht'] at hpc
      exact hproceeds.ne_done outcome hpc
    . refine ⟨later, hhistory, ?_⟩
      intro e he t' outcome ht'
      rw [(hlater e he).left, ht, Option.some.injEq] at ht'
      rw [← ht']
      exact hproceeds.ne_done outcome
  | invalidate sid =>
    rw [step, Option.some.injEq] at h
    subst h
    exact ⟨fun ht _ => ht, [], by simp, by simp⟩

theorem follows_of_exec (actions : List Action) {s s' : State Node}
    (h : Lts.exec (step J) s actions = some s')
    : Follows s s' := by
  induction actions generalizing s with
  | nil =>
    rw [Lts.exec, Option.some.injEq] at h
    rw [h]
    apply Follows.refl
  | cons action actions ih =>
    rcases Lts.exec_cons_eq_some_iff.mp h with ⟨s1, hstep, h⟩
    exact (follows_of_step hstep).trans (ih h)

/--
The history is an order in which the requests could have been served one after the other: it explains
the table and every answer, each answered request has one place in it, and what had been answered at
some time comes before everything that happens later.
-/
theorem system_linearizable (J : Jackson Node) {s s' : State Node} {actions : List Action}
    (hs : (system J).Reachable s) (h : Lts.exec (step J) s actions = some s')
    : s'.session = replay J s'.history
        ∧
      (∀ k t outcome, s'.threads[k]? = some t → t.pc = .done outcome →
        ServedAt J s'.history k t outcome)
        ∧
      ∃ later, s'.history = s.history ++ later
        ∧ ∀ e ∈ later, ∀ t outcome, s.threads[e.thread]? = some t → t.pc ≠ .done outcome := by
  have hlinear := linear_inductive.reachable (fun _ => trivial)
    (Lts.reachable_of_exec actions hs h)
  refine ⟨hlinear.session, ?_, (follows_of_exec actions h).history⟩
  intro k t outcome ht hpc
  apply hlinear.served ht
  rw [hpc]
  rfl

theorem system_linearizable_loginAndAuth
    : ∃ s, Lts.exec (step jacksonOfUserOne) {} loginAndAuth = some s
        ∧ s.session = replay jacksonOfUserOne s.history := by
  refine ⟨_, rfl, ?_⟩
  exact (system_linearizable jacksonOfUserOne (.init rfl)
    (rfl : Lts.exec (step jacksonOfUserOne) {} loginAndAuth = some _)).left

end Proxy
