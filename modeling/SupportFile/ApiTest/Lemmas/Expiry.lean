import SupportFile.ApiTest.Lemmas.Session

/-!
This module contains when the table of the sessions keeps only sessions that are still valid. A
logout takes its entry out, but nothing does when the container invalidates the session itself.
-/

namespace Proxy

variable {Node : Type} {J : Jackson Node}

def Live (s : State Node) : Prop :=
  ∀ sid jsonNode, s.session sid = some jsonNode → sid ∈ s.valid

-- If the next access of `t` is that of a login, then the session is still valid.
def PutsInTime (s : State Node) (t : Thread Node) : Prop :=
  ∀ requestBody sid jsonNode, t.request.operation = .login requestBody →
    t.pc = .identified sid (some jsonNode) → sid ∈ s.valid

/--
The container invalidates no session that is in the table, and the session of a login is still valid
when its entry is put there.
-/
def InTime (s : State Node) (action : Action) : Prop :=
  match action with
  | .receive _ => True
  | .proceed k _ => ∀ t, s.threads[k]? = some t → PutsInTime s t
  | .invalidate sid => s.session sid = none

theorem Live.of_valid_subset {s s' : State Node} (hs : Live s) (hsession : s'.session = s.session)
    (hvalid : s.valid ⊆ s'.valid)
    : Live s' := by
  intro sid jsonNode hsid
  rw [hsession] at hsid
  exact hvalid (hs sid jsonNode hsid)

theorem live_put_iff {s : State Node} (hs : Live s) (sid : SessionId) (jsonNode : Node)
    : Live (s.put sid jsonNode) ↔ sid ∈ s.valid := by
  constructor
  . intro h
    apply h sid jsonNode
    apply Function.update_self
  . intro hvalid sid' jsonNode' hsid'
    dsimp only [State.put] at hsid' ⊢
    by_cases heq : sid' = sid
    . rw [heq]
      exact hvalid
    . rw [Function.update_of_ne heq] at hsid'
      exact hs sid' jsonNode' hsid'

theorem live_remove {s : State Node} (hs : Live s) (sid : SessionId) : Live (s.remove sid) := by
  intro sid' jsonNode hsid'
  dsimp only [State.remove] at hsid' ⊢
  by_cases heq : sid' = sid
  . rw [heq, Function.update_self] at hsid'
    contradiction
  . rw [Function.update_of_ne heq] at hsid'
    exact hs sid' jsonNode hsid'

theorem live_invalidate_iff {s : State Node} (hs : Live s) (sid : SessionId)
    : Live { s with valid := s.valid.filter (· ≠ sid) } ↔ s.session sid = none := by
  constructor
  . intro h
    cases hsid : s.session sid with
    | none => rfl
    | some jsonNode =>
      have hmem := h sid jsonNode hsid
      simp at hmem
  . intro hnone sid' jsonNode hsid'
    have hne : sid' ≠ sid := by
      rintro rfl
      rw [hnone] at hsid'
      contradiction
    simp [hs sid' jsonNode hsid', hne]

theorem proceed_live_iff {s s' : State Node} (hs : Live s) {k : Nat} {t : Thread Node}
    {fresh : SessionId} (h : proceed J s k t fresh = some s')
    : Live s' ↔ PutsInTime s t := by
  unfold PutsInTime
  cases proceeds_of_proceed h with
  | unparsable hpc => exact iff_of_true hs (by simp [hpc])
  | parse hpc => exact iff_of_true hs (by simp [hpc])
  | identify hpc hget =>
    rcases getSession_frame hget with ⟨hsession, hvalid, _⟩
    apply iff_of_true
    . exact hs.of_valid_subset hsession hvalid
    . rcases hpc with ⟨hpc, _⟩ | hpc
      . simp [hpc]
      . simp [hpc]
  | @put requestBody sid jsonNode hpc hop =>
    have hput : Live (((s.put sid jsonNode).record k (some sid) t).goto k t
        (.done (.returned (some [])))) ↔ sid ∈ s.valid := live_put_iff hs sid jsonNode
    rw [hput]
    simp [hpc, hop]
  | reject hpc => exact iff_of_true hs (by simp [hpc])
  | look _ hop => exact iff_of_true hs (by simp [hop])
  | remove _ hop => exact iff_of_true (live_remove hs _) (by simp [hop])
  | answer hpc => exact iff_of_true hs (by simp [hpc])

theorem step_live_iff {s s' : State Node} {action : Action} (hs : Live s)
    (h : step J s action = some s')
    : Live s' ↔ InTime s action := by
  cases action with
  | receive request =>
    rw [step, Option.some.injEq] at h
    subst h
    exact iff_of_true hs trivial
  | proceed k fresh =>
    rw [step, Option.bind_eq_some_iff] at h
    rcases h with ⟨t, ht, h⟩
    rw [proceed_live_iff hs h]
    unfold InTime
    simp [ht]
  | invalidate sid =>
    rw [step, Option.some.injEq] at h
    subst h
    apply live_invalidate_iff hs

theorem always_live_iff (J : Jackson Node) (actions : List Action)
    : Lts.Always (step J) Live {} actions ↔ Lts.EachStep (step J) InTime {} actions := by
  apply Lts.always_iff_eachStep step_live_iff
  intro sid jsonNode hsid
  contradiction

-- The session `A` logs in and then runs into its timeout.
def loginAndTimeout : List Action :=
  [.receive { requested := none, operation := .login userOne.1 },
    .proceed 0 "A", .proceed 0 "A", .proceed 0 "A", .invalidate "A"]

theorem not_always_live_loginAndTimeout
    : ¬Lts.Always (step jacksonOfUserOne) Live {} loginAndTimeout := by
  intro h
  have hvalid : "A" ∈ ([] : List SessionId) :=
    h loginAndTimeout List.prefix_rfl _ rfl "A" userOne.2 rfl
  contradiction

end Proxy
