import Mathlib.Data.List.Induction
import SupportFile.ApiTest.Impl.Proxy
import SupportFile.Json.Basic

/-!
This module contains what the answers of the session table mean in terms of the requests that came
before them, for every order in which the accesses of concurrent requests can happen.
-/

namespace Proxy

variable {Node : Type} (J : Jackson Node)

def effect (sid : SessionId) (e : Event) : Option (Option Node) :=
  if e.sid = some sid then
    match e.operation with
    | .login requestBody =>
      match J.readTree requestBody with
      | .node jsonNode => some (some jsonNode)
      | _ => none
    | .auth => none
    | .logout => some none
  else
    none

def concerns (sid : SessionId) (e : Event) : Bool :=
  (effect J sid e).isSome

def current (sid : SessionId) (history : List Event) : Option Node :=
  history.foldl (fun entry e => (effect J sid e).getD entry) none

variable {J}

def Looked (J : Jackson Node) (history : List Event) (k : Nat) (sid : SessionId)
    (jsonNode : Option Node) : Prop :=
  ∃ before after,
    history = before ++ { thread := k, sid := some sid, operation := .auth } :: after
      ∧
    (∀ e ∈ before ++ after, e.thread ≠ k)
      ∧
    jsonNode = current J sid before

def Waiting (history : List Event) (k : Nat) : Prop :=
  ∀ e ∈ history, e.thread ≠ k

def ofOption (jsonNode : Option Node) : Parsed Node :=
  match jsonNode with
  | some jsonNode => .node jsonNode
  | none => .null

def Served (J : Jackson Node) (history : List Event) (k : Nat) (t : Thread Node) : Prop :=
  match t.pc with
  | .received => Waiting history k
  | .parsed jsonNode => Waiting history k
      ∧ ∃ requestBody, t.request.operation = .login requestBody
        ∧ J.readTree requestBody = ofOption jsonNode
  | .identified _ jsonNode => Waiting history k
      ∧ ∀ requestBody, t.request.operation = .login requestBody →
        J.readTree requestBody = ofOption jsonNode
  | .looked jsonNode => t.request.operation = .auth ∧ ∃ sid, Looked J history k sid jsonNode
  | .done outcome => t.request.operation = .auth →
      ∃ sid jsonNode, Looked J history k sid jsonNode
        ∧ outcome = .returned (jsonNode.map (response J))

structure Inv (J : Jackson Node) (s : State Node) : Prop where
  session : ∀ sid, s.session sid = current J sid s.history
  served : ∀ {k t}, s.threads[k]? = some t → Served J s.history k t
  known : ∀ e ∈ s.history, e.thread < s.threads.length

theorem Waiting.append {history : List Event} {k : Nat} (h : Waiting history k) {e : Event}
    (he : e.thread ≠ k)
    : Waiting (history ++ [e]) k := by
  intro e' he'
  rw [List.mem_append, List.mem_singleton] at he'
  cases he' with
  | inl he' => exact h e' he'
  | inr he' => rwa [he']

theorem Looked.append {history : List Event} {k : Nat} {sid : SessionId}
    {jsonNode : Option Node} (h : Looked J history k sid jsonNode) {e : Event} (he : e.thread ≠ k)
    : Looked J (history ++ [e]) k sid jsonNode := by
  rcases h with ⟨before, after, rfl, hother, hnode⟩
  refine ⟨before, after ++ [e], by simp, ?_, hnode⟩
  rw [← List.append_assoc]
  apply Waiting.append hother he

theorem Served.append {history : List Event} {k : Nat} {t : Thread Node}
    (h : Served J history k t) {e : Event} (he : e.thread ≠ k)
    : Served J (history ++ [e]) k t := by
  unfold Served at *
  split at h
  . apply h.append he
  . exact ⟨h.left.append he, h.right⟩
  . exact ⟨h.left.append he, h.right⟩
  . rcases h with ⟨hop, sid, hlooked⟩
    exact ⟨hop, sid, hlooked.append he⟩
  . intro hop
    rcases h hop with ⟨sid, jsonNode, hlooked, houtcome⟩
    exact ⟨sid, jsonNode, hlooked.append he, houtcome⟩

theorem getSession_frame {s s' : State Node} {request : Request} {fresh sid : SessionId}
    (h : s.getSession request fresh = some (s', sid))
    : s'.session = s.session ∧ s.valid ⊆ s'.valid ∧ s'.threads = s.threads
        ∧ s'.history = s.history := by
  unfold State.getSession at h
  split at h
  . simp only [Option.some.injEq, Prod.mk.injEq] at h
    rw [← h.left]
    exact ⟨rfl, List.Subset.refl _, rfl, rfl⟩
  . split at h
    . contradiction
    . simp only [Option.some.injEq, Prod.mk.injEq] at h
      rw [← h.left]
      exact ⟨rfl, List.subset_cons_self _ _, rfl, rfl⟩

/-- What the next access of the request `t` can be, and what becomes of the state. -/
inductive Proceeds (J : Jackson Node) (s : State Node) (k : Nat) (t : Thread Node) : State Node → Prop
  where
  | unparsable {requestBody : List Char} (hpc : t.pc = .received)
      (hop : t.request.operation = .login requestBody)
      (hparse : J.readTree requestBody = .exception)
      : Proceeds J s k t ((s.record k none t).goto k t (.done .threw))
  | parse {requestBody : List Char} {jsonNode : Option Node} (hpc : t.pc = .received)
      (hop : t.request.operation = .login requestBody)
      (hparse : J.readTree requestBody = ofOption jsonNode)
      : Proceeds J s k t (s.goto k t (.parsed jsonNode))
  | identify {s' : State Node} {fresh sid : SessionId} {jsonNode : Option Node}
      (hpc : t.pc = .received ∧ (∀ requestBody, t.request.operation ≠ .login requestBody)
        ∨ t.pc = .parsed jsonNode)
      (hget : s.getSession t.request fresh = some (s', sid))
      : Proceeds J s k t (s'.goto k t (.identified sid jsonNode))
  | put {requestBody : List Char} {sid : SessionId} {jsonNode : Node}
      (hpc : t.pc = .identified sid (some jsonNode))
      (hop : t.request.operation = .login requestBody)
      : Proceeds J s k t
        (((s.put sid jsonNode).record k (some sid) t).goto k t (.done (.returned (some []))))
  | reject {requestBody : List Char} {sid : SessionId} (hpc : t.pc = .identified sid none)
      (hop : t.request.operation = .login requestBody)
      : Proceeds J s k t ((s.record k (some sid) t).goto k t (.done .threw))
  | look {sid : SessionId} {jsonNode : Option Node} (hpc : t.pc = .identified sid jsonNode)
      (hop : t.request.operation = .auth)
      : Proceeds J s k t ((s.record k (some sid) t).goto k t (.looked (s.session sid)))
  | remove {sid : SessionId} {jsonNode : Option Node} (hpc : t.pc = .identified sid jsonNode)
      (hop : t.request.operation = .logout)
      : Proceeds J s k t
        (((s.remove sid).record k (some sid) t).goto k t (.done (.returned (some []))))
  | answer {jsonNode : Option Node} (hpc : t.pc = .looked jsonNode)
      : Proceeds J s k t (s.goto k t (.done (.returned (jsonNode.map (response J)))))

theorem Proceeds.of_getSession {s s' : State Node} {k : Nat} {t : Thread Node} {fresh : SessionId}
    {jsonNode : Option Node}
    (hpc : t.pc = .received ∧ (∀ requestBody, t.request.operation ≠ .login requestBody)
      ∨ t.pc = .parsed jsonNode)
    (h : (s.getSession t.request fresh).map
      (fun (s, sid) => s.goto k t (.identified sid jsonNode)) = some s')
    : Proceeds J s k t s' := by
  rw [Option.map_eq_some_iff] at h
  rcases h with ⟨⟨s1, sid⟩, hget, rfl⟩
  exact .identify hpc hget

theorem proceeds_of_proceed {s s' : State Node} {k : Nat} {t : Thread Node} {fresh : SessionId}
    (h : proceed J s k t fresh = some s')
    : Proceeds J s k t s' := by
  unfold proceed at h
  split at h
  . next hpc =>
    split at h
    . next requestBody hop =>
      split at h
      . next hparse =>
        rw [Option.some.injEq] at h
        rw [← h]
        exact .unparsable hpc hop hparse
      . next hparse =>
        rw [Option.some.injEq] at h
        rw [← h]
        exact .parse hpc hop hparse
      . next hparse =>
        rw [Option.some.injEq] at h
        rw [← h]
        exact .parse hpc hop hparse
    all_goals
      next hop => exact .of_getSession (.inl ⟨hpc, by simp [hop]⟩) h
  . next hpc => exact .of_getSession (.inr hpc) h
  . next hpc =>
    split at h
    . next hop =>
      split at h
      . rw [Option.some.injEq] at h
        rw [← h]
        exact .put hpc hop
      . rw [Option.some.injEq] at h
        rw [← h]
        exact .reject hpc hop
    . next hop =>
      rw [Option.some.injEq] at h
      rw [← h]
      exact .look hpc hop
    . next hop =>
      rw [Option.some.injEq] at h
      rw [← h]
      exact .remove hpc hop
  . next hpc =>
    rw [Option.some.injEq] at h
    rw [← h]
    exact .answer hpc
  . contradiction

structure Accesses (J : Jackson Node) (s s' : State Node) (k : Nat) (t : Thread Node)
    (pc : Pc Node) (e : Event) : Prop where
  waiting : Waiting s.history k
  thread : e.thread = k
  session : ∀ sid, s'.session sid = (effect J sid e).getD (s.session sid)
  history : s'.history = s.history ++ [e]
  auth : t.request.operation = .auth → ∃ sid, e = { thread := k, sid := some sid, operation := .auth }
    ∧ pc = .looked (s.session sid)
  other : t.request.operation ≠ .auth → ∃ outcome, pc = .done outcome

theorem Accesses.served {s s' : State Node} {k : Nat} {t : Thread Node} {pc : Pc Node} {e : Event}
    (h : Accesses J s s' k t pc e) (hsession : ∀ sid, s.session sid = current J sid s.history)
    : Served J s'.history k { t with pc := pc } := by
  rw [h.history]
  by_cases hop : t.request.operation = .auth
  . rcases h.auth hop with ⟨sid, rfl, rfl⟩
    refine ⟨hop, sid, s.history, [], rfl, ?_, hsession sid⟩
    rw [List.append_nil]
    apply h.waiting
  . rcases h.other hop with ⟨outcome, rfl⟩
    intro hop'
    contradiction

def userOne : List Char × Json :=
  ("\x7b\"user\":1\x7d".toList, .obj [("user".toList.flatMap Json.utf16, .num ['1'])])

def jacksonOfUserOne : Jackson Json where
  readTree text := if text = userOne.1 then .node userOne.2 else .exception
  get jsonNode name :=
    match jsonNode with
    | .obj members => (members.find? (·.1 = name.flatMap Json.utf16)).map (·.2)
    | _ => none
  toString jsonNode :=
    match jsonNode with
    | .num lexeme => lexeme
    | _ => userOne.1

def loginAndAuth : List Action :=
  [.receive { requested := none, operation := .login userOne.1 },
    .proceed 0 "A", .proceed 0 "A", .proceed 0 "A",
    .receive { requested := some "A", operation := .auth },
    .proceed 1 "B", .proceed 1 "B", .proceed 1 "B"]

end Proxy
