import SupportFile.ApiTest.Impl.RequestWrapper
import SupportFile.Lts.Basic

/-!
This module contains the controller that keeps a table of the sessions that have logged in. Its
requests are served concurrently, and every access to the table is one atomic step.
-/

inductive Parsed (Node : Type) where
  | exception
  -- What `ObjectMapper.readTree` returns for an empty text.
  | null
  | node (node : Node)
  deriving DecidableEq, Repr

structure Jackson (Node : Type) where
  readTree : List Char → Parsed Node
  -- `JsonNode.get` returns `null` for a member that is missing.
  get : Node → List Char → Option Node
  toString : Node → List Char

namespace Proxy

def copyToString (stream : ByteArrayInputStream) : List Char :=
  Utf8.decode true stream.drain

abbrev SessionId := String

inductive Operation where
  -- The body has been read already when the method is called.
  | login (requestBody : List Char)
  | auth
  | logout
  deriving DecidableEq, Repr

structure Request where
  requested : Option SessionId
  operation : Operation
  deriving DecidableEq, Repr

inductive Outcome where
  | returned (response : Option (List Char))
  | threw
  deriving DecidableEq, Repr

inductive Pc (Node : Type) where
  | received
  | parsed (jsonNode : Option Node)
  -- The id of the session is known, and what a login has read before.
  | identified (sid : SessionId) (jsonNode : Option Node)
  | looked (jsonNode : Option Node)
  | done (outcome : Outcome)
  deriving DecidableEq, Repr

structure Thread (Node : Type) where
  request : Request
  pc : Pc Node
  deriving DecidableEq, Repr

-- `sid` is `none` if the request failed before it asked for its session.
structure Event where
  thread : Nat
  sid : Option SessionId
  operation : Operation
  deriving DecidableEq, Repr

/--
`issued` are the ids of all the sessions there have ever been, `valid` those of the sessions that
have not been invalidated. `history` has the events in the order in which they happened.
-/
structure State (Node : Type) where
  session : SessionId → Option Node := fun _ => none
  issued : List SessionId := []
  valid : List SessionId := []
  threads : List (Thread Node) := []
  history : List Event := []

-- `fresh` is the id of the session that the container creates if the request needs a new one.
inductive Action where
  | receive (request : Request)
  | proceed (thread : Nat) (fresh : SessionId)
  | invalidate (sid : SessionId)
  deriving DecidableEq, Repr

namespace State

variable {Node : Type}

def goto (s : State Node) (k : Nat) (t : Thread Node) (pc : Pc Node) : State Node :=
  { s with threads := s.threads.set k { t with pc := pc } }

def record (s : State Node) (k : Nat) (sid : Option SessionId) (t : Thread Node) : State Node :=
  { s with history := s.history ++ [{ thread := k, sid := sid, operation := t.request.operation }] }

def put (s : State Node) (sid : SessionId) (jsonNode : Node) : State Node :=
  { s with session := Function.update s.session sid (some jsonNode) }

def remove (s : State Node) (sid : SessionId) : State Node :=
  { s with session := Function.update s.session sid none }

def getSession (s : State Node) (request : Request) (fresh : SessionId)
    : Option (State Node × SessionId) :=
  match request.requested.filter (fun sid => sid ∈ s.valid) with
  | some sid => some (s, sid)
  | none =>
    -- The container never uses an id twice.
    if fresh ∈ s.issued then
      none
    else
      some ({ s with issued := fresh :: s.issued, valid := fresh :: s.valid }, fresh)

end State

variable {Node : Type} (J : Jackson Node)

def response (jsonNode : Node) : List Char :=
  let user :=
    match J.get jsonNode "user".toList with
    | some user => J.toString user
    -- The concatenation prints a missing member.
    | none => "null".toList
  "\x7b\"rst\":200, \"user\":".toList ++ user ++ "\x7d".toList

def proceed (s : State Node) (k : Nat) (t : Thread Node) (fresh : SessionId)
    : Option (State Node) :=
  match t.pc with
  | .received =>
    match t.request.operation with
    | .login requestBody =>
      match J.readTree requestBody with
      | .exception => some ((s.record k none t).goto k t (.done .threw))
      | .null => some (s.goto k t (.parsed none))
      | .node jsonNode => some (s.goto k t (.parsed (some jsonNode)))
    | .auth | .logout =>
      (s.getSession t.request fresh).map (fun (s, sid) => s.goto k t (.identified sid none))
  | .parsed jsonNode =>
    (s.getSession t.request fresh).map (fun (s, sid) => s.goto k t (.identified sid jsonNode))
  | .identified sid jsonNode =>
    match t.request.operation with
    | .login _ =>
      match jsonNode with
      | some jsonNode =>
        some (((s.put sid jsonNode).record k (some sid) t).goto k t (.done (.returned (some []))))
      | none =>
        -- The table does not take `null`.
        some ((s.record k (some sid) t).goto k t (.done .threw))
    | .auth => some ((s.record k (some sid) t).goto k t (.looked (s.session sid)))
    | .logout =>
      some (((s.remove sid).record k (some sid) t).goto k t (.done (.returned (some []))))
  | .looked jsonNode => some (s.goto k t (.done (.returned (jsonNode.map (response J)))))
  | .done _ => none

def step (s : State Node) (action : Action) : Option (State Node) :=
  match action with
  | .receive request =>
    some { s with threads := s.threads ++ [{ request := request, pc := .received }] }
  | .proceed k fresh => s.threads[k]?.bind (fun t => proceed J s k t fresh)
  | .invalidate sid => some { s with valid := s.valid.filter (· ≠ sid) }

def system : Lts (State Node) Action :=
  Lts.ofFun (fun s => s = {}) (step J)

end Proxy
