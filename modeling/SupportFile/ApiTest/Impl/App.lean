import SupportFile.ApiTest.Impl.GateFilter
import SupportFile.ApiTest.Impl.Proxy

/-!
This module contains the application as its clients reach it, with the filter in front of the endpoints
of the controller.
-/

namespace App

inductive Endpoint where
  | login
  | auth
  | logout
  deriving DecidableEq, Repr

structure HttpRequest where
  requested : Option Proxy.SessionId
  endpoint : Endpoint
  body : BodyStream
  deriving DecidableEq, Repr

/-- The request that the filter invokes the chain with, it is `none` if `JacksonUtils.pretty` has thrown. -/
def gate (pretty : List Char → Option (List Char)) (body : BodyStream) : Option RequestWrapper :=
  let requestWrapper := RequestWrapper.new body
  (requestWrapper.getBody.bind pretty).map (fun _ => requestWrapper)

def requestBody (request : RequestWrapper) : Option (List Char) :=
  request.getInputStream.map Proxy.copyToString

def dispatch (client : HttpRequest) (request : RequestWrapper) : Option Proxy.Request :=
  match client.endpoint with
  | .login =>
    (requestBody request).map
      (fun requestBody => { requested := client.requested, operation := .login requestBody })
  | .auth => some { requested := client.requested, operation := .auth }
  | .logout => some { requested := client.requested, operation := .logout }

def receive (pretty : List Char → Option (List Char)) (client : HttpRequest) : Option Proxy.Request :=
  (gate pretty client.body).bind (dispatch client)

-- `clients` are the requests that the threads of the controller serve.
structure State (Node : Type) where
  proxy : Proxy.State Node := {}
  clients : List HttpRequest := []

inductive Action where
  | send (client : HttpRequest)
  | proceed (thread : Nat) (fresh : Proxy.SessionId)
  | invalidate (sid : Proxy.SessionId)
  deriving DecidableEq, Repr

variable {Node : Type} (J : Jackson Node) (pretty : List Char → Option (List Char))

def step (s : State Node) (action : Action) : Option (State Node) :=
  match action with
  | .send client =>
    match receive pretty client with
    | none => some s
    | some request =>
      (Proxy.step J s.proxy (.receive request)).map
        (fun proxy => { proxy := proxy, clients := s.clients ++ [client] })
  | .proceed k fresh =>
    (Proxy.step J s.proxy (.proceed k fresh)).map (fun proxy => { s with proxy := proxy })
  | .invalidate sid =>
    (Proxy.step J s.proxy (.invalidate sid)).map (fun proxy => { s with proxy := proxy })

def system : Lts (State Node) Action :=
  Lts.ofFun (fun s => s = {}) (step J pretty)

end App
