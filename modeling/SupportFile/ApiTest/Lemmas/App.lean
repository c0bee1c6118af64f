import SupportFile.ApiTest.Impl.App
import SupportFile.ApiTest.Lemmas.Isolation
import SupportFile.ApiTest.Lemmas.JsonBody
import SupportFile.Json.Print

/-!
This module contains what the clients of the application get back of the JSON that they have sent: the
controller behind the filter refines the controller on its own, and the answer to a check is a JSON text
with the user of the login.
-/

/-- What is assumed of Jackson. `value` is the JSON value that a node stands for. -/
structure Jackson.Keeps {Node : Type} (J : Jackson Node) (value : Node → Json) : Prop where
  readTree : ∀ {text : List Char} {v : Json}, Json.Text text v → v.Portable →
    ∃ node, J.readTree text = .node node ∧ value node = v
  get : ∀ node name, (J.get node name).map value = (value node).member? name
  toString : ∀ node, (value node).Portable → Json.Text (J.toString node) (value node)
  -- Nothing is escaped that does not have to be.
  quote : ∀ {node : Node} {s : List Char}, value node = .str (JsString.ofChars s) →
    (∀ c ∈ s, Json.isUnescaped c = true) → J.toString node = ['"'] ++ s ++ ['"']

namespace Jackson.Keeps

variable {Node : Type} {J : Jackson Node} {value : Node → Json} (hJ : J.Keeps value)
include hJ

end Jackson.Keeps

namespace Proxy

variable {Node : Type} {J : Jackson Node}

def Recorded (s : State Node) : Prop :=
  ∀ e ∈ s.history,
    (s.threads.map (fun t => t.request))[e.thread]?.map (fun request => request.operation)
      =
    some e.operation

end Proxy

namespace App

variable {Node : Type} {J : Jackson Node} {pretty : List Char → Option (List Char)}

theorem doFilter_handed_eq (env : Env) (body : BodyStream) (response : HttpServletResponse)
    (chain : RequestWrapper → List Call × GateFilter.Exit)
    : (GateFilter.doFilter env pretty body response chain).handed = gate pretty body := by
  apply GateFilter.doFilter_handed_eq

/-- The controller behind the filter does what it does on its own, for the requests that are let through. -/
structure Refines (J : Jackson Node) (pretty : List Char → Option (List Char)) (s : State Node)
    : Prop where
  proxy : (Proxy.system J).Reachable s.proxy
  clients : s.clients.map (receive pretty) = (s.proxy.threads.map (fun t => t.request)).map some

def userOneInLines : List Char :=
  "\x7b\r\n\"user\":1\r\n\x7d".toList

def login : HttpRequest :=
  { requested := none, endpoint := .login, body := .complete (Utf8.encode userOneInLines) }

end App
