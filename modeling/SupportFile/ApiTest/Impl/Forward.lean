import Mathlib.Data.List.Infix
import SupportFile.ApiTest.Impl.HttpClient
import SupportFile.ApiTest.Impl.Proxy

/-!
This module contains the method of the controller that sends a request on to another server.
-/

namespace Proxy

def addHeader (request : HttpServletRequest) (post : HttpPost) : HttpPost :=
  request.headerNames.foldl (fun post hname =>
    match request.getHeader hname with
    -- Every name in the list is that of a line.
    | none => post
    | some hvalue =>
      if equalsIgnoreCase hname "Content-Length".toList then
        post
      else
        post.setHeader hname hvalue) post

inductive ClientStep where
  | create
  | execute (post : HttpPost)
  | close
  deriving DecidableEq, Repr

structure Forwarded where
  outcome : Outcome
  steps : List ClientStep
  deriving DecidableEq, Repr

def targetUrl (url : List Char) : List Char :=
  let targetUrl := url.filter (· ≠ '"')
  if "stat".toList <:+: targetUrl then
    "http://127.0.0.1:9090/".toList ++ targetUrl
  else
    "http://127.0.0.1:8080/".toList ++ targetUrl

variable {Node : Type} (J : Jackson Node) (client : HttpClient) (request : HttpServletRequest)

-- The block between `try` and `catch`, its result is the value of the variable `result`.
def tryBlock (jsonNode : Node) (post : HttpPost) : Attempt (List Char) × List ClientStep :=
  match J.get jsonNode "reqdata".toList with
  -- A `NullPointerException`.
  | none => (.exception, [])
  | some reqdata =>
    let payload := J.toString reqdata
    let post := (addHeader request post).setEntity payload
    match client.execute post with
    | .exception => (.exception, [.execute post])
    | .error => (.error, [.execute post])
    | .done rs =>
      if rs.statusCode = 200 then
        (rs.text, [.execute post])
      else
        (.done [], [.execute post])

def proxy : Forwarded :=
  match request.body with
  | none => { outcome := .threw, steps := [] }
  | some requestBody =>
    match J.readTree requestBody with
    | .exception => { outcome := .threw, steps := [] }
    | .null => { outcome := .threw, steps := [.create] }
    | .node jsonNode =>
      match J.get jsonNode "url".toList with
      | none => { outcome := .threw, steps := [.create] }
      | some url =>
        let targetUrl := targetUrl (J.toString url)
        if client.isUri targetUrl then
          let (result, steps) := tryBlock J client request jsonNode { uri := targetUrl }
          let outcome :=
            match result, client.close with
            | .error, _ => .threw
            | _, .error => .threw
            | .done result, _ => .returned (some result)
            | .exception, _ => .returned (some [])
          { outcome := outcome, steps := [.create] ++ steps ++ [.close] }
        else
          -- The constructor of the post is called before the `try`.
          { outcome := .threw, steps := [.create] }

end Proxy
