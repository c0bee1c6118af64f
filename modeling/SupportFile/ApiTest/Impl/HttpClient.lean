import Mathlib.Data.List.Basic

/-!
This module contains what the proxy needs of its libraries: the header lines of a request, the post
that is sent on and the outcomes of sending it.
-/

-- Header names are ASCII.
def equalsIgnoreCase (s t : List Char) : Bool :=
  s.map Char.toLower == t.map Char.toLower

structure Header where
  name : List Char
  value : List Char
  deriving DecidableEq, Repr

def valuesOf (name : List Char) (headers : List Header) : List (List Char) :=
  (headers.filter (fun header => equalsIgnoreCase header.name name)).map (fun header => header.value)

/--
`headerNames` is what `getHeaderNames` lists, in any spelling. `body` is `none` if reading it throws an
`IOException`.
-/
structure HttpServletRequest where
  headers : List Header
  headerNames : List (List Char)
  body : Option (List Char)
  sent : ∀ hname ∈ headerNames, ∃ header ∈ headers, equalsIgnoreCase header.name hname = true
  listed : ∀ header ∈ headers, ∃ hname ∈ headerNames, equalsIgnoreCase header.name hname = true

def HttpServletRequest.getHeader (request : HttpServletRequest) (name : List Char)
    : Option (List Char) :=
  (valuesOf name request.headers).head?

structure HttpPost where
  uri : List Char
  headers : List Header := []
  entity : Option (List Char) := none
  deriving DecidableEq, Repr

namespace HttpPost

def updateHeader (headers : List Header) (header : Header) : List Header :=
  match headers with
  | [] => [header]
  | current :: headers =>
    if equalsIgnoreCase current.name header.name then
      header :: headers
    else
      current :: updateHeader headers header

def setHeader (post : HttpPost) (name value : List Char) : HttpPost :=
  { post with headers := updateHeader post.headers { name := name, value := value } }

def setEntity (post : HttpPost) (entity : List Char) : HttpPost :=
  { post with entity := some entity }

end HttpPost

inductive Attempt (α : Type) where
  | done (result : α)
  | exception
  -- An `Error`, which `catch (Exception e)` lets through.
  | error
  deriving DecidableEq, Repr

-- `text` is what `EntityUtils.toString` makes of the entity.
structure HttpResponse where
  statusCode : Nat
  text : Attempt (List Char)
  deriving DecidableEq, Repr

/--
`isUri` tells which texts `new HttpPost` accepts. An exception of `close` is an `IOException`, any other
counts as an error.
-/
structure HttpClient where
  isUri : List Char → Bool
  execute : HttpPost → Attempt HttpResponse
  close : Attempt Unit
