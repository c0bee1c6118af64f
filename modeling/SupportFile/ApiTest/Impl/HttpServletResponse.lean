import SupportFile.StreamEncoder.Basic

/-!
This module contains the response of the servlet container, as far as the wrapper around it relies
on it, and the environment it lives in.
-/

/--
`fails n` tells whether the `n`-th call that the container may refuse throws an `IOException`, and
`sends n` whether the container sends its buffer during this call.
-/
structure Env where
  fails : Nat → Bool
  charset : String → Option Charset
  lineSeparator : List JChar
  sends : Nat → Bool := fun _ => false

/--
The body of a response is what has been sent to the client, followed by what is still buffered.
`accepted` are all the bytes that the output stream has ever accepted, and `calls` counts the calls
that could have failed.
-/
structure HttpServletResponse where
  calls : Nat := 0
  accepted : List UInt8 := []
  sent : List UInt8 := []
  buffered : List UInt8 := []
  committed : Bool := false
  deriving DecidableEq, Repr

namespace HttpServletResponse

def body (r : HttpServletResponse) : List UInt8 :=
  r.sent ++ r.buffered

def commit (r : HttpServletResponse) : HttpServletResponse :=
  { r with
      sent := r.sent ++ r.buffered
      buffered := []
      committed := true }

def getOutputStream (env : Env) (r : HttpServletResponse) : HttpServletResponse × Bool :=
  ({ r with calls := r.calls + 1 }, !env.fails r.calls)

def accept (b : UInt8) (r : HttpServletResponse) : HttpServletResponse :=
  { r with
      calls := r.calls + 1
      accepted := r.accepted ++ [b]
      buffered := r.buffered ++ [b] }

def write (env : Env) (b : UInt8) (r : HttpServletResponse) : HttpServletResponse × Bool :=
  if env.fails r.calls then
    ({ r with calls := r.calls + 1 }, false)
  else if env.sends r.calls then
    ((r.accept b).commit, true)
  else
    (r.accept b, true)

def discard (r : HttpServletResponse) : HttpServletResponse × Bool :=
  if r.committed then
    -- The call throws an `IllegalStateException`.
    (r, false)
  else
    ({ r with buffered := [] }, true)

def reset (r : HttpServletResponse) : HttpServletResponse × Bool :=
  discard r

def resetBuffer (r : HttpServletResponse) : HttpServletResponse × Bool :=
  discard r

end HttpServletResponse
