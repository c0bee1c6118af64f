import SupportFile.ApiTest.Impl.RequestWrapper
import SupportFile.ApiTest.Impl.HttpServletResponseCopier

/-!
This module contains the filter that wraps the request and the response of every call.
-/

namespace GateFilter

inductive Exit where
  | returned
  -- An `IOException` or a `ServletException`, which the filter logs.
  | checked
  | unchecked
  deriving DecidableEq, Repr

inductive Log where
  | request (body : List Char)
  | error
  | response (copy : List UInt8)
  deriving DecidableEq, Repr

-- `handed` is the request that the chain was invoked with, `made` are the calls of the handler.
structure Result where
  handed : Option RequestWrapper
  made : List Call
  responseWrapper : HttpServletResponseCopier
  exit : Exit
  log : List Log

/--
`pretty` is `JacksonUtils.pretty`, with `none` for an exception. `chain` says which calls the
handler makes on the response wrapper and how it ends.
-/
def doFilter (env : Env) (pretty : List Char → Option (List Char)) (request : BodyStream)
    (response : HttpServletResponse) (chain : RequestWrapper → List Call × Exit) : Result :=
  let requestWrapper := RequestWrapper.new request
  let responseWrapper := HttpServletResponseCopier.new response
  match requestWrapper.getBody.bind pretty with
  | none =>
    { handed := none
      made := []
      responseWrapper := responseWrapper
      exit := .unchecked
      log := [] }
  | some content =>
    let (calls, exit) := chain requestWrapper
    let responseWrapper := responseWrapper.run env calls
    -- The response is logged however the chain was left.
    let error := if exit = .checked then [Log.error] else []
    { handed := some requestWrapper
      made := calls
      responseWrapper := responseWrapper
      exit := exit
      log := [.request content] ++ error ++ [.response responseWrapper.getCopy] }

end GateFilter
