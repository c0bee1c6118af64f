import SupportFile.ApiTest.Lemmas.App
import SupportFile.ApiTest.Lemmas.Forward

/-!
This module contains what the proxy sends on: to which servers, with which headers, and what of the JSON
text that a client has sent through the filter.
-/

namespace Proxy

def host (path : List Char) : List Char :=
  if "stat".toList <:+: path then "127.0.0.1:9090".toList else "127.0.0.1:8080".toList

variable {Node : Type} {J : Jackson Node} {client : HttpClient} {request : HttpServletRequest}

end Proxy
