import SupportFile.ApiTest.Impl.Forward
import SupportFile.ApiTest.Lemmas.Session

/-!
This module contains what the proxy keeps of the headers of a request, and on which ways through it the
HTTP client is closed.
-/

theorem equalsIgnoreCase_iff {s t : List Char}
    : equalsIgnoreCase s t = true ↔ s.map Char.toLower = t.map Char.toLower := by
  unfold equalsIgnoreCase
  rw [beq_iff_eq]

theorem equalsIgnoreCase_congr {s t : List Char} (h : equalsIgnoreCase s t = true) (r : List Char)
    : equalsIgnoreCase r s = equalsIgnoreCase r t := by
  rw [equalsIgnoreCase_iff] at h
  unfold equalsIgnoreCase
  rw [h]

theorem equalsIgnoreCase_comm (s t : List Char) : equalsIgnoreCase s t = equalsIgnoreCase t s := by
  unfold equalsIgnoreCase
  apply Bool.beq_comm

@[simp]
theorem equalsIgnoreCase_self (s : List Char) : equalsIgnoreCase s s = true := by
  simp [equalsIgnoreCase]

@[simp]
theorem valuesOf_nil (name : List Char) : valuesOf name [] = [] := by
  rfl

theorem valuesOf_cons (name : List Char) (header : Header) (headers : List Header)
    : valuesOf name (header :: headers)
        =
      if equalsIgnoreCase header.name name then
        header.value :: valuesOf name headers
      else
        valuesOf name headers := by
  unfold valuesOf
  rw [List.filter_cons]
  split
  . rfl
  . rfl

theorem valuesOf_congr {name name' : List Char} (h : equalsIgnoreCase name name' = true)
    (headers : List Header)
    : valuesOf name headers = valuesOf name' headers := by
  unfold valuesOf
  simp only [equalsIgnoreCase_congr h]

theorem mem_valuesOf_iff {name value : List Char} {headers : List Header}
    : value ∈ valuesOf name headers
        ↔
      ∃ header ∈ headers, equalsIgnoreCase header.name name = true ∧ header.value = value := by
  simp [valuesOf, and_assoc]

namespace HttpPost

theorem valuesOf_updateHeader_of_ne {headers : List Header} {header : Header} {name : List Char}
    (hne : equalsIgnoreCase header.name name = false)
    : valuesOf name (updateHeader headers header) = valuesOf name headers := by
  induction headers with
  | nil => simp [updateHeader, valuesOf_cons, hne]
  | cons current headers ih =>
    rw [updateHeader]
    split
    . next heq =>
      have hcurrent : equalsIgnoreCase current.name name = false := by
        rw [equalsIgnoreCase_comm, equalsIgnoreCase_congr heq, equalsIgnoreCase_comm, hne]
      simp [valuesOf_cons, hne, hcurrent]
    . rw [valuesOf_cons, valuesOf_cons, ih]

theorem valuesOf_updateHeader_self {headers : List Header} (header : Header)
    (hone : (valuesOf header.name headers).length ≤ 1)
    : valuesOf header.name (updateHeader headers header) = [header.value] := by
  induction headers with
  | nil => simp [updateHeader, valuesOf_cons]
  | cons current headers ih =>
    rw [updateHeader]
    rw [valuesOf_cons] at hone
    split at hone
    . next heq =>
      -- The header that is replaced is the only one of its name.
      rw [List.length_cons] at hone
      have hnil : valuesOf header.name headers = [] := List.length_eq_zero_iff.mp (by omega)
      rw [if_pos heq, valuesOf_cons, if_pos (equalsIgnoreCase_self _), hnil]
    . next hne =>
      rw [if_neg hne, valuesOf_cons, if_neg hne]
      apply ih hone

end HttpPost

namespace Proxy

def isContentLength (name : List Char) : Bool :=
  equalsIgnoreCase name "Content-Length".toList

def putHeader (request : HttpServletRequest) (post : HttpPost) (hname : List Char) : HttpPost :=
  match request.getHeader hname with
  | none => post
  | some hvalue => if isContentLength hname then post else post.setHeader hname hvalue

theorem addHeader_eq (request : HttpServletRequest) (post : HttpPost)
    : addHeader request post = request.headerNames.foldl (putHeader request) post := by
  rfl

-- What the proxy keeps of the lines of one name.
def kept (request : HttpServletRequest) (name : List Char) : List (List Char) :=
  if isContentLength name then [] else (request.getHeader name).toList

theorem kept_congr {name name' : List Char} (h : equalsIgnoreCase name name' = true)
    (request : HttpServletRequest)
    : kept request name = kept request name' := by
  unfold kept isContentLength HttpServletRequest.getHeader
  rw [valuesOf_congr h, equalsIgnoreCase_comm name, equalsIgnoreCase_congr h,
    equalsIgnoreCase_comm name']

theorem length_kept_le (request : HttpServletRequest) (name : List Char)
    : (kept request name).length ≤ 1 := by
  unfold kept
  split
  . simp
  . cases request.getHeader name with
    | none => simp
    | some value => simp

theorem kept_of_getHeader {request : HttpServletRequest} {name value : List Char}
    (h : request.getHeader name = some value)
    : kept request name = if isContentLength name then [] else [value] := by
  unfold kept
  rw [h]
  rfl

theorem valuesOf_putHeader {request : HttpServletRequest} {post : HttpPost} {name : List Char}
    (hpost : valuesOf name post.headers = [] ∨ valuesOf name post.headers = kept request name)
    (hname : List Char)
    : valuesOf name (putHeader request post hname).headers
        =
      if equalsIgnoreCase hname name then kept request name else valuesOf name post.headers := by
  have hskip (hnil : kept request hname = [])
      : valuesOf name post.headers
          =
        if equalsIgnoreCase hname name then kept request name else valuesOf name post.headers := by
    split
    . next heq =>
      rw [← kept_congr heq, hnil] at hpost ⊢
      simpa using hpost
    . rfl
  unfold putHeader
  split
  . next hget =>
    apply hskip
    simp [kept, hget]
  . next hvalue hget =>
    have hkept := kept_of_getHeader hget
    split
    . next hlength =>
      apply hskip
      rw [hkept, if_pos hlength]
    . next hlength =>
      rw [if_neg hlength] at hkept
      unfold HttpPost.setHeader
      split
      . next heq =>
        have hone : (valuesOf hname post.headers).length ≤ 1 := by
          rw [valuesOf_congr heq]
          cases hpost with
          | inl hnil => simp [hnil]
          | inr hkept' =>
            rw [hkept']
            apply length_kept_le
        rw [← valuesOf_congr heq, ← kept_congr heq, hkept]
        apply HttpPost.valuesOf_updateHeader_self ⟨hname, hvalue⟩ hone
      . next hne =>
        apply HttpPost.valuesOf_updateHeader_of_ne
        simpa using hne

theorem valuesOf_foldl_putHeader (request : HttpServletRequest) (name : List Char)
    (hnames : List (List Char)) {post : HttpPost}
    (hpost : valuesOf name post.headers = [] ∨ valuesOf name post.headers = kept request name)
    : valuesOf name (hnames.foldl (putHeader request) post).headers
        =
      if hnames.any (fun hname => equalsIgnoreCase hname name) then
        kept request name
      else
        valuesOf name post.headers := by
  induction hnames generalizing post with
  | nil => rfl
  | cons hname hnames ih =>
    have hput := valuesOf_putHeader hpost hname
    rw [List.foldl_cons, List.any_cons]
    cases heq : equalsIgnoreCase hname name with
    | true =>
      rw [heq, if_pos rfl] at hput
      rw [ih (Or.inr hput), hput]
      simp
    | false =>
      rw [heq, if_neg Bool.false_ne_true] at hput
      rw [← hput] at hpost
      rw [ih hpost, hput]
      simp

theorem valuesOf_addHeader (request : HttpServletRequest) (uri name : List Char)
    : valuesOf name (addHeader request { uri := uri }).headers = kept request name := by
  rw [addHeader_eq, valuesOf_foldl_putHeader request name _ (Or.inl rfl)]
  split
  . rfl
  . next hnone =>
    -- No line has the name, so there is nothing to keep.
    have hnil : valuesOf name request.headers = [] := by
      rw [List.eq_nil_iff_forall_not_mem]
      intro value hvalue
      rcases mem_valuesOf_iff.mp hvalue with ⟨header, hheader, heq, _⟩
      rcases request.listed header hheader with ⟨hname, hmem, heq'⟩
      apply hnone
      rw [List.any_eq_true]
      refine ⟨hname, hmem, ?_⟩
      rw [equalsIgnoreCase_iff] at heq heq' ⊢
      rw [← heq', heq]
    simp [kept, HttpServletRequest.getHeader, hnil]

structure IsFaithful (request : HttpServletRequest) (post : HttpPost) : Prop where
  values : ∀ name, isContentLength name = false →
    valuesOf name post.headers = valuesOf name request.headers
  sent : ∀ header ∈ post.headers, ∃ line ∈ request.headers,
    equalsIgnoreCase line.name header.name = true ∧ line.value = header.value

theorem addHeader_sent (request : HttpServletRequest) (uri : List Char)
    : ∀ header ∈ (addHeader request { uri := uri }).headers, ∃ line ∈ request.headers,
        equalsIgnoreCase line.name header.name = true ∧ line.value = header.value := by
  intro header hheader
  have hmem : header.value ∈ valuesOf header.name (addHeader request { uri := uri }).headers :=
    mem_valuesOf_iff.mpr ⟨header, hheader, equalsIgnoreCase_self _, rfl⟩
  rw [valuesOf_addHeader, kept] at hmem
  split at hmem
  . simp at hmem
  . rw [Option.mem_toList] at hmem
    apply mem_valuesOf_iff.mp (List.mem_of_head? hmem)

theorem head?_toList_eq_iff {values : List (List Char)}
    : values.head?.toList = values ↔ values.length ≤ 1 := by
  match values with
  | [] => simp
  | [value] => simp
  | value :: value' :: values => simp

theorem addHeader_isFaithful_iff (request : HttpServletRequest) (uri : List Char)
    : IsFaithful request (addHeader request { uri := uri })
        ↔
      ∀ name, isContentLength name = false → (valuesOf name request.headers).length ≤ 1 := by
  have hkept {name : List Char} (hname : isContentLength name = false)
      : kept request name = (valuesOf name request.headers).head?.toList := by
    rw [kept, hname]
    rfl
  constructor
  . intro h name hname
    have hvalues := h.values name hname
    rw [valuesOf_addHeader, hkept hname] at hvalues
    apply head?_toList_eq_iff.mp hvalues
  . intro h
    refine ⟨?_, addHeader_sent request uri⟩
    intro name hname
    rw [valuesOf_addHeader, hkept hname]
    apply head?_toList_eq_iff.mpr (h name hname)

def twoCookies : HttpServletRequest where
  headers := [⟨"Cookie".toList, "a".toList⟩, ⟨"cookie".toList, "b".toList⟩]
  headerNames := ["Cookie".toList]
  body := none
  sent := by decide
  listed := by decide

theorem not_addHeader_isFaithful_twoCookies
    : ¬IsFaithful twoCookies (addHeader twoCookies { uri := [] }) := by
  intro h
  have hvalues := h.values "Cookie".toList (by decide)
  revert hvalues
  decide

section Client

variable {Node : Type} (J : Jackson Node) (client : HttpClient)

def ReleasesClient (steps : List ClientStep) : Prop :=
  .create ∈ steps → .close ∈ steps

instance (steps : List ClientStep) : Decidable (ReleasesClient steps) :=
  inferInstanceAs (Decidable (_ → _))

def BuildsPost (requestBody : List Char) : Prop :=
  ∃ jsonNode url,
    J.readTree requestBody = .node jsonNode
      ∧
    J.get jsonNode "url".toList = some url
      ∧
    client.isUri (targetUrl (J.toString url)) = true

theorem proxy_of_buildsPost {request : HttpServletRequest} {requestBody : List Char}
    (hbody : request.body = some requestBody) (h : BuildsPost J client requestBody)
    : ∃ steps, (proxy J client request).steps = [.create] ++ steps ++ [.close] := by
  rcases h with ⟨jsonNode, url, hparse, hget, huri⟩
  unfold proxy
  simp only [hbody, hparse, hget, huri, if_true]
  exact ⟨_, rfl⟩

theorem proxy_of_not_buildsPost {request : HttpServletRequest} {requestBody : List Char}
    (hbody : request.body = some requestBody) (hparse : J.readTree requestBody ≠ .exception)
    (h : ¬BuildsPost J client requestBody)
    : (proxy J client request).steps = [.create] := by
  unfold proxy
  simp only [hbody]
  split
  . contradiction
  . rfl
  . next jsonNode hnode =>
    split
    . rfl
    . next url hget =>
      rw [if_neg]
      intro huri
      apply h
      exact ⟨jsonNode, url, hnode, hget, huri⟩

theorem proxy_releasesClient_iff (request : HttpServletRequest)
    : ReleasesClient (proxy J client request).steps
        ↔
      ∀ requestBody, request.body = some requestBody →
        J.readTree requestBody = .exception ∨ BuildsPost J client requestBody := by
  constructor
  . intro h requestBody hbody
    by_contra hneither
    rw [not_or] at hneither
    rw [proxy_of_not_buildsPost J client hbody hneither.left hneither.right] at h
    revert h
    decide
  . intro h
    cases hbody : request.body with
    | none => simp [proxy, hbody, ReleasesClient]
    | some requestBody =>
      cases h requestBody hbody with
      | inl hparse => simp [proxy, hbody, hparse, ReleasesClient]
      | inr hbuilds =>
        rcases proxy_of_buildsPost J client hbody hbuilds with ⟨steps, hsteps⟩
        rw [hsteps]
        simp [ReleasesClient]

def postOfUserOne : HttpServletRequest where
  headers := []
  headerNames := []
  body := some userOne.1
  sent := by decide
  listed := by decide

theorem not_proxy_releasesClient_userOne
    : let client : HttpClient :=
        { isUri := fun _ => true, execute := fun _ => .exception, close := .done () }
      ¬ReleasesClient (proxy jacksonOfUserOne client postOfUserOne).steps := by
  decide

end Client

end Proxy
