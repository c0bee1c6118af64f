import SupportFile.Json.Basic

/-!
This module contains the replacement of one place of a JSON value.
-/

namespace Json

inductive Step where
  | key (k : List UInt16)
  | index (i : Nat)
  deriving DecidableEq, Repr

def modifyMember (k : List UInt16) (f : Json → Option Json) (members : List (List UInt16 × Json))
    : Option (List (List UInt16 × Json)) :=
  match members with
  | [] => none
  | (k', v) :: members =>
    if k' = k then
      (f v).map (fun v => (k', v) :: members)
    else
      (modifyMember k f members).map (fun members => (k', v) :: members)

def modifyElem (i : Nat) (f : Json → Option Json) (elems : List Json) : Option (List Json) :=
  match i, elems with
  | _, [] => none
  | 0, v :: elems => (f v).map (fun v => v :: elems)
  | i + 1, v :: elems => (modifyElem i f elems).map (fun elems => v :: elems)

def replace? (v : Json) (path : List Step) (new : Json) : Option Json :=
  match path with
  | [] => some new
  | .key k :: path =>
    match v with
    | .obj members => (modifyMember k (fun v => replace? v path new) members).map .obj
    | _ => none
  | .index i :: path =>
    match v with
    | .arr elems => (modifyElem i (fun v => replace? v path new) elems).map .arr
    | _ => none

end Json
