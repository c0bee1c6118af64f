import SupportFile.MySql.Impl.CsNode

/-!
This module contains the stored functions that list the descendants and the ancestors of a node as
a comma separated string.
-/

namespace HieFunction

open CsNode

inductive Outcome where
  | returned (ids : List Char)
  | error
  -- The loop has used up its fuel.
  | running
  deriving DecidableEq, Repr

def select (table : List CsNode) (childIds : List Char) : List Int :=
  -- `FIND_IN_SET` of a `NULL` is not above 0.
  (table.filter (fun row => row.pId.any (fun pId => 0 < findInSet (castAsChar pId) childIds))).map
    (·.id)

def result (ids : List Char) : Outcome :=
  .returned (ids.drop 1)

namespace hieQueDown

def loop (limits : Limits) (table : List CsNode) (fuel : Nat) (ids : List Char)
    (childIds : Option (List Char)) : Outcome :=
  match childIds with
  | none => result ids
  | some childIds =>
    match fuel with
    | 0 => .running
    | fuel + 1 =>
      let ids := ids ++ ',' :: childIds
      let next := groupConcat limits (select table childIds)
      -- A value that does not fit into its variable is an error.
      if limits.fits ids && next.all limits.fits then
        loop limits table fuel ids next
      else
        .error

end hieQueDown

def hieQueDown (limits : Limits) (table : List CsNode) (fuel : Nat) (rootId : Int) : Outcome :=
  hieQueDown.loop limits table fuel [] (some (castAsChar rootId))

namespace hieQueUp

def selectInto (table : List CsNode) (parId : List Char) : Option (Option (List Char)) :=
  match table.filter (fun row => row.id = asNumber parId) with
  -- A query that does not find a row leaves the variable as it is.
  | [] => some (some parId)
  | [row] => some (row.pId.map castAsChar)
  | _ => none

def loop (limits : Limits) (table : List CsNode) (fuel : Nat) (ids tempId : List Char)
    (parId : Option (List Char)) : Outcome :=
  match parId with
  | none => result ids
  | some parId =>
    if tempId = parId then
      result ids
    else
      match fuel with
      | 0 => .running
      | fuel + 1 =>
        let ids := ',' :: parId ++ ids
        match selectInto table parId with
        | some next => if limits.fits ids then loop limits table fuel ids parId next else .error
        | none => .error

end hieQueUp

def hieQueUp (limits : Limits) (table : List CsNode) (fuel : Nat) (subId : Int) : Outcome :=
  hieQueUp.loop limits table fuel [] (castAsChar (subId + 1)) (some (castAsChar subId))

def Returns (call : Nat → Outcome) (ids : List Char) : Prop :=
  ∃ fuel, call fuel = .returned ids

end HieFunction
