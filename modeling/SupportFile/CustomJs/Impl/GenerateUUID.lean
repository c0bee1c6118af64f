/-!
This module contains the function of `custom.js` that generates a UUID from the time and from random
numbers.
-/

namespace CustomJs

namespace customGenerateUUID

def template : List Char :=
  "xxxxxxxx-xxxx-4xxx-yxxx-xxxxxxxxxxxx".toList

-- The pattern `/[xy]/g`.
def isMatch (c : Char) : Bool :=
  c == 'x' || c == 'y'

def digit (c : Char) (r : Nat) : Char :=
  Nat.digitChar (if c == 'x' then r else (r &&& 0x7) ||| 0x8)

/--
`random` are the whole parts of what the draws add to the time. A draw itself is less than 16, but its
sum with the time is rounded and may come out 16 more than the time.
-/
def replace (d : Nat) (random : Nat → Fin 17) (cs : List Char) : List Char :=
  match cs with
  | [] => []
  | c :: cs =>
    if isMatch c then
      let r := (d + random 0) % 16
      digit c r :: replace (d / 16) (fun k => random (k + 1)) cs
    else
      c :: replace d random cs

end customGenerateUUID

/-- `time` are the milliseconds since the start of 1970, before which the clock does not stand. -/
def customGenerateUUID (time : Nat) (random : Nat → Fin 17) : List Char :=
  customGenerateUUID.replace time random customGenerateUUID.template

example : customGenerateUUID 0x16f3a5b9c2d (fun _ => 0)
    = "d2c9b5a3-f610-4000-8000-000000000000".toList := by
  decide

end CustomJs
