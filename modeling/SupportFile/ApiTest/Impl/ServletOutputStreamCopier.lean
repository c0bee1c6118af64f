import SupportFile.ApiTest.Impl.HttpServletResponse

/-!
This module contains the output stream that keeps a copy of all it has passed on.
-/

/--
The objects below the response wrapper: the response of the container, whose one output stream all
copiers write to, and the content of `copy` of each copier that was ever created.
-/
structure Heap where
  response : HttpServletResponse := {}
  copiers : List (List UInt8) := []
  deriving DecidableEq, Repr

namespace ServletOutputStreamCopier

def new (heap : Heap) : Heap × Nat :=
  ({ heap with copiers := heap.copiers ++ [[]] }, heap.copiers.length)

def write (env : Env) (this : Nat) (b : UInt8) (heap : Heap) : Heap × Bool :=
  -- The byte is copied only after the stream below has accepted it.
  match heap.response.write env b with
  | (response, true) =>
    ({ response := response, copiers := heap.copiers.modify this (fun copy => copy ++ [b]) }, true)
  | (response, false) => ({ heap with response := response }, false)

def writeAll (env : Env) (this : Nat) (bs : List UInt8) (heap : Heap) : Heap × Bool :=
  match bs with
  | [] => (heap, true)
  | b :: bs =>
    match write env this b heap with
    | (heap, true) => writeAll env this bs heap
    | (heap, false) => (heap, false)

def flush (heap : Heap) : Heap × Bool :=
  -- `flush()` is inherited from `OutputStream` and does nothing.
  (heap, true)

def getCopy (this : Nat) (heap : Heap) : List UInt8 :=
  heap.copiers[this]?.getD []

def stream (env : Env) (this : Nat) : OutputStream Heap where
  write := writeAll env this
  flush := flush

def range (bs : List UInt8) (off len : Int) : Option (List UInt8) :=
  if 0 ≤ off && 0 ≤ len && off + len ≤ bs.length then
    some ((bs.drop off.toNat).take len.toNat)
  else
    none

-- `print(String)` stops at the first character that is not in ISO 8859-1.
def latin1 (units : List JChar) : List UInt8 × Bool :=
  match units with
  | [] => ([], true)
  | u :: units =>
    if u < 0x100 then
      let (bs, ok) := latin1 units
      (u.toUInt8 :: bs, ok)
    else
      ([], false)

end ServletOutputStreamCopier
