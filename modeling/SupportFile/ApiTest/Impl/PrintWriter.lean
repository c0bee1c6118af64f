import SupportFile.ApiTest.Impl.ServletOutputStreamCopier

/-!
This module contains the print writer that the response wrapper hands out. It never throws an
`IOException`, it only remembers that there has been one.
-/

structure PrintWriter where
  out : Nat
  encoder : StreamEncoder
  autoFlush : Bool
  trouble : Bool := false

namespace PrintWriter

def write (env : Env) (w : PrintWriter) (units : List JChar) (heap : Heap) : PrintWriter × Heap :=
  let (encoder, heap, ok) :=
    w.encoder.write (ServletOutputStreamCopier.stream env w.out) units heap
  ({ w with encoder := encoder, trouble := w.trouble || !ok }, heap)

def flush (env : Env) (w : PrintWriter) (heap : Heap) : PrintWriter × Heap :=
  let (encoder, heap, ok) := w.encoder.flush (ServletOutputStreamCopier.stream env w.out) heap
  ({ w with encoder := encoder, trouble := w.trouble || !ok }, heap)

def newLine (env : Env) (w : PrintWriter) (heap : Heap) : PrintWriter × Heap :=
  match w.encoder.write (ServletOutputStreamCopier.stream env w.out) env.lineSeparator heap with
  | (encoder, heap, true) =>
    if w.autoFlush then
      flush env { w with encoder := encoder } heap
    else
      ({ w with encoder := encoder }, heap)
  -- A line separator that cannot be written skips the flush.
  | (encoder, heap, false) => ({ w with encoder := encoder, trouble := true }, heap)

def println (env : Env) (w : PrintWriter) (units : List JChar) (heap : Heap)
    : PrintWriter × Heap :=
  let (w, heap) := write env w units heap
  newLine env w heap

def format (env : Env) (w : PrintWriter) (units : List JChar) (heap : Heap)
    : PrintWriter × Heap :=
  let (w, heap) := write env w units heap
  if w.autoFlush then flush env w heap else (w, heap)

end PrintWriter
