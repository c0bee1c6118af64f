import SupportFile.ApiTest.Impl.PrintWriter

/-!
This module contains the response wrapper, the calls a handler can make on it and on what it hands
out, and their runs.
-/

/--
`outputStream` tells whether the field of that name is set, it can only be the stream of the
response. `streams` are the references that `getOutputStream` has returned to the handler, and
`writers` counts the times that `getWriter` has returned.
-/
structure HttpServletResponseCopier where
  heap : Heap := {}
  outputStream : Bool := false
  writer : Option PrintWriter := none
  copier : Option Nat := none
  streams : List Nat := []
  writers : Nat := 0

inductive Exn where
  | illegalState
  | ioException
  | unsupportedEncoding
  | charConversion
  | indexOutOfBounds
  deriving DecidableEq, Repr

inductive Outcome where
  | returned
  | threw (e : Exn)
  -- The handler does not hold the object.
  | notMade
  deriving DecidableEq, Repr

/--
The calls of a handler, where `k` is the number of the call of `getOutputStream` that returned the
stream. `encoding` is the character encoding of the response at the time of the call. `commit` is a
step of the container.
-/
inductive Call where
  | getOutputStream
  | getWriter (encoding : String)
  | streamWrite (k : Nat) (b : Int)
  | streamWriteAll (k : Nat) (bs : List UInt8)
  | streamWriteRange (k : Nat) (bs : List UInt8) (off len : Int)
  | streamPrint (k : Nat) (units : List JChar)
  | streamFlush (k : Nat)
  | writerWrite (units : List JChar)
  | writerPrintln (units : List JChar)
  | writerFormat (units : List JChar)
  | writerFlush
  | flushBuffer
  | reset
  | resetBuffer
  | commit
  deriving DecidableEq, Repr

namespace HttpServletResponseCopier

def new (response : HttpServletResponse) : HttpServletResponseCopier :=
  { heap := { response := response } }

def getOutputStream (env : Env) (c : HttpServletResponseCopier)
    : HttpServletResponseCopier × Outcome :=
  if c.writer.isSome then
    (c, .threw .illegalState)
  else if c.outputStream then
    ({ c with streams := c.streams ++ c.copier.toList }, .returned)
  else
    match c.heap.response.getOutputStream env with
    | (response, false) =>
      ({ c with heap := { c.heap with response := response } }, .threw .ioException)
    | (response, true) =>
      let (heap, copier) := ServletOutputStreamCopier.new { c.heap with response := response }
      ({ c with
          heap := heap
          outputStream := true
          copier := some copier
          streams := c.streams ++ [copier] }, .returned)

def getWriter (env : Env) (encoding : String) (c : HttpServletResponseCopier)
    : HttpServletResponseCopier × Outcome :=
  if c.outputStream then
    (c, .threw .illegalState)
  else if c.writer.isSome then
    ({ c with writers := c.writers + 1 }, .returned)
  else
    match c.heap.response.getOutputStream env with
    | (response, false) =>
      ({ c with heap := { c.heap with response := response } }, .threw .ioException)
    | (response, true) =>
      let (heap, copier) := ServletOutputStreamCopier.new { c.heap with response := response }
      match env.charset encoding with
      -- The field `copier` has been set before the encoding turns out to be unknown.
      | none => ({ c with heap := heap, copier := some copier }, .threw .unsupportedEncoding)
      | some charset =>
        let writer := { out := copier, encoder := { charset := charset }, autoFlush := true }
        ({ c with
            heap := heap
            copier := some copier
            writer := some writer
            writers := c.writers + 1 }, .returned)

def getCopy (c : HttpServletResponseCopier) : List UInt8 :=
  match c.copier with
  | some copier => ServletOutputStreamCopier.getCopy copier c.heap
  | none => []

def onWriter (f : PrintWriter → Heap → PrintWriter × Heap) (c : HttpServletResponseCopier)
    : HttpServletResponseCopier × Outcome :=
  match c.writer with
  | none => (c, .notMade)
  | some w =>
    let (w, heap) := f w c.heap
    ({ c with writer := some w, heap := heap }, .returned)

def onStream (env : Env) (k : Nat) (bs : List UInt8) (outcome : Outcome)
    (c : HttpServletResponseCopier)
    : HttpServletResponseCopier × Outcome :=
  match c.streams[k]? with
  | none => (c, .notMade)
  | some copier =>
    match ServletOutputStreamCopier.writeAll env copier bs c.heap with
    | (heap, true) => ({ c with heap := heap }, outcome)
    | (heap, false) => ({ c with heap := heap }, .threw .ioException)

def flushStream (k : Nat) (c : HttpServletResponseCopier)
    : HttpServletResponseCopier × Outcome :=
  match c.streams[k]? with
  | none => (c, .notMade)
  | some _ =>
    let (heap, _) := ServletOutputStreamCopier.flush c.heap
    ({ c with heap := heap }, .returned)

def flushBuffer (env : Env) (c : HttpServletResponseCopier)
    : HttpServletResponseCopier × Outcome :=
  if c.writer.isSome then
    onWriter (PrintWriter.flush env) c
  else if c.outputStream then
    let (heap, _) := ServletOutputStreamCopier.flush c.heap
    ({ c with heap := heap }, .returned)
  else
    (c, .returned)

def forward (f : HttpServletResponse → HttpServletResponse × Bool) (c : HttpServletResponseCopier)
    : HttpServletResponseCopier × Outcome :=
  let (response, ok) := f c.heap.response
  ({ c with heap := { c.heap with response := response } },
    if ok then .returned else .threw .illegalState)

def step (env : Env) (c : HttpServletResponseCopier) (call : Call)
    : HttpServletResponseCopier × Outcome :=
  match call with
  | .getOutputStream => getOutputStream env c
  | .getWriter encoding => getWriter env encoding c
  | .streamWrite k b => onStream env k [UInt8.ofInt b] .returned c
  | .streamWriteAll k bs => onStream env k bs .returned c
  | .streamWriteRange k bs off len =>
    match ServletOutputStreamCopier.range bs off len with
    | some bs => onStream env k bs .returned c
    | none => onStream env k [] (.threw .indexOutOfBounds) c
  | .streamPrint k units =>
    let (bs, ok) := ServletOutputStreamCopier.latin1 units
    onStream env k bs (if ok then .returned else .threw .charConversion) c
  | .streamFlush k => flushStream k c
  | .writerWrite units => onWriter (fun w => PrintWriter.write env w units) c
  | .writerPrintln units => onWriter (fun w => PrintWriter.println env w units) c
  | .writerFormat units => onWriter (fun w => PrintWriter.format env w units) c
  | .writerFlush => onWriter (PrintWriter.flush env) c
  | .flushBuffer => flushBuffer env c
  | .reset => forward HttpServletResponse.reset c
  | .resetBuffer => forward HttpServletResponse.resetBuffer c
  | .commit => forward (fun r => (r.commit, true)) c

def run (env : Env) (c : HttpServletResponseCopier) (calls : List Call)
    : HttpServletResponseCopier :=
  match calls with
  | [] => c
  -- The handler may go on after an exception.
  | call :: calls => run env (step env c call).1 calls

end HttpServletResponseCopier
