import SupportFile.Utf8.Basic
import SupportFile.BufferedReader.Basic

/-!
This module contains the request wrapper that reads the body once and serves it again and again.
-/

/--
The body stream of a request. A broken one delivers some bytes and then throws an `IOException`; by
then `handed` of the characters they decode to have left the decoder.
-/
inductive BodyStream where
  | complete (bytes : List UInt8)
  | broken (bytes : List UInt8) (handed : Nat)
  deriving DecidableEq, Repr

def BodyStream.reader (stream : BodyStream) : BufferedReader :=
  match stream with
  | .complete bytes => { chars := Utf8.decode true bytes }
  | .broken bytes handed => { chars := (Utf8.decode false bytes).take handed, fails := true }

structure ByteArrayInputStream where
  buf : List UInt8
  pos : Nat := 0
  deriving DecidableEq, Repr

namespace ByteArrayInputStream

def read (s : ByteArrayInputStream) : ByteArrayInputStream × Option UInt8 :=
  match s.buf[s.pos]? with
  | some b => ({ s with pos := s.pos + 1 }, some b)
  | none => (s, none)

def drain (s : ByteArrayInputStream) : List UInt8 :=
  go (s.buf.length - s.pos) s
where
  go (fuel : Nat) (s : ByteArrayInputStream) : List UInt8 :=
    match fuel with
    | 0 => []
    | fuel + 1 =>
      match s.read with
      | (s, some b) => b :: go fuel s
      | (_, none) => []

end ByteArrayInputStream

-- `body` is `none` only if the constructor with two arguments was given `null`.
structure RequestWrapper where
  body : Option (List Char)
  deriving DecidableEq, Repr

namespace RequestWrapper

def appendLines (fuel : Nat) (strBuilder : List Char) (reader : BufferedReader) : List Char :=
  match fuel with
  | 0 => strBuilder
  | fuel + 1 =>
    match reader.readLine with
    | .line line reader => appendLines fuel (strBuilder ++ line) reader
    | .eof => strBuilder
    -- The exception is caught, and what has been read so far is kept.
    | .ioException => strBuilder

def new (request : BodyStream) : RequestWrapper :=
  let reader := request.reader
  { body := some (appendLines (reader.chars.length + 1) [] reader) }

def getInputStream (w : RequestWrapper) : Option ByteArrayInputStream :=
  w.body.map (fun body => { buf := Utf8.encode body })

def getReader (w : RequestWrapper) : Option BufferedReader :=
  w.body.map (fun body => { chars := body })

def getBody (w : RequestWrapper) : Option (List Char) :=
  w.body

/-- The calls of the code downstream, `k` is the number of the call that returned the stream. -/
inductive Call where
  | getInputStream
  | read (k : Nat)
  deriving DecidableEq, Repr

structure Opened where
  stream : ByteArrayInputStream
  delivered : List UInt8 := []
  deriving DecidableEq, Repr

def step (w : RequestWrapper) (opened : List Opened) (call : Call) : List Opened :=
  match call with
  | .getInputStream => opened ++ (w.getInputStream.map (fun stream => { stream := stream })).toList
  | .read k =>
    opened.modify k (fun o =>
      match o.stream.read with
      | (stream, some b) => { stream := stream, delivered := o.delivered ++ [b] }
      | (stream, none) => { o with stream := stream })

def run (w : RequestWrapper) (calls : List Call) : List Opened :=
  calls.foldl (step w) []

end RequestWrapper
