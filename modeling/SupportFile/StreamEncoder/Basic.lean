import Mathlib.Data.List.Basic

/-!
This module contains the character encoder of the Java class library that stands between a
`PrintWriter` and an output stream: it turns the UTF-16 code units it is given into bytes and keeps
these bytes in a buffer of its own.
-/

abbrev JChar := UInt16

/--
What an encoder meets in a text: a code point, or `none` for a surrogate without its partner.
-/
abbrev Token := Option Nat

namespace Utf16

def isHighSurrogate (u : JChar) : Bool :=
  0xd800 ≤ u && u ≤ 0xdbff

def isLowSurrogate (u : JChar) : Bool :=
  0xdc00 ≤ u && u ≤ 0xdfff

def toCodePoint (high low : JChar) : Nat :=
  0x10000 + (high.toNat - 0xd800) * 0x400 + (low.toNat - 0xdc00)

def step (pending : Option JChar) (u : JChar) : List Token × Option JChar :=
  match pending with
  | none =>
    if isHighSurrogate u then
      ([], some u)
    else if isLowSurrogate u then
      ([none], none)
    else
      ([some u.toNat], none)
  | some high =>
    if isLowSurrogate u then
      ([some (toCodePoint high u)], none)
    else if isHighSurrogate u then
      ([none], some u)
    else
      ([none, some u.toNat], none)

def tokens (pending : Option JChar) (units : List JChar) : List Token × Option JChar :=
  match units with
  | [] => ([], pending)
  | u :: units =>
    let (ts, pending) := step pending u
    let (ts', pending) := tokens pending units
    (ts ++ ts', pending)

end Utf16

/--
The encoder of a charset. What it emits for a token may depend on the tokens before it, and for each
token it emits at least one byte; tokens it cannot map are replaced.
-/
structure Charset where
  encode : List Token → Token → List UInt8
  encode_ne_nil : ∀ history t, encode history t ≠ []

namespace Charset

def encodeTokens (cs : Charset) (history : List Token) (ts : List Token) : List UInt8 :=
  match ts with
  | [] => []
  | t :: ts => cs.encode history t ++ encodeTokens cs (history ++ [t]) ts

def getBytes (cs : Charset) (units : List JChar) : List UInt8 :=
  let (ts, pending) := Utf16.tokens none units
  -- A high surrogate at the very end is malformed.
  cs.encodeTokens [] (ts ++ if pending.isSome then [none] else [])

def iso88591 : Charset where
  encode _ t :=
    match t with
    | some cp => if cp < 0x100 then [UInt8.ofNat cp] else [0x3f]
    | none => [0x3f]
  encode_ne_nil := by
    intro _ t
    split
    . split <;> simp
    . simp

end Charset

structure OutputStream (σ : Type u) where
  -- The flag is `false` if the call threw an `IOException`.
  write : List UInt8 → σ → σ × Bool
  flush : σ → σ × Bool

/--
`bb` is the content of the byte buffer and `limit` the place up to which it may be filled, `leftover`
a high surrogate that came last.
-/
structure StreamEncoder where
  charset : Charset
  history : List Token := []
  leftover : Option JChar := none
  bb : List UInt8 := []
  limit : Nat := 8192

namespace StreamEncoder

def capacity : Nat := 8192

def writeBytes (out : OutputStream σ) (e : StreamEncoder) (s : σ) : StreamEncoder × σ × Bool :=
  if e.bb.isEmpty then
    ({ e with limit := capacity }, s, true)
  else
    match out.write e.bb s with
    | (s, true) => ({ e with bb := [], limit := capacity }, s, true)
    -- The buffer has been flipped and is not cleared any more, its old content will be overwritten.
    | (s, false) => ({ e with bb := [], limit := e.bb.length }, s, false)

def put (out : OutputStream σ) (e : StreamEncoder) (t : Token) (s : σ)
    : StreamEncoder × σ × Bool :=
  let bytes := e.charset.encode e.history t
  if e.bb.length + bytes.length ≤ e.limit then
    ({ e with bb := e.bb ++ bytes, history := e.history ++ [t] }, s, true)
  else
    -- The bytes do not fit any more.
    match writeBytes out e s with
    | (e, s, true) => ({ e with bb := e.bb ++ bytes, history := e.history ++ [t] }, s, true)
    | (e, s, false) => (e, s, false)

def putAll (out : OutputStream σ) (e : StreamEncoder) (ts : List Token) (s : σ)
    : StreamEncoder × σ × Bool :=
  match ts with
  | [] => (e, s, true)
  | t :: ts =>
    match put out e t s with
    | (e, s, true) => putAll out e ts s
    | (e, s, false) => (e, s, false)

def write (out : OutputStream σ) (e : StreamEncoder) (units : List JChar) (s : σ)
    : StreamEncoder × σ × Bool :=
  go e.leftover.isSome e units s
where
  go (chained : Bool) (e : StreamEncoder) (units : List JChar) (s : σ)
      : StreamEncoder × σ × Bool :=
    match units with
    | [] => (e, s, true)
    | u :: units =>
      let (ts, pending) := Utf16.step e.leftover u
      match putAll out e ts s with
      | (e, s, true) => go (chained && pending.isSome) { e with leftover := pending } units s
      -- A surrogate of an earlier call is kept, one of this call is lost with the rest of the text.
      | (e, s, false) => ({ e with leftover := if chained then e.leftover else none }, s, false)

def flush (out : OutputStream σ) (e : StreamEncoder) (s : σ) : StreamEncoder × σ × Bool :=
  if e.bb.isEmpty then
    let (s, ok) := out.flush s
    (e, s, ok)
  else
    match writeBytes out e s with
    | (e, s, true) =>
      let (s, ok) := out.flush s
      (e, s, ok)
    | (e, s, false) => (e, s, false)

end StreamEncoder
