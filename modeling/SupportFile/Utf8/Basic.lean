import Mathlib.Data.List.Basic

/-!
This module contains the UTF-8 encoder and the replacing UTF-8 decoder of the Java class library.
Well formed sequences are those of `ByteArray.utf8DecodeChar?`, the length of a malformed sequence
is the one the decoder of the class library reports.
-/

namespace Utf8

def encode (s : List Char) : List UInt8 :=
  s.flatMap String.utf8EncodeChar

inductive Step where
  | char (c : Char)
  | malformed (len : Nat)
  -- A proper prefix of a sequence that is not malformed yet.
  | underflow
  deriving DecidableEq, Repr

def replacement : Char := '\uFFFD'

def isNotContinuation (b : UInt8) : Bool :=
  b &&& 0xc0 != 0x80

def isMalformed3_2 (b1 b2 : UInt8) : Bool :=
  (b1 == 0xe0 && b2 &&& 0xe0 == 0x80) || isNotContinuation b2

def isMalformed4_2 (b1 b2 : UInt8) : Bool :=
  (b1 == 0xf0 && (b2 < 0x90 || b2 > 0xbf)) || (b1 == 0xf4 && b2 &&& 0xf0 != 0x80)
    || isNotContinuation b2

def stepMalformed (b1 : UInt8) (rest : List UInt8) : Step :=
  if 0xc2 ≤ b1 && b1 ≤ 0xdf then
    match rest with
    | [] => .underflow
    | _ => .malformed 1
  else if 0xe0 ≤ b1 && b1 ≤ 0xef then
    match rest with
    | [] => .underflow
    | [b2] => if isMalformed3_2 b1 b2 then .malformed 1 else .underflow
    | b2 :: b3 :: _ =>
      if isMalformed3_2 b1 b2 then
        .malformed 1
      else if isNotContinuation b3 then
        .malformed 2
      else
        -- All three bytes have the right shape, so they encode a surrogate.
        .malformed 3
  else if 0xf0 ≤ b1 && b1 ≤ 0xf4 then
    match rest with
    | [] => .underflow
    | [b2] => if isMalformed4_2 b1 b2 then .malformed 1 else .underflow
    | [b2, b3] =>
      if isMalformed4_2 b1 b2 then
        .malformed 1
      else if isNotContinuation b3 then
        .malformed 2
      else
        .underflow
    | b2 :: b3 :: _ :: _ =>
      if isMalformed4_2 b1 b2 then
        .malformed 1
      else if isNotContinuation b3 then
        .malformed 2
      else
        .malformed 3
  else
    .malformed 1

def decodeChar? (bytes : List UInt8) : Option Char :=
  ByteArray.utf8DecodeChar? bytes.toByteArray 0

def step (b1 : UInt8) (rest : List UInt8) : Step :=
  match decodeChar? (b1 :: rest) with
  | some c => .char c
  | none => stepMalformed b1 rest

/--
Decode a byte sequence. A truncated character at the end is replaced once the end of the input is
known, so `eof` tells whether the input ends here or whether nothing more has arrived yet.
-/
def decode (eof : Bool) (bytes : List UInt8) : List Char :=
  go bytes.length bytes
where
  -- Every round drops at least one byte, so that the length of the input is enough fuel.
  go (fuel : Nat) (bytes : List UInt8) : List Char :=
    match fuel, bytes with
    | 0, _ => []
    | _, [] => []
    | fuel + 1, b1 :: rest =>
      match step b1 rest with
      | .char c => c :: go fuel ((b1 :: rest).drop c.utf8Size)
      | .malformed len => replacement :: go fuel ((b1 :: rest).drop len)
      | .underflow => if eof then [replacement] else []

example : decode true [0x61, 0xc3, 0xa9, 0xe2, 0x82, 0x0a] = ['a', 'é', replacement, '\n'] := by
  decide

end Utf8
