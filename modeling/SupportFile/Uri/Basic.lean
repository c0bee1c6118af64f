import SupportFile.JsString.Basic
import SupportFile.Utf8.Basic

/-!
This module contains the percent-encoding of JavaScript's `encodeURIComponent`, and the decoding that
the receiver of a query string does.
-/

namespace Uri

def isUnescaped (c : Char) : Bool :=
  -- uriAlpha, DecimalDigit and uriMark
  ('a' ≤ c && c ≤ 'z') || ('A' ≤ c && c ≤ 'Z') || ('0' ≤ c && c ≤ '9')
    || c == '-' || c == '_' || c == '.' || c == '!' || c == '~' || c == '*' || c == '\''
    || c == '(' || c == ')'

def hexDigit (n : Nat) : Char :=
  if n < 10 then
    Char.ofNat ('0'.toNat + n)
  else
    Char.ofNat ('A'.toNat + (n - 10))

def encodeByte (b : UInt8) : List Char :=
  ['%', hexDigit (b.toNat / 16), hexDigit (b.toNat % 16)]

def encodeChar (c : Char) : List Char :=
  if isUnescaped c then
    [c]
  else
    (String.utf8EncodeChar c).flatMap encodeByte

def encode (s : List Char) : List Char :=
  s.flatMap encodeChar

-- Nothing stands for the `URIError` that a surrogate without its partner causes.
def encodeURIComponent (s : JsString) : Option JsString :=
  s.chars?.map (fun cs => JsString.ofChars (encode cs))

def hexValue (b : UInt8) : Option Nat :=
  if 0x30 ≤ b && b ≤ 0x39 then
    some (b.toNat - 0x30)
  else if 0x41 ≤ b && b ≤ 0x46 then
    some (b.toNat - 0x41 + 10)
  else if 0x61 ≤ b && b ≤ 0x66 then
    some (b.toNat - 0x61 + 10)
  else
    none

def decodeBytes (bytes : List UInt8) : List UInt8 :=
  match bytes with
  | [] => []
  | [b] => [b]
  | [a, b] => [a, b]
  | p :: a :: b :: bytes =>
    if p == 0x25 then
      match hexValue a, hexValue b with
      | some high, some low => UInt8.ofNat (high * 16 + low) :: decodeBytes bytes
      -- A percent sign without two digits stands for itself.
      | _, _ => p :: decodeBytes (a :: b :: bytes)
    else
      p :: decodeBytes (a :: b :: bytes)

def percentDecode (s : JsString) : JsString :=
  JsString.ofChars (Utf8.decode true (decodeBytes (Utf8.encode s.toWellFormed)))

example : encodeURIComponent (JsString.ofChars ['a', ' ', 'é', '&'])
    = some (JsString.ofChars ['a', '%', '2', '0', '%', 'C', '3', '%', 'A', '9', '%', '2', '6']) := by
  decide

example : percentDecode (JsString.ofChars ['%', '2', '6', '%', 'C', '3', '%', 'A', '9', '%', 'x'])
    = JsString.ofChars ['&', 'é', '%', 'x'] := by
  decide

end Uri
