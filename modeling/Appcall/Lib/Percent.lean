/-
Percent encoding.

A text is written byte by byte in UTF-8: a byte that is kept stands for itself, any other is
a percent sign and two digits. Reading is stricter than writing: it fails where an escape is
not one, or where the bytes are not UTF-8. Only the empty text is written as nothing.
-/
import Appcall.Lib.Chars
import Appcall.Lib.Json

set_option autoImplicit false

namespace Appcall.Percent

open Chars (hex_upper hex_digit)

def encode_byte (keep : UInt8 → Bool) (b : UInt8) : List Char :=
  if keep b then [Char.ofNat b.toNat]
  else ['%', hex_upper (b.toNat / 16), hex_upper (b.toNat % 16)]

def encode (keep : UInt8 → Bool) (text : List Char) : List Char :=
  (Json.bytes text).flatMap (encode_byte keep)

def decode_bytes : List Char → Option (List UInt8)
  | [] => some []
  | '%' :: a :: b :: rest => do
    let a ← hex_digit a
    let b ← hex_digit b
    let bytes ← decode_bytes rest
    some (UInt8.ofNat (16 * a + b) :: bytes)
  | c :: rest =>
    if c = '%' then none else (decode_bytes rest).map (String.utf8EncodeChar c ++ ·)

/-- The text that is encoded: none if an escape is not one, or its bytes are not UTF-8. -/
def decode (text : List Char) : Option (List Char) := (decode_bytes text).bind Json.text_of

variable {keep : UInt8 → Bool}

theorem encode_eq_nil {text : List Char} : encode keep text = [] ↔ text = [] := by
  constructor
  · intro h
    have hbytes : Json.bytes text = Json.bytes [] := by
      cases hb : Json.bytes text with
      | nil => rfl
      | cons b bytes =>
        rw [encode, hb, List.flatMap_cons, encode_byte] at h
        split at h <;> cases h
    exact Json.bytes_inj hbytes
  · rintro rfl
    rfl

end Appcall.Percent
