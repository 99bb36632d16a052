/-
Bytes in hexadecimal.

A byte is written with two lower-case digits. A pair of characters is read the way numbers
are read in base sixteen: the digits in either case, and a plus sign before one of them.
What is written is read back.
-/
import Appcall.Lib.Json

set_option autoImplicit false

namespace Appcall.Hex

/-- `{byte:02x}` -/
def write_byte (b : UInt8) : List Char := [Json.hex (b.toNat / 16), Json.hex (b.toNat % 16)]

def write (bytes : List UInt8) : List Char := bytes.flatMap write_byte

/-- `char::to_digit(16)` -/
def digit (b : UInt8) : Option ℕ :=
  if 48 ≤ b.toNat ∧ b.toNat ≤ 57 then some (b.toNat - 48)
  else if 97 ≤ b.toNat ∧ b.toNat ≤ 102 then some (b.toNat - 87)
  else if 65 ≤ b.toNat ∧ b.toNat ≤ 70 then some (b.toNat - 55)
  else none

/-- `u8::from_str_radix(_, 16)` of two characters. -/
def read_byte (a b : UInt8) : Option UInt8 := do
  if a.toNat = 43 then
    let low ← digit b
    some (UInt8.ofNat low)
  else
    let high ← digit a
    let low ← digit b
    some (UInt8.ofNat (high * 16 + low))

/-- The bytes of the pairs of a text, which has to have an even length. -/
def read : List UInt8 → Option (List UInt8)
  | [] => some []
  | [_] => none
  | a :: b :: rest => do
    let byte ← read_byte a b
    let bytes ← read rest
    some (byte :: bytes)

theorem digit_hex {n : ℕ} (h : n < 16) : ∃ b, Json.bytes [Json.hex n] = [b] ∧ b.toNat ≠ 43
    ∧ digit b = some n := by
  have hall : ∀ n : Fin 16,
      Json.bytes [Json.hex n] = [UInt8.ofNat (Json.hex n).toNat]
        ∧ (UInt8.ofNat (Json.hex n).toNat).toNat ≠ 43
        ∧ digit (UInt8.ofNat (Json.hex n).toNat) = some n.val := by decide
  exact ⟨_, hall ⟨n, h⟩⟩

theorem bytes_write_byte (b : UInt8) :
    ∃ h l, Json.bytes (write_byte b) = [h, l] ∧ read_byte h l = some b := by
  have hlt : b.toNat < 256 := b.toNat_lt
  obtain ⟨h, hbyte, hplus, hhigh⟩ := digit_hex (n := b.toNat / 16) (by omega)
  obtain ⟨l, lbyte, -, hlow⟩ := digit_hex (n := b.toNat % 16) (by omega)
  refine ⟨h, l, ?_, ?_⟩
  · have hsplit : write_byte b = [Json.hex (b.toNat / 16)] ++ [Json.hex (b.toNat % 16)] := rfl
    rw [hsplit, Json.bytes_append, hbyte, lbyte]
    rfl
  · have hvalue : b.toNat / 16 * 16 + b.toNat % 16 = b.toNat := by omega
    rw [read_byte, if_neg hplus, hhigh, hlow]
    change some (UInt8.ofNat (b.toNat / 16 * 16 + b.toNat % 16)) = some b
    rw [hvalue, UInt8.ofNat_toNat]

variable (bytes : List UInt8)

/-- **What is written is read back.** -/
theorem read_write : read (Json.bytes (write bytes)) = some bytes := by
  induction bytes with
  | nil => rfl
  | cons b bytes ih =>
    obtain ⟨h, l, hbyte, hread⟩ := bytes_write_byte b
    have hcons : write (b :: bytes) = write_byte b ++ write bytes := rfl
    rw [hcons, Json.bytes_append, hbyte, List.cons_append, List.cons_append, List.nil_append,
      read, hread, ih]
    rfl

theorem length_write : (Json.bytes (write bytes)).length = 2 * bytes.length := by
  induction bytes with
  | nil => rfl
  | cons b bytes ih =>
    obtain ⟨h, l, hbyte, -⟩ := bytes_write_byte b
    have hcons : write (b :: bytes) = write_byte b ++ write bytes := rfl
    rw [hcons, Json.bytes_append, hbyte, List.length_append, ih, List.length_cons]
    simp only [List.length_cons, List.length_nil]
    omega

end Appcall.Hex
