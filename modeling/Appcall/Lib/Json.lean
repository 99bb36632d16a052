/-
Strings in JSON texts.

A string is written with the two-character escapes where JSON has one, with `\u00xx` for
the other control characters and as it is otherwise; what is written is read back up to
its closing quote. A written string is at most six times as long as the string.
-/
import Mathlib.Algebra.GroupWithZero.Nat
import Mathlib.Data.List.Basic
import Mathlib.Data.String.Basic
import Mathlib.Tactic.Cases

set_option autoImplicit false

namespace Appcall.Json

def bytes (text : List Char) : List UInt8 := text.flatMap String.utf8EncodeChar

theorem bytes_append (a b : List Char) : bytes (a ++ b) = bytes a ++ bytes b :=
  List.flatMap_append

theorem mem_encode {c : Char} {b : UInt8} (h : b ∈ String.utf8EncodeChar c) :
    128 ≤ b.toNat ∨ c.toNat = b.toNat := by
  have hc : c.val.toNat = c.toNat := rfl
  unfold String.utf8EncodeChar at h
  dsimp only at h
  split at h
  next hascii =>
    right
    rw [List.mem_singleton.mp h, UInt8.toNat_ofNat']
    omega
  next =>
    left
    split at h
    next =>
      simp only [List.mem_cons, List.not_mem_nil, or_false] at h
      rcases h with rfl | rfl
      all_goals
        rw [UInt8.toNat_ofNat']
        omega
    next =>
      split at h
      next =>
        simp only [List.mem_cons, List.not_mem_nil, or_false] at h
        rcases h with rfl | rfl | rfl
        all_goals
          rw [UInt8.toNat_ofNat']
          omega
      next =>
        simp only [List.mem_cons, List.not_mem_nil, or_false] at h
        rcases h with rfl | rfl | rfl | rfl
        all_goals
          rw [UInt8.toNat_ofNat']
          omega

theorem mem_bytes {text : List Char} {b : UInt8} (h : b ∈ bytes text) (hascii : b.toNat < 128) :
    ∃ c ∈ text, c.toNat = b.toNat := by
  obtain ⟨c, hc, hb⟩ := List.mem_flatMap.mp h
  rcases mem_encode hb with hlarge | heq
  · omega
  · exact ⟨c, hc, heq⟩

theorem length_bytes (text : List Char) :
    (bytes text).length = (text.map Char.utf8Size).sum := by
  induction text with
  | nil => rfl
  | cons c text ih =>
    rw [bytes, List.flatMap_cons, List.length_append, String.length_utf8EncodeChar,
      List.map_cons, List.sum_cons]
    exact congrArg _ ih

theorem length_plain {text : List Char} (h : ∀ c ∈ text, c.utf8Size = 1) :
    (bytes text).length = text.length := by
  rw [length_bytes, List.map_congr_left h, List.map_const', List.sum_replicate_nat, Nat.mul_one]

theorem length_bytes_toList (s : String) : (bytes s.toList).length = s.utf8ByteSize := by
  have h : s.toList.utf8Encode = s.toByteArray := String.utf8Encode_toList
  rw [List.utf8Encode] at h
  rw [String.utf8ByteSize, ← h, List.size_toByteArray]
  rfl

def hex (n : ℕ) : Char := "0123456789abcdef".toList.getD n '0'

def escape_char (c : Char) : List Char :=
  if c = '"' then ['\\', '"']
  else if c = '\\' then ['\\', '\\']
  else if c.toNat = 8 then ['\\', 'b']
  else if c.toNat = 9 then ['\\', 't']
  else if c.toNat = 10 then ['\\', 'n']
  else if c.toNat = 12 then ['\\', 'f']
  else if c.toNat = 13 then ['\\', 'r']
  else if c.toNat < 32 then ['\\', 'u', '0', '0', hex (c.toNat / 16), hex (c.toNat % 16)]
  else [c]

def quote (s : List Char) : List Char := '"' :: s.flatMap escape_char ++ ['"']

def hex_value (c : Char) : Option ℕ := "0123456789abcdef".toList.findIdx? (fun d => d == c)

/-- The character that a two-character escape stands for. -/
def short_escape (c : Char) : Option Char :=
  if c = '"' then some '"'
  else if c = '\\' then some '\\'
  else if c = 'b' then some (Char.ofNat 8)
  else if c = 't' then some '\t'
  else if c = 'n' then some '\n'
  else if c = 'f' then some (Char.ofNat 12)
  else if c = 'r' then some '\r'
  else none

theorem escape_char_cases (c : Char) :
    (∃ d ∈ ['"', '\\', 'b', 't', 'n', 'f', 'r'], short_escape d = some c
        ∧ escape_char c = ['\\', d])
      ∨ (c.toNat < 32 ∧ escape_char c
        = ['\\', 'u', '0', '0', hex (c.toNat / 16), hex (c.toNat % 16)])
      ∨ (c ≠ '"' ∧ c ≠ '\\' ∧ 32 ≤ c.toNat ∧ escape_char c = [c]) := by
  have hshort : ∀ n d, c.toNat = n → short_escape d = some (Char.ofNat n) →
      short_escape d = some c := by
    rintro n d rfl h
    rw [h, Char.ofNat_toNat]
  rw [escape_char]
  split_ifs with hquote hslash hb ht hn hf hr hcontrol
  · exact .inl ⟨'"', by decide, congrArg some hquote.symm, rfl⟩
  · exact .inl ⟨'\\', by decide, congrArg some hslash.symm, rfl⟩
  · exact .inl ⟨'b', by decide, hshort 8 'b' hb rfl, rfl⟩
  · exact .inl ⟨'t', by decide, hshort 9 't' ht rfl, rfl⟩
  · exact .inl ⟨'n', by decide, hshort 10 'n' hn rfl, rfl⟩
  · exact .inl ⟨'f', by decide, hshort 12 'f' hf rfl, rfl⟩
  · exact .inl ⟨'r', by decide, hshort 13 'r' hr rfl, rfl⟩
  · exact .inr (.inl ⟨hcontrol, rfl⟩)
  · exact .inr (.inr ⟨hquote, hslash, not_lt.mp hcontrol, rfl⟩)

/-- What a character is written with, other than itself. -/
def escape_alphabet : List Char := "\\\"btnfru0123456789abcdef".toList

theorem mem_escape_char {c d : Char} (h : d ∈ escape_char c) : d = c ∨ d ∈ escape_alphabet := by
  have hhex : ∀ n : Fin 16, hex n ∈ escape_alphabet := by decide
  rcases escape_char_cases c with ⟨e, he, -, heq⟩ | ⟨hcontrol, heq⟩ | ⟨-, -, -, heq⟩
  all_goals
    rw [heq] at h
    simp only [List.mem_cons, List.not_mem_nil, or_false] at h
  · rcases h with rfl | rfl
    · exact .inr (by decide)
    · simp only [List.mem_cons, List.not_mem_nil, or_false] at he
      rcases he with rfl | rfl | rfl | rfl | rfl | rfl | rfl <;> exact .inr (by decide)
  · rcases h with rfl | rfl | rfl | rfl | rfl | rfl
    · exact .inr (by decide)
    · exact .inr (by decide)
    · exact .inr (by decide)
    · exact .inr (by decide)
    · exact .inr (hhex ⟨c.toNat / 16, by omega⟩)
    · exact .inr (hhex ⟨c.toNat % 16, by omega⟩)
  · exact .inl h

theorem escape_char_own (c : Char) : escape_char c = [c] ∨ '\\' ∈ escape_char c := by
  rcases escape_char_cases c with ⟨d, -, -, heq⟩ | ⟨-, heq⟩ | ⟨-, -, -, heq⟩
  · exact .inr (heq ▸ List.mem_cons_self)
  · exact .inr (heq ▸ List.mem_cons_self)
  · exact .inl heq

/-- The string up to its closing quote, and what follows. -/
def unquote : List Char → Option (List Char × List Char)
  | '"' :: rest => some ([], rest)
  | '\\' :: 'u' :: '0' :: '0' :: h :: l :: rest => do
    let h ← hex_value h
    let l ← hex_value l
    let (s, rest) ← unquote rest
    some (Char.ofNat (h * 16 + l) :: s, rest)
  | '\\' :: c :: rest => do
    let c ← short_escape c
    let (s, rest) ← unquote rest
    some (c :: s, rest)
  | c :: rest => do
    let (s, rest) ← unquote rest
    some (c :: s, rest)
  | [] => none

theorem hex_value_hex {n : ℕ} (h : n < 16) : hex_value (hex n) = some n := by
  have hall : ∀ n : Fin 16, hex_value (hex n) = some n.val := by decide
  exact hall ⟨n, h⟩

theorem unquote_escape_char (c : Char) (rest : List Char) :
    unquote (escape_char c ++ rest)
      = (unquote rest).map (fun r => (c :: r.1, r.2)) := by
  rcases escape_char_cases c with ⟨d, hd, hshort, heq⟩ | ⟨hcontrol, heq⟩ |
    ⟨hquote, hslash, -, heq⟩
  all_goals
    rw [heq]
    simp only [List.cons_append, List.nil_append]
    rw [unquote]
  · rw [hshort]
    cases h : unquote rest <;> simp
  · intro h l tail hu
    rw [hu] at hd
    exact absurd hd (by decide)
  · have hvalue : c.toNat / 16 * 16 + c.toNat % 16 = c.toNat := by omega
    rw [hex_value_hex (by omega), hex_value_hex (by omega)]
    cases h : unquote rest <;> simp [hvalue, Char.ofNat_toNat]
  · cases h : unquote rest <;> simp
  · exact hquote
  · intro h l tail heq
    exact absurd heq hslash
  · intro c' tail heq
    exact absurd heq hslash

variable (s : List Char)

theorem unquote_flatMap (rest : List Char) :
    unquote (s.flatMap escape_char ++ '"' :: rest) = some (s, rest) := by
  induction s with
  | nil => simp [unquote]
  | cons c s ih =>
    rw [List.flatMap_cons, List.append_assoc, unquote_escape_char, ih]
    rfl

def read : List Char → Option (List Char × List Char)
  | '"' :: rest => unquote rest
  | _ => none

theorem read_quote (rest : List Char) : read (quote s ++ rest) = some (s, rest) := by
  rw [quote, List.append_assoc]
  exact unquote_flatMap s rest

def strip (expected text : List Char) : Option (List Char) :=
  if expected <+: text then some (text.drop expected.length) else none

theorem strip_append (expected rest : List Char) :
    strip expected (expected ++ rest) = some rest := by
  rw [strip, if_pos (List.prefix_append _ _), List.drop_left]

def text_of (b : List UInt8) : Option (List Char) := b.toByteArray.utf8Decode?.map Array.toList

theorem text_of_bytes (text : List Char) : text_of (bytes text) = some text := by
  have h : text.utf8Encode.utf8Decode? = some text.toArray := List.utf8Decode?_utf8Encode
  rw [List.utf8Encode] at h
  rw [text_of, bytes, h]
  simp

theorem bytes_inj {a b : List Char} (h : bytes a = bytes b) : a = b := by
  have ha := text_of_bytes a
  rw [h, text_of_bytes b] at ha
  exact (Option.some.inj ha).symm

theorem length_quote : (bytes (quote s)).length ≤ 6 * (bytes s).length + 2 := by
  have hchar : ∀ c, (bytes (escape_char c)).length ≤ 6 * (bytes [c]).length := by
    intro c
    have hpos : 1 ≤ (bytes [c]).length := by
      rw [length_bytes]
      exact Char.utf8Size_pos c
    have hhex : ∀ n, (bytes [hex n]).length = 1 := by
      intro n
      have hmem : hex n ∈ "0123456789abcdef".toList := by
        rw [hex, List.getD_eq_getElem?_getD]
        cases h : "0123456789abcdef".toList[n]? with
        | none => decide
        | some d => exact List.mem_of_getElem? h
      revert hmem
      generalize hex n = d
      intro hmem
      have hall : "0123456789abcdef".toList.all (fun d => (bytes [d]).length == 1) = true := by
        decide
      exact beq_iff_eq.mp (List.all_eq_true.mp hall d hmem)
    rcases escape_char_cases c with ⟨d, hd, -, heq⟩ | ⟨-, heq⟩ | ⟨-, -, -, heq⟩
    · rw [heq]
      simp only [List.mem_cons, List.not_mem_nil, or_false] at hd
      rcases hd with rfl | rfl | rfl | rfl | rfl | rfl | rfl <;>
        exact (show 2 ≤ 6 by omega).trans (by omega)
    · have hsplit : ∀ h l : Char, bytes ['\\', 'u', '0', '0', h, l]
          = bytes ['\\', 'u', '0', '0'] ++ (bytes [h] ++ bytes [l]) := by
        intro h l
        rw [← bytes_append, ← bytes_append]
        rfl
      rw [heq, hsplit, List.length_append, List.length_append, hhex, hhex]
      exact (show 4 + (1 + 1) ≤ 6 by omega).trans (by omega)
    · rw [heq]
      omega
  have hbody : (bytes (s.flatMap escape_char)).length ≤ 6 * (bytes s).length := by
    induction s with
    | nil => exact le_rfl
    | cons c s ih =>
      have hcons : bytes (c :: s) = bytes [c] ++ bytes s := bytes_append [c] s
      rw [List.flatMap_cons, bytes_append, hcons, List.length_append, List.length_append]
      have hc := hchar c
      omega
  have hquote : bytes (quote s)
      = bytes ['"'] ++ (bytes (s.flatMap escape_char) ++ bytes ['"']) := by
    rw [← bytes_append, ← bytes_append]
    rfl
  rw [hquote, List.length_append, List.length_append]
  have hone : (bytes ['"']).length = 1 := rfl
  omega

end Appcall.Json
