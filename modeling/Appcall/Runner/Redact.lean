/-
What the runner takes out of a text before it shows it: `redactText` of
`runner/bun/src/redact.ts`.

Texts are sequences of 16-bit units, as in the language. A secret is looked for as it is, as a
form would write it and as a URI would, each also with small letters in its escapes; then what
looks like a credential is taken out.
-/
import Appcall.Lib.Chars
import Appcall.Lib.Json
import Appcall.Lib.Replace
import Appcall.Lib.Utf16

set_option autoImplicit false

namespace Appcall.Redact

open Chars (hex_upper byte_cases)
open Replace (replace substitute)

/-! ## Spellings -/

def ascii (c : Char) : UInt16 := UInt16.ofNat c.toNat

def escaped (b : UInt8) : List UInt16 :=
  [ascii '%', ascii (hex_upper (b.toNat / 16)), ascii (hex_upper (b.toNat % 16))]

/-- A letter or a digit, of a byte or a unit. -/
def is_alphanumeric (n : ℕ) : Bool :=
  decide ((48 ≤ n ∧ n ≤ 57) ∨ (65 ≤ n ∧ n ≤ 90) ∨ (97 ≤ n ∧ n ≤ 122))

/-- A byte as `URLSearchParams` writes it: letters, digits and `*-._` stay. -/
def form_byte (b : UInt8) : List UInt16 :=
  if b.toNat = 32 then [ascii '+']
  else if is_alphanumeric b.toNat || [42, 45, 46, 95].contains b.toNat then [UInt16.ofNat b.toNat]
  else escaped b

/-- A byte as `encodeURIComponent` writes it: letters, digits and `-_.!~*'()` stay. -/
def uri_byte (b : UInt8) : List UInt16 :=
  if is_alphanumeric b.toNat || [33, 39, 40, 41, 42, 45, 46, 95, 126].contains b.toNat then
    [UInt16.ofNat b.toNat]
  else escaped b

def spell_char (byte : UInt8 → List UInt16) (c : Char) : List UInt16 :=
  (String.utf8EncodeChar c).flatMap byte

/-- A surrogate that stands alone becomes the replacement character. -/
def spell (byte : UInt8 → List UInt16) (text : List UInt16) : List UInt16 :=
  (Utf16.scalars text).flatMap fun c => spell_char byte (c.getD (Char.ofNat 65533))

/-- `new URLSearchParams({ v: value }).toString().slice(2)` -/
def form (value : List UInt16) : List UInt16 := spell form_byte value

/-- `encodeURIComponent`, which throws for a surrogate that stands alone. -/
def encodeURIComponent (value : List UInt16) : Option (List UInt16) :=
  if none ∈ Utf16.scalars value then none else some (spell uri_byte value)

def is_upper_hex (u : UInt16) : Bool :=
  decide ((48 ≤ u.toNat ∧ u.toNat ≤ 57) ∨ (65 ≤ u.toNat ∧ u.toNat ≤ 70))

/-- `toLowerCase`, of an ASCII unit. -/
def fold (u : UInt16) : UInt16 :=
  if 65 ≤ u.toNat ∧ u.toNat ≤ 90 then u + 32 else u

/-- `v.replace(/%[0-9A-F]{2}/g, p => p.toLowerCase())` -/
def lower_escapes : List UInt16 → List UInt16
  | [] => []
  | u :: a :: b :: rest =>
    if u = ascii '%' ∧ is_upper_hex a = true ∧ is_upper_hex b = true then
      u :: fold a :: fold b :: lower_escapes rest
    else u :: lower_escapes (a :: b :: rest)
  | u :: rest => u :: lower_escapes rest

/-- The spellings of one value, without those of `lower_escapes`. -/
def spellings (value : List UInt16) : List (List UInt16) :=
  [value, form value] ++ (encodeURIComponent value).toList

/-- The values with their small escapes, the longest first. -/
def longest_first (values : List (List UInt16)) : List (List UInt16) :=
  (values.flatMap fun v => [v, lower_escapes v]).eraseDups.mergeSort
    (fun a b => decide (b.length ≤ a.length))

/-! ## What looks like a credential -/

def is_word (u : UInt16) : Bool := is_alphanumeric u.toNat || u == ascii '_'

/-- `\s` -/
def is_space (u : UInt16) : Bool := Chars.space u.toNat

def is_letter (u : UInt16) : Bool :=
  decide ((65 ≤ u.toNat ∧ u.toNat ≤ 90) ∨ (97 ≤ u.toNat ∧ u.toNat ≤ 122))

/-- A letter or digit, or one of some other characters. -/
def is_alnum_or (others : String) (u : UInt16) : Bool :=
  is_alphanumeric u.toNat || others.toList.any (fun c => ascii c == u)

/-- A part of a pattern: `\b`, one of some words, or characters of a class, as many as there
are. -/
inductive Atom
  | boundary
  | word (alternatives : List String)
  | many (class_of : UInt16 → Bool) (least : ℕ) (most : Option ℕ)

structure Pattern where
  ignore_case : Bool
  atoms : List Atom

/-- The length of the first match at a place, in the order of a backtracking engine. -/
def match_atoms (same : UInt16 → UInt16) :
    List Atom → Option UInt16 → List UInt16 → Option ℕ
  | [], _, _ => some 0
  | .boundary :: atoms, before, text =>
    if before.any is_word = text.head?.any is_word then none else match_atoms same atoms before text
  | .word alternatives :: atoms, before, text =>
    alternatives.findSome? fun word =>
      let length := word.toList.length
      if (text.take length).map same = word.toList.map ascii then
        (match_atoms same atoms ((text.take length).getLast?.or before) (text.drop length)).map
          (· + length)
      else none
  | .many class_of least most :: atoms, before, text =>
    let available := (text.takeWhile class_of).length
    let most := (most.map (min available)).getD available
    -- the longest first
    (List.range (most + 1 - least)).findSome? fun i =>
      (match_atoms same atoms ((text.take (most - i)).getLast?.or before)
        (text.drop (most - i))).map (· + (most - i))

def Pattern.found (pattern : Pattern) : Option UInt16 → List UInt16 → Option ℕ :=
  match_atoms (if pattern.ignore_case then fold else id) pattern.atoms

/-- `[A-Za-z0-9._~+/=-]{8,}` -/
def opaque_part : Atom := .many (is_alnum_or "._~+/=-") 8 none

def SECRET_TEXT_PATTERNS : List Pattern :=
  [⟨true, [.boundary, .word ["bearer", "basic"], .many is_space 1 none, opaque_part]⟩,
    ⟨true, [.boundary, .many is_letter 1 (some 1), .many (is_alnum_or "") 1 (some 12),
      .many (fun u => u == ascii '_' || u == ascii '-') 1 (some 1),
      .word ["live", "test", "prod", "sk", "pk"],
      .many (fun u => u == ascii '_' || u == ascii '-') 1 (some 1), opaque_part]⟩,
    ⟨true, [.boundary, .word ["xox"],
      .many (fun u => "abposr".toList.any (fun c => ascii c == fold u)) 1 (some 1), .word ["-"],
      .many (is_alnum_or "-") 8 none]⟩,
    ⟨true, [.boundary, .word ["gh"],
      .many (fun u => "pousr".toList.any (fun c => ascii c == fold u)) 1 (some 1), .word ["_"],
      .many (is_alnum_or "") 16 none]⟩,
    ⟨false, [.boundary, .word ["eyJ"], .many (is_alnum_or "._-") 16 none]⟩]

/-! ## The source -/

def marker : Replace.Marker UInt16 :=
  ⟨ascii '[', "REDACTED".toList.map ascii, ascii ']'⟩

def REDACTED : List UInt16 := "[REDACTED]".toList.map ascii

/-- `redactText`, with the secrets of the execution context. -/
def redact_text (secrets : List (List UInt16)) (text : List UInt16) : List UInt16 :=
  let values := longest_first (secrets.flatMap spellings)
  let out := (values.filter (fun v => !v.isEmpty)).foldl (fun out v => replace v REDACTED out) text
  SECRET_TEXT_PATTERNS.foldl (fun out p => substitute p.found REDACTED none 0 out) out

/-! ## What a text may not show -/

/-- A way to write a value: as it is, as a form or a URI would, or one of these with small
letters in its escapes. -/
def Spelled (value w : List UInt16) : Prop :=
  w ∈ spellings value ∨ ∃ v ∈ spellings value, w = lower_escapes v

/-- A value without brackets that the marker does not show. -/
def Plain (value : List UInt16) : Prop :=
  ascii '[' ∉ value ∧ ascii ']' ∉ value ∧ ¬value <:+: REDACTED

/-- The text shows the value in no spelling. -/
def Hides (text value : List UInt16) : Prop := ∀ w, Spelled value w → ¬w <:+: text

/-! ## Spellings are foreign to the marker -/

variable {w : List UInt16} {u : UInt16} {value : List UInt16} {secrets : List (List UInt16)}
  {secret : List UInt16}

theorem foreign_iff : Replace.Foreign marker w ↔ Plain w := Replace.foreign_iff

theorem not_redacted (hu : u ∉ REDACTED) (hw : u ∈ w) :
    ¬w <:+: REDACTED := fun h => hu (h.subset hw)

/-- How bytes may be written: a byte that stays is ASCII, and any other shows by a sign. -/
structure Writes (byte : UInt8 → List UInt16) : Prop where
  own : ∀ b, b.toNat < 128 ∧ byte b = [UInt16.ofNat b.toNat] ∨ ascii '%' ∈ byte b
    ∨ ascii '+' ∈ byte b
  brackets : ∀ b, ascii '[' ∉ byte b ∧ ascii ']' ∉ byte b

theorem form_writes : Writes form_byte :=
  ⟨byte_cases (by decide +kernel), byte_cases (by decide +kernel)⟩

theorem uri_writes : Writes uri_byte :=
  ⟨byte_cases (by decide +kernel), byte_cases (by decide +kernel)⟩

variable {byte : UInt8 → List UInt16}

theorem spell_char_own (h : Writes byte) (c : Char) :
    c.toNat < 128 ∧ spell_char byte c = [UInt16.ofNat c.toNat]
      ∨ ascii '%' ∈ spell_char byte c ∨ ascii '+' ∈ spell_char byte c := by
  by_cases hascii : c.toNat < 128
  · have hbytes : String.utf8EncodeChar c = [UInt8.ofNat c.toNat] := by
      have hval : c.val.toNat = c.toNat := rfl
      unfold String.utf8EncodeChar
      dsimp only
      rw [if_pos (by omega)]
      rfl
    have hb : (UInt8.ofNat c.toNat).toNat = c.toNat := by
      rw [UInt8.toNat_ofNat']
      omega
    rw [spell_char, hbytes, List.flatMap_singleton]
    rcases h.own (UInt8.ofNat c.toNat) with ⟨-, hown⟩ | hsign
    · rw [hb] at hown
      exact .inl ⟨hascii, hown⟩
    · exact .inr hsign
  · -- a byte of a character beyond ASCII does not stay
    obtain ⟨b, hb⟩ : ∃ b, b ∈ String.utf8EncodeChar c := by
      have hsize := String.length_utf8EncodeChar c
      have hpos := Char.utf8Size_pos c
      exact List.exists_mem_of_length_pos (by omega)
    have hlarge : ¬b.toNat < 128 := by
      rcases Json.mem_encode hb with hlarge | heq
      · omega
      · omega
    rcases h.own b with ⟨hsmall, -⟩ | hsign | hsign
    · exact absurd hsmall hlarge
    · exact .inr (.inl (List.mem_flatMap.mpr ⟨b, hb, hsign⟩))
    · exact .inr (.inr (List.mem_flatMap.mpr ⟨b, hb, hsign⟩))

theorem spell_own (h : Writes byte) (text : List UInt16) :
    spell byte text = text ∨ ascii '%' ∈ spell byte text ∨ ascii '+' ∈ spell byte text := by
  -- one unit, in front of what has been said of the rest
  have hstep : ∀ (u : UInt16) (rest written : List UInt16),
      written = rest ∨ ascii '%' ∈ written ∨ ascii '+' ∈ written →
      let c := if Utf16.is_high u || Utf16.is_low u then none else some (Char.ofNat u.toNat)
      let front := spell_char byte (c.getD (Char.ofNat 65533))
      front ++ written = u :: rest ∨ ascii '%' ∈ front ++ written
        ∨ ascii '+' ∈ front ++ written := by
    intro u rest written hrest c front
    have hsign : ascii '%' ∈ front ∨ ascii '+' ∈ front →
        front ++ written = u :: rest ∨ ascii '%' ∈ front ++ written
          ∨ ascii '+' ∈ front ++ written := by
      rintro (hmem | hmem)
      · exact .inr (.inl (List.mem_append_left _ hmem))
      · exact .inr (.inr (List.mem_append_left _ hmem))
    rcases spell_char_own h (c.getD (Char.ofNat 65533)) with ⟨hsmall, hown⟩ | hmem
    · by_cases hsurrogate : (Utf16.is_high u || Utf16.is_low u) = true
      · have hc : c = none := if_pos hsurrogate
        rw [hc] at hsmall
        exact absurd hsmall (by decide)
      · have hc : c = some (Char.ofNat u.toNat) := if_neg hsurrogate
        have hfront : front = [u] := by
          rw [hc, Option.getD_some, Utf16.toNat_own (Bool.eq_false_iff.mpr hsurrogate),
            UInt16.ofNat_toNat] at hown
          rw [← hown]
          exact congrArg (fun c => spell_char byte (c.getD (Char.ofNat 65533))) hc
        rcases hrest with rfl | hmem | hmem
        · exact .inl (by rw [hfront]; rfl)
        · exact .inr (.inl (List.mem_append_right _ hmem))
        · exact .inr (.inr (List.mem_append_right _ hmem))
    · exact hsign hmem
  induction text using Utf16.scalars.induct with
  | case1 => exact .inl rfl
  | case2 u => exact hstep u [] [] (.inl rfl)
  | case3 u v rest hpair ih =>
    rw [Bool.and_eq_true] at hpair
    have hlarge := Utf16.toNat_pair hpair.1 hpair.2
    have hspell : spell byte (u :: v :: rest)
        = spell_char byte (Utf16.pair u v) ++ spell byte rest := by
      rw [spell, spell, Utf16.scalars, if_pos (by rw [hpair.1, hpair.2]; rfl),
        List.flatMap_cons, Option.getD_some]
    rw [hspell]
    rcases spell_char_own h (Utf16.pair u v) with ⟨hsmall, -⟩ | hmem | hmem
    · omega
    · exact .inr (.inl (List.mem_append_left _ hmem))
    · exact .inr (.inr (List.mem_append_left _ hmem))
  | case4 u v rest hpair ih =>
    have hspell : spell byte (u :: v :: rest) = spell_char byte
        ((if Utf16.is_high u || Utf16.is_low u then none
          else some (Char.ofNat u.toNat) : Option Char).getD (Char.ofNat 65533))
          ++ spell byte (v :: rest) := by
      rw [spell, spell, Utf16.scalars, if_neg hpair, List.flatMap_cons]
    rw [hspell]
    exact hstep u (v :: rest) _ ih

theorem plain_spell (h : Writes byte) {text : List UInt16} (hplain : Plain text) :
    Plain (spell byte text) := by
  have hbracket : ∀ u, (∀ b, u ∉ byte b) → u ∉ spell byte text := by
    intro u hu hmem
    obtain ⟨c, -, hmem⟩ := List.mem_flatMap.mp hmem
    obtain ⟨b, -, hmem⟩ := List.mem_flatMap.mp hmem
    exact hu b hmem
  refine ⟨hbracket _ fun b => (h.brackets b).1, hbracket _ fun b => (h.brackets b).2, ?_⟩
  rcases spell_own h text with heq | hmem | hmem
  · rw [heq]
    exact hplain.2.2
  · exact not_redacted (by decide) hmem
  · exact not_redacted (by decide) hmem

theorem plain_spellings (h : Plain value) (hw : w ∈ spellings value) : Plain w := by
  rw [spellings, List.mem_append, Option.mem_toList] at hw
  rcases hw with hw | hw
  · rcases List.mem_pair.mp hw with rfl | rfl
    · exact h
    · exact plain_spell form_writes h
  · rw [encodeURIComponent] at hw
    split at hw
    · cases hw
    · cases hw
      exact plain_spell uri_writes h

/-! ## Small letters in escapes -/

theorem lower_escapes_short {rest : List UInt16} (h : ∀ a b rest', rest = a :: b :: rest' → False) :
    lower_escapes (u :: rest) = u :: lower_escapes rest := by
  cases rest with
  | nil => rfl
  | cons a rest =>
    cases rest with
    | nil => rfl
    | cons b rest => exact (h a b rest rfl).elim

theorem mem_lower_escapes (h : u ∈ lower_escapes w) : u ∈ w ∨ (97 ≤ u.toNat ∧ u.toNat ≤ 102) := by
  have hfold : ∀ a : UInt16, is_upper_hex a = true →
      fold a = a ∨ (97 ≤ (fold a).toNat ∧ (fold a).toNat ≤ 102) := by
    intro a ha
    rw [is_upper_hex, decide_eq_true_iff] at ha
    rw [fold]
    split
    next hupper =>
      right
      rw [UInt16.toNat_add, show (32 : UInt16).toNat = 32 from rfl]
      omega
    next => exact .inl rfl
  induction w using lower_escapes.induct with
  | case1 => exact .inl h
  | case2 u' a b rest hescape ih =>
    rw [lower_escapes, if_pos hescape] at h
    simp only [List.mem_cons] at h ⊢
    rcases h with rfl | rfl | rfl | h
    · exact .inl (.inl rfl)
    · rcases hfold a hescape.2.1 with heq | hsmall
      · exact .inl (.inr (.inl heq))
      · exact .inr hsmall
    · rcases hfold b hescape.2.2 with heq | hsmall
      · exact .inl (.inr (.inr (.inl heq)))
      · exact .inr hsmall
    · exact (ih h).imp_left fun hmem => .inr (.inr (.inr hmem))
  | case3 u' a b rest hescape ih =>
    rw [lower_escapes, if_neg hescape] at h
    rcases List.mem_cons.mp h with rfl | h
    · exact .inl List.mem_cons_self
    · exact (ih h).imp_left (List.mem_cons_of_mem _)
  | case4 u' rest hshort ih =>
    rw [lower_escapes_short hshort] at h
    rcases List.mem_cons.mp h with rfl | h
    · exact .inl List.mem_cons_self
    · exact (ih h).imp_left (List.mem_cons_of_mem _)

theorem lower_escapes_own : lower_escapes w = w ∨ ascii '%' ∈ lower_escapes w := by
  induction w using lower_escapes.induct with
  | case1 => exact .inl rfl
  | case2 u a b rest hescape ih =>
    rw [lower_escapes, if_pos hescape, hescape.1]
    exact .inr List.mem_cons_self
  | case3 u a b rest hescape ih =>
    rw [lower_escapes, if_neg hescape]
    rcases ih with heq | hmem
    · exact .inl (congrArg _ heq)
    · exact .inr (List.mem_cons_of_mem _ hmem)
  | case4 u rest hshort ih =>
    rw [lower_escapes_short hshort]
    rcases ih with heq | hmem
    · exact .inl (congrArg _ heq)
    · exact .inr (List.mem_cons_of_mem _ hmem)

theorem lower_escapes_eq_self (h : ascii '%' ∉ w) : lower_escapes w = w := by
  rcases lower_escapes_own (w := w) with heq | hmem
  · exact heq
  · rcases mem_lower_escapes hmem with hmem | hsmall
    · exact absurd hmem h
    · exact absurd hsmall (by decide)

theorem plain_lower_escapes (h : Plain w) : Plain (lower_escapes w) := by
  refine ⟨fun hmem => ?_, fun hmem => ?_, ?_⟩
  · rcases mem_lower_escapes hmem with hmem | hsmall
    · exact h.1 hmem
    · exact absurd hsmall (by decide)
  · rcases mem_lower_escapes hmem with hmem | hsmall
    · exact h.2.1 hmem
    · exact absurd hsmall (by decide)
  · rcases lower_escapes_own (w := w) with heq | hmem
    · rw [heq]
      exact h.2.2
    · exact not_redacted (by decide) hmem

/-! ## Texts -/

theorem mem_longest_first {values : List (List UInt16)} :
    w ∈ longest_first values ↔ w ∈ values ∨ ∃ v ∈ values, w = lower_escapes v := by
  rw [longest_first, List.mem_mergeSort, List.mem_eraseDups, List.mem_flatMap]
  constructor
  · rintro ⟨v, hv, hw⟩
    rcases List.mem_pair.mp hw with rfl | rfl
    · exact .inl hv
    · exact .inr ⟨v, hv, rfl⟩
  · rintro (hw | ⟨v, hv, rfl⟩)
    · exact ⟨w, hw, List.mem_cons_self⟩
    · exact ⟨v, hv, List.mem_cons_of_mem _ List.mem_cons_self⟩

theorem foreign_spelled (h : Plain value) (hw : Spelled value w) : Replace.Foreign marker w := by
  rcases hw with hw | ⟨v, hv, rfl⟩
  · exact foreign_iff.mpr (plain_spellings h hw)
  · exact foreign_iff.mpr (plain_lower_escapes (plain_spellings h hv))

theorem mem_values (hsecret : secret ∈ secrets) (hw : Spelled secret w) :
    w ∈ longest_first (secrets.flatMap spellings) := by
  rw [mem_longest_first]
  rcases hw with hw | ⟨v, hv, rfl⟩
  · exact .inl (List.mem_flatMap.mpr ⟨secret, hsecret, hw⟩)
  · exact .inr ⟨v, List.mem_flatMap.mpr ⟨secret, hsecret, hv⟩, rfl⟩

theorem not_infix_patterns (hw : Replace.Foreign marker w) (patterns : List Pattern)
    {out : List UInt16} (h : ¬w <:+: out) :
    ¬w <:+: patterns.foldl (fun out p => substitute p.found REDACTED none 0 out) out := by
  induction patterns generalizing out with
  | nil => exact h
  | cons p patterns ih => exact ih fun hinfix => h (Replace.infix_substitute hw hinfix)

/-- **A text that went through `redactText` shows no secret.** -/
theorem redact_text_hides (hsecret : secret ∈ secrets) (hplain : Plain secret)
    (text : List UInt16) :
    Hides (redact_text secrets text) secret := by
  intro w hw
  have hforeign := foreign_spelled hplain hw
  refine not_infix_patterns hforeign _ ?_
  refine Replace.not_infix_foldl hforeign (List.mem_filter.mpr ⟨mem_values hsecret hw, ?_⟩) text
  rw [Bool.not_eq_true', ← Bool.not_eq_true, List.isEmpty_iff]
  exact hforeign.ne_nil

end Appcall.Redact
