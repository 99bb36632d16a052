/-
JSON documents: reading their text, and writing it.

The reader takes every text of the grammar: white space, the literals, numbers with a
fraction and an exponent, strings with all their escapes, arrays and objects. What a number
denotes, if anything, is a parameter. The writer puts no white space and is told how to
write a character of a string and how to write a number; what is written so that characters
and numbers are read back is read back as the same value.
-/
import Appcall.Lib.Alike
import Appcall.Lib.Chars
import Appcall.Lib.Json
import Appcall.Lib.Numeral

set_option autoImplicit false

namespace Appcall.Document

open Chars (hex_digit)
open Decimal (Digits)

/-! ## Strings -/

def is_space (c : Char) : Bool := c == ' ' || c == '\t' || c == '\n' || c == '\r'

def skip (text : List Char) : List Char := text.dropWhile is_space

def read_unit : List Char → Option (ℕ × List Char)
  | a :: b :: c :: d :: rest => do
    let a ← hex_digit a
    let b ← hex_digit b
    let c ← hex_digit c
    let d ← hex_digit d
    some (((a * 16 + b) * 16 + c) * 16 + d, rest)
  | _ => none

/-- The second half of a character above U+FFFF. -/
def read_low (high : ℕ) : List Char → Option (Char × List Char)
  | '\\' :: 'u' :: rest =>
    (read_unit rest).bind (fun r =>
      if 0xdc00 ≤ r.1 ∧ r.1 < 0xe000 then
        some (Char.ofNat (0x10000 + (high - 0xd800) * 1024 + (r.1 - 0xdc00)), r.2)
      else none)
  | _ => none

/-- The character of a `\u`. -/
def read_unicode (text : List Char) : Option (Char × List Char) :=
  (read_unit text).bind (fun r =>
    if 0xd800 ≤ r.1 ∧ r.1 < 0xdc00 then read_low r.1 r.2
    else if 0xdc00 ≤ r.1 ∧ r.1 < 0xe000 then none
    else some (Char.ofNat r.1, r.2))

/-- The character that an escape of two characters stands for. -/
def short_escape (c : Char) : Option Char :=
  if c = '/' then some '/' else Json.short_escape c

def read_char : List Char → Option (Char × List Char)
  | [] => none
  | c :: rest =>
    if c = '\\' then
      match rest with
      | [] => none
      | e :: rest =>
        if e = 'u' then read_unicode rest
        else (short_escape e).map (fun d => (d, rest))
    else if c.toNat < 32 ∨ c = '"' then none
    else some (c, rest)

/-- The characters up to the closing quote, of which there are less than `n`. -/
def read_body : ℕ → List Char → Option (List Char × List Char)
  | 0, _ => none
  | n + 1, text =>
    if text.head? = some '"' then some ([], text.tail)
    else
      (read_char text).bind (fun r =>
        (read_body n r.2).map (fun s => (r.1 :: s.1, s.2)))

/-- What follows the opening quote of a string. -/
def read_string (text : List Char) : Option (String × List Char) :=
  (read_body text.length text).map (fun r => (String.ofList r.1, r.2))

/-! ## Numbers -/

def leading (text : List Char) : List Char := text.takeWhile Char.isDigit

theorem leading_digits (text : List Char) : Digits (leading text) := fun _ hc =>
  List.mem_takeWhile_imp (p := Char.isDigit) hc

def behind (text : List Char) : List Char := text.dropWhile Char.isDigit

def read_minus : List Char → Bool × List Char
  | '-' :: rest => (true, rest)
  | text => (false, text)

def read_sign : List Char → Bool × List Char
  | '-' :: rest => (true, rest)
  | '+' :: rest => (false, rest)
  | text => (false, text)

/-- A fraction with its digits, or none. -/
def read_fraction (text : List Char) :
    Option ({f : Option (List Char) // ∀ l, f = some l → Digits l} × List Char) :=
  if text.head? = some '.' then
    if leading text.tail = [] then none
    else some (⟨some (leading text.tail), fun _ h => Option.some.inj h ▸ leading_digits _⟩,
      behind text.tail)
  else some (⟨none, Numeral.no_fraction⟩, text)

/-- An exponent with its digits, or none. -/
def read_exponent (text : List Char) :
    Option ({e : Option (Bool × List Char) // ∀ s l, e = some (s, l) → l ≠ [] ∧ Digits l}
      × List Char) :=
  if text.head? = some 'e' ∨ text.head? = some 'E' then
    let (negative, digits) := read_sign text.tail
    if h : leading digits = [] then none
    else some (⟨some (negative, leading digits), fun _ _ heq => by
      cases heq
      exact ⟨h, leading_digits _⟩⟩, behind digits)
  else some (⟨none, Numeral.no_exponent⟩, text)

/-- A number: no zero in front of other digits, and digits behind a point. -/
def read_numeral (text : List Char) : Option (Numeral × List Char) :=
  let (negative, text) := read_minus text
  if h : leading text = [] then none
  else if (leading text).head? = some '0' ∧ (leading text).length ≠ 1 then none
  else
    (read_fraction (behind text)).bind (fun f =>
      (read_exponent f.2).map (fun e =>
        (⟨negative, leading text, f.1.1, e.1.1, h, leading_digits text, f.1.2, e.1.2⟩, e.2)))

/-! ## Values -/

section Reader

variable {ν : Type} (denote : Numeral → Option ν)

mutual

/-- A value, nested less than `n` deep. -/
def read_value : ℕ → List Char → Option (Value ν × List Char)
  | 0, _ => none
  | n + 1, text =>
    match skip text with
    | [] => none
    | c :: rest =>
      if c = '"' then (read_string rest).map (fun r => (.string r.1, r.2))
      else if c = '[' then
        if (skip rest).head? = some ']' then some (.array [], (skip rest).tail)
        else (read_items n rest).map (fun r => (.array r.1, r.2))
      else if c = '\x7b' then
        if (skip rest).head? = some '\x7d' then some (.object [], (skip rest).tail)
        else (read_fields n rest).map (fun r => (.object r.1, r.2))
      else if c = 'n' then (Json.strip ['u', 'l', 'l'] rest).map (fun rest => (.null, rest))
      else if c = 't' then (Json.strip ['r', 'u', 'e'] rest).map (fun rest => (.bool true, rest))
      else if c = 'f' then
        (Json.strip ['a', 'l', 's', 'e'] rest).map (fun rest => (.bool false, rest))
      else
        (read_numeral (c :: rest)).bind (fun r =>
          (denote r.1).map (fun x => (.number x, r.2)))
termination_by structural n => n

/-- The items of an array up to its end. -/
def read_items : ℕ → List Char → Option (List (Value ν) × List Char)
  | 0, _ => none
  | n + 1, text =>
    (read_value n text).bind (fun v =>
      match skip v.2 with
      | [] => none
      | c :: rest =>
        if c = ',' then (read_items n rest).map (fun r => (v.1 :: r.1, r.2))
        else if c = ']' then some ([v.1], rest)
        else none)
termination_by structural n => n

/-- The fields of an object up to its end. -/
def read_fields : ℕ → List Char → Option (List (String × Value ν) × List Char)
  | 0, _ => none
  | n + 1, text =>
    match skip text with
    | [] => none
    | c :: rest =>
      if c = '"' then
        (read_string rest).bind (fun name =>
          match skip name.2 with
          | [] => none
          | c :: rest =>
            if c = ':' then
              (read_value n rest).bind (fun v =>
                match skip v.2 with
                | [] => none
                | c :: rest =>
                  if c = ',' then
                    (read_fields n rest).map (fun r => ((name.1, v.1) :: r.1, r.2))
                  else if c = '\x7d' then some ([(name.1, v.1)], rest)
                  else none)
            else none)
      else none
termination_by structural n => n

end

def parse (text : List Char) : Option (Value ν) :=
  (read_value denote text.length text).bind (fun r =>
    if skip r.2 = [] then some r.1 else none)

end Reader

/-! ## Writing -/

section Writer

variable {ν : Type} (escape : Char → List Char) (number : ν → List Char)

def write_string (s : List Char) : List Char := '"' :: (s.flatMap escape ++ ['"'])

mutual

def write : Value ν → List Char
  | .null => ['n', 'u', 'l', 'l']
  | .bool true => ['t', 'r', 'u', 'e']
  | .bool false => ['f', 'a', 'l', 's', 'e']
  | .number n => number n
  | .string s => write_string escape s.toList
  | .array items => '[' :: (write_items items ++ [']'])
  | .object fields => '\x7b' :: (write_fields fields ++ ['\x7d'])
termination_by structural v => v

def write_items : List (Value ν) → List Char
  | [] => []
  | v :: items => write v ++ if items.isEmpty then [] else ',' :: write_items items
termination_by structural items => items

def write_fields : List (String × Value ν) → List Char
  | [] => []
  | (name, v) :: fields =>
    write_string escape name.toList ++ ':' :: (write v
      ++ if fields.isEmpty then [] else ',' :: write_fields fields)
termination_by structural fields => fields

end

theorem write_items_eq (items : List (Value ν)) :
    write_items escape number items
      = List.intercalate [','] (items.map (write escape number)) := by
  induction items with
  | nil => rfl
  | cons v items ih =>
    rw [write_items, ih]
    cases items with
    | nil => simp [List.intercalate]
    | cons w items => simp [List.intercalate]

theorem write_fields_eq (fields : List (String × Value ν)) :
    write_fields escape number fields = List.intercalate [','] (fields.map (fun f =>
      write_string escape f.1.toList ++ ':' :: write escape number f.2)) := by
  induction fields with
  | nil => rfl
  | cons f fields ih =>
    obtain ⟨name, v⟩ := f
    rw [write_fields, ih]
    cases fields with
    | nil => simp [List.intercalate]
    | cons g fields => simp [List.intercalate]

end Writer

/-! ## What is written is read back -/

/-- A text that a number may end at: nothing, a comma or a closing bracket. -/
def Ends (text : List Char) : Prop := ∀ c ∈ text.head?, c = ',' ∨ c = ']' ∨ c = '\x7d'

/-- Characters and numbers are written so that they are read back. -/
structure Readable {ν : Type} (escape : Char → List Char) (number : ν → List Char)
    (denote : Numeral → Option ν) : Prop where
  reads_char : ∀ c rest, read_char (escape c ++ rest) = some (c, rest)
  char_begins : ∀ c, ∃ d l, escape c = d :: l ∧ d ≠ '"'
  reads_number : ∀ x rest, Ends rest →
    ∃ n, read_numeral (number x ++ rest) = some (n, rest) ∧ denote n = some x
  number_begins : ∀ x, ∃ c l, number x = c :: l ∧ (c = '-' ∨ c.isDigit = true)

theorem skip_cons {c : Char} (h : is_space c = false) (rest : List Char) :
    skip (c :: rest) = c :: rest := List.dropWhile_cons_of_neg (by rw [h]; decide)

theorem ends_cons {c : Char} (h : c = ',' ∨ c = ']' ∨ c = '\x7d') (rest : List Char) :
    Ends (c :: rest) := by
  intro d hd
  rw [List.head?_cons, Option.mem_def, Option.some.injEq] at hd
  exact hd ▸ h

theorem number_plain {c : Char} (h : c = '-' ∨ c.isDigit = true) :
    is_space c = false ∧ c ≠ '"' ∧ c ≠ '[' ∧ c ≠ '\x7b' ∧ c ≠ 'n' ∧ c ≠ 't' ∧ c ≠ 'f'
      ∧ c ≠ ']' := by
  rcases h with rfl | h
  · decide
  · have hbounds : 48 ≤ c.toNat ∧ c.toNat ≤ 57 := by
      rw [Char.isDigit, Bool.and_eq_true, decide_eq_true_iff, decide_eq_true_iff] at h
      exact h
    have hne : ∀ d : Char, (d.toNat < 48 ∨ 57 < d.toNat) → c ≠ d := by
      rintro d hd rfl
      omega
    refine ⟨?_, hne _ (by decide), hne _ (by decide), hne _ (by decide), hne _ (by decide),
      hne _ (by decide), hne _ (by decide), hne _ (by decide)⟩
    rw [is_space, Bool.or_eq_false_iff, Bool.or_eq_false_iff, Bool.or_eq_false_iff,
      beq_eq_false_iff_ne, beq_eq_false_iff_ne, beq_eq_false_iff_ne, beq_eq_false_iff_ne]
    exact ⟨⟨⟨hne _ (by decide), hne _ (by decide)⟩, hne _ (by decide)⟩, hne _ (by decide)⟩

section RoundTrip

variable {ν : Type} {escape : Char → List Char} {number : ν → List Char}
    {denote : Numeral → Option ν}

theorem read_body_write (h : Readable escape number denote) (s rest : List Char) (n : ℕ)
    (hn : s.length < n) :
    read_body n (s.flatMap escape ++ '"' :: rest) = some (s, rest) := by
  induction s generalizing n with
  | nil =>
    obtain ⟨n, rfl⟩ := Nat.exists_eq_add_one_of_ne_zero (show n ≠ 0 by omega)
    rw [List.flatMap_nil, List.nil_append, read_body, List.head?_cons, if_pos rfl, List.tail_cons]
  | cons c s ih =>
    obtain ⟨n, rfl⟩ := Nat.exists_eq_add_one_of_ne_zero (show n ≠ 0 by omega)
    rw [List.length_cons] at hn
    obtain ⟨d, l, hescape, hd⟩ := h.char_begins c
    rw [List.flatMap_cons, List.append_assoc, read_body, if_neg, h.reads_char, Option.bind_some,
      ih n (by omega), Option.map_some]
    rw [hescape, List.cons_append, List.head?_cons, Option.some.injEq]
    exact hd

theorem length_flatMap (h : Readable escape number denote) (s : List Char) :
    s.length ≤ (s.flatMap escape).length := by
  induction s with
  | nil => exact le_rfl
  | cons c s ih =>
    obtain ⟨d, l, hescape, -⟩ := h.char_begins c
    rw [List.flatMap_cons, List.length_append, hescape, List.length_cons, List.length_cons]
    omega

theorem read_string_write (h : Readable escape number denote) (s : String) (rest : List Char) :
    read_string (s.toList.flatMap escape ++ '"' :: rest) = some (s, rest) := by
  have hlength := length_flatMap h s.toList
  rw [read_string, read_body_write h s.toList rest _ (by
    rw [List.length_append, List.length_cons]
    omega), Option.map_some, String.ofList_toList]

theorem write_head (h : Readable escape number denote) (v : Value ν) :
    ∃ c l, write escape number v = c :: l ∧ is_space c = false ∧ c ≠ ']' := by
  cases v with
  | null => exact ⟨_, _, rfl, by decide, by decide⟩
  | bool b => cases b <;> exact ⟨_, _, rfl, by decide, by decide⟩
  | number x =>
    obtain ⟨c, l, hwrite, hc⟩ := h.number_begins x
    exact ⟨c, l, hwrite, (number_plain hc).1, (number_plain hc).2.2.2.2.2.2.2⟩
  | string s => exact ⟨_, _, rfl, by decide, by decide⟩
  | array items => exact ⟨_, _, rfl, by decide, by decide⟩
  | object fields => exact ⟨_, _, rfl, by decide, by decide⟩

/-- A value is read back with as much depth as its text is long. -/
def ReadBack (escape : Char → List Char) (number : ν → List Char) (denote : Numeral → Option ν)
    (v : Value ν) : Prop :=
  ∀ n rest, (write escape number v).length ≤ n → Ends rest →
    read_value denote n (write escape number v ++ rest) = some (v, rest)

theorem read_items_write {items : List (Value ν)} (hne : items ≠ [])
    (hitems : ∀ v ∈ items, ReadBack escape number denote v) (n : ℕ) (rest : List Char)
    (hn : (write_items escape number items).length < n) :
    read_items denote n (write_items escape number items ++ ']' :: rest)
      = some (items, rest) := by
  induction items generalizing n with
  | nil => exact absurd rfl hne
  | cons v items ih =>
    obtain ⟨n, rfl⟩ := Nat.exists_eq_add_one_of_ne_zero (show n ≠ 0 by omega)
    have hv := hitems v List.mem_cons_self
    rw [write_items, List.length_append] at hn
    cases items with
    | nil =>
      rw [write_items, List.isEmpty_nil, if_pos rfl, List.append_nil, read_items,
        hv n _ (by omega) (ends_cons (.inr (.inl rfl)) rest), Option.bind_some]
      dsimp only
      rw [skip_cons (by decide)]
      dsimp only
      rw [if_neg (by decide), if_pos rfl]
    | cons w items =>
      rw [List.isEmpty_cons, if_neg (by decide), List.length_cons] at hn
      rw [write_items, List.isEmpty_cons, if_neg (by decide), List.append_assoc, List.cons_append,
        read_items, hv n _ (by omega) (ends_cons (.inl rfl) _), Option.bind_some]
      dsimp only
      rw [skip_cons (by decide)]
      dsimp only
      rw [if_pos rfl, ih (List.cons_ne_nil _ _)
        (fun v hv => hitems v (List.mem_cons_of_mem _ hv)) n (by omega), Option.map_some]

theorem read_fields_write (h : Readable escape number denote) {fields : List (String × Value ν)}
    (hne : fields ≠ []) (hfields : ∀ f ∈ fields, ReadBack escape number denote f.2) (n : ℕ)
    (rest : List Char) (hn : (write_fields escape number fields).length < n) :
    read_fields denote n (write_fields escape number fields ++ '\x7d' :: rest)
      = some (fields, rest) := by
  induction fields generalizing n with
  | nil => exact absurd rfl hne
  | cons f fields ih =>
    obtain ⟨name, v⟩ := f
    obtain ⟨n, rfl⟩ := Nat.exists_eq_add_one_of_ne_zero (show n ≠ 0 by omega)
    have hv : ReadBack escape number denote v := hfields (name, v) List.mem_cons_self
    rw [write_fields, List.length_append, List.length_cons, List.length_append] at hn
    have hname : ∀ more, write_string escape name.toList ++ more
        = '"' :: (name.toList.flatMap escape ++ '"' :: more) := by
      intro more
      rw [write_string, List.cons_append, List.append_assoc]
      rfl
    cases fields with
    | nil =>
      rw [write_fields, List.isEmpty_nil, if_pos rfl, List.append_nil, List.append_assoc,
        List.cons_append, hname, read_fields, skip_cons (by decide)]
      dsimp only
      rw [if_pos rfl, read_string_write h, Option.bind_some]
      dsimp only
      rw [skip_cons (by decide)]
      dsimp only
      rw [if_pos rfl, hv n _ (by omega) (ends_cons (.inr (.inr rfl)) rest), Option.bind_some]
      dsimp only
      rw [skip_cons (by decide)]
      dsimp only
      rw [if_neg (by decide), if_pos rfl]
    | cons g fields =>
      rw [List.isEmpty_cons, if_neg (by decide), List.length_cons] at hn
      rw [write_fields, List.isEmpty_cons, if_neg (by decide), List.append_assoc,
        List.cons_append, List.append_assoc, List.cons_append, hname, read_fields,
        skip_cons (by decide)]
      dsimp only
      rw [if_pos rfl, read_string_write h, Option.bind_some]
      dsimp only
      rw [skip_cons (by decide)]
      dsimp only
      rw [if_pos rfl, hv n _ (by omega) (ends_cons (.inl rfl) _), Option.bind_some]
      dsimp only
      rw [skip_cons (by decide)]
      dsimp only
      rw [if_pos rfl, ih (List.cons_ne_nil _ _)
        (fun f hf => hfields f (List.mem_cons_of_mem _ hf)) n (by omega), Option.map_some]

/-- **A value that is written is read back**: its characters and numbers are. -/
theorem read_back (h : Readable escape number denote) (v : Value ν) :
    ReadBack escape number denote v := by
  induction v using Value.induct with
  | null =>
    intro n rest hn _
    obtain ⟨n, rfl⟩ := Nat.exists_eq_add_one_of_ne_zero (show n ≠ 0 by rintro rfl; cases hn)
    rfl
  | bool b =>
    intro n rest hn _
    cases b with
    | true =>
      obtain ⟨n, rfl⟩ := Nat.exists_eq_add_one_of_ne_zero (show n ≠ 0 by rintro rfl; cases hn)
      rfl
    | false =>
      obtain ⟨n, rfl⟩ := Nat.exists_eq_add_one_of_ne_zero (show n ≠ 0 by rintro rfl; cases hn)
      rfl
  | number x =>
    intro n rest hn hrest
    obtain ⟨c, l, hwrite, hc⟩ := h.number_begins x
    obtain ⟨hspace, hquote, harray, hobject, hn', ht, hf, -⟩ := number_plain hc
    obtain ⟨m, hread, hdenote⟩ := h.reads_number x rest hrest
    rw [write, hwrite, List.length_cons] at hn
    obtain ⟨n, rfl⟩ := Nat.exists_eq_add_one_of_ne_zero (show n ≠ 0 by omega)
    rw [hwrite, List.cons_append] at hread
    rw [write, hwrite, List.cons_append, read_value, skip_cons hspace]
    dsimp only
    rw [if_neg hquote, if_neg harray, if_neg hobject, if_neg hn', if_neg ht, if_neg hf, hread,
      Option.bind_some, hdenote, Option.map_some]
  | string s =>
    intro n rest hn _
    rw [write, write_string, List.length_cons] at hn
    obtain ⟨n, rfl⟩ := Nat.exists_eq_add_one_of_ne_zero (show n ≠ 0 by omega)
    rw [write, write_string, List.cons_append, List.append_assoc, List.singleton_append,
      read_value, skip_cons (by decide)]
    dsimp only
    rw [if_pos rfl, read_string_write h, Option.map_some]
  | array items hitems =>
    intro n rest hn _
    rw [write, List.length_cons, List.length_append, List.length_singleton] at hn
    obtain ⟨n, rfl⟩ := Nat.exists_eq_add_one_of_ne_zero (show n ≠ 0 by omega)
    rw [write, List.cons_append, List.append_assoc, List.singleton_append, read_value,
      skip_cons (by decide)]
    dsimp only
    rw [if_neg (by decide), if_pos rfl]
    cases items with
    | nil => rfl
    | cons v items =>
      -- the first item is no closing bracket
      obtain ⟨c, l, hwrite, hspace, hc⟩ := write_head h v
      have hbegins : ∃ l, write_items escape number (v :: items) = c :: l :=
        ⟨_, by rw [write_items, hwrite, List.cons_append]⟩
      obtain ⟨l, hbegins⟩ := hbegins
      have hread := read_items_write (List.cons_ne_nil v items) hitems n rest (by omega)
      rw [hbegins, List.cons_append] at hread
      rw [hbegins, List.cons_append, skip_cons hspace, List.head?_cons,
        if_neg (fun heq => hc (Option.some.inj heq)), hread, Option.map_some]
  | object fields hfields =>
    intro n rest hn _
    rw [write, List.length_cons, List.length_append, List.length_singleton] at hn
    obtain ⟨n, rfl⟩ := Nat.exists_eq_add_one_of_ne_zero (show n ≠ 0 by omega)
    rw [write, List.cons_append, List.append_assoc, List.singleton_append, read_value,
      skip_cons (by decide)]
    dsimp only
    rw [if_neg (by decide), if_neg (by decide), if_pos rfl]
    cases fields with
    | nil => rfl
    | cons f fields =>
      obtain ⟨name, v⟩ := f
      have hbegins : ∃ l, write_fields escape number ((name, v) :: fields) = '"' :: l :=
        ⟨_, by rw [write_fields, write_string, List.cons_append]⟩
      obtain ⟨l, hbegins⟩ := hbegins
      have hread := read_fields_write h (List.cons_ne_nil (name, v) fields) hfields n rest
        (by omega)
      rw [hbegins, List.cons_append] at hread
      rw [hbegins, List.cons_append, skip_cons (by decide), List.head?_cons,
        if_neg (by decide), hread, Option.map_some]

/-- **A written text is the text of one value.** -/
theorem parse_write (h : Readable escape number denote) (v : Value ν) :
    parse denote (write escape number v) = some v := by
  have hread := read_back h v (write escape number v).length [] le_rfl (fun c hc => nomatch hc)
  rw [List.append_nil] at hread
  rw [parse, hread, Option.bind_some]
  exact if_pos rfl

end RoundTrip

/-! ## A numeral is read back -/

/-- A numeral as JSON has it: no zero in front of other digits, and digits behind a point. -/
structure Plain (n : Numeral) : Prop where
  zero : n.whole.head? = some '0' → n.whole.length = 1
  fraction : n.fraction ≠ some []

/-- The text of a numeral, with a sign in front of every exponent. -/
def signed_text (n : Numeral) : List Char :=
  Numeral.sign n.negative ++ (n.whole ++ ((match n.fraction with
    | none => []
    | some f => '.' :: f) ++ match n.exponent with
    | none => []
    | some (s, e) => 'e' :: (if s then '-' else '+') :: e))

def Stops (text : List Char) : Prop := ∀ c ∈ text.head?, c.isDigit = false

theorem Ends.stops {text : List Char} (h : Ends text) : Stops text := by
  intro c hc
  rcases h c hc with rfl | rfl | rfl
  · decide
  · decide
  · decide

variable {rest : List Char}

theorem leading_append {l : List Char} (hl : Digits l) (hrest : Stops rest) :
    leading (l ++ rest) = l ∧ behind (l ++ rest) = rest := by
  have hnone : rest.takeWhile Char.isDigit = [] ∧ rest.dropWhile Char.isDigit = rest := by
    cases rest with
    | nil => exact ⟨rfl, rfl⟩
    | cons c rest =>
      have hc : ¬c.isDigit = true := by
        rw [hrest c rfl]
        decide
      exact ⟨List.takeWhile_cons_of_neg hc, List.dropWhile_cons_of_neg hc⟩
  rw [leading, behind, List.takeWhile_append_of_pos hl, List.dropWhile_append_of_pos hl,
    hnone.1, hnone.2, List.append_nil]
  exact ⟨rfl, rfl⟩

theorem read_minus_sign (negative : Bool) {text : List Char} (h : text.head? ≠ some '-') :
    read_minus (Numeral.sign negative ++ text) = (negative, text) := by
  cases negative with
  | true => rfl
  | false =>
    rw [Numeral.sign, if_neg (by decide), List.nil_append, read_minus.eq_def]
    split
    next rest => exact absurd rfl h
    next => rfl

theorem read_exponent_text (n : Numeral) (hrest : Ends rest) :
    ∃ e, read_exponent ((match n.exponent with
      | none => []
      | some (s, e) => 'e' :: (if s then '-' else '+') :: e) ++ rest) = some (e, rest)
      ∧ e.1 = n.exponent := by
  have hdigits := n.exponent_digits
  rw [read_exponent]
  cases he : n.exponent with
  | none =>
    have hhead : ¬(rest.head? = some 'e' ∨ rest.head? = some 'E') := by
      rintro (h | h)
      · rcases hrest _ h with h | h | h <;> cases h
      · rcases hrest _ h with h | h | h <;> cases h
    dsimp only
    rw [List.nil_append, if_neg hhead]
    exact ⟨_, rfl, rfl⟩
  | some x =>
    obtain ⟨s, e⟩ := x
    obtain ⟨hne, hdigits⟩ := hdigits s e he
    obtain ⟨hleading, hbehind⟩ := leading_append hdigits hrest.stops
    have hsign : read_sign ((if s then '-' else '+') :: (e ++ rest)) = (s, e ++ rest) := by
      cases s with
      | true => rfl
      | false => rfl
    dsimp only
    rw [List.cons_append, List.cons_append, if_pos (.inl rfl), List.tail_cons, hsign]
    dsimp only
    rw [dif_neg (by rw [hleading]; exact hne), hbehind]
    exact ⟨_, rfl, congrArg (fun l => some (s, l)) hleading⟩

theorem read_fraction_text {n : Numeral} (h : Plain n) (hrest : Stops rest)
    (hpoint : rest.head? ≠ some '.') : ∃ f, read_fraction ((match n.fraction with
      | none => []
      | some f => '.' :: f) ++ rest) = some (f, rest) ∧ f.1 = n.fraction := by
  have hdigits := n.fraction_digits
  have hne := h.fraction
  rw [read_fraction]
  cases hf : n.fraction with
  | none =>
    dsimp only
    rw [List.nil_append, if_neg hpoint]
    exact ⟨_, rfl, rfl⟩
  | some f =>
    obtain ⟨hleading, hbehind⟩ := leading_append (hdigits f hf) hrest
    rw [hf] at hne
    dsimp only
    have hsome : leading ('.' :: (f ++ rest)).tail ≠ [] := fun hnil =>
      hne (congrArg some (hleading.symm.trans hnil))
    rw [List.cons_append, List.head?_cons, if_pos rfl, if_neg hsome]
    exact ⟨_, congrArg (fun l => some (_, l)) hbehind, congrArg some hleading⟩

/-- **A numeral of JSON is read back from its text.** -/
theorem read_numeral_text {n : Numeral} (h : Plain n) (hrest : Ends rest) :
    read_numeral (signed_text n ++ rest) = some (n, rest) := by
  obtain ⟨e, hexponent, he⟩ := read_exponent_text n hrest
  generalize hmore : (match n.exponent with
    | none => []
    | some (s, e) => 'e' :: (if s then '-' else '+') :: e) ++ rest = more at hexponent
  have hmore_head : Stops more ∧ more.head? ≠ some '.' := by
    rw [← hmore]
    cases n.exponent with
    | none =>
      refine ⟨hrest.stops, fun hhead => ?_⟩
      rcases hrest _ hhead with h | h | h <;> cases h
    | some x =>
      refine ⟨fun c hc => ?_, fun hhead => nomatch Option.some.inj hhead⟩
      cases hc
      rfl
  obtain ⟨f, hfraction, hf⟩ := read_fraction_text h hmore_head.1 hmore_head.2
  generalize hback : (match n.fraction with
    | none => []
    | some f => '.' :: f) ++ more = back at hfraction
  have hback_head : Stops back := by
    rw [← hback]
    cases n.fraction with
    | none => exact hmore_head.1
    | some f =>
      intro c hc
      cases hc
      rfl
  obtain ⟨hleading, hbehind⟩ := leading_append n.whole_digits hback_head
  have htext : signed_text n ++ rest = Numeral.sign n.negative ++ (n.whole ++ back) := by
    rw [signed_text, ← hback, ← hmore, List.append_assoc, List.append_assoc, List.append_assoc]
  have hhead : (n.whole ++ back).head? ≠ some '-' := by
    intro hhead
    cases hwhole : n.whole with
    | nil => exact n.whole_ne hwhole
    | cons c l =>
      rw [hwhole, List.cons_append, List.head?_cons, Option.some.injEq] at hhead
      have hc := n.whole_digits c (hwhole ▸ List.mem_cons_self)
      rw [hhead] at hc
      revert hc
      decide
  rw [htext, read_numeral, read_minus_sign _ hhead]
  dsimp only
  rw [dif_neg (by rw [hleading]; exact n.whole_ne), if_neg (by
    rw [hleading]
    exact fun hzero => hzero.2 (h.zero hzero.1)), hbehind, hfraction, Option.bind_some,
    hexponent, Option.map_some]
  simp only [hleading, he, hf]

end Appcall.Document
