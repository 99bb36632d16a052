/-
Templates: `runner/bun/src/declarative/template.ts`.

The pattern of a placeholder is matched from the left. Around its name stand white space and
braces, of which no character is one of a name, so there is one way to match it at a place.
-/
import Appcall.Declarative.Values

set_option autoImplicit false

namespace Appcall.Declarative

open Chars (is_space)

/-- `[A-Za-z0-9_.$-]` -/
def is_name (c : Char) : Bool :=
  c.isAlphanum || c == '_' || c == '.' || c == '$' || c == '-'

/-- The placeholder at the front of a text: its name and its length. -/
def placeholder_at : List Char → Option (List Char × ℕ)
  | '\x7b' :: '\x7b' :: text =>
    let before := text.takeWhile is_space
    let name := (text.dropWhile is_space).takeWhile is_name
    let rest := (text.dropWhile is_space).dropWhile is_name
    let after := rest.takeWhile is_space
    match rest.dropWhile is_space with
    | '\x7d' :: '\x7d' :: _ =>
      if name = [] then none
      else some (name, before.length + name.length + after.length + 4)
    | _ => none
  | _ => none

/-- What is found of a template: a character, or a placeholder, with whether it is a whole
segment of a path. -/
inductive Piece
  | literal (c : Char)
  | placeholder (expression : List Char) (whole : Bool)
  deriving DecidableEq

/-- The pieces of a template; `skip` characters belong to a placeholder already, and `starts`
says that a segment starts here. -/
def pieces_from : Bool → ℕ → List Char → List Piece
  | _, _, [] => []
  | starts, skip + 1, _ :: text => pieces_from starts skip text
  | starts, 0, c :: text =>
    match placeholder_at (c :: text) with
    | some (expression, length) =>
      .placeholder expression (starts && (match (c :: text).drop length with
        | [] => true
        | d :: _ => d == '/')) :: pieces_from false (length - 1) text
    | none => .literal c :: pieces_from (c == '/') 0 text

def pieces (template : List Char) : List Piece := pieces_from true 0 template

/-- `replace` with a function of the placeholder. -/
def fill (replacer : List Char → Bool → Except Thrown (List Char)) :
    List Piece → Except Thrown (List Char)
  | [] => .ok []
  | .literal c :: rest => do
    let text ← fill replacer rest
    .ok (c :: text)
  | .placeholder expression whole :: rest => do
    let value ← replacer expression whole
    let text ← fill replacer rest
    .ok (value ++ text)

section Engine

variable {ν : Type} (E : Engine ν)

/-- The value in an interpolated text; an unresolved one is an empty text. -/
def interpolate (context : Fields ν) (expression : List Char) (_ : Bool) :
    Except Thrown (List Char) :=
  match resolve_path E expression context with
  | .undefined => .ok []
  | .value .null => .ok []
  | value => value.text E

/-- `value === undefined || value === null` -/
def Js.unresolved : Js ν → Bool
  | .undefined => true
  | .value .null => true
  | _ => false

def render_string (template : List Char) (context : Fields ν) : Except Thrown (Js ν) :=
  match placeholder_at template with
  | some (expression, length) =>
    if length = template.length then
      .ok (match resolve_path E expression context with
        | .value .null => .undefined
        | value => value)
    else interpolated
  | none => interpolated
where
  interpolated : Except Thrown (Js ν) := do
    let text ← fill (interpolate E context) (pieces template)
    .ok (if (pieces template).any (fun
        | .literal _ => false
        | .placeholder expression _ => (resolve_path E expression context).unresolved)
      then .undefined else .value (.string (String.ofList text)))

end Engine

/-! ## Placeholders -/

variable {text : List Char} {c : Char}

theorem mem_takeWhile {p : Char → Bool} (h : c ∈ text.takeWhile p) : p c = true := by
  induction text with
  | nil => exact absurd h List.not_mem_nil
  | cons d text ih =>
    rw [List.takeWhile_cons] at h
    split at h
    next hd =>
      rcases List.mem_cons.mp h with rfl | h
      · exact hd
      · exact ih h
    next => exact absurd h List.not_mem_nil

def Inside (c : Char) : Prop := c = '\x7b' ∨ c = '\x7d' ∨ is_space c = true ∨ is_name c = true

instance (c : Char) : Decidable (Inside c) := inferInstanceAs (Decidable (_ ∨ _))

theorem placeholder_at_spec {name : List Char} {length : ℕ}
    (h : placeholder_at text = some (name, length)) :
    ∃ before after, text = before ++ after ∧ before.length = length ∧ 4 < length
      ∧ ∀ c ∈ before, Inside c := by
  rw [placeholder_at.eq_def] at h
  split at h
  next text =>
    dsimp only at h
    split at h
    next rest heq =>
      split at h
      · cases h
      next hname =>
        cases h
        refine ⟨'\x7b' :: '\x7b' :: (text.takeWhile is_space
          ++ ((text.dropWhile is_space).takeWhile is_name
          ++ (((text.dropWhile is_space).dropWhile is_name).takeWhile is_space
          ++ ['\x7d', '\x7d']))), rest, ?_, ?_, ?_, ?_⟩
        · -- the parts are the text again
          conv_lhs =>
            rw [← List.takeWhile_append_dropWhile (p := is_space) (l := text),
              ← List.takeWhile_append_dropWhile (p := is_name) (l := text.dropWhile is_space),
              ← List.takeWhile_append_dropWhile (p := is_space)
                (l := (text.dropWhile is_space).dropWhile is_name), heq]
          simp only [List.cons_append, List.append_assoc, List.nil_append]
        · simp only [List.length_cons, List.length_append, List.length_nil]
          omega
        · have hpos := List.length_pos_iff.mpr hname
          omega
        · intro c hc
          simp only [List.mem_cons, List.mem_append, List.not_mem_nil, or_false] at hc
          rcases hc with rfl | rfl | hc | hc | hc | rfl | rfl
          · exact .inl rfl
          · exact .inl rfl
          · exact .inr (.inr (.inl (mem_takeWhile hc)))
          · exact .inr (.inr (.inr (mem_takeWhile hc)))
          · exact .inr (.inr (.inl (mem_takeWhile hc)))
          · exact .inr (.inl rfl)
          · exact .inr (.inl rfl)
    · cases h
  · cases h

def literals : List Piece → List Char
  | [] => []
  | .literal c :: rest => c :: literals rest
  | .placeholder _ _ :: rest => literals rest

theorem literals_sublist_from (text : List Char) (starts : Bool) (skip : ℕ) :
    (literals (pieces_from starts skip text)).Sublist text := by
  induction text generalizing starts skip with
  | nil =>
    rw [pieces_from.eq_def]
    exact List.Sublist.refl _
  | cons d text ih =>
    cases skip with
    | succ skip => exact (ih starts skip).cons d
    | zero =>
      rw [pieces_from]
      split
      next => exact (ih _ _).cons d
      next => exact (ih _ _).cons_cons d

theorem count_literals_from (hc : ¬Inside c) (text : List Char) :
    ∀ (starts : Bool) (skip : ℕ), skip ≤ text.length → (∀ d ∈ text.take skip, Inside d) →
      (literals (pieces_from starts skip text)).count c = text.count c := by
  induction text with
  | nil =>
    intro starts skip _ _
    rw [pieces_from.eq_def]
    rfl
  | cons d text ih =>
    intro starts skip hle hskip
    cases skip with
    | succ skip =>
      have hd : Inside d := hskip d (by rw [List.take_succ_cons]; exact List.mem_cons_self)
      have hne : d ≠ c := fun heq => hc (heq ▸ hd)
      rw [pieces_from, ih starts skip (Nat.le_of_succ_le_succ hle)
        (fun e he => hskip e (by rw [List.take_succ_cons]; exact List.mem_cons_of_mem _ he)),
        List.count_cons_of_ne hne]
    | zero =>
      rw [pieces_from]
      split
      next expression length hat =>
        obtain ⟨before, after, htext, hlength, hfour, hinside⟩ := placeholder_at_spec hat
        cases before with
        | nil =>
          rw [List.length_nil] at hlength
          omega
        | cons e before =>
          rw [List.cons_append, List.cons.injEq] at htext
          obtain ⟨rfl, rfl⟩ := htext
          have hlen : before.length = length - 1 := by
            rw [List.length_cons] at hlength
            omega
          have hne : d ≠ c := fun heq => hc (heq ▸ hinside d List.mem_cons_self)
          rw [literals, ih false (length - 1) (by rw [List.length_append]; omega)
            (fun e he => hinside e (List.mem_cons_of_mem _ (by
              rwa [← hlen, List.take_left] at he))),
            List.count_cons_of_ne hne]
      next =>
        rw [literals, List.count_cons, List.count_cons, ih _ 0 (Nat.zero_le _)
          (fun e he => absurd he (by rw [List.take_zero]; exact List.not_mem_nil))]

theorem literals_sublist (template : List Char) : (literals (pieces template)).Sublist template :=
  literals_sublist_from template true 0

theorem count_literals (hc : ¬Inside c) (template : List Char) :
    (literals (pieces template)).count c = template.count c :=
  count_literals_from hc template true 0 (Nat.zero_le _)
    (fun e he => absurd he (by rw [List.take_zero]; exact List.not_mem_nil))

end Appcall.Declarative
