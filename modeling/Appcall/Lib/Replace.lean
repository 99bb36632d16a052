/-
Replacing a pattern in a text by a marker between brackets.

What has no bracket and is no part of the marker stays out of the text for good: the pattern
itself is gone, and no later replacement, of whatever else, brings it back.
-/
import Mathlib.Data.List.Infix

set_option autoImplicit false

namespace Appcall.Replace

variable {α : Type}

section Replace

variable [DecidableEq α]

/-- The occurrences of a pattern, found from the left, are replaced. The first `skip`
characters belong to an occurrence already. -/
def replace_from (pattern marker : List α) : ℕ → List α → List α
  | _, [] => []
  | skip + 1, _ :: text => replace_from pattern marker skip text
  | 0, c :: text =>
    if pattern <+: c :: text then marker ++ replace_from pattern marker (pattern.length - 1) text
    else c :: replace_from pattern marker 0 text

/-- `str::replace`, of a pattern that is not empty. -/
def replace (pattern marker text : List α) : List α := replace_from pattern marker 0 text

theorem replace_singleton (c : α) (marker text : List α) :
    replace [c] marker text = text.flatMap (fun d => if d = c then marker else [d]) := by
  induction text with
  | nil => rfl
  | cons d text ih =>
    rw [replace, replace_from, List.flatMap_cons]
    by_cases h : d = c
    · subst h
      rw [if_pos (List.prefix_cons_iff.mpr (.inr ⟨[], rfl, List.nil_prefix⟩)), if_pos rfl]
      exact congrArg (marker ++ ·) ih
    · rw [if_neg h, if_neg fun hprefix => h (List.cons_prefix_cons.mp hprefix).1.symm]
      exact congrArg (d :: ·) ih

theorem replace_append {pattern : List α} (hne : pattern ≠ []) (marker text : List α) :
    replace pattern marker (pattern ++ text) = marker ++ replace pattern marker text := by
  -- the characters of the pattern after its first are skipped
  have hskip : ∀ rest : List α,
      replace_from pattern marker rest.length (rest ++ text) = replace pattern marker text := by
    intro rest
    induction rest with
    | nil => rfl
    | cons c rest ih => exact ih
  cases pattern with
  | nil => exact absurd rfl hne
  | cons c rest =>
    rw [replace, List.cons_append, replace_from,
      if_pos (List.cons_prefix_cons.mpr ⟨rfl, List.prefix_append rest text⟩)]
    exact congrArg (marker ++ ·) (hskip rest)

theorem replace_cons {pattern : List α} {c : α} {text : List α} (h : ¬pattern <+: c :: text)
    (marker : List α) :
    replace pattern marker (c :: text) = c :: replace pattern marker text := by
  rw [replace, replace_from, if_neg h]
  rfl

theorem replace_other {a c : α} {rest : List α} (h : a ≠ c) (marker text : List α) :
    replace (a :: rest) marker (c :: text) = c :: replace (a :: rest) marker text :=
  replace_cons (fun hprefix => h (List.cons_prefix_cons.mp hprefix).1) marker

theorem replace_absent {a : α} {rest : List α} {before : List α} (h : a ∉ before)
    (marker text : List α) :
    replace (a :: rest) marker (before ++ text) = before ++ replace (a :: rest) marker text := by
  induction before with
  | nil => rfl
  | cons c before ih =>
    rw [List.mem_cons, not_or] at h
    rw [List.cons_append, replace_other h.1, ih h.2]
    rfl

end Replace

/-! ## Brackets -/

theorem prefix_split {w x y : List α} {b : α} (hb : b ∉ w) (h : w <+: x ++ b :: y) : w <+: x := by
  induction x generalizing w with
  | nil =>
    cases w with
    | nil => exact List.nil_prefix
    | cons c w => exact absurd ((List.cons_prefix_cons.mp h).1 ▸ List.mem_cons_self) hb
  | cons a x ih =>
    cases w with
    | nil => exact List.nil_prefix
    | cons c w =>
      obtain ⟨rfl, htail⟩ := List.cons_prefix_cons.mp h
      exact List.cons_prefix_cons.mpr
        ⟨rfl, ih (fun hw => hb (List.mem_cons_of_mem _ hw)) htail⟩

theorem infix_split {w x y : List α} {b : α} (hb : b ∉ w) (h : w <:+: x ++ b :: y) :
    w <:+: x ∨ w <:+: y := by
  induction x with
  | nil =>
    rcases List.infix_cons_iff.mp h with hprefix | hinfix
    · exact .inl (prefix_split (x := []) hb hprefix).isInfix
    · exact .inr hinfix
  | cons a x ih =>
    rcases List.infix_cons_iff.mp h with hprefix | hinfix
    · exact .inl (prefix_split hb hprefix).isInfix
    · exact (ih hinfix).imp_left List.infix_cons

/-- What is put in place of patterns: a word between brackets. -/
structure Marker (α : Type) where
  opening : α
  word : List α
  closing : α

def Marker.text (m : Marker α) : List α := m.opening :: (m.word ++ [m.closing])

/-- A text that has none of the marker's brackets, and is no part of its word. -/
structure Foreign (m : Marker α) (w : List α) : Prop where
  opening : m.opening ∉ w
  closing : m.closing ∉ w
  word : ¬w <:+: m.word

variable {m : Marker α} {pattern w : List α}

theorem Foreign.ne_nil (hw : Foreign m w) : w ≠ [] := by
  rintro rfl
  exact hw.word List.nil_infix

variable {text : List α}

theorem Foreign.infix_marker (hw : Foreign m w) (h : w <:+: m.text ++ text) : w <:+: text := by
  have hmarker : m.text ++ text = [] ++ m.opening :: (m.word ++ m.closing :: text) := by
    simp [Marker.text]
  rw [hmarker] at h
  rcases infix_split hw.opening h with hnil | hrest
  · exact absurd (List.eq_nil_of_infix_nil hnil) hw.ne_nil
  · exact (infix_split hw.closing hrest).resolve_left hw.word

/-- A text without brackets is foreign if and only if the marker does not show it. -/
theorem foreign_iff : Foreign m w ↔ m.opening ∉ w ∧ m.closing ∉ w ∧ ¬w <:+: m.text := by
  constructor
  · intro hw
    refine ⟨hw.opening, hw.closing, fun h => hw.ne_nil ?_⟩
    exact List.eq_nil_of_infix_nil (hw.infix_marker (by rwa [List.append_nil]))
  · rintro ⟨hopening, hclosing, hword⟩
    exact ⟨hopening, hclosing, fun h => hword (h.trans ⟨[m.opening], [m.closing], rfl⟩)⟩

/-! ## Matches in general -/

/-- What is found at a place, by the character before it and the text from there on, is
replaced; something that is found has a character at least. -/
def substitute (found : Option α → List α → Option ℕ) (marker : List α) :
    Option α → ℕ → List α → List α
  | _, _, [] => []
  | _, skip + 1, c :: text => substitute found marker (some c) skip text
  | before, 0, c :: text =>
    match found before (c :: text) with
    | some (length + 1) => marker ++ substitute found marker (some c) length text
    | _ => c :: substitute found marker (some c) 0 text

variable {found : Option α → List α → Option ℕ}

theorem prefix_substitute (hopening : m.opening ∉ w) {before : Option α}
    (h : w <+: substitute found m.text before 0 text) : w <+: text := by
  induction text generalizing w before with
  | nil => exact h
  | cons c text ih =>
    rw [substitute] at h
    split at h
    · have hnil := prefix_split (x := []) hopening h
      rw [List.prefix_nil.mp hnil]
      exact List.nil_prefix
    · cases w with
      | nil => exact List.nil_prefix
      | cons d w =>
        obtain ⟨rfl, htail⟩ := List.cons_prefix_cons.mp h
        exact List.cons_prefix_cons.mpr
          ⟨rfl, ih (fun hw => hopening (List.mem_cons_of_mem _ hw)) htail⟩

/-- **No replacement brings a foreign text back.** -/
theorem infix_substitute (hw : Foreign m w) {before : Option α} {skip : ℕ}
    (h : w <:+: substitute found m.text before skip text) : w <:+: text := by
  induction text generalizing before skip with
  | nil =>
    cases skip with
    | zero => exact h
    | succ skip => exact h
  | cons c text ih =>
    cases skip with
    | succ skip => exact List.infix_cons (ih h)
    | zero =>
      rw [substitute] at h
      split at h
      · exact List.infix_cons (ih (hw.infix_marker h))
      · rcases List.infix_cons_iff.mp h with hprefix | hinfix
        · cases w with
          | nil => exact List.nil_infix
          | cons d w =>
            obtain ⟨rfl, htail⟩ := List.cons_prefix_cons.mp hprefix
            have hopening : m.opening ∉ w := fun hmem => hw.opening (List.mem_cons_of_mem _ hmem)
            exact (List.cons_prefix_cons.mpr ⟨rfl, prefix_substitute hopening htail⟩).isInfix
        · exact List.infix_cons (ih hinfix)

section Replacing

variable [DecidableEq α]

/-- The occurrence of a pattern at the front. -/
def found_pattern (pattern : List α) (_ : Option α) (text : List α) : Option ℕ :=
  if pattern <+: text then some (pattern.length - 1 + 1) else none

theorem replace_from_eq (pattern marker : List α) (before : Option α) (skip : ℕ)
    (text : List α) : replace_from pattern marker skip text
      = substitute (found_pattern pattern) marker before skip text := by
  induction text generalizing before skip with
  | nil =>
    rw [replace_from, substitute]
  | cons c text ih =>
    cases skip with
    | succ skip => exact ih (some c) skip
    | zero =>
      rw [replace_from, substitute, found_pattern]
      by_cases h : pattern <+: c :: text
      · rw [if_pos h, if_pos h]
        exact congrArg (marker ++ ·) (ih (some c) _)
      · rw [if_neg h, if_neg h]
        exact congrArg (c :: ·) (ih (some c) 0)

variable (marker : List α) {text : List α} {patterns : List (List α)}

theorem prefix_replace (hopening : m.opening ∉ w) (h : w <+: replace_from pattern m.text 0 text) :
    w <+: text := by
  rw [replace_from_eq pattern m.text none] at h
  exact prefix_substitute hopening h

/-- **No replacement of a pattern brings a foreign text back.** -/
theorem infix_replace_from (hw : Foreign m w) {skip : ℕ}
    (h : w <:+: replace_from pattern m.text skip text) : w <:+: text := by
  rw [replace_from_eq pattern m.text none] at h
  exact infix_substitute hw h

theorem replace_eq_self (h : ¬pattern <:+: text) : replace pattern marker text = text := by
  induction text with
  | nil => rfl
  | cons c text ih =>
    rw [replace_cons (fun hprefix => h hprefix.isInfix),
      ih fun hinfix => h (List.infix_cons hinfix)]

/-- **A foreign pattern is gone once it has been replaced.** -/
theorem not_infix_replace_from (hw : Foreign m pattern) (skip : ℕ) (text : List α) :
    ¬pattern <:+: replace_from pattern m.text skip text := by
  induction text generalizing skip with
  | nil =>
    intro h
    have hnil : replace_from pattern m.text skip [] = [] := by cases skip <;> rfl
    rw [hnil] at h
    exact hw.ne_nil (List.eq_nil_of_infix_nil h)
  | cons c text ih =>
    cases skip with
    | succ skip => exact ih skip
    | zero =>
      intro h
      rw [replace_from] at h
      split at h
      next => exact ih _ (hw.infix_marker h)
      next hmatch =>
        rcases List.infix_cons_iff.mp h with hprefix | hinfix
        · -- an occurrence at the front would have been found
          have hfront : pattern <+: replace_from pattern m.text 0 (c :: text) := by
            rw [replace_from, if_neg hmatch]
            exact hprefix
          exact hmatch (prefix_replace hw.opening hfront)
        · exact ih 0 hinfix

theorem foldl_eq_self (h : ∀ p ∈ patterns, ¬p <:+: text) :
    patterns.foldl (fun out p => replace p marker out) text = text := by
  induction patterns with
  | nil => rfl
  | cons p patterns ih =>
    obtain ⟨hp, hpatterns⟩ := List.forall_mem_cons.mp h
    rw [List.foldl_cons, replace_eq_self marker hp, ih hpatterns]

/-- **After all replacements there is no foreign pattern.** -/
theorem not_infix_foldl (hw : Foreign m w) (hmem : w ∈ patterns) (text : List α) :
    ¬w <:+: patterns.foldl (fun out p => replace p m.text out) text := by
  induction patterns generalizing text with
  | nil => cases hmem
  | cons p patterns ih =>
    rw [List.foldl_cons]
    rcases List.mem_cons.mp hmem with rfl | hmem
    · -- gone now, and the other replacements do not bring it back
      have hgone := not_infix_replace_from hw 0 text
      change ¬w <:+: replace w m.text text at hgone
      clear ih hmem
      generalize replace w m.text text = out at hgone
      induction patterns generalizing out with
      | nil => exact hgone
      | cons q patterns ih =>
        rw [List.foldl_cons]
        exact ih _ fun h => hgone (infix_replace_from hw h)
    · exact ih hmem _

end Replacing

end Appcall.Replace
