/-
Text values of a calendar: `foldICalLine` and `unfoldICalLine`.

A value is escaped character by character. It is read back by four replacements of the
whole text, the one for line breaks first: a backslash of the value, which is two in the
escaped text, followed by the letter n is then taken for an escaped line break. No other
text is misread.
-/
import Appcall.Lib.Replace

set_option autoImplicit false

namespace Appcall.Caldav

open Replace (replace replace_append replace_cons replace_other replace_singleton)

abbrev Text := List Char

/-- What holds of all characters of a text is decided along the text, not along all characters. -/
scoped instance (priority := 2000) {text : Text} {p : Char → Prop} [DecidablePred p] :
    Decidable (∀ c ∈ text, p c) := List.decidableBAll p text

/-! ## The source -/

/-- `assertSafeText`: the control characters but the tab and the line feed. -/
def unsafe_char (c : Char) : Bool :=
  c = '\r' || c.toNat ≤ 8 || c.toNat = 11 || c.toNat = 12 || (14 ≤ c.toNat && c.toNat ≤ 31)
    || c.toNat = 127

def assert_safe_text (value : Text) : Except String Unit :=
  if value.any unsafe_char then
    .error "iCalendar text must not contain line breaks or control characters."
  else .ok ()

def fold_ical_line (value : Text) : Except String Text := do
  assert_safe_text value
  let value := replace ['\\'] ['\\', '\\'] value
  let value := replace [','] ['\\', ','] value
  let value := replace [';'] ['\\', ';'] value
  return replace ['\n'] ['\\', 'n'] value

def unfold_ical_line (value : Text) : Text :=
  let value := replace ['\\', 'n'] ['\n'] value
  let value := replace ['\\', ','] [','] value
  let value := replace ['\\', ';'] [';'] value
  replace ['\\', '\\'] ['\\'] value

/-! ## The escaped text -/

def escape (c : Char) : Text :=
  if c = '\\' then ['\\', '\\']
  else if c = ',' then ['\\', ',']
  else if c = ';' then ['\\', ';']
  else if c = '\n' then ['\\', 'n']
  else [c]

variable {value : Text} (written : Char → Text) {before after : Char → Text}

theorem fold_eq (h : assert_safe_text value = .ok ()) :
    fold_ical_line value = .ok (value.flatMap escape) := by
  rw [fold_ical_line, h]
  simp only [replace_singleton, List.flatMap_assoc]
  refine congrArg Except.ok (List.flatMap_congr fun c _ => ?_)
  rw [escape]
  by_cases hbackslash : c = '\\'
  · subst hbackslash
    rfl
  rw [if_neg hbackslash, if_neg hbackslash]
  by_cases hcomma : c = ','
  · subst hcomma
    rfl
  simp only [List.flatMap_singleton]
  rw [if_neg hcomma, if_neg hcomma]
  by_cases hsemicolon : c = ';'
  · subst hsemicolon
    rfl
  simp only [List.flatMap_singleton]
  rw [if_neg hsemicolon, if_neg hsemicolon]
  simp only [List.flatMap_singleton]

theorem fold_ok {folded : Text} (h : fold_ical_line value = .ok folded) :
    assert_safe_text value = .ok () ∧ folded = value.flatMap escape := by
  have hsafe : assert_safe_text value = .ok () := by
    rw [fold_ical_line] at h
    cases hs : assert_safe_text value with
    | error e =>
      rw [hs] at h
      cases h
    | ok u => rfl
  rw [fold_eq hsafe] at h
  cases h
  exact ⟨hsafe, rfl⟩

theorem safe_of_fold (h : assert_safe_text value = .ok ()) :
    ∀ c ∈ value, unsafe_char c = false := by
  rw [assert_safe_text] at h
  split at h
  · cases h
  next hany =>
    intro c hc
    by_contra hunsafe
    exact hany (List.any_eq_true.mpr ⟨c, hc, by simpa using hunsafe⟩)

/-! ## Reading it back -/

/-- A text on its way back: a backslash in front of the letter n has become one in front of a
line break, and `written` says how the other characters stand. -/
def partly (written : Char → Text) : Text → Text
  | [] => []
  | [c] => written c
  | c :: d :: text =>
    if c = '\\' ∧ d = 'n' then '\\' :: '\n' :: partly written text
    else written c ++ partly written (d :: text)

theorem partly_hit (text : Text) :
    partly written ('\\' :: 'n' :: text) = '\\' :: '\n' :: partly written text := by
  rw [partly, if_pos ⟨rfl, rfl⟩]

theorem partly_cons {c : Char} {text : Text} (h : ¬['\\', 'n'] <+: c :: text) :
    partly written (c :: text) = written c ++ partly written text := by
  cases text with
  | nil => exact (List.append_nil _).symm
  | cons d text =>
    rw [partly, if_neg]
    rintro ⟨rfl, rfl⟩
    exact h ⟨text, rfl⟩

theorem partly_induction {P : Text → Prop} (nil : P [])
    (hit : ∀ text, P text → P ('\\' :: 'n' :: text))
    (cons : ∀ c text, ¬['\\', 'n'] <+: c :: text → P text → P (c :: text)) (text : Text) :
    P text := by
  induction hn : text.length using Nat.strong_induction_on generalizing text with
  | _ n ih =>
    subst hn
    cases text with
    | nil => exact nil
    | cons c text =>
      by_cases hprefix : ['\\', 'n'] <+: c :: text
      · obtain ⟨rest, hrest⟩ := hprefix
        rw [← hrest] at ih ⊢
        refine hit rest (ih rest.length ?_ rest rfl)
        rw [List.length_append, List.length_cons, List.length_singleton]
        omega
      · exact cons c text hprefix (ih text.length (by simp) text rfl)

theorem pair_opening {a b c : Char} {text : Text} :
    [a, b] <+: c :: text ↔ a = c ∧ text.head? = some b := by
  rw [List.cons_prefix_cons]
  refine and_congr_right fun _ => ?_
  cases text with
  | nil => simp
  | cons d text =>
    rw [List.cons_prefix_cons, List.head?_cons, Option.some.injEq]
    exact ⟨fun h => h.1.symm, fun h => ⟨h.symm, List.nil_prefix⟩⟩

section Replacing

variable {b d : Char} {text : Text} (marker : Text)

theorem replace_escaped (hb : d ≠ b) (hd : d ≠ '\\') :
    replace ['\\', b] marker ('\\' :: d :: text)
      = '\\' :: d :: replace ['\\', b] marker text := by
  rw [replace_cons, replace_other hd.symm]
  rw [pair_opening, List.head?_cons, Option.some.injEq]
  exact fun h => hb h.2

theorem replace_backslash (hb : b ≠ '\\') (h : text.head? ≠ some b) :
    replace ['\\', b] marker ('\\' :: '\\' :: text)
      = '\\' :: '\\' :: replace ['\\', b] marker text := by
  rw [replace_cons, replace_cons]
  · rw [pair_opening]
    exact fun hprefix => h hprefix.2
  · rw [pair_opening, List.head?_cons, Option.some.injEq]
    exact fun hprefix => hb hprefix.2.symm

theorem replace_hit :
    replace ['\\', b] marker ('\\' :: b :: text) = marker ++ replace ['\\', b] marker text :=
  replace_append (List.cons_ne_nil _ _) marker text

end Replacing

/-! ### Line breaks -/

/-- The line breaks come back, and some that were none. -/
def breaks (c : Char) : Text := if c = '\n' then ['\n'] else escape c

theorem escape_head {text : Text} (h : text.head? ≠ some 'n') :
    (text.flatMap escape).head? ≠ some 'n' := by
  cases text with
  | nil => exact h
  | cons c text =>
    rw [List.head?_cons] at h
    rw [List.flatMap_cons, escape]
    split_ifs <;> simp_all

theorem replace_breaks (text : Text) :
    replace ['\\', 'n'] ['\n'] (text.flatMap escape) = partly breaks text := by
  induction text using partly_induction with
  | nil => rfl
  | hit text ih =>
    -- the second backslash of the two is taken for the one of an escape
    rw [partly_hit, ← ih]
    change replace _ _ ('\\' :: '\\' :: 'n' :: text.flatMap escape) = _
    rw [replace_cons, replace_hit]
    · rfl
    · rw [pair_opening, List.head?_cons, Option.some.injEq]
      exact fun h => absurd h.2 (by decide)
  | cons c text hno ih =>
    rw [partly_cons _ hno, ← ih, List.flatMap_cons, breaks]
    by_cases hbreak : c = '\n'
    · subst hbreak
      exact replace_hit _
    rw [if_neg hbreak, escape]
    by_cases hbackslash : c = '\\'
    · subst hbackslash
      rw [pair_opening, not_and] at hno
      exact replace_backslash _ (by decide) (escape_head (hno rfl))
    rw [if_neg hbackslash]
    by_cases hcomma : c = ','
    · subst hcomma
      exact replace_escaped _ (by decide) (by decide)
    rw [if_neg hcomma]
    by_cases hsemicolon : c = ';'
    · subst hsemicolon
      exact replace_escaped _ (by decide) (by decide)
    rw [if_neg hsemicolon, if_neg hbreak]
    exact replace_other (Ne.symm hbackslash) _ _

/-! ### Commas and semicolons -/

/-- A replacement takes the backslash from one character. -/
structure Unescapes (b : Char) (before after : Char → Text) : Prop where
  backslash : before '\\' = ['\\', '\\']
  written : before b = ['\\', b]
  read : after b = [b]
  other : ∀ c, c ≠ b → after c = before c
  plain : ∀ c, c ≠ b → c ≠ '\\' → before c = [c] ∨ before c = ['\\', c]

theorem partly_head {b : Char} (hb : b ≠ '\\') (h : Unescapes b before after) (text : Text) :
    (partly before text).head? ≠ some b := by
  have hne : some '\\' ≠ some b := fun heq => hb (Option.some.inj heq).symm
  induction text using partly_induction with
  | nil => exact fun heq => nomatch heq
  | hit text ih =>
    rw [partly_hit]
    exact hne
  | cons c text hno ih =>
    rw [partly_cons _ hno]
    by_cases hc : c = b
    · rw [hc, h.written]
      exact hne
    by_cases hbackslash : c = '\\'
    · rw [hbackslash, h.backslash]
      exact hne
    rcases h.plain c hc hbackslash with hplain | hescaped
    · rw [hplain]
      exact fun heq => hc (Option.some.inj heq)
    · rw [hescaped]
      exact hne

theorem replace_partly {b : Char} (hb : b ≠ '\\') (hbreak : b ≠ '\n') (h : Unescapes b before after)
    (text : Text) : replace ['\\', b] [b] (partly before text) = partly after text := by
  induction text using partly_induction with
  | nil => rfl
  | hit text ih =>
    rw [partly_hit, partly_hit, ← ih]
    exact replace_escaped _ hbreak.symm (by decide)
  | cons c text hno ih =>
    rw [partly_cons _ hno, partly_cons _ hno, ← ih]
    by_cases hc : c = b
    · rw [hc, h.written, h.read]
      exact replace_hit _
    rw [h.other c hc]
    by_cases hbackslash : c = '\\'
    · rw [hbackslash, h.backslash]
      exact replace_backslash _ hb (partly_head hb h text)
    rcases h.plain c hc hbackslash with hplain | hescaped
    · rw [hplain]
      exact replace_other (Ne.symm hbackslash) _ _
    · rw [hescaped]
      exact replace_escaped _ hc hbackslash

def commas (c : Char) : Text := if c = ',' then [','] else breaks c

def semicolons (c : Char) : Text := if c = ';' then [';'] else commas c

theorem unescapes_commas : Unescapes ',' breaks commas where
  backslash := rfl
  written := rfl
  read := rfl
  other c hc := by rw [commas, if_neg hc]
  plain c hc hbackslash := by
    rw [breaks, escape, if_neg hbackslash, if_neg hc]
    split_ifs <;> simp_all

theorem unescapes_semicolons : Unescapes ';' commas semicolons where
  backslash := rfl
  written := rfl
  read := rfl
  other c hc := by rw [semicolons, if_neg hc]
  plain c hc hbackslash := by
    rw [commas, breaks, escape, if_neg hbackslash, if_neg hc]
    split_ifs <;> simp_all

/-! ### Backslashes -/

/-- What is read of a text: a line break in place of an n behind a backslash. -/
def misread (text : Text) : Text := partly (fun c => [c]) text

theorem semicolons_plain {c : Char} (h : c ≠ '\\') : semicolons c = [c] := by
  rw [semicolons, commas, breaks, escape, if_neg h]
  split_ifs <;> simp_all

theorem replace_backslashes (text : Text) :
    replace ['\\', '\\'] ['\\'] (partly semicolons text) = misread text := by
  rw [misread]
  induction text using partly_induction with
  | nil => rfl
  | hit text ih =>
    rw [partly_hit, partly_hit, ← ih]
    rw [replace_cons, replace_other (by decide)]
    rw [pair_opening, List.head?_cons, Option.some.injEq]
    exact fun h => absurd h.2 (by decide)
  | cons c text hno ih =>
    rw [partly_cons _ hno, partly_cons _ hno, ← ih]
    by_cases hbackslash : c = '\\'
    · rw [hbackslash]
      exact replace_hit _
    · rw [semicolons_plain hbackslash]
      exact replace_other (Ne.symm hbackslash) _ _

/-- **What is read back of an escaped text.** -/
theorem unfold_escape (text : Text) : unfold_ical_line (text.flatMap escape) = misread text := by
  rw [unfold_ical_line]
  rw [replace_breaks, replace_partly (by decide) (by decide) unescapes_commas,
    replace_partly (by decide) (by decide) unescapes_semicolons, replace_backslashes]

/-- **A text is read back just when no backslash stands in front of an n.** -/
theorem misread_eq_iff (text : Text) : misread text = text ↔ ¬['\\', 'n'] <:+: text := by
  rw [misread]
  induction text using partly_induction with
  | nil => exact iff_of_true rfl (fun h => nomatch List.eq_nil_of_infix_nil h)
  | hit text ih =>
    rw [partly_hit]
    refine iff_of_false (fun h => ?_) (not_not_intro (List.prefix_append _ text).isInfix)
    have hbreak := (List.cons.inj (List.cons.inj h).2).1
    revert hbreak
    decide
  | cons c text hno ih =>
    rw [partly_cons _ hno, List.singleton_append, List.cons.injEq, and_iff_right rfl, ih,
      List.infix_cons_iff, not_or, and_iff_right hno]

end Appcall.Caldav
