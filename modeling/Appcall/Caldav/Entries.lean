/-
The lines of an event, each with the folded lines behind it.

A search by places in the list of lines is hard to follow over several edits, since every edit
moves the places behind it. Here the lines are grouped once, and every group carries what two
passes think of it: whether it is outside every nested component, and whether the search for
direct properties looks at it. The two differ where a line begins like the bound of a component
and is none.
-/
import Appcall.Caldav.Merge
import Appcall.Caldav.RoundTrip

set_option autoImplicit false

namespace Appcall.Caldav

/-! ## Entries -/

/-- A line and the folded lines behind it. -/
structure Entry where
  head : Text
  folded : List Text
deriving DecidableEq

def Entry.lines (e : Entry) : List Text := e.head :: e.folded

def add_line (line : Text) : List Entry → List Entry
  | [] => [⟨line, []⟩]
  | e :: es => if is_folded e.head = true then ⟨line, e.lines⟩ :: es else ⟨line, []⟩ :: e :: es

/-- The entries of lines. Only the first one can begin with a folded line. -/
def entries (lines : List Text) : List Entry := lines.foldr add_line []

structure Grouped (es : List Entry) : Prop where
  folded : ∀ e ∈ es, ∀ line ∈ e.folded, is_folded line = true
  heads : ∀ e ∈ es.tail, is_folded e.head = false

theorem entries_lines (lines : List Text) : (entries lines).flatMap Entry.lines = lines := by
  induction lines with
  | nil => rfl
  | cons line lines ih =>
    rw [entries, List.foldr_cons, ← entries]
    cases h : entries lines with
    | nil =>
      rw [h] at ih
      rw [add_line, ← ih]
      rfl
    | cons e es =>
      rw [h] at ih
      rw [add_line, ← ih]
      split <;> rfl

theorem entries_grouped (lines : List Text) : Grouped (entries lines) := by
  induction lines with
  | nil => exact ⟨(fun e he => nomatch he), (fun e he => nomatch he)⟩
  | cons line lines ih =>
    rw [entries, List.foldr_cons, ← entries]
    cases h : entries lines with
    | nil =>
      refine ⟨fun e he => ?_, (fun e he => nomatch he)⟩
      rw [List.mem_singleton.mp he]
      exact fun _ hl => nomatch hl
    | cons e es =>
      rw [h] at ih
      rw [add_line]
      split
      next hfolded =>
        refine ⟨fun d hd => ?_, ih.heads⟩
        rcases List.mem_cons.mp hd with rfl | hd
        · intro l hl
          rcases List.mem_cons.mp hl with rfl | hl
          · exact hfolded
          · exact ih.folded e List.mem_cons_self l hl
        · exact ih.folded d (List.mem_cons_of_mem _ hd)
      next hfolded =>
        refine ⟨fun d hd => ?_, fun d hd => ?_⟩
        · rcases List.mem_cons.mp hd with rfl | hd
          · exact fun _ hl => nomatch hl
          · exact ih.folded d hd
        · rcases List.mem_cons.mp hd with rfl | hd
          · exact Bool.eq_false_iff.mpr hfolded
          · exact ih.heads d hd

variable {es : List Entry}

theorem foldr_folded {lines : List Text} (hlines : ∀ line ∈ lines, is_folded line = true)
    (hes : ∀ e ∈ es, is_folded e.head = false) : lines.foldr add_line es = match lines with
      | [] => es
      | line :: rest => ⟨line, rest⟩ :: es := by
  induction lines with
  | nil => rfl
  | cons line lines ih =>
    rw [List.foldr_cons, ih fun l hl => hlines l (List.mem_cons_of_mem _ hl)]
    cases lines with
    | nil =>
      cases es with
      | nil => rfl
      | cons e es =>
        rw [add_line, if_neg (Bool.eq_false_iff.mp (hes e List.mem_cons_self))]
    | cons second lines =>
      have hsecond : is_folded second = true :=
        hlines second (List.mem_cons_of_mem _ List.mem_cons_self)
      rw [add_line, if_pos hsecond]
      rfl

theorem Grouped.tail {e : Entry} (h : Grouped (e :: es)) : Grouped es :=
  ⟨fun d hd => h.folded d (List.mem_cons_of_mem _ hd),
    fun d hd => h.heads d (List.mem_of_mem_tail hd)⟩

theorem Grouped.entries (h : Grouped es) : entries (es.flatMap Entry.lines) = es := by
  induction es with
  | nil => rfl
  | cons e es ih =>
    have hes : ∀ d ∈ es, is_folded d.head = false := h.heads
    have hfolded := foldr_folded (h.folded e List.mem_cons_self) hes
    have hstep : Caldav.entries ((e :: es).flatMap Entry.lines)
        = add_line e.head (e.folded.foldr add_line es) := by
      rw [Caldav.entries, List.flatMap_cons, Entry.lines, List.cons_append, List.foldr_cons,
        List.foldr_append, ← Caldav.entries, ih h.tail]
    rw [hstep, hfolded]
    obtain ⟨head, folded⟩ := e
    cases folded with
    | nil =>
      cases es with
      | nil => rfl
      | cons d es =>
        dsimp only
        rw [add_line, if_neg (Bool.eq_false_iff.mp (hes d List.mem_cons_self))]
    | cons line folded =>
      dsimp only
      rw [add_line, if_pos (h.folded _ List.mem_cons_self line List.mem_cons_self)]
      rfl

/-! ## Bounds of components -/

inductive Mark where
  | opens
  | closes
  | plain
deriving DecidableEq

/-- The number of components around the next line. -/
def Mark.inside : Mark → ℕ → ℕ
  | .opens, depth => depth + 1
  | .closes, depth => depth - 1
  | .plain, depth => depth

/-- What a line is to `validateComponentNesting`. -/
def nesting (line : Text) : Mark :=
  if (component_line "begin:".toList line).isSome then .opens
  else if (component_line "end:".toList line).isSome then .closes
  else .plain

/-- What a line is to `directPropertiesInBlock`. -/
def prefixed (r : Runtime) (line : Text) : Mark :=
  if "BEGIN:".toList <+: upper_case r line then .opens
  else if "END:".toList <+: upper_case r line then .closes
  else .plain

/-- An entry, and what two passes think of it. -/
structure Seen where
  entry : Entry
  /-- It is outside the nested components and no bound of one. -/
  direct : Bool
  /-- The search for direct properties looks at it. -/
  found : Bool
deriving DecidableEq

def outside (mark : Mark) (depth : ℕ) (e : Entry) : Bool :=
  decide (mark = .plain) && decide (depth = 0) && !is_folded e.head

/-- The entries behind as many lines that open components, to the one pass and to the other. -/
def see (r : Runtime) : ℕ → ℕ → List Entry → List Seen
  | _, _, [] => []
  | depth, depth', e :: es =>
    { entry := e, direct := outside (nesting e.head) depth e,
      found := outside (prefixed r e.head) depth' e }
      :: see r ((nesting e.head).inside depth) ((prefixed r e.head).inside depth') es

/-- The lines of a component without its own bounds. -/
def seen (r : Runtime) (lines : List Text) : List Seen := see r 0 0 (entries lines)

/-- `findICalValueDelimiter` of the whole entry. -/
def Entry.delimited (e : Entry) : Except String (Option (Text × Text)) :=
  find_value_delimiter false (unfold_property_lines e.lines)

/-- The name of a property, in capitals. -/
def Entry.name (r : Runtime) (e : Entry) : Option Text :=
  match e.delimited with
  | .ok (some (before, _)) => some (upper_case r (before.takeWhile (· ≠ ';')))
  | _ => none

/-- The name of a property and its parameters. -/
def Entry.before (e : Entry) : Text :=
  match e.delimited with
  | .ok (some (before, _)) => before
  | _ => []

def Entry.value (e : Entry) : Option Text :=
  match e.delimited with
  | .ok (some (_, value)) => some value
  | _ => none

/-! ## The search for direct properties -/

section Search

variable {r : Runtime}

theorem upper_case_cons (r : Runtime) (c : Char) (text : Text) :
    upper_case r (c :: text) = r.to_upper c ++ upper_case r text := rfl

variable {line name : Text} {folded : List Text} (skipped : List Text) {e : Entry} {es : List Entry}

theorem upper_case_folded (h : is_folded line = true) :
    ∃ c text, upper_case r line = c :: text ∧ (c = ' ' ∨ c = '\t') := by
  cases line with
  | nil => cases h
  | cons c text =>
    rw [is_folded, Bool.or_eq_true, decide_eq_true_eq, decide_eq_true_eq] at h
    rw [upper_case_cons]
    rcases h with rfl | rfl
    · exact ⟨' ', upper_case r text, by rw [r.to_upper_ascii _ (by decide)]; rfl, .inl rfl⟩
    · exact ⟨'\t', upper_case r text, by rw [r.to_upper_ascii _ (by decide)]; rfl, .inr rfl⟩

theorem not_prefix_folded {word : Text} (h : is_folded line = true) {c : Char}
    (hword : word.head? = some c) (hc : is_upper c = true) : ¬word <+: upper_case r line := by
  obtain ⟨d, text, hline, hd⟩ := upper_case_folded (r := r) h
  rintro ⟨rest, hrest⟩
  cases word with
  | nil => cases hword
  | cons e word =>
    cases hword
    rw [hline, List.cons_append, List.cons.injEq] at hrest
    rcases hd with rfl | rfl
    · exact is_upper_ne hc (by decide) hrest.1
    · exact is_upper_ne hc (by decide) hrest.1

theorem prefixed_folded (h : is_folded line = true) : prefixed r line = .plain := by
  rw [prefixed, if_neg (not_prefix_folded h rfl (by decide)),
    if_neg (not_prefix_folded h rfl (by decide))]

theorem search_folded (h : ∀ line ∈ folded, is_folded line = true) (index depth : ℕ)
    (rest : List Text) : direct_properties_from r name index 0 depth (folded ++ rest)
      = direct_properties_from r name (index + folded.length) 0 depth rest := by
  induction folded generalizing index with
  | nil => rfl
  | cons line folded ih =>
    have hline := h line List.mem_cons_self
    rw [List.cons_append, direct_properties_from,
      if_neg (not_prefix_folded hline rfl (by decide)),
      if_neg (not_prefix_folded hline rfl (by decide)), if_pos (.inr hline),
      ih (fun l hl => h l (List.mem_cons_of_mem _ hl)), List.length_cons]
    congr 1
    omega

theorem search_skip (index depth : ℕ) (rest : List Text) :
    direct_properties_from r name index skipped.length depth (skipped ++ rest)
      = direct_properties_from r name (index + skipped.length) 0 depth rest := by
  induction skipped generalizing index with
  | nil => rfl
  | cons line skipped ih =>
    rw [List.cons_append, List.length_cons, direct_properties_from, ih]
    congr 1
    omega

theorem search_entry {rest : List Text} (hfolded : ∀ line ∈ e.folded, is_folded line = true)
    (hrest : (e.folded ++ rest).takeWhile is_folded = e.folded) (index depth : ℕ) :
    direct_properties_from r name index 0 depth (e.lines ++ rest)
      = if outside (prefixed r e.head) depth e = true then do
          let _ ← e.delimited
          let found ← direct_properties_from r name (index + e.lines.length) 0 depth rest
          return if e.name r = some name then
            { prefix_ := e.before, start := index, end_ := index + e.lines.length } :: found
            else found
        else direct_properties_from r name (index + e.lines.length) 0
          ((prefixed r e.head).inside depth) rest := by
  have hlength : index + e.lines.length = index + 1 + e.folded.length := by
    rw [Entry.lines, List.length_cons]
    omega
  rw [hlength, Entry.lines, List.cons_append, direct_properties_from, outside, prefixed]
  by_cases hbegin : "BEGIN:".toList <+: upper_case r e.head
  · rw [if_pos hbegin, if_pos hbegin, search_folded hfolded]
    rfl
  · rw [if_neg hbegin, if_neg hbegin]
    by_cases hend : "END:".toList <+: upper_case r e.head
    · rw [if_pos hend, if_pos hend, search_folded hfolded]
      rfl
    · rw [if_neg hend, if_neg hend]
      by_cases hpass : depth ≠ 0 ∨ is_folded e.head = true
      · rw [if_pos hpass, if_neg, search_folded hfolded]
        · rfl
        · rw [Bool.and_eq_true, Bool.and_eq_true, decide_eq_true_eq, decide_eq_true_eq,
            Bool.not_eq_true']
          rintro ⟨⟨-, hdepth⟩, hhead⟩
          rcases hpass with hne | hfold
          · exact hne hdepth
          · rw [hhead] at hfold
            cases hfold
      · rw [not_or, not_not, Bool.not_eq_true] at hpass
        rw [if_neg (by rw [not_or, not_not, Bool.not_eq_true]; exact hpass),
          if_pos (by rw [hpass.2]; simp [hpass.1])]
        dsimp only
        rw [hrest, search_skip e.folded (index + 1) depth rest,
          search_folded hfolded (index + 1) depth rest, Entry.name, Entry.before, Entry.delimited,
          Entry.lines]
        cases find_value_delimiter false (unfold_property_lines (e.head :: e.folded)) with
        | error reason => rfl
        | ok found =>
          cases found with
          | none =>
            change _ = direct_properties_from r name (index + 1 + e.folded.length) 0 depth rest
              >>= pure
            rw [bind_pure]
            rfl
          | some found =>
            obtain ⟨before, value⟩ := found
            change (if upper_case r (before.takeWhile (· ≠ ';')) ≠ name then _ else _) = _
            by_cases hname : upper_case r (before.takeWhile (· ≠ ';')) = name
            · rw [if_neg (not_not.mpr hname)]
              simp only [hname, if_true]
              rfl
            · rw [if_pos hname]
              simp only [Option.some.injEq, hname, if_false]
              exact (bind_pure _).symm

theorem property_folded (h : ∀ line ∈ folded, is_folded line = true) (depth : ℕ)
    (rest : List Text) :
    direct_property r name 0 depth (folded ++ rest) = direct_property r name 0 depth rest := by
  induction folded with
  | nil => rfl
  | cons line folded ih =>
    have hline := h line List.mem_cons_self
    rw [List.cons_append, direct_property,
      if_neg (not_prefix_folded hline rfl (by decide)),
      if_neg (not_prefix_folded hline rfl (by decide)), if_pos (.inr hline),
      ih (fun l hl => h l (List.mem_cons_of_mem _ hl))]

theorem property_skip (depth : ℕ) (rest : List Text) :
    direct_property r name skipped.length depth (skipped ++ rest)
      = direct_property r name 0 depth rest := by
  induction skipped with
  | nil => rfl
  | cons line skipped ih => rw [List.cons_append, List.length_cons, direct_property, ih]

theorem property_entry {rest : List Text} (hfolded : ∀ line ∈ e.folded, is_folded line = true)
    (hrest : (e.folded ++ rest).takeWhile is_folded = e.folded) (depth : ℕ) :
    direct_property r name 0 depth (e.lines ++ rest)
      = if outside (prefixed r e.head) depth e = true then do
          let _ ← e.delimited
          let found ← direct_property r name 0 depth rest
          return if e.name r = some name then e.lines :: found else found
        else direct_property r name 0 ((prefixed r e.head).inside depth) rest := by
  rw [Entry.lines, List.cons_append, direct_property, outside, prefixed]
  by_cases hbegin : "BEGIN:".toList <+: upper_case r e.head
  · rw [if_pos hbegin, if_pos hbegin, property_folded hfolded]
    rfl
  · rw [if_neg hbegin, if_neg hbegin]
    by_cases hend : "END:".toList <+: upper_case r e.head
    · rw [if_pos hend, if_pos hend, property_folded hfolded]
      rfl
    · rw [if_neg hend, if_neg hend]
      by_cases hpass : depth ≠ 0 ∨ is_folded e.head = true
      · rw [if_pos hpass, if_neg, property_folded hfolded]
        · rfl
        · rw [Bool.and_eq_true, Bool.and_eq_true, decide_eq_true_eq, decide_eq_true_eq,
            Bool.not_eq_true']
          rintro ⟨⟨-, hdepth⟩, hhead⟩
          rcases hpass with hne | hfold
          · exact hne hdepth
          · rw [hhead] at hfold
            cases hfold
      · rw [not_or, not_not, Bool.not_eq_true] at hpass
        rw [if_neg (by rw [not_or, not_not, Bool.not_eq_true]; exact hpass),
          if_pos (by rw [hpass.2]; simp [hpass.1])]
        dsimp only
        rw [hrest, property_skip e.folded depth rest, property_folded hfolded depth rest,
          Entry.name, Entry.delimited, Entry.lines]
        cases find_value_delimiter false (unfold_property_lines (e.head :: e.folded)) with
        | error reason => rfl
        | ok found =>
          cases found with
          | none =>
            change _ = direct_property r name 0 depth rest >>= pure
            rw [bind_pure]
            rfl
          | some found =>
            obtain ⟨before, value⟩ := found
            change (if upper_case r (before.takeWhile (· ≠ ';')) ≠ name then _ else _) = _
            by_cases hname : upper_case r (before.takeWhile (· ≠ ';')) = name
            · rw [if_neg (not_not.mpr hname)]
              simp only [hname, if_true]
              rfl
            · rw [if_pos hname]
              simp only [Option.some.injEq, hname, if_false]
              exact (bind_pure _).symm

/-- The entries that the search for a name finds. -/
def hit (r : Runtime) (name : Text) (x : Seen) : Bool :=
  x.found && decide (x.entry.name r = some name)

/-- The places of the properties that are found. -/
def places (r : Runtime) (name : Text) : ℕ → List Seen → List ICalProperty
  | _, [] => []
  | index, x :: xs =>
    let rest := places r name (index + x.entry.lines.length) xs
    if hit r name x = true then
      { prefix_ := x.entry.before, start := index, end_ := index + x.entry.lines.length } :: rest
    else rest

/-- The search reads every entry that it looks at to its delimiter. -/
def Readable (xs : List Seen) : Prop := ∀ x ∈ xs, x.found = true → ∃ f, x.entry.delimited = .ok f

theorem Grouped.takeWhile_folded (h : Grouped (e :: es)) :
    (e.folded ++ es.flatMap Entry.lines).takeWhile is_folded = e.folded := by
  rw [List.takeWhile_append_of_pos (h.folded e List.mem_cons_self)]
  cases es with
  | nil => exact List.append_nil _
  | cons d es =>
    have hd : is_folded d.head = false := h.heads d List.mem_cons_self
    rw [List.flatMap_cons, Entry.lines, List.cons_append, List.takeWhile_cons_of_neg
      (Bool.eq_false_iff.mp hd), List.append_nil]

theorem inside_outside {mark : Mark} {depth : ℕ} (h : outside mark depth e = true) :
    mark.inside depth = depth := by
  rw [outside, Bool.and_eq_true, Bool.and_eq_true, decide_eq_true_eq] at h
  rw [h.1.1]
  rfl

/-- **What the search for direct properties does**: it fails where a delimiter is missing, and
finds the entries of the name that it looks at. -/
theorem search_spec (hes : Grouped es) (index depth depth' : ℕ) {found : List ICalProperty} :
    direct_properties_from r name index 0 depth' (es.flatMap Entry.lines) = .ok found
      ↔ Readable (see r depth depth' es) ∧ found = places r name index (see r depth depth' es) := by
  induction es generalizing index depth depth' found with
  | nil =>
    constructor
    · intro h
      cases h
      exact ⟨(fun x hx => nomatch hx), rfl⟩
    · rintro ⟨-, rfl⟩
      rfl
  | cons e es ih =>
    rw [List.flatMap_cons, search_entry (hes.folded e List.mem_cons_self) hes.takeWhile_folded,
      see, places]
    dsimp only [hit]
    by_cases hout : outside (prefixed r e.head) depth' e = true
    · have hinside := inside_outside hout
      rw [if_pos hout, hinside]
      simp only [hout, Bool.true_and, decide_eq_true_eq]
      constructor
      · intro h
        obtain ⟨f, hf, h⟩ := bind_eq_ok h
        obtain ⟨rest, hrest, h⟩ := bind_eq_ok h
        cases h
        obtain ⟨hread, rfl⟩ := (ih hes.tail _ ((nesting e.head).inside depth) depth').mp hrest
        refine ⟨fun x hx hfound => ?_, rfl⟩
        rcases List.mem_cons.mp hx with rfl | hx
        · exact ⟨f, hf⟩
        · exact hread x hx hfound
      · rintro ⟨hread, rfl⟩
        obtain ⟨f, hf⟩ := hread _ List.mem_cons_self rfl
        have hrest := (ih hes.tail (index + e.lines.length) ((nesting e.head).inside depth)
          depth').mpr ⟨fun x hx => hread x (List.mem_cons_of_mem _ hx), rfl⟩
        dsimp only at hf
        rw [hf, hrest]
        rfl
    · rw [Bool.not_eq_true] at hout
      rw [if_neg (Bool.eq_false_iff.mp hout)]
      simp only [hout, Bool.false_and, Bool.false_eq_true, if_false]
      rw [ih hes.tail _ ((nesting e.head).inside depth)]
      refine and_congr_left' ⟨fun hread x hx hfound => ?_, fun hread x hx => ?_⟩
      · rcases List.mem_cons.mp hx with rfl | hx
        · cases hfound
        · exact hread x hx hfound
      · exact hread x (List.mem_cons_of_mem _ hx)

theorem property_spec (hes : Grouped es) (depth depth' : ℕ)
    (hread : Readable (see r depth depth' es)) :
    direct_property r name 0 depth' (es.flatMap Entry.lines)
      = .ok (((see r depth depth' es).filter (hit r name)).map (·.entry.lines)) := by
  induction es generalizing depth depth' with
  | nil => rfl
  | cons e es ih =>
    rw [List.flatMap_cons, property_entry (hes.folded e List.mem_cons_self) hes.takeWhile_folded]
    rw [see] at hread ⊢
    rw [List.filter_cons, hit]
    have hrest := ih hes.tail ((nesting e.head).inside depth) ((prefixed r e.head).inside depth')
      fun x hx => hread x (List.mem_cons_of_mem _ hx)
    dsimp only
    by_cases hout : outside (prefixed r e.head) depth' e = true
    · obtain ⟨f, hf⟩ := hread _ List.mem_cons_self hout
      dsimp only at hf
      rw [inside_outside hout] at hrest
      rw [if_pos hout, inside_outside hout, hf, hrest]
      simp only [hout, Bool.true_and, decide_eq_true_eq]
      by_cases hname : e.name r = some name
      · rw [if_pos hname]
        simp only [hname, if_true]
        rfl
      · rw [if_neg hname]
        simp only [hname, if_false]
        rfl
    · rw [if_neg hout, hrest]
      simp only [Bool.not_eq_true] at hout
      simp only [hout, Bool.false_and, Bool.false_eq_true, if_false]

end Search

/-! ## Names and bounds -/

section Names

variable {r : Runtime}

theorem delimiter_split {quoted : Bool} {text before value : Text}
    (h : find_value_delimiter quoted text = .ok (some (before, value))) :
    text = before ++ ':' :: value
      ∧ ∀ other, find_value_delimiter quoted (before ++ ':' :: other)
        = .ok (some (before, other)) := by
  induction text generalizing quoted before value with
  | nil =>
    rw [find_value_delimiter] at h
    split at h <;> cases h
  | cons c text ih =>
    rw [find_value_delimiter] at h
    split at h
    next hquote =>
      obtain ⟨found, hfound, h⟩ := bind_eq_ok h
      cases found with
      | none => cases h
      | some found =>
        cases h
        obtain ⟨htext, hother⟩ := ih hfound
        refine ⟨by rw [List.cons_append, ← htext], fun other => ?_⟩
        rw [List.cons_append, find_value_delimiter, if_pos hquote, hother other]
        rfl
    next hquote =>
      split at h
      next hcolon =>
        cases h
        refine ⟨by rw [hcolon.1]; rfl, fun other => ?_⟩
        rw [List.nil_append, find_value_delimiter, if_neg (by decide), if_pos ⟨rfl, hcolon.2⟩]
      next hcolon =>
        obtain ⟨found, hfound, h⟩ := bind_eq_ok h
        cases found with
        | none => cases h
        | some found =>
          cases h
          obtain ⟨htext, hother⟩ := ih hfound
          refine ⟨by rw [List.cons_append, ← htext], fun other => ?_⟩
          rw [List.cons_append, find_value_delimiter, if_neg hquote, if_neg hcolon, hother other]
          rfl

variable {e : Entry} {name line : Text}

theorem Entry.delimited_of_name (h : e.name r = some name) :
    ∃ value, e.delimited = .ok (some (e.before, value))
      ∧ upper_case r (e.before.takeWhile (· ≠ ';')) = name := by
  rw [Entry.name] at h
  split at h
  next before value hfound =>
    cases h
    have hbefore : e.before = before := by rw [Entry.before, hfound]
    rw [hbefore]
    exact ⟨value, hfound, rfl⟩
  next => cases h

theorem upper_case_append (r : Runtime) (a b : Text) :
    upper_case r (a ++ b) = upper_case r a ++ upper_case r b := List.flatMap_append

theorem Entry.name_head (h : e.name r = some name) {c d : Char}
    (hc : (upper_case r e.head).head? = some c) (hd : name.head? = some d) : c = d := by
  obtain ⟨value, hdelimited, rfl⟩ := e.delimited_of_name h
  have htext := (delimiter_split hdelimited).1
  rw [Entry.lines, unfold_property_lines] at htext
  have hhead : upper_case r e.head <+: upper_case r (e.before ++ ':' :: value) := by
    rw [← htext, upper_case_append]
    exact List.prefix_append _ _
  have hname : upper_case r (e.before.takeWhile (· ≠ ';'))
      <+: upper_case r (e.before ++ ':' :: value) := by
    have hsplit := List.takeWhile_append_dropWhile (p := (· ≠ ';')) (l := e.before)
    have hfront : upper_case r (e.before.takeWhile (· ≠ ';')) <+: upper_case r e.before := by
      rw [← congrArg (upper_case r) hsplit, upper_case_append]
      exact List.prefix_append _ _
    rw [upper_case_append]
    exact hfront.trans (List.prefix_append _ _)
  have hsame := prefix_head hhead (by rintro hnil; rw [hnil] at hc; cases hc)
  have hsame' := prefix_head hname (by rintro hnil; rw [hnil] at hd; cases hd)
  rw [hc] at hsame
  rw [hd] at hsame'
  exact Option.some.inj (hsame.trans hsame'.symm)

/-- The name of a property that is edited. -/
structure Target (name : String) : Prop extends Field name where
  head_begin : name.toList.head? ≠ some 'B'
  head_end : name.toList.head? ≠ some 'E'

theorem Target.head {name : String} (h : Target name) :
    ∃ c, name.toList.head? = some c ∧ is_upper c = true := by
  cases hname : name.toList with
  | nil => exact absurd hname h.ne_nil
  | cons c text => exact ⟨c, rfl, h.upper c (hname ▸ List.mem_cons_self)⟩

theorem Target.plain {name : String} (hname : Target name) (h : e.name r = some name.toList) :
    prefixed r e.head = .plain ∧ is_folded e.head = false := by
  obtain ⟨c, hc, hupper⟩ := hname.head
  have hword : ∀ {word : Text}, word <+: upper_case r e.head → word ≠ [] →
      word.head? = some c := by
    intro word hprefix hne
    have hhead := prefix_head hprefix hne
    cases hword : word.head? with
    | none => exact absurd (List.head?_eq_none_iff.mp hword) hne
    | some d =>
      rw [hword] at hhead
      rw [e.name_head h hhead.symm hc]
  refine ⟨?_, Bool.eq_false_iff.mpr fun hfolded => ?_⟩
  · rw [prefixed, if_neg, if_neg]
    · exact fun hend => hname.head_end (hc.trans (hword hend (by decide)).symm)
    · exact fun hbegin => hname.head_begin (hc.trans (hword hbegin (by decide)).symm)
  · obtain ⟨d, text, hline, hd⟩ := upper_case_folded (r := r) hfolded
    have hsame : d = c := e.name_head h (by rw [hline]; rfl) hc
    rcases hd with rfl | rfl
    · exact is_upper_ne hupper (by decide) hsame.symm
    · exact is_upper_ne hupper (by decide) hsame.symm

theorem to_upper_lower : ∀ n < 128, (Char.ofNat n).toLower.toUpper = (Char.ofNat n).toUpper := by
  decide +kernel

theorem starts_upper {word : Text} (hword : ∀ c ∈ word, c.toNat < 128)
    (h : starts word line = true) :
    word.map Char.toUpper <+: upper_case r line := by
  rw [starts_iff] at h
  induction word generalizing line with
  | nil => exact List.nil_prefix
  | cons c word ih =>
    cases line with
    | nil => exact absurd (List.prefix_nil.mp h) (List.cons_ne_nil _ _)
    | cons d line =>
      rw [lower, List.map_cons, List.cons_prefix_cons] at h
      have hc := hword c List.mem_cons_self
      -- other letters than those of ASCII stay as they are
      have hd : d.toNat < 128 := by
        by_contra hlarge
        have hkept : d.toLower = d := by
          unfold Char.toLower
          rw [dif_neg]
          intro hcapital
          have hz : d.toNat ≤ ('Z').toNat := UInt32.le_iff_toNat_le.mp hcapital.2
          have hvalue : ('Z').toNat = 90 := rfl
          omega
        rw [h.1, hkept] at hc
        exact hlarge hc
      have hupper : d.toUpper = c.toUpper := by
        have hrange := to_upper_lower d.toNat hd
        rw [Char.ofNat_toNat] at hrange
        rw [h.1, hrange]
      rw [List.map_cons, upper_case_cons, r.to_upper_ascii d hd, hupper, List.singleton_append,
        List.cons_prefix_cons]
      exact ⟨rfl, ih (fun c hc => hword c (List.mem_cons_of_mem _ hc)) h.2⟩

theorem component_line_starts {word : Text} (h : component_line word line = some name) :
    starts word line = true := by
  rw [component_line] at h
  split at h
  next hall => exact hall.1
  next => cases h

theorem prefixed_of_nesting (h : nesting line ≠ .plain) : prefixed r line = nesting line := by
  rw [nesting] at h ⊢
  split at h
  next hbegin =>
    obtain ⟨name, hname⟩ := Option.isSome_iff_exists.mp hbegin
    have hupper : "BEGIN:".toList <+: upper_case r line :=
      starts_upper (by decide) (component_line_starts hname)
    rw [if_pos hbegin, prefixed, if_pos hupper]
  next hbegin =>
    split at h
    next hend =>
      obtain ⟨name, hname⟩ := Option.isSome_iff_exists.mp hend
      have hupper : "END:".toList <+: upper_case r line :=
        starts_upper (by decide) (component_line_starts hname)
      have hother : ¬"BEGIN:".toList <+: upper_case r line := by
        intro hword
        have hhead := (prefix_head hword (by decide)).trans (prefix_head hupper (by decide)).symm
        exact absurd hhead (by decide)
      rw [if_neg hbegin, if_pos hend, prefixed, if_neg hother, if_pos hupper]
    next => exact absurd rfl h

theorem nesting_plain (h : prefixed r line = .plain) : nesting line = .plain := by
  by_contra hne
  rw [prefixed_of_nesting hne] at h
  exact hne h

end Names

end Appcall.Caldav
