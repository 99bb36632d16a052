/-
An update of the entries of an event, and when it is the one that was asked for.

The search finds the entries that are outside the components that it counts. An update is right
if what it finds of every name is what is direct by the nesting of components, as far as the edit
of the name depends on it; every name is decided by its own entries.

`edit_event_spec` says that the code makes `Steps`, one for each edit. A step touches the entries
with the name of its edit (`Edit.Step.within`) and no others (`Edit.Step.elsewhere`), and the
names of the edits differ, so the steps are followed name by name. For one name `Edit.Fits` is
exactly what is needed (`Edit.Within.iff_fits`), and for all of them `Steps.updated_iff` puts it
together. `Steps.again` makes the same edits on their own result, and nothing changes: all but the
last find nothing to do, and the last removes its lines and inserts them again.
-/
import Appcall.Caldav.Edits

set_option autoImplicit false

namespace Appcall.Caldav

/-! ## Edits -/

inductive Edit where
  /-- The first property of the name gets a value, and its prefix is replaced or not. -/
  | replace (name : String) (value : Text) (replacePrefix : Bool)
  /-- The properties of the name are removed, and these lines are inserted. -/
  | exchange (name : String) (lines : List Text)

def Edit.name : Edit → String
  | .replace name _ _ => name
  | .exchange name _ => name

def VEventInput.edits (input : VEventInput) (dtstart dtend : Text) : List Edit :=
  [.replace "SUMMARY" (input.summary.flatMap escape) false, .replace "DTSTART" dtstart true,
    .exchange "DURATION" [], .replace "DTEND" dtend true]
    ++ input.description.toList.map (fun text =>
      .replace "DESCRIPTION" (text.flatMap escape) false)
    ++ input.location.toList.map (fun text => .replace "LOCATION" (text.flatMap escape) false)
    ++ input.attendees.toList.map (fun attendees =>
      .exchange "ATTENDEE" (attendees.map attendee_line))

def of_name (r : Runtime) (name : String) (xs : List Seen) : List Seen :=
  xs.filter fun x => decide (x.entry.name r = some name.toList)

/-! ## What is asked for, and when it is done -/

/-- A direct property with one of the names. -/
def touched (r : Runtime) (names : List String) (x : Seen) : Bool :=
  x.direct && names.any fun name => decide (x.entry.name r = some name.toList)

/-- Among the entries with the name of the edit: the first direct one has the value, or the
direct ones are the lines. -/
def Edit.Done : Edit → List Seen → Prop
  | .replace _ value _, xs => (xs.find? (·.direct)).bind (·.entry.value) = some value
  | .exchange _ lines, xs => (xs.filter (·.direct)).map (·.entry) = lines.map fun line => ⟨line, []⟩

/-- Every edit is done, and every other entry is unchanged and in order. -/
structure Updated (r : Runtime) (edits : List Edit) (old new : List Seen) : Prop where
  others : (new.filter fun x => !touched r (edits.map Edit.name) x).map (·.entry)
    = (old.filter fun x => !touched r (edits.map Edit.name) x).map (·.entry)
  done : ∀ edit ∈ edits, edit.Done (of_name r edit.name new)

/-- Among the entries with the name of the edit: the search finds exactly the direct ones, as far
as the edit depends on it. Of a replaced property that is the first one found, if there is one;
otherwise the text has the new value already, and what is found is direct or as it is written. -/
def Edit.Fits : Edit → List Seen → Prop
  | .replace name value replacePrefix, xs =>
    (∀ x ∈ xs, x.found = false)
      ∨ (∃ x, xs.find? (fun x => x.found || x.direct) = some x ∧ x.found = true ∧ x.direct = true)
      ∨ ((∃ x, xs.find? (·.found) = some x ∧ (x.direct = true
          ∨ x.entry = ⟨new_line name value replacePrefix x, []⟩))
        ∧ (xs.find? (·.direct)).bind (·.entry.value) = some value)
  | .exchange _ _, xs => ∀ x ∈ xs, x.found = x.direct

/-! ## Steps -/

inductive Edit.Step (r : Runtime) : Edit → List Seen → List Seen → Prop where
  | replace {name : String} {value : Text} {replacePrefix : Bool} {xs ys : List Seen}
      (replaced : Replaced r name value replacePrefix xs ys) :
      Edit.Step r (.replace name value replacePrefix) xs ys
  | exchange {name : String} {lines : List Text} {xs a b : List Seen}
      (removed : xs.filter (fun x => !hit r name.toList x) = a ++ b) (front : Front r a b)
      (sound : Sound r (a ++ b)) :
      Edit.Step r (.exchange name lines) xs (a ++ lines.map fresh ++ b)

inductive Steps (r : Runtime) : List Edit → List Seen → List Seen → Prop where
  | nil {xs : List Seen} : Steps r [] xs xs
  | cons {edit : Edit} {edits : List Edit} {xs ys zs : List Seen} (sound : Sound r xs)
      (step : edit.Step r xs ys) (rest : Steps r edits ys zs) : Steps r (edit :: edits) xs zs

structure Edit.Valid (r : Runtime) (edit : Edit) : Prop where
  target : Target edit.name
  lines : ∀ name lines, edit = .exchange name lines →
    ∀ line ∈ lines, (⟨line, []⟩ : Entry).name r = some name.toList

/-- What an edit does to the entries with its name. -/
inductive Edit.Within : Edit → List Seen → List Seen → Prop where
  | found {name : String} {value : Text} {replacePrefix : Bool} {a b : List Seen} {x : Seen}
      (before : ∀ y ∈ a, y.found = false) (first : x.found = true) :
      Edit.Within (.replace name value replacePrefix) (a ++ x :: b)
        (a ++ x.write (new_line name value replacePrefix x) :: b)
  | absent {name : String} {value : Text} {replacePrefix : Bool} {xs : List Seen}
      (none : ∀ x ∈ xs, x.found = false) :
      Edit.Within (.replace name value replacePrefix) xs (fresh (content_line name value) :: xs)
  | exchange {name : String} {lines : List Text} {xs : List Seen} :
      Edit.Within (.exchange name lines) xs
        (lines.map fresh ++ xs.filter fun x => !x.found)

theorem eq_false_of_filter {α : Type} {p : α → Bool} {xs ys : List α}
    (h : xs.filter (fun x => !p x) = ys) : ∀ x ∈ ys, p x = false := by
  intro x hx
  rw [← h] at hx
  have hkept := (List.mem_filter.mp hx).2
  rwa [Bool.not_eq_true'] at hkept

theorem filter_fresh {p : Seen → Bool} {lines : List Text}
    (h : ∀ line ∈ lines, p (fresh line) = false) : (lines.map fresh).filter p = [] := by
  rw [List.filter_eq_nil_iff]
  intro x hx
  obtain ⟨line, hline, rfl⟩ := List.mem_map.mp hx
  rw [h line hline]
  exact Bool.false_ne_true

section Step

variable {r : Runtime} {name : String}

theorem see_front {es : List Entry} (h : ∀ e ∈ es, prefixed r e.head ≠ .opens) (depth : ℕ) :
    ∀ x ∈ see r depth 0 es, x.found = outside (prefixed r x.entry.head) 0 x.entry := by
  induction es generalizing depth with
  | nil => exact fun x hx => nomatch hx
  | cons e es ih =>
    rw [List.forall_mem_cons] at h
    have hinside : (prefixed r e.head).inside 0 = 0 := by
      cases hmark : prefixed r e.head with
      | opens => exact absurd hmark h.1
      | closes => rfl
      | plain => rfl
    rw [see, hinside, List.forall_mem_cons]
    exact ⟨rfl, ih h.2 _⟩

/-- In front of the first nested component the search finds what has the name. -/
theorem Front.found {a b : List Seen} (hfront : Front r a b) (h : Sound r (a ++ b))
    (hname : Target name) {x : Seen} (hx : x ∈ a) (hread : x.entry.name r = some name.toList) :
    x.found = true := by
  have hmarked := (marked_append.mp h.marked).1
  have hbefore : ∀ e ∈ a.map (·.entry), prefixed r e.head ≠ .opens := by
    intro e he
    obtain ⟨y, hy, rfl⟩ := List.mem_map.mp he
    exact hfront.before y hy
  have hfound := see_front hbefore 0 x (by rw [hmarked]; exact hx)
  obtain ⟨hplain, hunfolded⟩ := hname.plain hread
  rw [hfound, hplain, outside_plain hunfolded]
  rfl

theorem of_name_append (name : String) (a b : List Seen) :
    of_name r name (a ++ b) = of_name r name a ++ of_name r name b := List.filter_append ..

theorem of_name_cons_same {x : Seen} (h : x.entry.name r = some name.toList) (xs : List Seen) :
    of_name r name (x :: xs) = x :: of_name r name xs :=
  List.filter_cons_of_pos (decide_eq_true h)

theorem of_name_cons_other {x : Seen} (h : x.entry.name r ≠ some name.toList) (xs : List Seen) :
    of_name r name (x :: xs) = of_name r name xs :=
  List.filter_cons_of_neg (by rw [decide_eq_true_eq]; exact h)

variable {xs : List Seen}

theorem mem_of_name {x : Seen} :
    x ∈ of_name r name xs ↔ x ∈ xs ∧ x.entry.name r = some name.toList := by
  rw [of_name, List.mem_filter, decide_eq_true_eq]

theorem hit_eq_found {x : Seen} (h : x.entry.name r = some name.toList) :
    hit r name.toList x = x.found := by
  rw [hit, decide_eq_true h, Bool.and_true]

/-- No entry with the name is found if the search hits none. -/
theorem not_found_of_no_hit (h : ∀ x ∈ xs, hit r name.toList x = false) :
    ∀ x ∈ of_name r name xs, x.found = false := by
  intro x hx
  obtain ⟨hmem, hread⟩ := mem_of_name.mp hx
  rw [← hit_eq_found hread]
  exact h x hmem

/-- If the search hits nothing, the name does not occur in front of the first component. -/
theorem Front.of_name_nil {a b : List Seen} (hfront : Front r a b) (h : Sound r (a ++ b))
    (hname : Target name) (hnone : ∀ x ∈ a ++ b, hit r name.toList x = false) :
    of_name r name a = [] := by
  rw [of_name, List.filter_eq_nil_iff]
  intro x hx hread
  rw [decide_eq_true_eq] at hread
  have hhit := hnone x (List.mem_append_left _ hx)
  rw [hit_eq_found hread, hfront.found h hname hx hread] at hhit
  cases hhit

theorem of_name_fresh {lines : List Text}
    (h : ∀ line ∈ lines, (⟨line, []⟩ : Entry).name r = some name.toList) :
    of_name r name (lines.map fresh) = lines.map fresh := by
  rw [of_name, List.filter_eq_self]
  intro x hx
  obtain ⟨line, hline, rfl⟩ := List.mem_map.mp hx
  exact decide_eq_true (h line hline)

/-- **An edit on the entries with its name.** -/
theorem Edit.Step.within {edit : Edit} {ys : List Seen} (hvalid : edit.Valid r)
    (hsound : Sound r xs) (h : edit.Step r xs ys) :
    edit.Within (of_name r edit.name xs) (of_name r edit.name ys) := by
  cases h with
  | replace replaced =>
    cases replaced with
    | found before first =>
      rename_i name value replacePrefix a b x
      have htarget : Target name := hvalid.target
      have hread := (hit_name first).2
      have hwritten := (htarget.write hread value replacePrefix).1.name
      change Edit.Within _ (of_name r name (a ++ x :: b)) (of_name r name (a ++ _ :: b))
      rw [of_name_append, of_name_append, of_name_cons_same hread, of_name_cons_same hwritten]
      exact .found (not_found_of_no_hit before) (hit_name first).1
    | absent none front =>
      rename_i name value replacePrefix a b
      have htarget : Target name := hvalid.target
      change Edit.Within _ (of_name r name (a ++ b)) (of_name r name (a ++ _ :: b))
      have hnil := front.of_name_nil hsound htarget none
      have hfresh : (fresh (content_line name value)).entry.name r = some name.toList :=
        (htarget.content value).name
      rw [of_name_append, of_name_append, hnil, of_name_cons_same hfresh, List.nil_append,
        List.nil_append]
      refine .absent fun x hx => not_found_of_no_hit none x ?_
      rw [of_name_append]
      exact List.mem_append_right _ hx
  | exchange removed front sound =>
    rename_i name lines a b
    have htarget : Target name := hvalid.target
    have hlines := hvalid.lines name lines rfl
    have hnone := eq_false_of_filter removed
    have hnil := front.of_name_nil sound htarget hnone
    have hrest : of_name r name b = (of_name r name xs).filter fun x => !x.found := by
      have hkept : of_name r name (a ++ b) = of_name r name b := by
        rw [of_name_append, hnil, List.nil_append]
      rw [← hkept, ← removed, of_name, of_name, List.filter_filter, List.filter_filter]
      refine List.filter_congr fun x _ => ?_
      by_cases hread : x.entry.name r = some name.toList
      · rw [hit_eq_found hread, decide_eq_true hread, Bool.true_and, Bool.and_true]
      · rw [decide_eq_false hread, Bool.false_and, Bool.and_false]
    change Edit.Within _ (of_name r name xs) (of_name r name (a ++ lines.map fresh ++ b))
    rw [of_name_append, of_name_append, hnil, of_name_fresh hlines, List.nil_append, hrest]
    exact .exchange

/-- **An edit leaves the entries of other names alone.** -/
theorem Edit.Step.elsewhere {edit : Edit} {ys : List Seen} (hvalid : edit.Valid r)
    (h : edit.Step r xs ys) (hname : name ≠ edit.name) : of_name r name ys = of_name r name xs := by
  have hother : ∀ {e : Entry}, e.name r = some edit.name.toList → e.name r ≠ some name.toList := by
    intro e he hsame
    rw [he, Option.some.injEq] at hsame
    exact hname (String.toList_inj.mp hsame).symm
  cases h with
  | replace replaced =>
    cases replaced with
    | found before first =>
      rename_i name' value replacePrefix a b x
      have htarget : Target name' := hvalid.target
      have hread := (hit_name first).2
      have hwritten := (htarget.write hread value replacePrefix).1.name
      rw [of_name_append, of_name_append, of_name_cons_other (hother hread),
        of_name_cons_other (hother hwritten)]
    | absent none front =>
      rename_i name' value replacePrefix a b
      have htarget : Target name' := hvalid.target
      have hfresh : (fresh (content_line name' value)).entry.name r = some name'.toList :=
        (htarget.content value).name
      rw [of_name_append, of_name_append, of_name_cons_other (hother hfresh)]
  | exchange removed front sound =>
    rename_i name' lines a b
    have hlines := hvalid.lines name' lines rfl
    have hnone : of_name r name (lines.map fresh) = [] :=
      filter_fresh fun line hline => decide_eq_false (hother (hlines line hline))
    rw [of_name_append, of_name_append, hnone, List.append_nil, ← of_name_append, ← removed,
      of_name, List.filter_filter]
    refine List.filter_congr fun x _ => ?_
    by_cases hread : x.entry.name r = some name.toList
    · have hmiss : hit r name'.toList x = false := by
        refine Bool.eq_false_iff.mpr fun hhit => ?_
        exact hother (hit_name hhit).2 hread
      rw [hmiss, Bool.not_false, Bool.and_true]
    · rw [decide_eq_false hread, Bool.false_and]

end Step

/-! ## One name -/

section Found

variable {name : String} {value : Text} {replacePrefix : Bool} {a b : List Seen} {x : Seen}

/-- The first entry that is found. -/
theorem find_first_found (before : ∀ y ∈ a, y.found = false) (first : x.found = true) :
    (a ++ x :: b).find? (·.found) = some x := by
  have hnone : a.find? (·.found) = none := by
    rw [List.find?_eq_none]
    intro y hy
    rw [before y hy]
    decide
  rw [List.find?_append, hnone, Option.none_or, List.find?_cons_of_pos first]

/-- The first entry that is found or direct: the first direct one in front of the one found, or
the one found. -/
theorem find_either (before : ∀ y ∈ a, y.found = false) (first : x.found = true) :
    (a ++ x :: b).find? (fun y => y.found || y.direct)
      = (a.find? (·.direct)).or (some x) := by
  have hfront : a.find? (fun y => y.found || y.direct) = a.find? (·.direct) := by
    rw [← List.head?_filter, ← List.head?_filter]
    refine congrArg List.head? (List.filter_congr fun y hy => ?_)
    rw [before y hy, Bool.false_or]
  rw [List.find?_append, hfront, List.find?_cons_of_pos (by rw [first]; rfl)]

/-- A property that is found and direct is edited rightly unless a direct one is passed over that
has another value. -/
theorem fits_direct (before : ∀ y ∈ a, y.found = false) (first : x.found = true)
    (hdirect : x.direct = true) :
    Edit.Fits (.replace name value replacePrefix) (a ++ x :: b)
      ↔ ∀ y, a.find? (·.direct) = some y → y.entry.value = some value := by
  constructor
  · rintro (hnone | ⟨z, hz, hfound, -⟩ | ⟨-, hvalue⟩) y hy
    · rw [hnone x (List.mem_append_right _ List.mem_cons_self)] at first
      cases first
    · rw [find_either before first, hy, Option.some_or] at hz
      cases hz
      rw [before _ (List.mem_of_find?_eq_some hy)] at hfound
      cases hfound
    · rwa [List.find?_append, hy, Option.some_or] at hvalue
  · intro h
    cases hpassed : a.find? (·.direct) with
    | none =>
      refine .inr (.inl ⟨x, ?_, first, hdirect⟩)
      rw [find_either before first, hpassed, Option.none_or]
    | some y =>
      refine .inr (.inr ⟨⟨x, find_first_found before first, .inl hdirect⟩, ?_⟩)
      rw [List.find?_append, hpassed, Option.some_or, Option.bind_some]
      exact h y hpassed

/-- If a nested property is found, an edit fits if it writes what is there and the first direct
property has the value already. -/
theorem fits_nested (before : ∀ y ∈ a, y.found = false) (first : x.found = true)
    (hnested : x.direct = false) :
    Edit.Fits (.replace name value replacePrefix) (a ++ x :: b)
      ↔ x.entry = ⟨new_line name value replacePrefix x, []⟩
        ∧ ((a ++ x :: b).find? (·.direct)).bind (·.entry.value) = some value := by
  constructor
  · rintro (hnone | ⟨z, hz, hfound, hdirect⟩ | ⟨⟨z, hz, hwritten⟩, hvalue⟩)
    · rw [hnone x (List.mem_append_right _ List.mem_cons_self)] at first
      cases first
    · rw [find_either before first] at hz
      cases hpassed : a.find? (·.direct) with
      | none =>
        rw [hpassed, Option.none_or] at hz
        cases hz
        rw [hnested] at hdirect
        cases hdirect
      | some y =>
        rw [hpassed, Option.some_or] at hz
        cases hz
        rw [before _ (List.mem_of_find?_eq_some hpassed)] at hfound
        cases hfound
    · rw [find_first_found before first] at hz
      cases hz
      refine ⟨hwritten.resolve_left ?_, hvalue⟩
      rw [hnested]
      decide
  · rintro ⟨hwritten, hvalue⟩
    exact .inr (.inr ⟨⟨x, find_first_found before first, .inr hwritten⟩, hvalue⟩)

/-- An edit that finds a property is right if and only if it fits. -/
theorem found_iff_fits {y : Seen} (before : ∀ y ∈ a, y.found = false) (first : x.found = true)
    (hdirect : y.direct = x.direct) (hvalue : y.entry.value = some value)
    (hentry : y.entry = ⟨new_line name value replacePrefix x, []⟩) :
    (((a ++ y :: b).filter fun x => !x.direct).map (·.entry)
        = ((a ++ x :: b).filter fun x => !x.direct).map (·.entry)
      ∧ Edit.Done (.replace name value replacePrefix) (a ++ y :: b))
      ↔ Edit.Fits (.replace name value replacePrefix) (a ++ x :: b) := by
  cases hd : x.direct with
  | true =>
    have hothers : (a ++ y :: b).filter (fun x => !x.direct)
        = (a ++ x :: b).filter (fun x => !x.direct) := by
      rw [List.filter_append, List.filter_append,
        List.filter_cons_of_neg (by rw [hdirect, hd]; decide),
        List.filter_cons_of_neg (by rw [hd]; decide)]
    rw [fits_direct before first hd, hothers, Edit.Done, List.find?_append,
      List.find?_cons_of_pos (hdirect.trans hd)]
    cases a.find? (·.direct) with
    | none => exact iff_of_true ⟨rfl, hvalue⟩ fun z hz => nomatch hz
    | some z =>
      rw [Option.some_or, Option.bind_some]
      exact ⟨fun h w hw => Option.some.inj hw ▸ h.2, fun h => ⟨rfl, h z rfl⟩⟩
  | false =>
    have hfind : (a ++ y :: b).find? (·.direct) = (a ++ x :: b).find? (·.direct) := by
      rw [List.find?_append, List.find?_append,
        List.find?_cons_of_neg (by rw [hdirect, hd]; decide),
        List.find?_cons_of_neg (by rw [hd]; decide)]
    have hothers : ((a ++ y :: b).filter fun x => !x.direct).map (·.entry)
        = ((a ++ x :: b).filter fun x => !x.direct).map (·.entry)
        ↔ x.entry = ⟨new_line name value replacePrefix x, []⟩ := by
      rw [List.filter_append, List.filter_append,
        List.filter_cons_of_pos (by rw [hdirect, hd]; rfl),
        List.filter_cons_of_pos (by rw [hd]; rfl), List.map_append, List.map_append,
        List.append_cancel_left_eq, List.map_cons, List.map_cons, List.cons.injEq, hentry]
      exact ⟨fun h => h.1.symm, fun h => ⟨h.symm, rfl⟩⟩
    rw [fits_nested before first hd, hothers, Edit.Done, hfind]

end Found

/-! ## Runs of edits -/

section Runs

variable {r : Runtime} {name : String}

variable {edit : Edit} {edits : List Edit} {xs ys : List Seen} {names : List String}

theorem ne_name {first : Edit} (h : first.name ∉ edits.map Edit.name) (hedit : edit ∈ edits) :
    edit.name ≠ first.name := by
  intro heq
  rw [← heq] at h
  exact h (List.mem_map_of_mem hedit)

/-- The edits of other names leave the entries of a name alone. -/
theorem Steps.elsewhere (h : Steps r edits xs ys) (hvalid : ∀ edit ∈ edits, edit.Valid r)
    (hname : name ∉ edits.map Edit.name) : of_name r name ys = of_name r name xs := by
  induction h with
  | nil => rfl
  | cons sound step rest ih =>
    rw [List.map_cons, List.mem_cons, not_or] at hname
    rw [List.forall_mem_cons] at hvalid
    rw [ih hvalid.2 hname.2]
    exact step.elsewhere hvalid.1 hname.1

/-- All the edits do to the entries of a name is what the one with that name does. -/
theorem Steps.within (h : Steps r edits xs ys) (hvalid : ∀ edit ∈ edits, edit.Valid r)
    (hnames : (edits.map Edit.name).Nodup) (hedit : edit ∈ edits) :
    edit.Within (of_name r edit.name xs) (of_name r edit.name ys) := by
  induction h with
  | nil => cases hedit
  | cons sound step rest ih =>
    rw [List.map_cons, List.nodup_cons] at hnames
    rw [List.forall_mem_cons] at hvalid
    rcases List.mem_cons.mp hedit with rfl | hedit
    · rw [rest.elsewhere hvalid.2 hnames.1]
      exact step.within hvalid.1 sound
    · rw [← step.elsewhere hvalid.1 (ne_name hnames.1 hedit)]
      exact ih hvalid.2 hnames.2 hedit

/-- The edit leaves nested components alone, or writes what is there. -/
def Edit.Harmless : Edit → List Seen → Prop
  | .replace name value replacePrefix, xs => ∀ x, xs.find? (·.found) = some x →
    x.direct = true ∨ x.entry = ⟨new_line name value replacePrefix x, []⟩
  | .exchange _ _, xs => ∀ x ∈ xs, x.found = true → x.direct = true

/-- An edit that fits does not harm a nested component. -/
theorem Edit.Fits.harmless (h : edit.Fits xs) : edit.Harmless xs := by
  cases edit with
  | replace name value replacePrefix =>
    intro x hx
    have hfound : x.found = true := List.find?_some hx
    rcases h with hnone | ⟨y, hy, hfound_y, hdirect⟩ | ⟨⟨y, hy, hwritten⟩, -⟩
    · rw [hnone x (List.mem_of_find?_eq_some hx)] at hfound
      cases hfound
    · -- the first one that is found or direct is the first one found
      obtain ⟨-, a, b, rfl, ha⟩ := List.find?_eq_some_iff_append.mp hy
      have hnone : a.find? (·.found) = none := by
        rw [List.find?_eq_none]
        intro z hz hfound_z
        have hz' := ha z hz
        rw [hfound_z] at hz'
        cases hz'
      rw [List.find?_append, hnone, Option.none_or, List.find?_cons_of_pos hfound_y] at hx
      cases hx
      exact .inl hdirect
    · rw [hx] at hy
      cases hy
      exact hwritten
  | exchange name lines => exact fun x hx hfound => h x hx ▸ hfound

theorem touched_of_direct (hname : name ∈ names) {x : Seen}
    (hread : x.entry.name r = some name.toList) : touched r names x = x.direct := by
  rw [touched, List.any_eq_true.mpr ⟨name, hname, decide_eq_true hread⟩, Bool.and_true]

theorem find_found_of_name {a b : List Seen} {x : Seen} (ha : ∀ y ∈ a, hit r name.toList y = false)
    (hx : hit r name.toList x = true) :
    (of_name r name (a ++ x :: b)).find? (·.found) = some x := by
  rw [of_name_append, of_name_cons_same (hit_name hx).2]
  exact find_first_found (not_found_of_no_hit ha) (hit_name hx).1

/-- **A harmless edit leaves everything else as it is.** -/
theorem Edit.Step.others (hvalid : edit.Valid r) (h : edit.Step r xs ys) (hname : edit.name ∈ names)
    (hharmless : edit.Harmless (of_name r edit.name xs)) :
    (ys.filter fun x => !touched r names x).map (·.entry)
      = (xs.filter fun x => !touched r names x).map (·.entry) := by
  cases h with
  | replace replaced =>
    cases replaced with
    | found before first =>
      rename_i name value replacePrefix a b x
      have htarget : Target name := hvalid.target
      have hread := (hit_name first).2
      have hwritten := (htarget.write hread value replacePrefix).1.name
      have hold := touched_of_direct (r := r) hname hread
      have hnew := touched_of_direct (r := r) hname hwritten
      simp only [List.filter_append, List.filter_cons, List.map_append, hold, hnew]
      rcases hharmless x (find_found_of_name before first) with hdirect | hsame
      · have hdirect' : (x.write (new_line name value replacePrefix x)).direct = true := hdirect
        rw [hdirect, hdirect']
        rfl
      · have hwrite : x.write (new_line name value replacePrefix x) = x := by
          rw [Seen.write, ← hsame]
        rw [hwrite]
    | absent none front =>
      rename_i name value replacePrefix a b
      have htarget : Target name := hvalid.target
      have hread : (fresh (content_line name value)).entry.name r = some name.toList :=
        (htarget.content value).name
      have hnew : touched r names (fresh (content_line name value)) = true :=
        touched_of_direct hname hread
      rw [List.filter_append, List.filter_append, List.filter_cons_of_neg (by rw [hnew]; decide)]
  | exchange removed front sound =>
    rename_i name lines a b
    have hlines := hvalid.lines name lines rfl
    have hinserted : (lines.map fresh).filter (fun x => !touched r names x) = [] := by
      refine filter_fresh fun line hline => ?_
      have hnew : touched r names (fresh line) = true := touched_of_direct hname (hlines line hline)
      rw [hnew, Bool.not_true]
    rw [List.filter_append, List.filter_append, hinserted, List.append_nil, ← List.filter_append,
      ← removed, List.filter_filter]
    refine congrArg _ (List.filter_congr fun x hx => ?_)
    by_cases hhit : hit r name.toList x = true
    · obtain ⟨hfound, hread⟩ := hit_name hhit
      have htouched := touched_of_direct (r := r) hname hread
      rw [hharmless x (mem_of_name.mpr ⟨hx, hread⟩) hfound] at htouched
      rw [htouched, hhit]
      rfl
    · rw [Bool.not_eq_true] at hhit
      rw [hhit, Bool.not_false, Bool.and_true]

/-- Edits that do no harm leave everything else as it is. -/
theorem Steps.others (h : Steps r edits xs ys) (hvalid : ∀ edit ∈ edits, edit.Valid r)
    (hnames : (edits.map Edit.name).Nodup) (hsub : ∀ edit ∈ edits, edit.name ∈ names)
    (hharmless : ∀ edit ∈ edits, edit.Harmless (of_name r edit.name xs)) :
    (ys.filter fun x => !touched r names x).map (·.entry)
      = (xs.filter fun x => !touched r names x).map (·.entry) := by
  induction h with
  | nil => rfl
  | cons sound step rest ih =>
    rw [List.map_cons, List.nodup_cons] at hnames
    rw [List.forall_mem_cons] at hvalid hsub hharmless
    rw [ih hvalid.2 hnames.2 hsub.2 ?_]
    · exact step.others hvalid.1 hsub.1 hharmless.1
    · intro edit hedit
      rw [step.elsewhere hvalid.1 (ne_name hnames.1 hedit)]
      exact hharmless.2 edit hedit

/-- An edit that removes and inserts is right if and only if it finds the direct ones. -/
theorem exchange_iff_fits {lines : List Text} :
    (((lines.map fresh ++ xs.filter fun x => !x.found).filter fun x => !x.direct).map (·.entry)
        = (xs.filter fun x => !x.direct).map (·.entry)
      ∧ Edit.Done (.exchange name lines) (lines.map fresh ++ xs.filter fun x => !x.found))
      ↔ Edit.Fits (.exchange name lines) xs := by
  have hfresh : ∀ x ∈ lines.map fresh, x.direct = true := by
    intro x hx
    obtain ⟨line, -, rfl⟩ := List.mem_map.mp hx
    rfl
  have hnone : (lines.map fresh).filter (fun x => !x.direct) = [] := filter_fresh fun _ _ => rfl
  have hlines : ((lines.map fresh).filter (·.direct)).map (·.entry)
      = lines.map fun line => ⟨line, []⟩ := by
    rw [List.filter_eq_self.mpr hfresh, List.map_map]
    rfl
  -- nothing nested is removed
  have hnested : ((lines.map fresh ++ xs.filter fun x => !x.found).filter
        fun x => !x.direct).map (·.entry) = (xs.filter fun x => !x.direct).map (·.entry)
      ↔ ∀ x ∈ xs, x.direct = false → x.found = false := by
    rw [List.filter_append, hnone, List.nil_append, List.filter_filter]
    have hcomm : xs.filter (fun x => !x.direct && !x.found)
        = (xs.filter fun x => !x.direct).filter fun x => !x.found := by
      rw [List.filter_filter]
      exact List.filter_congr fun x _ => Bool.and_comm _ _
    rw [hcomm]
    constructor
    · intro heq x hx hdirect
      have hlength := congrArg List.length heq
      rw [List.length_map, List.length_map, List.length_filter_eq_length_iff] at hlength
      have hkept := hlength x (List.mem_filter.mpr ⟨hx, by rw [hdirect]; rfl⟩)
      rwa [Bool.not_eq_true'] at hkept
    · intro hall
      rw [List.filter_eq_self.mpr]
      intro x hx
      obtain ⟨hmem, hdirect⟩ := List.mem_filter.mp hx
      rw [Bool.not_eq_true'] at hdirect
      rw [hall x hmem hdirect]
      rfl
  -- nothing direct is left
  have hdone : Edit.Done (.exchange name lines) (lines.map fresh ++ xs.filter fun x => !x.found)
      ↔ ∀ x ∈ xs, x.direct = true → x.found = true := by
    rw [Edit.Done, List.filter_append, List.map_append, hlines, List.append_right_eq_self,
      List.map_eq_nil_iff, List.filter_filter, List.filter_eq_nil_iff]
    refine forall₂_congr fun x _ => ?_
    rw [Bool.and_eq_true, Bool.not_eq_true', not_and, Bool.not_eq_false]
  rw [hnested, hdone]
  constructor
  · rintro ⟨hfalse, htrue⟩ x hx
    cases hdirect : x.direct with
    | false => exact hfalse x hx hdirect
    | true => exact htrue x hx hdirect
  · intro hfits
    exact ⟨fun x hx h => (hfits x hx).trans h, fun x hx h => (hfits x hx).trans h⟩

/-- **What is found decides an edit of its name.** -/
theorem Edit.Within.iff_fits (hvalid : edit.Valid r)
    (hread : ∀ x ∈ xs, x.entry.name r = some edit.name.toList) (h : edit.Within xs ys) :
    ((ys.filter fun x => !x.direct).map (·.entry) = (xs.filter fun x => !x.direct).map (·.entry)
      ∧ edit.Done ys) ↔ edit.Fits xs := by
  cases h with
  | found before first =>
    rename_i name value replacePrefix a b x
    have htarget : Target name := hvalid.target
    have hx : x.entry.name r = some name.toList :=
      hread x (List.mem_append_right _ List.mem_cons_self)
    exact found_iff_fits before first rfl (htarget.write hx value replacePrefix).1.value rfl
  | absent none =>
    rename_i name value replacePrefix
    have htarget : Target name := hvalid.target
    refine iff_of_true ⟨rfl, ?_⟩ (.inl none)
    change ((fresh (content_line name value) :: xs).find? (·.direct)).bind _ = _
    rw [List.find?_cons_of_pos rfl]
    exact (htarget.content (r := r) value).value
  | exchange => exact exchange_iff_fits

theorem others_of_name (hname : name ∈ names) (xs : List Seen) :
    ((xs.filter fun x => !touched r names x).map (·.entry)).filter
        (fun e => decide (e.name r = some name.toList))
      = ((of_name r name xs).filter fun x => !x.direct).map (·.entry) := by
  rw [List.filter_map, List.filter_filter, of_name, List.filter_filter]
  refine congrArg _ (List.filter_congr fun x _ => ?_)
  by_cases hread : x.entry.name r = some name.toList
  · rw [touched_of_direct hname hread, Bool.and_comm]
    rfl
  · rw [Function.comp_apply, decide_eq_false hread, Bool.false_and, Bool.and_false]

/-- **An update is the one that was asked for if and only if every edit fits.** -/
theorem Steps.updated_iff (h : Steps r edits xs ys) (hvalid : ∀ edit ∈ edits, edit.Valid r)
    (hnames : (edits.map Edit.name).Nodup) :
    Updated r edits xs ys ↔ ∀ edit ∈ edits, edit.Fits (of_name r edit.name xs) := by
  have hiff : ∀ edit ∈ edits, (((of_name r edit.name ys).filter fun x => !x.direct).map (·.entry)
      = ((of_name r edit.name xs).filter fun x => !x.direct).map (·.entry)
        ∧ edit.Done (of_name r edit.name ys)) ↔ edit.Fits (of_name r edit.name xs) :=
    fun edit hedit => Edit.Within.iff_fits (hvalid edit hedit) (fun x hx => (mem_of_name.mp hx).2)
      (h.within hvalid hnames hedit)
  constructor
  · intro hupdated edit hedit
    refine (hiff edit hedit).mp ⟨?_, hupdated.done edit hedit⟩
    have hmem : edit.name ∈ edits.map Edit.name := List.mem_map_of_mem hedit
    rw [← others_of_name hmem, ← others_of_name hmem, hupdated.others]
  · intro hfits
    refine ⟨h.others hvalid hnames (fun edit hedit => List.mem_map_of_mem hedit)
      fun edit hedit => (hfits edit hedit).harmless, fun edit hedit => ?_⟩
    exact ((hiff edit hedit).mpr (hfits edit hedit)).2

end Runs

/-! ## The same update again -/

section Again

variable {r : Runtime} {name : String}

/-- There is one place in front of the first nested component. -/
theorem Front.unique {a b a' b' : List Seen} (h : Front r a b) (h' : Front r a' b')
    (heq : a ++ b = a' ++ b') : a = a' ∧ b = b' := by
  have htake : ∀ {a b : List Seen}, Front r a b →
      (a ++ b).takeWhile (fun x => prefixed r x.entry.head ≠ .opens) = a := by
    intro a b h
    rw [List.takeWhile_append_of_pos fun x hx => decide_eq_true (h.before x hx)]
    cases b with
    | nil => exact List.append_nil a
    | cons x b =>
      rw [List.takeWhile_cons_of_neg, List.append_nil]
      rw [decide_eq_true_eq, not_not]
      exact h.behind x rfl
  have ha : a = a' := by rw [← htake h, heq, htake h']
  rw [ha] at heq
  exact ⟨ha, List.append_cancel_left heq⟩

/-- Among the entries with its name there is nothing left to do for the edit. -/
def Edit.Settled : Edit → List Seen → Prop
  | .replace name value replacePrefix, xs => ∃ x, xs.find? (·.found) = some x
    ∧ x.write (new_line name value replacePrefix x) = x
  | .exchange _ _, xs => ∀ x ∈ xs, x.found = false

/-- An edit that inserts no lines if it finds a property. -/
def Edit.Quiet (edit : Edit) : Prop := ∀ name lines, edit = .exchange name lines → lines = []

variable {xs ys : List Seen} {edits : List Edit}

/-- An edit that has been made has nothing left to do. -/
theorem Edit.Within.settled {edit : Edit} (hvalid : edit.Valid r)
    (hread : ∀ x ∈ xs, x.entry.name r = some edit.name.toList) (hquiet : edit.Quiet)
    (h : edit.Within xs ys) : edit.Settled ys := by
  cases h with
  | found before first =>
    rename_i name value replacePrefix a b x
    have htarget : Target name := hvalid.target
    have hx : x.entry.name r = some name.toList :=
      hread x (List.mem_append_right _ List.mem_cons_self)
    refine ⟨_, find_first_found before (x := x.write (new_line name value replacePrefix x)) first,
      ?_⟩
    rw [(htarget.write hx value replacePrefix).2]
    rfl
  | absent none =>
    rename_i name value replacePrefix
    have htarget : Target name := hvalid.target
    have hbefore : (fresh (content_line name value)).entry.before = name.toList :=
      (Entry.read (r := r) (delimited_line fun other =>
        find_value_delimiter_line htarget.upper other)).2.1
    refine ⟨fresh (content_line name value), List.find?_cons_of_pos rfl, ?_⟩
    rw [new_line, hbefore, ite_self]
    rfl
  | exchange =>
    rename_i name lines
    rw [hquiet name lines rfl]
    exact eq_false_of_filter rfl

theorem Edit.Settled.no_hit {lines : List Text}
    (h : Edit.Settled (.exchange name lines) (of_name r name xs)) :
    ∀ x ∈ xs, hit r name.toList x = false := by
  intro x hx
  refine Bool.eq_false_iff.mpr fun hhit => ?_
  obtain ⟨hfound, hread⟩ := hit_name hhit
  rw [h x (mem_of_name.mpr ⟨hx, hread⟩)] at hfound
  cases hfound

theorem filter_no_hit (h : ∀ x ∈ xs, hit r name.toList x = false) :
    xs.filter (fun x => !hit r name.toList x) = xs := by
  rw [List.filter_eq_self]
  intro x hx
  rw [h x hx]
  rfl

/-- An edit with nothing left to do changes nothing. -/
theorem Edit.Step.again {edit : Edit} (hquiet : edit.Quiet)
    (hsettled : edit.Settled (of_name r edit.name xs)) (h : edit.Step r xs ys) : ys = xs := by
  cases h with
  | replace replaced =>
    obtain ⟨x, hfirst, hwritten⟩ := hsettled
    cases replaced with
    | found before first =>
      rename_i name value replacePrefix a b y
      have hfind := find_found_of_name (b := b) before first
      cases hfind.symm.trans hfirst
      rw [hwritten]
    | absent none front =>
      have hfound := not_found_of_no_hit none x (List.mem_of_find?_eq_some hfirst)
      rw [List.find?_some (p := fun x : Seen => x.found) hfirst] at hfound
      cases hfound
  | exchange removed front sound =>
    rename_i name lines a b
    rw [filter_no_hit hsettled.no_hit] at removed
    rw [hquiet name lines rfl, List.map_nil, List.append_nil, removed]

/-- Edits with nothing left to do change nothing. -/
theorem Steps.again_quiet (hquiet : ∀ edit ∈ edits, edit.Quiet)
    (hsettled : ∀ edit ∈ edits, edit.Settled (of_name r edit.name xs)) (h : Steps r edits xs ys) :
    ys = xs := by
  induction h with
  | nil => rfl
  | cons sound step rest ih =>
    rw [List.forall_mem_cons] at hquiet hsettled
    cases step.again hquiet.1 hsettled.1
    exact ih hquiet.2 hsettled.2

theorem Steps.of_append {edits' : List Edit} {zs : List Seen}
    (h : Steps r (edits ++ edits') xs zs) :
    ∃ ys, Steps r edits xs ys ∧ Steps r edits' ys zs := by
  induction edits generalizing xs with
  | nil => exact ⟨xs, .nil, h⟩
  | cons edit edits ih =>
    cases h with
    | cons sound step rest =>
      obtain ⟨ys, hfirst, hlast⟩ := ih rest
      exact ⟨ys, .cons sound step hfirst, hlast⟩

/-- **The same edits change nothing more.** Only the last one may insert lines again. -/
theorem Steps.again {last : List Edit} {zs : List Seen}
    (hlast : last = [] ∨ ∃ name lines, last = [.exchange name lines])
    (hvalid : ∀ edit ∈ edits ++ last, edit.Valid r) (hnames : ((edits ++ last).map Edit.name).Nodup)
    (hquiet : ∀ edit ∈ edits, edit.Quiet) (h : Steps r (edits ++ last) xs ys)
    (h' : Steps r (edits ++ last) ys zs) : zs = ys := by
  have hsettled : ∀ edit ∈ edits, edit.Settled (of_name r edit.name ys) := by
    intro edit hedit
    have hmem : edit ∈ edits ++ last := List.mem_append_left _ hedit
    exact (h.within hvalid hnames hmem).settled (hvalid edit hmem)
      (fun x hx => (mem_of_name.mp hx).2) (hquiet edit hedit)
  obtain ⟨ys', hfirst, hrest⟩ := h'.of_append
  rw [hfirst.again_quiet hquiet hsettled] at hrest
  rcases hlast with rfl | ⟨name, lines, rfl⟩
  · cases hrest
    rfl
  · obtain ⟨ws, -, hinsert⟩ := h.of_append
    cases hinsert with
    | cons sound step rest =>
      cases rest
      cases step with
      | exchange removed front sound =>
        rename_i a b
        cases hrest with
        | cons sound' step' rest' =>
          cases rest'
          cases step' with
          | exchange removed' front' sound'' =>
            rename_i a' b'
            have hnone := eq_false_of_filter removed
            -- what was inserted is what is removed
            have hremoved : (a ++ lines.map fresh ++ b).filter (fun x => !hit r name.toList x)
                = a ++ b := by
              have hlines := (hvalid _ (List.mem_append_right _ List.mem_cons_self)).lines
                name lines rfl
              have hinserted : (lines.map fresh).filter (fun x => !hit r name.toList x) = [] :=
                filter_fresh fun line hline => by rw [hit_eq_found (hlines line hline)]; rfl
              rw [List.filter_append, List.filter_append, hinserted, List.append_nil,
                ← List.filter_append, filter_no_hit hnone]
            rw [hremoved] at removed'
            obtain ⟨rfl, rfl⟩ := front.unique front' removed'
            rfl

end Again

theorem ok_bind {ε α β : Type} {x : Except ε α} {a : α} (h : x = .ok a) (f : α → Except ε β) :
    x >>= f = f a := by
  rw [h]
  rfl

/-! ## The edits of an event -/

/-- What `validateVEventInput` promises of the texts that are written. -/
structure VEventInput.Writable (input : VEventInput) : Prop where
  summary : assert_safe_text input.summary = .ok ()
  description : ∀ text, input.description = some text → assert_safe_text text = .ok ()
  location : ∀ text, input.location = some text → assert_safe_text text = .ok ()
  attendees : ∀ attendees, input.attendees = some attendees → ∀ attendee ∈ attendees,
    ∃ address, normalize_calendar_address attendee = .ok address

section Writing

variable {r : Runtime} {input : VEventInput} {dtstart dtend : Text} {name : String}

theorem validate_ok (h : validate_vevent_input input = .ok ()) : input.Writable := by
  rw [validate_vevent_input] at h
  split at h
  · cases h
  obtain ⟨-, -, h⟩ := bind_eq_ok h
  dsimp only at h
  split at h
  · cases h
  obtain ⟨⟨⟩, hsummary, h⟩ := bind_eq_ok h
  obtain ⟨⟨⟩, hdescription, h⟩ := bind_eq_ok h
  obtain ⟨⟨⟩, hlocation, hattendees⟩ := bind_eq_ok h
  refine ⟨hsummary, fun text htext => ?_, fun text htext => ?_,
    fun attendees hgiven attendee hmem => ?_⟩
  · rw [htext] at hdescription
    exact hdescription
  · rw [htext] at hlocation
    exact hlocation
  · rw [hgiven] at hattendees
    obtain ⟨address, haddress, -⟩ := bind_eq_ok (forM_ok hattendees attendee hmem)
    exact ⟨address, haddress⟩

/-- The edits of an event have the names of properties. -/
theorem targets (dtstart dtend : Text) (input : VEventInput) :
    ∀ edit ∈ input.edits dtstart dtend, edit.Valid r := by
  have hreplace : ∀ {name : String} {value : Text} {replacePrefix : Bool}, Target name →
      Edit.Valid r (.replace name value replacePrefix) :=
    fun hname => ⟨hname, fun _ _ h => nomatch h⟩
  intro edit hedit
  simp only [VEventInput.edits, List.mem_append, List.mem_cons, List.mem_map, List.not_mem_nil,
    or_false] at hedit
  rcases hedit with (((rfl | rfl | rfl | rfl) | ⟨text, -, rfl⟩) | ⟨text, -, rfl⟩) |
    ⟨attendees, -, rfl⟩
  · exact hreplace (target_of_mem (by simp))
  · exact hreplace (target_of_mem (by simp))
  · refine ⟨target_of_mem (by simp [Edit.name]), ?_⟩
    intro name lines heq line hline
    cases heq
    cases hline
  · exact hreplace (target_of_mem (by simp))
  · exact hreplace (target_of_mem (by simp))
  · exact hreplace (target_of_mem (by simp))
  · refine ⟨target_attendee, fun name lines heq line hline => ?_⟩
    cases heq
    obtain ⟨attendee, -, rfl⟩ := List.mem_map.mp hline
    exact (target_attendee.content _).name

/-- No two edits of an event have one name. -/
theorem edit_names_nodup (dtstart dtend : Text) (input : VEventInput) :
    ((input.edits dtstart dtend).map Edit.name).Nodup := by
  rw [VEventInput.edits]
  cases input.description <;> cases input.location <;> cases input.attendees <;>
    simp [Edit.name]

variable {xs ys : List Seen}

theorem Steps.append {edits edits' : List Edit} {zs : List Seen} (h : Steps r edits xs ys)
    (h' : Steps r edits' ys zs) : Steps r (edits ++ edits') xs zs := by
  induction h with
  | nil => exact h'
  | cons sound step rest ih => exact .cons sound step (ih h')

theorem Steps.one {edit : Edit} (hsound : Sound r xs) (h : edit.Step r xs ys) :
    Steps r [edit] xs ys := .cons hsound h .nil

theorem step_replace (hname : Target name) {value : Text} (hvalue : OneLine value)
    (replacePrefix : Bool) (h : Sound r xs) :
    ∃ ys, replace_direct_property r (lines_of xs) name.toList value replacePrefix
        = .ok (lines_of ys)
      ∧ Sound r ys ∧ Steps r [.replace name value replacePrefix] xs ys := by
  obtain ⟨ys, hcode, hsound, hreplaced⟩ := replace_spec hname hvalue replacePrefix h
  exact ⟨ys, hcode, hsound, .one h (.replace hreplaced)⟩

theorem step_remove (hname : Target name) (h : Sound r xs) :
    ∃ ys, remove_direct_properties r name.toList (lines_of xs).length (lines_of xs)
        = .ok (lines_of ys)
      ∧ Sound r ys ∧ Steps r [.exchange name []] xs ys := by
  obtain ⟨hcode, hsound⟩ := remove_spec hname h (hits_le_lines name.toList xs)
  obtain ⟨a, b, hsplit, hfront⟩ := exists_front r (xs.filter fun x => !hit r name.toList x)
  refine ⟨_, hcode, hsound, .one h ?_⟩
  rw [hsplit] at hsound ⊢
  have hstep : Edit.Step r (.exchange name []) xs _ := .exchange hsplit hfront hsound
  rwa [List.map_nil, List.append_nil] at hstep

theorem step_given (hname : Target name) {value : Option Text}
    (hvalue : ∀ text, value = some text → assert_safe_text text = .ok ()) (h : Sound r xs) :
    ∃ ys, replace_given r (lines_of xs) name value = .ok (lines_of ys) ∧ Sound r ys
      ∧ Steps r (value.toList.map fun text => .replace name (text.flatMap escape) false) xs ys := by
  cases value with
  | none => exact ⟨xs, rfl, h, .nil⟩
  | some text =>
    have hsafe := hvalue text rfl
    obtain ⟨ys, hcode, hsound, hsteps⟩ := step_replace hname (escape_one_line hsafe) false h
    refine ⟨ys, ?_, hsound, hsteps⟩
    rw [replace_given, fold_eq hsafe]
    exact hcode

theorem step_attendees {attendees : Option (List Text)}
    (hvalid : ∀ given, attendees = some given → ∀ attendee ∈ given,
      ∃ address, normalize_calendar_address attendee = .ok address) (h : Sound r xs) :
    ∃ ys, replace_attendees r (lines_of xs) attendees = .ok (lines_of ys) ∧ Sound r ys
      ∧ Steps r (attendees.toList.map fun given => .exchange "ATTENDEE" (given.map attendee_line))
        xs ys := by
  cases attendees with
  | none => exact ⟨xs, rfl, h, .nil⟩
  | some given =>
    obtain ⟨hcode, hsound⟩ := remove_spec target_attendee h (hits_le_lines "ATTENDEE".toList xs)
    obtain ⟨a, b, hsplit, hfront⟩ :=
      exists_front r (xs.filter fun x => !hit r "ATTENDEE".toList x)
    rw [hsplit] at hcode hsound
    obtain ⟨hinsert, hall⟩ := insert_attendees (hvalid given rfl) hsound hfront
    have hstep : Edit.Step r (.exchange "ATTENDEE" (given.map attendee_line)) xs _ :=
      .exchange hsplit hfront hsound
    rw [List.map_map] at hstep
    refine ⟨_, ?_, hall, .one h hstep⟩
    rw [replace_attendees, hcode]
    exact hinsert

/-- **What the code makes of the lines of an event.** -/
theorem edit_event_spec (hinput : input.Writable) (hstart : OneLine dtstart) (hend : OneLine dtend)
    (h : Sound r xs) :
    ∃ ys, edit_event r input dtstart dtend (lines_of xs) = .ok (lines_of ys) ∧ Sound r ys
      ∧ Steps r (input.edits dtstart dtend) xs ys := by
  have hsummary : Target "SUMMARY" := target_of_mem (by simp)
  have hdtstart : Target "DTSTART" := target_of_mem (by simp)
  have hduration : Target "DURATION" := target_of_mem (by simp)
  have hdtend : Target "DTEND" := target_of_mem (by simp)
  have hdescription : Target "DESCRIPTION" := target_of_mem (by simp)
  have hlocation : Target "LOCATION" := target_of_mem (by simp)
  obtain ⟨x1, hcode1, h1, hs1⟩ := step_replace hsummary (escape_one_line hinput.summary) false h
  obtain ⟨x2, hcode2, h2, hs2⟩ := step_replace hdtstart hstart true h1
  obtain ⟨x3, hcode3, h3, hs3⟩ := step_remove hduration h2
  obtain ⟨x4, hcode4, h4, hs4⟩ := step_replace hdtend hend true h3
  obtain ⟨x5, hcode5, h5, hs5⟩ := step_given hdescription hinput.description h4
  obtain ⟨x6, hcode6, h6, hs6⟩ := step_given hlocation hinput.location h5
  obtain ⟨x7, hcode7, h7, hs7⟩ := step_attendees hinput.attendees h6
  refine ⟨x7, ?_, h7,
    ((((hs1.append hs2).append hs3).append hs4).append hs5).append hs6 |>.append hs7⟩
  rw [edit_event]
  refine (ok_bind (fold_eq hinput.summary) _).trans ?_
  refine (ok_bind hcode1 _).trans ?_
  refine (ok_bind hcode2 _).trans ?_
  refine (ok_bind hcode3 _).trans ?_
  refine (ok_bind hcode4 _).trans ?_
  refine (ok_bind hcode5 _).trans ?_
  exact (ok_bind hcode6 _).trans hcode7

/-- **The same update once more**, made of the lines that the first one has written. -/
theorem edit_event_again (hinput : input.Writable) (hstart : OneLine dtstart) (hend : OneLine dtend)
    (hsteps : Steps r (input.edits dtstart dtend) xs ys) (hsound : Sound r ys) :
    edit_event r input dtstart dtend (lines_of ys) = .ok (lines_of ys) := by
  obtain ⟨zs, hcode, -, hagain⟩ := edit_event_spec hinput hstart hend hsound
  have hlast : (input.attendees.toList.map fun attendees =>
        Edit.exchange "ATTENDEE" (attendees.map attendee_line)) = []
      ∨ ∃ name lines, (input.attendees.toList.map fun attendees =>
        Edit.exchange "ATTENDEE" (attendees.map attendee_line)) = [.exchange name lines] := by
    cases input.attendees with
    | none => exact .inl rfl
    | some given => exact .inr ⟨_, _, rfl⟩
  have hsame := Steps.again hlast (targets dtstart dtend input)
    (edit_names_nodup dtstart dtend input) ?_ hsteps hagain
  · rw [hcode, hsame]
  · intro edit hedit name lines heq
    subst heq
    simp only [List.mem_append, List.mem_cons, List.mem_map, List.not_mem_nil, or_false,
      reduceCtorEq, and_false, exists_false, false_or] at hedit
    cases hedit
    rfl

end Writing

end Appcall.Caldav
