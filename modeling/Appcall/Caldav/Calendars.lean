/-
Calendars around one of their events.

The passes read the lines of the other components where they are, and an edit of the event moves
those behind it as a whole: the places behind the event are shifted, and what is read there is
the same. The event itself is chosen by its properties, which the edit does not touch.

An edit keeps the lines that bound components (`Edit.Step.bounds_eq`), so the nesting of a
calendar is as good after it as before, and its events are found at their places (`Located`).
`find_master_iff` says when an event is chosen, and `find_master_again` that it is chosen again.
-/
import Appcall.Caldav.Updates

set_option autoImplicit false

namespace Appcall.Caldav

/-! ## Bounds of components -/

section Bounds

variable {r : Runtime}

/-- The lines that look like bounds of components. -/
def bounds (r : Runtime) (lines : List Text) : List Text :=
  lines.filter fun line => decide (prefixed r line ≠ .plain)

theorem bounds_append (a b : List Text) : bounds r (a ++ b) = bounds r a ++ bounds r b :=
  List.filter_append ..

theorem bounds_plain {lines : List Text} (h : ∀ line ∈ lines, prefixed r line = .plain) :
    bounds r lines = [] := by
  rw [bounds, List.filter_eq_nil_iff]
  intro line hline
  rw [h line hline]
  decide

theorem bounds_entry {e : Entry} (hplain : prefixed r e.head = .plain)
    (hfolded : ∀ line ∈ e.folded, is_folded line = true) : bounds r e.lines = [] := by
  refine bounds_plain (List.forall_mem_cons.mpr ⟨hplain, fun line hline => ?_⟩)
  exact prefixed_folded (hfolded line hline)

theorem bounds_fresh {name : String} (hname : Target name) {lines : List Text}
    (h : ∀ line ∈ lines, (⟨line, []⟩ : Entry).name r = some name.toList) :
    bounds r (lines_of (lines.map fresh)) = [] := by
  refine bounds_plain fun line hline => ?_
  obtain ⟨x, hx, hmem⟩ := List.mem_flatMap.mp hline
  obtain ⟨written, hwritten, rfl⟩ := List.mem_map.mp hx
  rw [List.mem_singleton.mp hmem]
  exact (hname.plain (h written hwritten)).1

variable {xs : List Seen}

theorem bounds_removed {name : String} (hname : Target name)
    (hfolded : ∀ x ∈ xs, ∀ line ∈ x.entry.folded, is_folded line = true) :
    bounds r (lines_of (xs.filter fun x => !hit r name.toList x)) = bounds r (lines_of xs) := by
  induction xs with
  | nil => rfl
  | cons x xs ih =>
    rw [List.forall_mem_cons] at hfolded
    rw [List.filter_cons, lines_of_cons, bounds_append, ← ih hfolded.2]
    by_cases hhit : hit r name.toList x = true
    · rw [hhit, bounds_entry (hname.plain (hit_name hhit).2).1 hfolded.1]
      rfl
    · rw [Bool.not_eq_true] at hhit
      rw [hhit, Bool.not_false, if_pos rfl, lines_of_cons, bounds_append]

theorem Sound.folded (h : Sound r xs) : ∀ x ∈ xs, ∀ line ∈ x.entry.folded, is_folded line = true :=
  fun _ hx => h.grouped.folded _ (List.mem_map_of_mem hx)

/-- **No edit changes the bounds of components.** -/
theorem Edit.Step.bounds_eq {edit : Edit} {ys : List Seen} (hvalid : edit.Valid r)
    (hsound : Sound r xs) (h : edit.Step r xs ys) :
    bounds r (lines_of ys) = bounds r (lines_of xs) := by
  cases h with
  | replace replaced =>
    cases replaced with
    | found before first =>
      rename_i name value replacePrefix a b x
      have htarget : Target name := hvalid.target
      have hread := (hit_name first).2
      have hwritten := (htarget.write hread value replacePrefix).1.name
      have hold := bounds_entry (htarget.plain hread).1
        (hsound.folded x (List.mem_append_right _ List.mem_cons_self))
      have hnew : bounds r (x.write (new_line name value replacePrefix x)).entry.lines = [] :=
        bounds_entry (htarget.plain hwritten).1 fun line hline => nomatch hline
      rw [lines_of_append, lines_of_append, lines_of_cons, lines_of_cons]
      simp only [bounds_append, hold, hnew]
    | absent none front =>
      rename_i name value replacePrefix a b
      have htarget : Target name := hvalid.target
      have hnew : bounds r (fresh (content_line name value)).entry.lines = [] :=
        bounds_entry (htarget.plain (htarget.content value).name).1 fun line hline => nomatch hline
      rw [lines_of_append, lines_of_append, lines_of_cons]
      simp only [bounds_append, hnew, List.nil_append]
  | exchange removed front sound =>
    rename_i name lines a b
    have htarget : Target name := hvalid.target
    have hnew := bounds_fresh htarget (hvalid.lines name lines rfl)
    rw [← bounds_removed htarget hsound.folded, removed]
    simp only [lines_of_append, bounds_append, hnew, List.append_nil]

theorem Steps.bounds_eq {edits : List Edit} {ys : List Seen} (hvalid : ∀ edit ∈ edits, edit.Valid r)
    (h : Steps r edits xs ys) : bounds r (lines_of ys) = bounds r (lines_of xs) := by
  induction h with
  | nil => rfl
  | cons sound step rest ih =>
    rw [List.forall_mem_cons] at hvalid
    rw [ih hvalid.2, step.bounds_eq hvalid.1 sound]

theorem component_line_nesting {line : Text} (h : nesting line = .plain) :
    component_line "begin:".toList line = none ∧ component_line "end:".toList line = none := by
  rw [nesting] at h
  split at h
  · cases h
  next hbegin =>
    split at h
    · cases h
    next hend =>
      rw [Option.not_isSome_iff_eq_none] at hbegin hend
      exact ⟨hbegin, hend⟩

theorem validate_bounds (stack : List Text) (lines : List Text) :
    validate_nesting_from r stack (bounds r lines) = validate_nesting_from r stack lines := by
  induction lines generalizing stack with
  | nil => rfl
  | cons line lines ih =>
    by_cases hplain : prefixed r line = .plain
    · obtain ⟨hbegin, hend⟩ := component_line_nesting (nesting_plain hplain)
      have hskip : bounds r (line :: lines) = bounds r lines := by
        rw [bounds, List.filter_cons_of_neg (by rw [hplain]; decide)]
        rfl
      rw [hskip, ih, validate_nesting_from, hbegin, hend]
    · have hkeep : bounds r (line :: lines) = line :: bounds r lines := by
        rw [bounds, List.filter_cons_of_pos (by rw [decide_eq_true_eq]; exact hplain)]
        rfl
      rw [hkeep, validate_nesting_from.eq_def, validate_nesting_from.eq_def r stack (line :: lines)]
      simp only [ih]

end Bounds

/-! ## Ranges of events -/

section Ranges

variable {r : Runtime}

/-- A line that neither begins nor ends an event. -/
def Within (r : Runtime) (line : Text) : Prop :=
  upper_case r line ≠ "BEGIN:VEVENT".toList ∧ upper_case r line ≠ "END:VEVENT".toList

variable (index : ℕ) (start : Option ℕ) {ranges : List (ℕ × ℕ)}

theorem find_ranges_cons (line : Text) (lines : List Text) :
    find_ranges_from r index start (line :: lines)
      = if upper_case r line = "BEGIN:VEVENT".toList then
          if start.isSome then .error (unsafe_update "nested VEVENT.")
          else find_ranges_from r (index + 1) (some index) lines
        else if upper_case r line = "END:VEVENT".toList then
          match start with
          | none => .error (unsafe_update "unmatched END:VEVENT.")
          | some open_ => do
            let ranges ← find_ranges_from r (index + 1) none lines
            return (open_, index) :: ranges
        else find_ranges_from r (index + 1) start lines := by
  cases start <;> rfl

theorem find_ranges_nil : find_ranges_from r index start []
      = if start.isSome then .error (unsafe_update "VEVENT is missing or incomplete.")
        else .ok [] := by
  cases start <;> rfl

theorem ranges_within {block : List Text} (h : ∀ line ∈ block, Within r line) (index : ℕ)
    (start : Option ℕ) (rest : List Text) :
    find_ranges_from r index start (block ++ rest)
      = find_ranges_from r (index + block.length) start rest := by
  induction block generalizing index with
  | nil => rfl
  | cons line block ih =>
    rw [List.forall_mem_cons] at h
    rw [List.cons_append, find_ranges_cons, if_neg h.1.1, if_neg h.1.2, ih h.2, List.length_cons]
    congr 1
    omega

/-- An event that is found behind other ones: its lines, and what the search does in front of it
and behind it. -/
structure Located (r : Runtime) (index : ℕ) (start : Option ℕ) (lines : List Text)
    (ranges : List (ℕ × ℕ)) (event : ℕ × ℕ) (later : List (ℕ × ℕ))
    (before block behind : List Text) : Prop where
  lines : ∃ first last, lines = before ++ first :: (block ++ last :: behind)
    ∧ upper_case r first = "BEGIN:VEVENT".toList ∧ upper_case r last = "END:VEVENT".toList
  inside : ∀ line ∈ block, Within r line
  first : event.1 = index + before.length
  last : event.2 = event.1 + 1 + block.length
  earlier : ∀ rest, find_ranges_from r index start (before ++ rest)
    = (find_ranges_from r (index + before.length) none rest).map (ranges ++ ·)
  later : find_ranges_from r (event.2 + 1) none behind = .ok later

/-- The event that is open already ends here. -/
structure Ended (r : Runtime) (index open_ : ℕ) (lines : List Text) (event : ℕ × ℕ)
    (later : List (ℕ × ℕ)) (block behind : List Text) : Prop where
  lines : ∃ last, lines = block ++ last :: behind ∧ upper_case r last = "END:VEVENT".toList
  inside : ∀ line ∈ block, Within r line
  first : event.1 = open_
  last : event.2 = index + block.length
  later : find_ranges_from r (event.2 + 1) none behind = .ok later

/-- An event that is found has begun before these lines, or is located in them. -/
theorem locate {lines : List Text} {index : ℕ} {start : Option ℕ} {later : List (ℕ × ℕ)}
    {event : ℕ × ℕ} (h : find_ranges_from r index start lines = .ok (ranges ++ event :: later)) :
    (∃ open_ block behind, start = some open_ ∧ ranges = []
        ∧ Ended r index open_ lines event later block behind)
      ∨ ∃ before block behind,
        Located r index start lines ranges event later before block behind := by
  induction lines generalizing index start ranges with
  | nil =>
    rw [find_ranges_nil] at h
    split at h
    · cases h
    · cases ranges <;> cases h
  | cons line lines ih =>
    rw [find_ranges_cons] at h
    split at h
    next hbegin =>
      cases start with
      | some open_ => cases h
      | none =>
        rcases ih h with ⟨open_, block, behind, hopen, rfl, hended⟩ | ⟨before, block, behind, hloc⟩
        · -- the event that begins here is the one that is found
          cases hopen
          obtain ⟨last, hlines, hlast⟩ := hended.lines
          refine .inr ⟨[], block, behind, ⟨line, last, ?_, hbegin, hlast⟩, hended.inside,
            hended.first, ?_, fun rest => ?_, hended.later⟩
          · rw [hlines]
            rfl
          · rw [hended.last, hended.first]
          · rw [List.nil_append]
            cases find_ranges_from r index none rest <;> rfl
        · obtain ⟨first, last, hlines, hfirst, hlast⟩ := hloc.lines
          refine .inr ⟨line :: before, block, behind, ⟨first, last, ?_, hfirst, hlast⟩, hloc.inside,
            ?_, hloc.last, fun rest => ?_, hloc.later⟩
          · rw [hlines]
            rfl
          · rw [hloc.first, List.length_cons]
            omega
          · rw [List.cons_append, find_ranges_cons, if_pos hbegin]
            change find_ranges_from r (index + 1) (some index) (before ++ rest) = _
            rw [hloc.earlier, List.length_cons, Nat.add_right_comm, Nat.add_assoc]
    next hbegin =>
      split at h
      next hend =>
        cases start with
        | none => cases h
        | some open_ =>
          obtain ⟨found, hfound, h⟩ := bind_eq_ok h
          cases ranges with
          | nil =>
            cases h
            refine .inl ⟨open_, [], lines, rfl, rfl, ⟨line, rfl, hend⟩,
              (fun l hl => nomatch hl), rfl, rfl, hfound⟩
          | cons range ranges =>
            cases h
            rcases ih hfound with ⟨_, _, _, hopen, -, -⟩ | ⟨before, block, behind, hloc⟩
            · cases hopen
            · obtain ⟨first, last, hlines, hfirst, hlast⟩ := hloc.lines
              refine .inr ⟨line :: before, block, behind, ⟨first, last, ?_, hfirst, hlast⟩,
                hloc.inside, ?_, hloc.last, fun rest => ?_, hloc.later⟩
              · rw [hlines]
                rfl
              · rw [hloc.first, List.length_cons]
                omega
              · rw [List.cons_append, find_ranges_cons, if_neg hbegin, if_pos hend]
                change (find_ranges_from r (index + 1) none (before ++ rest) >>= fun found =>
                  pure ((open_, index) :: found)) = _
                rw [hloc.earlier, List.length_cons, Nat.add_right_comm, Nat.add_assoc]
                cases find_ranges_from r (index + (before.length + 1)) none rest <;> rfl
      next hend =>
        have hwithin : Within r line := ⟨hbegin, hend⟩
        rcases ih h with ⟨open_, block, behind, rfl, rfl, hended⟩ | ⟨before, block, behind, hloc⟩
        · obtain ⟨last, hlines, hlast⟩ := hended.lines
          refine .inl ⟨open_, line :: block, behind, rfl, rfl, ⟨last, ?_, hlast⟩,
            List.forall_mem_cons.mpr ⟨hwithin, hended.inside⟩, hended.first, ?_, hended.later⟩
          · rw [hlines]
            rfl
          · rw [hended.last, List.length_cons]
            omega
        · obtain ⟨first, last, hlines, hfirst, hlast⟩ := hloc.lines
          refine .inr ⟨line :: before, block, behind, ⟨first, last, ?_, hfirst, hlast⟩, hloc.inside,
            ?_, hloc.last, fun rest => ?_, hloc.later⟩
          · rw [hlines]
            rfl
          · rw [hloc.first, List.length_cons]
            omega
          · rw [List.cons_append, find_ranges_cons, if_neg hbegin, if_neg hend, hloc.earlier,
              List.length_cons, Nat.add_right_comm, Nat.add_assoc]

theorem ranges_shift (k : ℕ) (lines : List Text) (index : ℕ) (start : Option ℕ) :
    find_ranges_from r (index + k) (start.map (· + k)) lines
      = (find_ranges_from r index start lines).map
        (List.map fun range => (range.1 + k, range.2 + k)) := by
  induction lines generalizing index start with
  | nil =>
    cases start <;> rfl
  | cons line lines ih =>
    rw [find_ranges_cons, find_ranges_cons]
    split
    · cases start with
      | some open_ => rfl
      | none =>
        have hnext := ih (index + 1) (some index)
        rw [Nat.add_right_comm] at hnext
        exact hnext
    · split
      · cases start with
        | none => rfl
        | some open_ =>
          have hnext := ih (index + 1) none
          rw [Nat.add_right_comm] at hnext
          change (find_ranges_from r (index + k + 1) none lines >>= fun found =>
            pure ((open_ + k, index + k) :: found)) = _
          rw [Option.map_none] at hnext
          rw [hnext]
          change _ = Except.map _ (find_ranges_from r (index + 1) none lines >>= fun found =>
            pure ((open_, index) :: found))
          cases find_ranges_from r (index + 1) none lines <;> rfl
      · have hnext := ih (index + 1) start
        rw [Nat.add_right_comm] at hnext
        exact hnext

theorem ranges_within_lines {lines : List Text} {index : ℕ} {start : Option ℕ}
    (h : find_ranges_from r index start lines = .ok ranges) :
    ∀ range ∈ ranges, range.2 < index + lines.length := by
  induction lines generalizing index start ranges with
  | nil =>
    rw [find_ranges_nil] at h
    split at h <;> cases h
    exact fun range hrange => nomatch hrange
  | cons line lines ih =>
    have hgo : ∀ {start : Option ℕ} {found : List (ℕ × ℕ)},
        find_ranges_from r (index + 1) start lines = .ok found →
        ∀ range ∈ found, range.2 < index + (line :: lines).length := by
      intro start found hfound range hrange
      have hless := ih hfound range hrange
      rw [List.length_cons]
      omega
    rw [find_ranges_cons] at h
    split at h
    · split at h
      · cases h
      · exact hgo h
    · split at h
      · cases start with
        | none => cases h
        | some open_ =>
          obtain ⟨found, hfound, h⟩ := bind_eq_ok h
          cases h
          refine List.forall_mem_cons.mpr ⟨?_, hgo hfound⟩
          rw [List.length_cons]
          change index < _
          omega
      · exact hgo h

end Ranges

/-! ## The master event -/

section Master

variable {r : Runtime}

def accepted (verdict : Except String Bool) : Bool :=
  match verdict with
  | .ok b => b
  | .error _ => false

theorem filterM_ok_iff {α : Type} {p : α → Except String Bool} {l l' : List α} :
    l.filterM p = .ok l'
      ↔ (∀ x ∈ l, ∃ b, p x = .ok b) ∧ l' = l.filter fun x => accepted (p x) := by
  have haux : ∀ (l acc : List α) {found : List α}, l.filterAuxM p acc = .ok found
      ↔ (∀ x ∈ l, ∃ b, p x = .ok b)
        ∧ found = (l.filter fun x => accepted (p x)).reverse ++ acc := by
    intro l
    induction l with
    | nil =>
      intro acc found
      constructor
      · intro h
        cases h
        exact ⟨(fun x hx => nomatch hx), rfl⟩
      · rintro ⟨-, rfl⟩
        rfl
    | cons x l ih =>
      intro acc found
      rw [List.filterAuxM, List.forall_mem_cons]
      cases hx : p x with
      | error reason =>
        refine iff_of_false (fun h => nomatch h) ?_
        rintro ⟨⟨⟨b, hb⟩, -⟩, -⟩
        cases hb
      | ok b =>
        change l.filterAuxM p (bif b then x :: acc else acc) = .ok found ↔ _
        rw [ih]
        refine and_congr ⟨fun h => ⟨⟨b, rfl⟩, h⟩, fun h => h.2⟩ ?_
        cases b with
        | true =>
          rw [List.filter_cons_of_pos (by rw [hx]; rfl), List.reverse_cons, List.append_assoc]
          rfl
        | false =>
          rw [List.filter_cons_of_neg (by rw [hx]; decide)]
          rfl
  rw [List.filterM]
  constructor
  · intro h
    obtain ⟨found, hfound, h⟩ := bind_eq_ok h
    cases h
    obtain ⟨hall, rfl⟩ := (haux l []).mp hfound
    rw [List.append_nil, List.reverse_reverse]
    exact ⟨hall, rfl⟩
  · rintro ⟨hall, rfl⟩
    rw [(haux l []).mpr ⟨hall, rfl⟩, List.append_nil]
    exact congrArg Except.ok (List.reverse_reverse _)

theorem forM_of_ok {α : Type} {f : α → Except String Unit} {l : List α}
    (h : ∀ a ∈ l, f a = .ok ()) : l.forM f = .ok () := by
  induction l with
  | nil => rfl
  | cons a l ih =>
    rw [List.forall_mem_cons] at h
    change (f a >>= fun _ => l.forM f) = _
    rw [h.1]
    exact ih h.2

/-- The tests that an event passes, and whether it is taken for the master. -/
structure Passes (r : Runtime) (uid : Text) (block : List Text) (chosen : Bool) : Prop where
  checked : check_uid r block = .ok ()
  matching : ∃ b, matches_uid r uid block = .ok b
  recurring : accepted (matches_uid r uid block) = true → ∃ b, not_recurring r block = .ok b
  chosen : chosen = (accepted (matches_uid r uid block) && accepted (not_recurring r block))

theorem filter_pair {α : Type} {p q : α → Bool} {l : List α} {x : α} :
    (l.filter p).filter q = [x] ↔ l.filter (fun y => p y && q y) = [x] := by
  rw [List.filter_filter]
  have hcomm : (fun y => q y && p y) = fun y => p y && q y := funext fun y => Bool.and_comm _ _
  rw [hcomm]

variable {uid : Text}

/-- **How the master is found**: every event passes the tests, and one is chosen. -/
theorem find_master_iff {lines : List Text} {event : ℕ × ℕ} : find_master r lines uid = .ok event
      ↔ validate_component_nesting r lines = .ok () ∧ ∃ events,
        find_vevent_ranges r lines = .ok events
          ∧ ∃ chosen : ℕ × ℕ → Bool,
            (∀ e ∈ events, Passes r uid (block_of lines e) (chosen e))
            ∧ events.filter chosen = [event] := by
  constructor
  · intro h
    rw [find_master] at h
    obtain ⟨⟨⟩, hnesting, h⟩ := bind_eq_ok h
    obtain ⟨events, hevents, h⟩ := bind_eq_ok h
    obtain ⟨⟨⟩, huids, h⟩ := bind_eq_ok h
    obtain ⟨matching, hmatching, h⟩ := bind_eq_ok h
    obtain ⟨masters, hmasters, h⟩ := bind_eq_ok h
    obtain ⟨hmatch, rfl⟩ := filterM_ok_iff.mp hmatching
    obtain ⟨hmaster, rfl⟩ := filterM_ok_iff.mp hmasters
    refine ⟨hnesting, events, hevents, fun e => accepted (matches_uid r uid (block_of lines e))
      && accepted (not_recurring r (block_of lines e)), fun e he => ?_, ?_⟩
    · exact ⟨forM_ok huids e he, hmatch e he,
        fun haccepted => hmaster e (List.mem_filter.mpr ⟨he, haccepted⟩), rfl⟩
    · split at h
      next found hone =>
        cases h
        exact filter_pair.mp hone
      next => cases h
  · rintro ⟨hnesting, events, hevents, chosen, hpasses, hone⟩
    have hchosen : events.filter chosen
        = events.filter fun e => accepted (matches_uid r uid (block_of lines e))
          && accepted (not_recurring r (block_of lines e)) :=
      List.filter_congr fun e he => (hpasses e he).chosen
    rw [hchosen] at hone
    rw [find_master]
    refine (ok_bind hnesting _).trans ?_
    refine (ok_bind hevents _).trans ?_
    refine (ok_bind (forM_of_ok fun e he => (hpasses e he).checked) _).trans ?_
    refine (ok_bind (filterM_ok_iff.mpr ⟨fun e he => (hpasses e he).matching, rfl⟩) _).trans ?_
    refine (ok_bind (filterM_ok_iff.mpr ⟨fun e he => ?_, rfl⟩) _).trans ?_
    · obtain ⟨hmem, haccepted⟩ := List.mem_filter.mp he
      exact (hpasses e hmem).recurring haccepted
    · rw [filter_pair.mpr hone]
      rfl

theorem places_length (name : Text) (index : ℕ) (xs : List Seen) :
    (places r name index xs).length = (xs.filter (hit r name)).length := by
  induction xs generalizing index with
  | nil => rfl
  | cons x xs ih =>
    rw [places, List.filter_cons]
    split
    · rw [List.length_cons, List.length_cons, ih]
    · exact ih _

theorem filter_hit (name : String) (xs : List Seen) :
    xs.filter (hit r name.toList) = (of_name r name xs).filter (·.found) := by
  rw [of_name, List.filter_filter]
  rfl

theorem Sound.property {xs : List Seen} (h : Sound r xs) (name : Text) :
    direct_property r name 0 0 (lines_of xs)
      = .ok ((xs.filter (hit r name)).map (·.entry.lines)) := by
  have hread := h.readable
  rw [← h.marked] at hread
  have hspec : direct_property r name 0 0 _ = _ := property_spec h.grouped 0 0 hread
  rw [h.marked, ← lines_of_eq] at hspec
  exact hspec

theorem Passes.of_same {xs ys : List Seen} {chosen : Bool} (hx : Sound r xs) (hy : Sound r ys)
    (huid : of_name r "UID" ys = of_name r "UID" xs)
    (hrecurrence : of_name r "RECURRENCE-ID" ys = of_name r "RECURRENCE-ID" xs)
    (h : Passes r uid (lines_of xs) chosen) : Passes r uid (lines_of ys) chosen := by
  have hcheck : check_uid r (lines_of ys) = check_uid r (lines_of xs) := by
    rw [check_uid, check_uid, hy.search, hx.search]
    change (if (places r "UID".toList 0 ys).length ≠ 1 then _ else _)
      = if (places r "UID".toList 0 xs).length ≠ 1 then _ else _
    rw [places_length, places_length, filter_hit, filter_hit, huid]
  have hmatches : matches_uid r uid (lines_of ys) = matches_uid r uid (lines_of xs) := by
    rw [matches_uid, matches_uid, direct_property_value, direct_property_value, hy.property,
      hx.property, filter_hit, filter_hit, huid]
  have hrecurring : not_recurring r (lines_of ys) = not_recurring r (lines_of xs) := by
    rw [not_recurring, not_recurring, direct_property_in_block, direct_property_in_block,
      hy.search, hx.search]
    change Except.ok (places r "RECURRENCE-ID".toList 0 ys).head?.isNone
      = .ok (places r "RECURRENCE-ID".toList 0 xs).head?.isNone
    have hnone : ∀ zs : List ICalProperty, zs.head?.isNone = decide (zs.length = 0) := by
      intro zs
      cases zs <;> rfl
    rw [hnone, hnone, places_length, places_length, filter_hit, filter_hit, hrecurrence]
  refine ⟨hcheck.trans h.checked, ?_, ?_, ?_⟩
  · rw [hmatches]
    exact h.matching
  · rw [hmatches, hrecurring]
    exact h.recurring
  · rw [hmatches, hrecurring]
    exact h.chosen

theorem Passes.sound {block : List Text} {chosen : Bool} (h : Passes r uid block chosen)
    (hone : ∀ line ∈ block, OneLine line) : Sound r (seen r block) := by
  obtain ⟨uids, huids, -⟩ := bind_eq_ok h.checked
  refine sound_seen ?_ hone
  rw [direct_properties_in_block, ← entries_lines block] at huids
  exact ((search_spec (entries_grouped block) 0 0 0).mp huids).1

end Master

/-! ## Lines of a calendar -/

section Calendar

variable {r : Runtime}

theorem mem_splitOn {text piece : Text} {c : Char} (hpiece : piece ∈ text.splitOn '\n')
    (hc : c ∈ piece) : c ∈ text ∧ c ≠ '\n' := by
  induction text generalizing piece with
  | nil =>
    rw [List.splitOn_nil, List.mem_singleton] at hpiece
    subst hpiece
    cases hc
  | cons d text ih =>
    rw [List.splitOn, List.splitOnP_cons_eq_if_modifyHead] at hpiece
    split at hpiece
    next hbreak =>
      rcases List.mem_cons.mp hpiece with rfl | hpiece
      · cases hc
      · exact ⟨List.mem_cons_of_mem _ (ih hpiece hc).1, (ih hpiece hc).2⟩
    next hbreak =>
      have hd : d ≠ '\n' := by simpa using hbreak
      obtain ⟨first, rest, hsplit⟩ := List.exists_cons_of_ne_nil
        (List.splitOnP_ne_nil (· == '\n') text)
      rw [hsplit, List.modifyHead_cons] at hpiece
      have hmem : ∀ other ∈ first :: rest, other ∈ text.splitOn '\n' := by
        intro other hother
        rw [List.splitOn, hsplit]
        exact hother
      rcases List.mem_cons.mp hpiece with rfl | hpiece
      · rcases List.mem_cons.mp hc with rfl | hc
        · exact ⟨List.mem_cons_self, hd⟩
        · obtain ⟨htext, hne⟩ := ih (hmem _ List.mem_cons_self) hc
          exact ⟨List.mem_cons_of_mem _ htext, hne⟩
      · obtain ⟨htext, hne⟩ := ih (hmem _ (List.mem_cons_of_mem _ hpiece)) hc
        exact ⟨List.mem_cons_of_mem _ htext, hne⟩

theorem split_lines_one_line {data line : Text} (h : line ∈ split_lines data) : OneLine line := by
  refine ⟨fun hc => ?_, fun hc => ?_⟩
  · have hmem := (mem_splitOn h hc).1
    rw [Replace.replace_singleton, List.mem_flatMap] at hmem
    obtain ⟨d, -, hd⟩ := hmem
    split at hd
    · exact absurd hd (by decide)
    next hne => exact hne (List.mem_singleton.mp hd).symm
  · exact (mem_splitOn h hc).2 rfl

structure Calendar (r : Runtime) (lines : List Text) : Prop where
  enough : 4 ≤ lines.length
  first : lines.head?.map (upper_case r) = some "BEGIN:VCALENDAR".toList
  last : lines.getLast?.map (upper_case r) = some "END:VCALENDAR".toList
  one_line : ∀ line ∈ lines, OneLine line

theorem split_calendar_ok {data : Text} {lines : List Text}
    (h : split_calendar_lines r data = .ok lines) : Calendar r lines := by
  rw [split_calendar_lines] at h
  split at h
  · cases h
  dsimp only at h
  have hone : ∀ line ∈ (if (split_lines data).getLast? = some [] then (split_lines data).dropLast
      else split_lines data), OneLine line := by
    intro line hline
    suffices hmem : line ∈ split_lines data from split_lines_one_line hmem
    split at hline
    · exact List.mem_of_mem_dropLast hline
    · exact hline
  generalize (if (split_lines data).getLast? = some [] then (split_lines data).dropLast
    else split_lines data) = split at h hone
  split at h
  · cases h
  next hshape =>
    cases h
    rw [not_or, not_or, not_not, not_not] at hshape
    exact ⟨Nat.le_of_not_lt hshape.1, hshape.2.1, hshape.2.2, hone⟩

theorem Calendar.split {lines : List Text} (h : Calendar r lines) :
    split_calendar_lines r (List.intercalate ['\r', '\n'] lines ++ ['\r', '\n'])
      = .ok lines := by
  have hne : lines ≠ [] := List.ne_nil_of_length_pos (Nat.lt_of_lt_of_le (by decide) h.enough)
  have hsplit : split_lines (List.intercalate ['\r', '\n'] lines ++ ['\r', '\n'])
      = lines ++ [[]] := by
    rw [intercalate_terminated _ hne]
    exact split_lines_join (fun line hline => (h.one_line line hline).1)
      fun line hline => (h.one_line line hline).2
  rw [split_calendar_lines, if_neg, hsplit]
  · dsimp only
    rw [List.getLast?_concat, if_pos rfl, List.dropLast_concat, if_neg]
    rw [not_or, not_or, not_not, not_not]
    exact ⟨Nat.not_lt.mpr h.enough, h.first, h.last⟩
  · exact List.append_ne_nil_of_right_ne_nil _ (by decide)

/-- The lines of a calendar around one of its events. -/
def around (before : List Text) (first : Text) (block : List Text) (last : Text)
    (behind : List Text) : List Text := before ++ first :: (block ++ last :: behind)

variable (before : List Text)

theorem block_of_around (first : Text) (block : List Text) (last : Text) (behind : List Text) :
    block_of (around before first block last behind)
      (before.length, before.length + 1 + block.length) = block := by
  have hlines : around before first block last behind
      = before ++ [first] ++ (block ++ last :: behind) := by
    rw [around, List.append_assoc, List.singleton_append]
  have hlength : (before ++ [first]).length = before.length + 1 := List.length_append
  rw [block_of, hlines, ← hlength, List.take_length_add_append, List.drop_left, List.take_left]

theorem splice_around (first : Text) (block : List Text) (last : Text)
    (behind inserted : List Text) :
    splice (around before first block last behind) (before.length + 1)
        (before.length + 1 + block.length) inserted
      = around before first inserted last behind := by
  have hlines : around before first block last behind
      = before ++ [first] ++ block ++ last :: behind := by
    rw [around]
    simp only [List.append_assoc, List.cons_append, List.nil_append]
  have hlength : (before ++ [first]).length = before.length + 1 := List.length_append
  rw [hlines, ← hlength, splice_between, around]
  simp only [List.append_assoc, List.cons_append, List.nil_append]

theorem block_of_front {front : List Text} {range : ℕ × ℕ} (h : range.2 ≤ front.length)
    (rest : List Text) : block_of (front ++ rest) range = block_of front range := by
  rw [block_of, block_of, List.take_append_of_le_length h]

theorem block_of_behind (front rest : List Text) (range : ℕ × ℕ) :
    block_of (front ++ rest) (range.1 + front.length, range.2 + front.length)
      = block_of rest range := by
  rw [block_of, block_of, Nat.add_comm range.2, List.take_length_add_append, Nat.add_comm range.1,
    Nat.add_assoc, List.drop_length_add_append]

end Calendar

/-! ## An edited event -/

section Edited

variable {r : Runtime}

theorem upper_of_bounds {line : Text} (h : ¬Within r line) : prefixed r line ≠ .plain := by
  rw [Within, not_and_or, not_not, not_not] at h
  intro hplain
  have hword : "BEGIN:".toList <+: upper_case r line ∨ "END:".toList <+: upper_case r line := by
    rcases h with h | h
    · exact .inl (by rw [h]; decide)
    · exact .inr (by rw [h]; decide)
  rw [prefixed] at hplain
  split at hplain
  · cases hplain
  next hbegin =>
    split at hplain
    · cases hplain
    next hend => exact hword.elim hbegin hend

variable {block block' before behind : List Text} {first last : Text} {ranges : List (ℕ × ℕ)}

theorem within_of_bounds (h : bounds r block' = bounds r block)
    (hblock : ∀ line ∈ block, Within r line) : ∀ line ∈ block', Within r line := by
  intro line hline
  by_contra hout
  have hmem : line ∈ bounds r block' :=
    List.mem_filter.mpr ⟨hline, decide_eq_true (upper_of_bounds hout)⟩
  rw [h] at hmem
  exact hout (hblock line (List.mem_filter.mp hmem).1)

theorem Calendar.around (h : Calendar r (around before first block last behind))
    (hfirst : upper_case r first = "BEGIN:VEVENT".toList)
    (hlast : upper_case r last = "END:VEVENT".toList) (hone : ∀ line ∈ block', OneLine line) :
    Calendar r (Caldav.around before first block' last behind) := by
  obtain ⟨-, hhead, hend, hall⟩ := h
  -- the bounds of the calendar are outside the event
  have hbefore : before ≠ [] := by
    rintro rfl
    rw [Caldav.around, List.nil_append, List.head?_cons, Option.map_some, hfirst] at hhead
    exact absurd (Option.some.inj hhead) (by decide)
  have hbehind : behind ≠ [] := by
    rintro rfl
    have hshape : Caldav.around before first block last []
        = before ++ first :: block ++ [last] := by
      simp only [Caldav.around, List.append_assoc, List.cons_append]
    rw [hshape, List.getLast?_concat, Option.map_some, hlast] at hend
    exact absurd (Option.some.inj hend) (by decide)
  have hlasts : ∀ block : List Text, (Caldav.around before first block last behind).getLast?
      = behind.getLast? := by
    intro block
    have hshape : Caldav.around before first block last behind
        = (before ++ first :: block ++ [last]) ++ behind := by
      simp only [Caldav.around, List.append_assoc, List.cons_append, List.nil_append]
    rw [hshape, List.getLast?_append_of_ne_nil _ hbehind]
  have hheads : ∀ block : List Text, (Caldav.around before first block last behind).head?
      = before.head? := by
    intro block
    rw [Caldav.around, List.head?_append_of_ne_nil _ hbefore]
  refine ⟨?_, ?_, ?_, ?_⟩
  · have h1 := List.length_pos_of_ne_nil hbefore
    have h2 := List.length_pos_of_ne_nil hbehind
    simp only [Caldav.around, List.length_append, List.length_cons]
    omega
  · rw [hheads] at hhead ⊢
    exact hhead
  · rw [hlasts] at hend ⊢
    exact hend
  · intro line hline
    have hmem : ∀ {block : List Text}, line ∈ Caldav.around before first block last behind
        ↔ line ∈ before ∨ line = first ∨ line ∈ block ∨ line = last ∨ line ∈ behind := by
      intro block
      simp only [Caldav.around, List.mem_append, List.mem_cons]
    rcases hmem.mp hline with h | h | h | h | h
    · exact hall line (hmem.mpr (.inl h))
    · exact hall line (hmem.mpr (.inr (.inl h)))
    · exact hone line h
    · exact hall line (hmem.mpr (.inr (.inr (.inr (.inl h)))))
    · exact hall line (hmem.mpr (.inr (.inr (.inr (.inr h)))))

theorem bounds_around (h : bounds r block' = bounds r block) :
    bounds r (around before first block' last behind)
      = bounds r (around before first block last behind) := by
  have hshape : ∀ block : List Text, around before first block last behind
      = before ++ [first] ++ block ++ (last :: behind) := by
    intro block
    simp only [around, List.append_assoc, List.cons_append, List.nil_append]
  rw [hshape, hshape]
  simp only [bounds_append, h]

theorem eq_nil_of_middle {α : Type} {a b : List α} {x : α} (h : a ++ x :: b = [x]) :
    a = [] ∧ b = [] := by
  cases a with
  | nil => exact ⟨rfl, (List.cons.inj h).2⟩
  | cons y a =>
    have hlength := congrArg List.length h
    simp only [List.cons_append, List.length_cons, List.length_append, List.length_nil] at hlength
    omega

theorem ranges_around (hfirst : upper_case r first = "BEGIN:VEVENT".toList)
    (hlast : upper_case r last = "END:VEVENT".toList) (hblock : ∀ line ∈ block, Within r line)
    {inner : List (ℕ × ℕ)} (hbefore : ∀ rest, find_ranges_from r 0 none (before ++ rest)
      = (find_ranges_from r before.length none rest).map (ranges ++ ·))
    (hbehind : find_ranges_from r 0 none behind = .ok inner) :
    find_vevent_ranges r (around before first block last behind)
      = .ok (ranges ++ (before.length, before.length + 1 + block.length)
        :: inner.map fun range => (range.1 + (before.length + 1 + block.length + 1),
          range.2 + (before.length + 1 + block.length + 1))) := by
  have hshift := ranges_shift (r := r) (before.length + 1 + block.length + 1) behind 0 none
  rw [Nat.zero_add, Option.map_none, hbehind] at hshift
  have hinner : find_ranges_from r before.length none (first :: (block ++ last :: behind))
      = .ok ((before.length, before.length + 1 + block.length)
        :: inner.map fun range => (range.1 + (before.length + 1 + block.length + 1),
          range.2 + (before.length + 1 + block.length + 1))) := by
    rw [find_ranges_cons, if_pos hfirst]
    change find_ranges_from r (before.length + 1) (some before.length) _ = _
    rw [ranges_within hblock, find_ranges_cons, if_neg (by rw [hlast]; decide), if_pos hlast]
    exact ok_bind hshift _
  have hall := hbefore (first :: (block ++ last :: behind))
  rw [hinner] at hall
  rw [find_vevent_ranges]
  refine (ok_bind hall _).trans (if_neg ?_)
  exact List.append_ne_nil_of_right_ne_nil _ (List.cons_ne_nil _ _)

/-- **The edited event is found where the event was found.** -/
theorem find_master_again {uid : Text} {later : List (ℕ × ℕ)}
    (hloc : Located r 0 none (around before first block last behind) ranges
      (before.length, before.length + 1 + block.length) later before block behind)
    (hfirst : upper_case r first = "BEGIN:VEVENT".toList)
    (hlast : upper_case r last = "END:VEVENT".toList)
    (hmaster : find_master r (around before first block last behind) uid
      = .ok (before.length, before.length + 1 + block.length))
    (hbounds : bounds r block' = bounds r block)
    (hpasses : ∀ chosen, Passes r uid block chosen → Passes r uid block' chosen) :
    find_master r (around before first block' last behind) uid
      = .ok (before.length, before.length + 1 + block'.length) := by
  obtain ⟨hnesting, events, hevents, chosen, hall, hone⟩ := find_master_iff.mp hmaster
  have hearlier : ∀ rest, find_ranges_from r 0 none (before ++ rest)
      = (find_ranges_from r before.length none rest).map (ranges ++ ·) := by
    intro rest
    rw [hloc.earlier, Nat.zero_add]
  -- what is found behind the event, counted from there
  obtain ⟨inner, hinner⟩ : ∃ inner, find_ranges_from r 0 none behind = .ok inner := by
    have hlater := hloc.later
    have hshift := ranges_shift (r := r) (before.length + 1 + block.length + 1) behind 0 none
    rw [Nat.zero_add, Option.map_none, hlater] at hshift
    cases hinner : find_ranges_from r 0 none behind with
    | error reason =>
      rw [hinner] at hshift
      cases hshift
    | ok inner => exact ⟨inner, rfl⟩
  have hranges := ranges_around hfirst hlast hloc.inside hearlier hinner
  have hranges' := ranges_around hfirst hlast (within_of_bounds hbounds hloc.inside) hearlier hinner
  cases hevents.symm.trans hranges
  have hfront : ∀ range ∈ ranges, range.2 ≤ before.length := by
    have hnone := hearlier []
    rw [find_ranges_nil] at hnone
    intro range hrange
    have hless := ranges_within_lines hnone range (List.mem_append_left _ hrange)
    rw [List.append_nil, Nat.zero_add] at hless
    exact Nat.le_of_lt hless
  have hblocks : ∀ (block : List Text) (range : ℕ × ℕ), range ∈ ranges →
      block_of (around before first block last behind) range = block_of before range :=
    fun block range hrange => block_of_front (hfront range hrange) _
  have hbehind : ∀ (block : List Text) (range : ℕ × ℕ),
      block_of (around before first block last behind)
        (range.1 + (before.length + 1 + block.length + 1),
          range.2 + (before.length + 1 + block.length + 1)) = block_of behind range := by
    intro block range
    have hshape : around before first block last behind
        = (before ++ first :: block ++ [last]) ++ behind := by
      simp only [around, List.append_assoc, List.cons_append, List.nil_append]
    have hlength : (before ++ first :: block ++ [last]).length
        = before.length + 1 + block.length + 1 := by
      simp only [List.length_append, List.length_cons, List.length_nil]
      omega
    rw [hshape, ← hlength, block_of_behind]
  rw [List.forall_mem_append, List.forall_mem_cons] at hall
  obtain ⟨hall_front, hall_event, hall_behind⟩ := hall
  rw [block_of_around] at hall_event
  have hchosen : chosen (before.length, before.length + 1 + block.length) = true := by
    have hmem : (before.length, before.length + 1 + block.length) ∈ List.filter chosen _ :=
      hone ▸ List.mem_singleton_self _
    exact (List.mem_filter.mp hmem).2
  rw [List.filter_append, List.filter_cons_of_pos hchosen] at hone
  obtain ⟨hnone_front, hnone_behind⟩ := eq_nil_of_middle hone
  rw [List.filter_eq_nil_iff] at hnone_front hnone_behind
  -- the same verdicts on the edited calendar
  let verdict (event : ℕ × ℕ) : Bool :=
    accepted (matches_uid r uid (block_of (around before first block' last behind) event))
      && accepted (not_recurring r (block_of (around before first block' last behind) event))
  have hcanon : ∀ (event : ℕ × ℕ) (b : Bool),
      Passes r uid (block_of (around before first block' last behind) event) b →
      Passes r uid (block_of (around before first block' last behind) event) (verdict event)
        ∧ verdict event = b := by
    intro event b h
    have hb : verdict event = b := h.chosen.symm
    exact ⟨hb.symm ▸ h, hb⟩
  have hfront' : ∀ range ∈ ranges, Passes r uid
      (block_of (around before first block' last behind) range) (chosen range) := by
    intro range hrange
    have h := hall_front range hrange
    rw [hblocks block range hrange] at h
    rw [hblocks block' range hrange]
    exact h
  have hbehind' : ∀ range ∈ inner, Passes r uid
      (block_of (around before first block' last behind)
        (range.1 + (before.length + 1 + block'.length + 1),
          range.2 + (before.length + 1 + block'.length + 1)))
      (chosen (range.1 + (before.length + 1 + block.length + 1),
        range.2 + (before.length + 1 + block.length + 1))) := by
    intro range hrange
    have h := hall_behind _ (List.mem_map_of_mem hrange)
    rw [hbehind block range] at h
    rw [hbehind block' range]
    exact h
  have hevent' : Passes r uid (block_of (around before first block' last behind)
      (before.length, before.length + 1 + block'.length)) true := by
    rw [block_of_around, ← hchosen]
    exact hpasses _ hall_event
  refine find_master_iff.mpr ⟨?_, _, hranges', verdict, ?_, ?_⟩
  · rw [validate_component_nesting, ← validate_bounds] at hnesting ⊢
    rw [bounds_around hbounds]
    exact hnesting
  · rw [List.forall_mem_append, List.forall_mem_cons]
    refine ⟨fun range hrange => (hcanon _ _ (hfront' range hrange)).1, (hcanon _ _ hevent').1,
      fun range hrange => ?_⟩
    obtain ⟨q, hq, rfl⟩ := List.mem_map.mp hrange
    exact (hcanon _ _ (hbehind' q hq)).1
  · have hfront_nil : ranges.filter verdict = [] := by
      rw [List.filter_eq_nil_iff]
      intro range hrange
      rw [(hcanon _ _ (hfront' range hrange)).2]
      exact hnone_front range hrange
    have hbehind_nil : (inner.map fun range => (range.1 + (before.length + 1 + block'.length + 1),
        range.2 + (before.length + 1 + block'.length + 1))).filter verdict = [] := by
      rw [List.filter_eq_nil_iff]
      intro range hrange
      obtain ⟨q, hq, rfl⟩ := List.mem_map.mp hrange
      rw [(hcanon _ _ (hbehind' q hq)).2]
      exact hnone_behind _ (List.mem_map_of_mem hq)
    rw [List.filter_append, List.filter_cons_of_pos (hcanon _ _ hevent').2, hfront_nil, hbehind_nil]
    rfl

end Edited

end Appcall.Caldav
