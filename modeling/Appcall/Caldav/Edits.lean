/-
The edits of an event, followed in the entries of its lines.

An edit replaces, removes or inserts an entry that is no bound of a component. What the two
passes think of the other entries stays as it is, so that the edits can be followed name by name.

`Sound` is the invariant: the lines group into these entries, and the search sees them so. It is
shown for each kind of edit where the code makes it: a line is written over (`Carries` says what
is read of it then), entries are removed, or lines are put in at the `Front`, in front of the
first nested component. The last section follows the two functions that the source edits with.
-/
import Appcall.Caldav.Entries

set_option autoImplicit false

namespace Appcall.Caldav

/-! ## Marked entries -/

def lines_of (xs : List Seen) : List Text := xs.flatMap (·.entry.lines)

/-- Entries as they are seen in lines that the search can read. -/
structure Sound (r : Runtime) (xs : List Seen) : Prop where
  grouped : Grouped (xs.map (·.entry))
  marked : see r 0 0 (xs.map (·.entry)) = xs
  readable : Readable xs
  one_line : ∀ x ∈ xs, ∀ line ∈ x.entry.lines, OneLine line

/-- A line that can be written into an event. -/
structure Line (r : Runtime) (line : Text) : Prop where
  plain : prefixed r line = .plain
  unfolded : is_folded line = false
  readable : ∃ f, (⟨line, []⟩ : Entry).delimited = .ok f
  one_line : OneLine line

def depth_behind (mark : Text → Mark) (depth : ℕ) (es : List Entry) : ℕ :=
  es.foldl (fun depth e => (mark e.head).inside depth) depth

section Marked

variable {r : Runtime}

theorem see_length (depth depth' : ℕ) (es : List Entry) :
    (see r depth depth' es).length = es.length := by
  induction es generalizing depth depth' with
  | nil => rfl
  | cons e es ih => rw [see, List.length_cons, List.length_cons, ih]

theorem see_append (depth depth' : ℕ) (es es' : List Entry) :
    see r depth depth' (es ++ es') = see r depth depth' es
      ++ see r (depth_behind nesting depth es) (depth_behind (prefixed r) depth' es) es' := by
  induction es generalizing depth depth' with
  | nil => rfl
  | cons e es ih =>
    rw [List.cons_append, see, ih, see]
    rfl

theorem see_entries (depth depth' : ℕ) (es : List Entry) :
    (see r depth depth' es).map (·.entry) = es := by
  induction es generalizing depth depth' with
  | nil => rfl
  | cons e es ih => rw [see, List.map_cons, ih]

variable {a b xs : List Seen} {e : Entry}

theorem marked_append {depth depth' : ℕ} : see r depth depth' ((a ++ b).map (·.entry)) = a ++ b
      ↔ see r depth depth' (a.map (·.entry)) = a
        ∧ see r (depth_behind nesting depth (a.map (·.entry)))
          (depth_behind (prefixed r) depth' (a.map (·.entry))) (b.map (·.entry)) = b := by
  rw [List.map_append, see_append]
  constructor
  · intro h
    exact List.append_inj h (by rw [see_length, List.length_map])
  · rintro ⟨ha, hb⟩
    rw [ha, hb]

theorem marked_cons {depth depth' : ℕ} {x : Seen} :
    see r depth depth' ((x :: xs).map (·.entry)) = x :: xs
      ↔ (x.direct = outside (nesting x.entry.head) depth x.entry
          ∧ x.found = outside (prefixed r x.entry.head) depth' x.entry)
        ∧ see r ((nesting x.entry.head).inside depth) ((prefixed r x.entry.head).inside depth')
          (xs.map (·.entry)) = xs := by
  rw [List.map_cons, see, List.cons.injEq]
  refine and_congr_left' ⟨fun h => ?_, fun h => ?_⟩
  · exact ⟨(congrArg Seen.direct h).symm, (congrArg Seen.found h).symm⟩
  · rw [← h.1, ← h.2]

theorem outside_plain (hfolded : is_folded e.head = false) (depth : ℕ) :
    outside .plain depth e = decide (depth = 0) := by
  rw [outside, hfolded, decide_eq_true rfl, Bool.true_and, Bool.not_false, Bool.and_true]

theorem depth_front {mark : Text → Mark} {es : List Entry}
    (h : ∀ e ∈ es, mark e.head ≠ .opens) : depth_behind mark 0 es = 0 := by
  induction es with
  | nil => rfl
  | cons e es ih =>
    have hinside : (mark e.head).inside 0 = 0 := by
      cases hmark : mark e.head with
      | opens => exact absurd hmark (h e List.mem_cons_self)
      | closes => rfl
      | plain => rfl
    rw [depth_behind, List.foldl_cons, hinside]
    exact ih fun d hd => h d (List.mem_cons_of_mem _ hd)

/-! ### Lines are read as they are written -/

theorem lines_of_eq (xs : List Seen) : lines_of xs = (xs.map (·.entry)).flatMap Entry.lines := by
  rw [lines_of, List.flatMap_map]

theorem Sound.seen_lines (h : Sound r xs) : seen r (lines_of xs) = xs := by
  rw [seen, lines_of_eq, h.grouped.entries, h.marked]

theorem sound_seen {lines : List Text} (hread : Readable (seen r lines))
    (hone : ∀ line ∈ lines, OneLine line) : Sound r (seen r lines) where
  grouped := by
    rw [seen, see_entries]
    exact entries_grouped lines
  marked := by rw [seen, see_entries]
  readable := hread
  one_line x hx line hline := by
    refine hone line ?_
    rw [← entries_lines lines]
    refine List.mem_flatMap.mpr ⟨x.entry, ?_, hline⟩
    rw [← see_entries (r := r) 0 0 (entries lines)]
    exact List.mem_map_of_mem hx

theorem lines_of_seen (lines : List Text) : lines_of (seen r lines) = lines := by
  have h := entries_lines lines
  rw [← see_entries (r := r) 0 0 (entries lines), List.flatMap_map] at h
  exact h

theorem Sound.search (h : Sound r xs) (name : Text) :
    direct_properties_in_block r name (lines_of xs) = .ok (places r name 0 xs) := by
  rw [direct_properties_in_block, lines_of_eq]
  refine (search_spec h.grouped 0 0 0).mpr ?_
  rw [h.marked]
  exact ⟨h.readable, rfl⟩

theorem Sound.search_first (h : Sound r xs) (name : Text) :
    direct_property_in_block r name (lines_of xs) = .ok (places r name 0 xs).head? := by
  rw [direct_property_in_block, h.search]
  rfl

/-! ### Changes of one entry -/

theorem Grouped.set {a b : List Entry} (h : Grouped (a ++ e :: b)) {line : Text}
    (hline : is_folded line = false) : Grouped (a ++ ⟨line, []⟩ :: b) := by
  refine ⟨fun d hd => ?_, fun d hd => ?_⟩
  · rcases List.mem_append.mp hd with hd | hd
    · exact h.folded d (List.mem_append_left _ hd)
    · rcases List.mem_cons.mp hd with rfl | hd
      · exact fun _ hl => nomatch hl
      · exact h.folded d (List.mem_append_right _ (List.mem_cons_of_mem _ hd))
  · cases a with
    | nil => exact h.heads d hd
    | cons c a =>
      rcases List.mem_append.mp hd with hd | hd
      · exact h.heads d (List.mem_append_left _ hd)
      · rcases List.mem_cons.mp hd with rfl | hd
        · exact hline
        · exact h.heads d (List.mem_append_right _ (List.mem_cons_of_mem _ hd))

theorem Grouped.remove {a b : List Entry} (h : Grouped (a ++ e :: b)) : Grouped (a ++ b) := by
  refine ⟨fun d hd => h.folded d ?_, fun d hd => h.heads d ?_⟩
  · rcases List.mem_append.mp hd with hd | hd
    · exact List.mem_append_left _ hd
    · exact List.mem_append_right _ (List.mem_cons_of_mem _ hd)
  · cases a with
    | nil => exact List.mem_of_mem_tail hd
    | cons c a =>
      rcases List.mem_append.mp hd with hd | hd
      · exact List.mem_append_left _ hd
      · exact List.mem_append_right _ (List.mem_cons_of_mem _ hd)

theorem Grouped.insert {a b : List Entry} (h : Grouped (a ++ b)) {line : Text}
    (hline : is_folded line = false) (hb : ∀ e ∈ b, is_folded e.head = false) :
    Grouped (a ++ ⟨line, []⟩ :: b) := by
  refine ⟨fun d hd => ?_, fun d hd => ?_⟩
  · rcases List.mem_append.mp hd with hd | hd
    · exact h.folded d (List.mem_append_left _ hd)
    · rcases List.mem_cons.mp hd with rfl | hd
      · exact fun _ hl => nomatch hl
      · exact h.folded d (List.mem_append_right _ hd)
  · cases a with
    | nil => exact hb d hd
    | cons c a =>
      rcases List.mem_append.mp hd with hd | hd
      · exact h.heads d (List.mem_append_left _ hd)
      · rcases List.mem_cons.mp hd with rfl | hd
        · exact hline
        · exact hb d hd

def Seen.write (x : Seen) (line : Text) : Seen := { x with entry := ⟨line, []⟩ }

theorem forall_mem_append_cons {α : Type} {P : α → Prop} {a b : List α} {x : α} :
    (∀ y ∈ a ++ x :: b, P y) ↔ (∀ y ∈ a, P y) ∧ P x ∧ ∀ y ∈ b, P y := by
  rw [List.forall_mem_append, List.forall_mem_cons]

theorem Sound.set {x : Seen} (h : Sound r (a ++ x :: b)) (hx : prefixed r x.entry.head = .plain)
    (hunfolded : is_folded x.entry.head = false) {line : Text} (hline : Line r line) :
    Sound r (a ++ x.write line :: b) := by
  have hgrouped := h.grouped
  obtain ⟨ha, hmarked⟩ := marked_append.mp h.marked
  obtain ⟨⟨hdirect, hfound⟩, hb⟩ := marked_cons.mp hmarked
  obtain ⟨hread_a, -, hread_b⟩ := forall_mem_append_cons.mp h.readable
  obtain ⟨hone_a, -, hone_b⟩ := forall_mem_append_cons.mp h.one_line
  rw [nesting_plain hx, outside_plain hunfolded] at hdirect
  rw [hx, outside_plain hunfolded] at hfound
  rw [nesting_plain hx, hx] at hb
  refine ⟨?_, ?_, ?_, ?_⟩
  · rw [List.map_append, List.map_cons] at hgrouped ⊢
    exact hgrouped.set hline.unfolded
  · refine marked_append.mpr ⟨ha, marked_cons.mpr ⟨⟨?_, ?_⟩, ?_⟩⟩
    · change x.direct = outside (nesting line) _ _
      rw [nesting_plain hline.plain, outside_plain hline.unfolded]
      exact hdirect
    · change x.found = outside (prefixed r line) _ _
      rw [hline.plain, outside_plain hline.unfolded]
      exact hfound
    · change see r ((nesting line).inside _) ((prefixed r line).inside _) _ = b
      rw [nesting_plain hline.plain, hline.plain]
      exact hb
  · exact forall_mem_append_cons.mpr ⟨hread_a, fun _ => hline.readable, hread_b⟩
  · refine forall_mem_append_cons.mpr ⟨hone_a, fun l hl => ?_, hone_b⟩
    rw [List.mem_singleton.mp hl]
    exact hline.one_line

theorem Sound.remove {x : Seen} (h : Sound r (a ++ x :: b))
    (hx : prefixed r x.entry.head = .plain) :
    Sound r (a ++ b) := by
  have hgrouped := h.grouped
  obtain ⟨ha, hmarked⟩ := marked_append.mp h.marked
  obtain ⟨-, hb⟩ := marked_cons.mp hmarked
  obtain ⟨hread_a, -, hread_b⟩ := forall_mem_append_cons.mp h.readable
  obtain ⟨hone_a, -, hone_b⟩ := forall_mem_append_cons.mp h.one_line
  rw [nesting_plain hx, hx] at hb
  refine ⟨?_, marked_append.mpr ⟨ha, hb⟩, ?_, ?_⟩
  · rw [List.map_append, List.map_cons] at hgrouped
    rw [List.map_append]
    exact hgrouped.remove
  · exact List.forall_mem_append.mpr ⟨hread_a, hread_b⟩
  · exact List.forall_mem_append.mpr ⟨hone_a, hone_b⟩

/-- The place in front of the first nested component, or the end. -/
structure Front (r : Runtime) (a b : List Seen) : Prop where
  before : ∀ x ∈ a, prefixed r x.entry.head ≠ .opens
  behind : ∀ x, b.head? = some x → prefixed r x.entry.head = .opens

def fresh (line : Text) : Seen := { entry := ⟨line, []⟩, direct := true, found := true }

theorem Front.depth (h : Front r a b) : depth_behind nesting 0 (a.map (·.entry)) = 0
      ∧ depth_behind (prefixed r) 0 (a.map (·.entry)) = 0 := by
  have hbefore : ∀ e ∈ a.map (·.entry), prefixed r e.head ≠ .opens := by
    intro e he
    obtain ⟨x, hx, rfl⟩ := List.mem_map.mp he
    exact h.before x hx
  refine ⟨depth_front fun e he hopens => ?_, depth_front hbefore⟩
  refine hbefore e he ?_
  rw [prefixed_of_nesting (by rw [hopens]; decide), hopens]

theorem Sound.insert (h : Sound r (a ++ b)) (hfront : Front r a b) {line : Text}
    (hline : Line r line) : Sound r (a ++ fresh line :: b) := by
  have hgrouped := h.grouped
  obtain ⟨ha, hb⟩ := marked_append.mp h.marked
  obtain ⟨hread_a, hread_b⟩ := List.forall_mem_append.mp h.readable
  obtain ⟨hone_a, hone_b⟩ := List.forall_mem_append.mp h.one_line
  obtain ⟨hdepth, hdepth'⟩ := hfront.depth
  refine ⟨?_, ?_, ?_, ?_⟩
  · rw [List.map_append] at hgrouped
    rw [List.map_append, List.map_cons]
    refine hgrouped.insert hline.unfolded fun e he => ?_
    cases b with
    | nil => cases he
    | cons x b =>
      rcases List.mem_cons.mp he with rfl | he
      · -- what opens a component is not folded
        have hopens := hfront.behind x rfl
        by_contra hfolded
        rw [Bool.not_eq_false] at hfolded
        rw [prefixed_folded hfolded] at hopens
        cases hopens
      · refine hgrouped.heads e ?_
        cases a with
        | nil => exact he
        | cons c a => exact List.mem_append_right _ (List.mem_cons_of_mem _ he)
  · refine marked_append.mpr ⟨ha, marked_cons.mpr ⟨⟨?_, ?_⟩, ?_⟩⟩
    · change true = outside (nesting line) _ _
      rw [nesting_plain hline.plain, outside_plain hline.unfolded, hdepth]
      rfl
    · change true = outside (prefixed r line) _ _
      rw [hline.plain, outside_plain hline.unfolded, hdepth']
      rfl
    · change see r ((nesting line).inside _) ((prefixed r line).inside _) _ = b
      rw [nesting_plain hline.plain, hline.plain]
      exact hb
  · exact forall_mem_append_cons.mpr ⟨hread_a, fun _ => hline.readable, hread_b⟩
  · refine forall_mem_append_cons.mpr ⟨hone_a, fun l hl => ?_, hone_b⟩
    rw [List.mem_singleton.mp hl]
    exact hline.one_line

end Marked

/-! ## Lines that are written -/

section Written

variable {r : Runtime} {name : String}

variable {before value : Text}

theorem delimited_line (h : ∀ other, find_value_delimiter false (before ++ ':' :: other)
      = .ok (some (before, other))) :
    (⟨before ++ ':' :: value, []⟩ : Entry).delimited = .ok (some (before, value)) := by
  rw [Entry.delimited, Entry.lines, unfold_property_lines, List.map_nil, List.flatten_nil,
    List.append_nil]
  exact h value

theorem Entry.read {e : Entry} (h : e.delimited = .ok (some (before, value))) :
    e.name r = some (upper_case r (before.takeWhile (· ≠ ';'))) ∧ e.before = before
      ∧ e.value = some value := by
  rw [Entry.name, Entry.before, Entry.value, h]
  exact ⟨rfl, rfl, rfl⟩

/-- The line that is written for a property that is found. -/
def new_line (name : String) (value : Text) (replacePrefix : Bool) (x : Seen) : Text :=
  (if replacePrefix then name.toList else x.entry.before) ++ ':' :: value

/-- A written line has its name and its value, and is written again as it is. -/
structure Carries (r : Runtime) (name : String) (value : Text) (e : Entry) : Prop where
  name : e.name r = some name.toList
  value : e.value = some value

theorem Target.line (hname : Target name) {line : Text}
    (h : (⟨line, []⟩ : Entry).name r = some name.toList) (hone : OneLine line) : Line r line := by
  obtain ⟨hplain, hunfolded⟩ := hname.plain h
  obtain ⟨value, hdelimited, -⟩ := Entry.delimited_of_name h
  exact ⟨hplain, hunfolded, ⟨_, hdelimited⟩, hone⟩

theorem Target.content (hname : Target name) (value : Text) :
    Carries r name value ⟨content_line name value, []⟩ := by
  have hdelimited : (⟨content_line name value, []⟩ : Entry).delimited
      = .ok (some (name.toList, value)) :=
    delimited_line fun other => find_value_delimiter_line hname.upper other
  obtain ⟨hread, -, hvalue⟩ := Entry.read (r := r) hdelimited
  exact ⟨hread.trans (congrArg some (Field.upper_name (p := (name, value)) hname.toField)), hvalue⟩

theorem hit_name {name : Text} {x : Seen} (h : hit r name x = true) :
    x.found = true ∧ x.entry.name r = some name := by
  rw [hit, Bool.and_eq_true, decide_eq_true_eq] at h
  exact h

theorem Target.write (hname : Target name) {x : Seen} (hx : x.entry.name r = some name.toList)
    (value : Text) (replacePrefix : Bool) :
    Carries r name value (x.write (new_line name value replacePrefix x)).entry
      ∧ new_line name value replacePrefix (x.write (new_line name value replacePrefix x))
        = new_line name value replacePrefix x := by
  obtain ⟨old, hdelimited, hupper⟩ := Entry.delimited_of_name hx
  have hwritten : (⟨x.entry.before ++ ':' :: value, []⟩ : Entry).delimited
      = .ok (some (x.entry.before, value)) :=
    delimited_line (delimiter_split hdelimited).2
  cases replacePrefix with
  | true => exact ⟨hname.content value, rfl⟩
  | false =>
    obtain ⟨hread, hbefore, hvalue⟩ := Entry.read (r := r) hwritten
    rw [hupper] at hread
    refine ⟨⟨hread, hvalue⟩, ?_⟩
    change (⟨x.entry.before ++ ':' :: value, []⟩ : Entry).before ++ ':' :: value = _
    rw [hbefore]
    rfl

theorem mem_unfold {c : Char} {lines : List Text} (h : c ∈ unfold_property_lines lines) :
    ∃ line ∈ lines, c ∈ line := by
  cases lines with
  | nil => cases h
  | cons line lines =>
    rw [unfold_property_lines] at h
    rcases List.mem_append.mp h with h | h
    · exact ⟨line, List.mem_cons_self, h⟩
    · obtain ⟨short, hshort, hc⟩ := List.mem_flatten.mp h
      obtain ⟨long, hlong, rfl⟩ := List.mem_map.mp hshort
      refine ⟨long, List.mem_cons_of_mem _ hlong, ?_⟩
      rw [unfolded] at hc
      split at hc
      · exact List.mem_of_mem_drop hc
      · exact hc

theorem Field.name_one_line (hname : Field name) : OneLine name.toList :=
  ⟨fun h => is_upper_ne (hname.upper _ h) (by decide : is_upper '\r' = false) rfl,
    fun h => is_upper_ne (hname.upper _ h) (by decide : is_upper '\n' = false) rfl⟩

theorem OneLine.delimited (hbefore : OneLine before) (hvalue : OneLine value) :
    OneLine (before ++ ':' :: value) := by
  refine hbefore.append ⟨fun h => ?_, fun h => ?_⟩
  · rcases List.mem_cons.mp h with h | h
    · exact absurd h (by decide)
    · exact hvalue.1 h
  · rcases List.mem_cons.mp h with h | h
    · exact absurd h (by decide)
    · exact hvalue.2 h

theorem Entry.before_one_line {e : Entry} (hname : e.name r = some name.toList)
    (hlines : ∀ line ∈ e.lines, OneLine line) : OneLine e.before := by
  obtain ⟨value, hdelimited, -⟩ := e.delimited_of_name hname
  have htext := (delimiter_split hdelimited).1
  have hmem : ∀ c ∈ e.before, ∃ line ∈ e.lines, c ∈ line := by
    intro c hc
    refine mem_unfold ?_
    rw [htext]
    exact List.mem_append_left _ hc
  refine ⟨fun h => ?_, fun h => ?_⟩
  · obtain ⟨line, hline, hc⟩ := hmem _ h
    exact (hlines line hline).1 hc
  · obtain ⟨line, hline, hc⟩ := hmem _ h
    exact (hlines line hline).2 hc

theorem Target.new_line_ok (hname : Target name) {x : Seen} (hx : hit r name.toList x = true)
    (hlines : ∀ line ∈ x.entry.lines, OneLine line) (hvalue : OneLine value)
    (replacePrefix : Bool) :
    Line r (new_line name value replacePrefix x) := by
  have hread := (hit_name hx).2
  refine hname.line (hname.write hread value replacePrefix).1.name ?_
  rw [new_line]
  cases replacePrefix with
  | true => exact hname.name_one_line.delimited hvalue
  | false => exact (Entry.before_one_line hread hlines).delimited hvalue

end Written

/-! ## One edit -/

section Edit

variable {r : Runtime} {name : String}

theorem lines_of_append (a b : List Seen) : lines_of (a ++ b) = lines_of a ++ lines_of b :=
  List.flatMap_append

theorem lines_of_cons (x : Seen) (xs : List Seen) :
    lines_of (x :: xs) = x.entry.lines ++ lines_of xs := List.flatMap_cons

theorem splice_between (a old b inserted : List Text) :
    splice (a ++ old ++ b) a.length (a.length + old.length) inserted = a ++ inserted ++ b := by
  rw [splice, ← List.length_append, List.drop_left, List.append_assoc a old b, List.take_left]

theorem splice_entry (a b : List Seen) (x : Seen) (inserted : List Text) :
    splice (lines_of (a ++ x :: b)) (lines_of a).length
        ((lines_of a).length + x.entry.lines.length) inserted
      = lines_of a ++ inserted ++ lines_of b := by
  rw [lines_of_append, lines_of_cons, ← List.append_assoc]
  exact splice_between _ _ _ _

theorem places_none {name : Text} {xs : List Seen} (h : ∀ x ∈ xs, hit r name x = false)
    (index : ℕ) : places r name index xs = [] := by
  induction xs generalizing index with
  | nil => rfl
  | cons x xs ih =>
    rw [List.forall_mem_cons] at h
    rw [places, if_neg (Bool.eq_false_iff.mp h.1)]
    exact ih h.2 _

variable {a b : List Seen}

theorem places_first {name : Text} {x : Seen} (ha : ∀ y ∈ a, hit r name y = false)
    (hx : hit r name x = true) (index : ℕ) : (places r name index (a ++ x :: b)).head? = some
      { prefix_ := x.entry.before, start := index + (lines_of a).length,
        end_ := index + (lines_of a).length + x.entry.lines.length } := by
  induction a generalizing index with
  | nil =>
    rw [List.nil_append, places, if_pos hx]
    rfl
  | cons y a ih =>
    rw [List.forall_mem_cons] at ha
    rw [List.cons_append, places, if_neg (Bool.eq_false_iff.mp ha.1), ih ha.2, lines_of_cons,
      List.length_append]
    simp only [Nat.add_assoc]

theorem first_hit (r : Runtime) (name : Text) (xs : List Seen) :
    (∀ x ∈ xs, hit r name x = false)
      ∨ ∃ a x b, xs = a ++ x :: b ∧ (∀ y ∈ a, hit r name y = false) ∧ hit r name x = true := by
  cases hfind : xs.find? (hit r name) with
  | none =>
    refine .inl fun x hx => Bool.eq_false_iff.mpr ?_
    exact List.find?_eq_none.mp hfind x hx
  | some x =>
    obtain ⟨hx, a, b, rfl, ha⟩ := List.find?_eq_some_iff_append.mp hfind
    refine .inr ⟨a, x, b, rfl, fun y hy => ?_, hx⟩
    have hy' := ha y hy
    rwa [Bool.not_eq_true'] at hy'

theorem exists_front (r : Runtime) (xs : List Seen) : ∃ a b, xs = a ++ b ∧ Front r a b := by
  refine ⟨xs.takeWhile fun x => prefixed r x.entry.head ≠ .opens,
    xs.dropWhile fun x => prefixed r x.entry.head ≠ .opens,
    List.takeWhile_append_dropWhile.symm, fun x hx => ?_, fun x hx => ?_⟩
  · have h := List.mem_takeWhile_imp hx
    rwa [decide_eq_true_eq] at h
  · have h := List.head?_dropWhile_not
      (fun x : Seen => decide (prefixed r x.entry.head ≠ .opens)) xs
    rw [hx] at h
    simpa using h

theorem begins_iff {line : Text} :
    "BEGIN:".toList <+: upper_case r line ↔ prefixed r line = .opens := by
  rw [prefixed]
  split
  next h => exact iff_of_true h rfl
  next h =>
    refine iff_of_false h ?_
    split
    · exact fun h => by cases h
    · exact fun h => by cases h

theorem insert_spec (hgrouped : Grouped ((a ++ b).map (·.entry))) (hfront : Front r a b)
    (line : Text) :
    insert_before_end r (lines_of (a ++ b)) line = lines_of (a ++ fresh line :: b) := by
  have hplace : ((lines_of (a ++ b)).findIdx? fun candidate =>
      decide ("BEGIN:".toList <+: upper_case r candidate)).getD (lines_of (a ++ b)).length
      = (lines_of a).length := by
    have hbefore : ∀ candidate ∈ lines_of a, ¬"BEGIN:".toList <+: upper_case r candidate := by
      intro candidate hmem
      obtain ⟨x, hx, hline⟩ := List.mem_flatMap.mp hmem
      rcases List.mem_cons.mp hline with rfl | hfolded
      · exact fun h => hfront.before x hx (begins_iff.mp h)
      · refine not_prefix_folded (hgrouped.folded x.entry ?_ candidate hfolded) rfl (by decide)
        exact List.mem_map_of_mem (List.mem_append_left _ hx)
    have hnone : (lines_of a).findIdx? (fun candidate =>
        decide ("BEGIN:".toList <+: upper_case r candidate)) = none := by
      rw [List.findIdx?_eq_none_iff]
      intro candidate hmem
      rw [decide_eq_false_iff_not]
      exact hbefore candidate hmem
    rw [lines_of_append, List.findIdx?_append, hnone, Option.none_or]
    cases b with
    | nil =>
      have hnil : lines_of [] = [] := rfl
      rw [hnil, List.findIdx?_nil, Option.map_none, Option.getD_none, List.append_nil]
    | cons x b =>
      rw [lines_of_cons, Entry.lines, List.cons_append, List.findIdx?_cons,
        if_pos (decide_eq_true (begins_iff.mpr (hfront.behind x rfl))), Option.map_some,
        Option.getD_some, Nat.zero_add]
  have hsplice := splice_between (lines_of a) [] (lines_of b) [line]
  rw [List.append_nil, List.length_nil, Nat.add_zero, ← lines_of_append] at hsplice
  rw [insert_before_end, hplace, hsplice, lines_of_append, lines_of_cons, List.append_assoc]
  rfl

/-- What replacing a property does to the entries. -/
inductive Replaced (r : Runtime) (name : String) (value : Text) (replacePrefix : Bool) :
    List Seen → List Seen → Prop where
  /-- The first property that the search finds gets another line. -/
  | found {a b : List Seen} {x : Seen} (before : ∀ y ∈ a, hit r name.toList y = false)
      (first : hit r name.toList x = true) :
      Replaced r name value replacePrefix (a ++ x :: b)
        (a ++ x.write (new_line name value replacePrefix x) :: b)
  /-- It finds none, and a line is inserted. -/
  | absent {a b : List Seen} (none : ∀ y ∈ a ++ b, hit r name.toList y = false)
      (front : Front r a b) :
      Replaced r name value replacePrefix (a ++ b) (a ++ fresh (content_line name value) :: b)

theorem replace_spec (hname : Target name) {value : Text} (hvalue : OneLine value)
    (replacePrefix : Bool) {xs : List Seen} (h : Sound r xs) :
    ∃ ys, replace_direct_property r (lines_of xs) name.toList value replacePrefix
        = .ok (lines_of ys)
      ∧ Sound r ys ∧ Replaced r name value replacePrefix xs ys := by
  rw [replace_direct_property, h.search_first]
  rcases first_hit r name.toList xs with hnone | ⟨a, x, b, rfl, ha, hx⟩
  · obtain ⟨a, b, rfl, hfront⟩ := exists_front r xs
    have hline : Line r (content_line name value) :=
      hname.line (hname.content value).name (hname.name_one_line.delimited hvalue)
    refine ⟨_, ?_, h.insert hfront hline, .absent hnone hfront⟩
    rw [places_none hnone]
    exact congrArg Except.ok (insert_spec h.grouped hfront (content_line name value))
  · have hplain := hname.plain (hit_name hx).2
    have hline : Line r (new_line name value replacePrefix x) :=
      hname.new_line_ok hx (h.one_line x (List.mem_append_right _ List.mem_cons_self)) hvalue _
    refine ⟨_, ?_, h.set hplain.1 hplain.2 hline, .found ha hx⟩
    rw [places_first ha hx, Nat.zero_add]
    refine congrArg Except.ok ((splice_entry a b x _).trans ?_)
    rw [lines_of_append, lines_of_cons, List.append_assoc]
    rfl

theorem remove_spec (hname : Target name) {fuel : ℕ} {xs : List Seen} (h : Sound r xs)
    (hfuel : (xs.filter (hit r name.toList)).length ≤ fuel) :
    remove_direct_properties r name.toList fuel (lines_of xs)
        = .ok (lines_of (xs.filter fun x => !hit r name.toList x))
      ∧ Sound r (xs.filter fun x => !hit r name.toList x) := by
  have hdone : ∀ {ys : List Seen}, (∀ y ∈ ys, hit r name.toList y = false) →
      ys.filter (fun x => !hit r name.toList x) = ys := by
    intro ys hys
    rw [List.filter_eq_self]
    intro y hy
    rw [hys y hy]
    rfl
  induction fuel generalizing xs with
  | zero =>
    have hnone : ∀ x ∈ xs, hit r name.toList x = false := by
      intro x hx
      refine Bool.eq_false_iff.mpr fun hhit => ?_
      have hpos := List.length_pos_of_mem (List.mem_filter.mpr ⟨hx, hhit⟩)
      omega
    rw [hdone hnone]
    exact ⟨rfl, h⟩
  | succ fuel ih =>
    rw [remove_direct_properties, h.search_first]
    rcases first_hit r name.toList xs with hnone | ⟨a, x, b, rfl, ha, hx⟩
    · rw [places_none hnone, hdone hnone]
      exact ⟨rfl, h⟩
    · have hplain := hname.plain (hit_name hx).2
      have hkept : (a ++ x :: b).filter (fun x => !hit r name.toList x)
          = (a ++ b).filter (fun x => !hit r name.toList x) := by
        rw [List.filter_append, List.filter_append, List.filter_cons_of_neg (by rw [hx]; decide)]
      have hless : ((a ++ b).filter (hit r name.toList)).length ≤ fuel := by
        rw [List.filter_append, List.filter_cons_of_pos hx, List.length_append,
          List.length_cons] at hfuel
        rw [List.filter_append, List.length_append]
        omega
      rw [hkept]
      obtain ⟨hremove, hsound⟩ := ih (h.remove hplain.1) hless
      refine ⟨?_, hsound⟩
      rw [places_first ha hx, Nat.zero_add]
      refine Eq.trans ?_ hremove
      change remove_direct_properties r name.toList fuel (splice _ _ _ _) = _
      rw [splice_entry, List.append_nil, ← lines_of_append]

theorem hits_le_lines (name : Text) (xs : List Seen) :
    (xs.filter (hit r name)).length ≤ (lines_of xs).length := by
  have hlines : xs.length ≤ (lines_of xs).length := by
    induction xs with
    | nil => exact Nat.le_refl _
    | cons x xs ih =>
      rw [lines_of_cons, Entry.lines, List.length_cons, List.cons_append, List.length_cons,
        List.length_append]
      omega
  exact (List.length_filter_le _ _).trans hlines

theorem Front.push (h : Front r a b) {line : Text} (hline : Line r line) :
    Front r (a ++ [fresh line]) b := by
  refine ⟨fun x hx => ?_, h.behind⟩
  rcases List.mem_append.mp hx with hx | hx
  · exact h.before x hx
  · rw [List.mem_singleton.mp hx]
    change prefixed r line ≠ .opens
    rw [hline.plain]
    exact fun h => nomatch h

def attendee_line (attendee : Text) : Text :=
  content_line "ATTENDEE" ("mailto:".toList ++ strip_mailto attendee)

theorem normalize_ok {attendee address : Text}
    (h : normalize_calendar_address attendee = .ok address) :
    address = strip_mailto attendee ∧ is_address address = true := by
  rw [normalize_calendar_address] at h
  obtain ⟨-, -, h⟩ := bind_eq_ok h
  dsimp only at h
  split at h
  next hvalid =>
    cases h
    exact ⟨rfl, hvalid⟩
  next => cases h

theorem target_of_mem {name : String} (h : name ∈ ["SUMMARY", "DTSTART", "DURATION", "DTEND",
    "DESCRIPTION", "LOCATION", "ATTENDEE"]) : Target name := by
  simp only [List.mem_cons, List.not_mem_nil, or_false] at h
  rcases h with rfl | rfl | rfl | rfl | rfl | rfl | rfl
  all_goals exact ⟨⟨by decide, by decide, by decide, by decide⟩, by decide, by decide⟩

theorem target_attendee : Target "ATTENDEE" := target_of_mem (by simp)

theorem attendee_line_ok {attendee address : Text}
    (h : normalize_calendar_address attendee = .ok address) : Line r (attendee_line attendee) := by
  obtain ⟨rfl, hvalid⟩ := normalize_ok h
  refine target_attendee.line (target_attendee.content _).name ?_
  exact target_attendee.name_one_line.delimited
    (OneLine.append ⟨by decide, by decide⟩ (address_one_line hvalid))

theorem insert_attendees {attendees : List Text}
    (hvalid : ∀ attendee ∈ attendees, ∃ address, normalize_calendar_address attendee = .ok address)
    (h : Sound r (a ++ b)) (hfront : Front r a b) : attendees.foldlM (fun lines attendee => do
        let address ← normalize_calendar_address attendee
        return insert_before_end r lines (content_line "ATTENDEE" ("mailto:".toList ++ address)))
        (lines_of (a ++ b))
      = .ok (lines_of (a ++ attendees.map (fun attendee => fresh (attendee_line attendee)) ++ b))
      ∧ Sound r (a ++ attendees.map (fun attendee => fresh (attendee_line attendee)) ++ b) := by
  induction attendees generalizing a with
  | nil =>
    rw [List.map_nil, List.append_nil]
    exact ⟨rfl, h⟩
  | cons attendee attendees ih =>
    rw [List.forall_mem_cons] at hvalid
    obtain ⟨⟨address, haddress⟩, hvalid⟩ := hvalid
    have hline := attendee_line_ok (r := r) haddress
    have hsound := h.insert hfront hline
    have hshape : a ++ fresh (attendee_line attendee) :: b
        = a ++ [fresh (attendee_line attendee)] ++ b := by
      rw [List.append_assoc, List.singleton_append]
    have hstep := insert_spec h.grouped hfront (attendee_line attendee)
    rw [hshape] at hstep hsound
    obtain ⟨hrest, hall⟩ := ih hvalid hsound (hfront.push hline)
    have hlines : a ++ [fresh (attendee_line attendee)]
          ++ attendees.map (fun attendee => fresh (attendee_line attendee)) ++ b
        = a ++ (attendee :: attendees).map (fun attendee => fresh (attendee_line attendee))
          ++ b := by
      rw [List.map_cons, List.append_assoc a, List.singleton_append]
    rw [hlines] at hrest hall
    refine ⟨?_, hall⟩
    rw [List.foldlM_cons, haddress]
    refine Eq.trans ?_ hrest
    change attendees.foldlM _ (insert_before_end r _ _) = attendees.foldlM _ _
    have hsame : content_line "ATTENDEE" ("mailto:".toList ++ address)
        = attendee_line attendee := by
      rw [(normalize_ok haddress).1]
      rfl
    rw [hsame, hstep]

end Edit

end Appcall.Caldav
