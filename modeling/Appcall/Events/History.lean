/-
No event is lost between the history and the stream.

The position of an event is given out under the lock of its project, so within a project
an event that is stored later has a higher position. A client of the stream has read all
events up to its last one, and with a page that has no more all there are. A walk of the
history may miss events that are stored meanwhile, whose transactions began earlier; but
those are behind the position that its first page named.
-/
import Appcall.Events.Outbox
import Appcall.Events.Pages
import Appcall.Lib.Paging

set_option autoImplicit false

namespace Appcall.Events

open Chars (is_control)

variable {month : ℤ → String} {k : Chrono} {s : System} {db db' : Database} {p : Principal}
  {r : ListRequest}

/-! ## Growth -/

/-- The sequence gives a position under the lock of the project. -/
def Op.ordered (s : System) : Op → Prop
  | .accept _ position _ claims _ _ _ => 0 < position ∧ position < 2 ^ 63
    ∧ ∀ e ∈ s.db.webhook_events.table.rows, e.project_id = claims.project_id →
      e.stream_position < position
  | _ => True

/-- Positions and ids that a cursor can carry. -/
def Positioned (db : Database) : Prop :=
  ∀ e ∈ db.webhook_events.table.rows, 0 < e.stream_position ∧ e.stream_position < 2 ^ 63
    ∧ valid_id e.id = true

/-- Events are only added, each with a position behind those of its project. -/
structure Later (db db' : Database) : Prop where
  kept : ∀ e ∈ db.webhook_events.table.rows, e ∈ db'.webhook_events.table.rows
  new : ∀ e ∈ db'.webhook_events.table.rows, e ∈ db.webhook_events.table.rows
    ∨ ∀ e₀ ∈ db.webhook_events.table.rows, e₀.project_id = e.project_id →
      e₀.stream_position < e.stream_position

theorem Later.of_eq (h : db'.webhook_events = db.webhook_events) : Later db db' :=
  ⟨fun _ he => h ▸ he, fun _ he => .inl (h ▸ he)⟩

theorem Later.trans {db'' : Database} (h : Later db db') (h' : Later db' db'') :
    Later db db'' := by
  refine ⟨fun e he => h'.kept e (h.kept e he), fun e he => ?_⟩
  rcases h'.new e he with he' | hafter
  · exact h.new e he'
  · exact .inr fun e₀ he₀ => hafter e₀ (h.kept e₀ he₀)

theorem step_events (month : ℤ → String) (s : System) (op : Op) :
    (step month s op).db.webhook_events = s.db.webhook_events
    ∨ ∃ now position drawn claims parsed expected expected_revision c, ∃ e : WebhookEvent,
      op = .accept now position drawn claims parsed expected expected_revision
      ∧ e.New s.db claims parsed c now position
      ∧ (step month s op).db.webhook_events.table.rows
        = s.db.webhook_events.table.rows ++ [e] := by
  cases op with
  | connect c =>
    left
    simp only [step, Database.connect]
    split <;> rfl
  | update_connection id marker intent new => exact .inl rfl
  | accept now position drawn claims parsed expected expected_revision =>
    simp only [step]
    cases haccept : s.db.accept_checked now position drawn claims parsed expected
        expected_revision with
    | error err => exact .inl rfl
    | ok result =>
      obtain ⟨c, -, hsame | ⟨e, hnew, -, events, outbox, hevents, -, hdb⟩⟩ :=
        accept_checked_eq_ok haccept
      · exact .inl (congrArg Database.webhook_events hsame)
      · refine .inr ⟨now, position, drawn, claims, parsed, expected, expected_revision, c, e, rfl,
          hnew, ?_⟩
        have hrows := (insert_events_eq_some hevents).2
        simp only [commit, hdb]
        exact hrows
  | dispatch_pending worker limit => exact .inl rfl
  | take worker now =>
    left
    simp only [step]
    repeat' (first | rfl | split)
  | settle worker now id sink stored committed =>
    left
    simp only [step]
    split
    · rfl
    · split
      · rw [System.settle]
        split
        next hok =>
          obtain ⟨jobs, hdb, -, -⟩ := dispatch_eq_ok hok
          rw [System.settled, hdb, complete_events]
        next => rfl
      · rfl
  | crash worker => exact .inl rfl

theorem step_later {op : Op} (hop : op.ordered s) : Later s.db (step month s op).db := by
  obtain hsame | ⟨now, position, drawn, claims, parsed, expected, expected_revision, c, e, rfl,
    hnew, hrows⟩ := step_events month s op
  · exact .of_eq hsame
  · refine ⟨fun e' he' => ?_, fun e' he' => ?_⟩
    · rw [hrows]
      exact List.mem_append_left _ he'
    · rw [hrows, List.mem_append, List.mem_singleton] at he'
      rcases he' with he' | rfl
      · exact .inl he'
      · right
        intro e₀ he₀ hproject
        rw [hnew.position]
        exact hop.2.2 e₀ he₀ (hproject.trans hnew.project)

theorem valid_drawn (u : Uuid) : valid_id ("wh_" ++ u.simple) = true := by
  have hempty : ("wh_" ++ u.simple).isEmpty = false := by
    rw [String.isEmpty_eq_false_iff]
    intro hnil
    have hlist := congrArg String.toList hnil
    rw [String.toList_append] at hlist
    cases hlist
  have hsize : ("wh_" ++ u.simple).utf8ByteSize ≤ 1024 := by
    rw [String.utf8ByteSize_append, u.size]
    decide
  have hplain : ("wh_" ++ u.simple).toList.any is_control = false := by
    rw [String.toList_append, List.any_append, u.plain, Bool.or_false]
    decide
  rw [valid_id, hempty, hplain, decide_eq_true hsize]
  rfl

theorem step_positioned {op : Op} (hop : op.ordered s) (h : Positioned s.db) :
    Positioned (step month s op).db := by
  obtain hsame | ⟨now, position, drawn, claims, parsed, expected, expected_revision, c, e, rfl,
    hnew, hrows⟩ := step_events month s op
  · rw [Positioned, hsame]
    exact h
  · intro e' he'
    rw [hrows, List.mem_append, List.mem_singleton] at he'
    rcases he' with he' | rfl
    · exact h e' he'
    · obtain ⟨u, hu⟩ := hnew.id
      rw [hnew.position, hu]
      exact ⟨hop.1, hop.2.1, valid_drawn u⟩

/-! ## Streams -/

/-- A client of the stream, with the events it was given. -/
structure Reader where
  cursor : String
  events : List Event

/-- A step of the system, or a read of a client. -/
inductive Turn where
  | step (op : Op)
  | read (limit : ℕ)

def ListRequest.next (r : ListRequest) (cursor : String) (limit : ℕ) : ListRequest :=
  { r with cursor, limit }

def stream_turn (month : ℤ → String) (k : Chrono) (p : Principal) (r : ListRequest)
    (x : System × Reader) : Turn → System × Reader
  | .step op => (step month x.1 op, x.2)
  | .read limit =>
    match x.1.db.stream k p (r.next x.2.cursor limit) with
    | .error _ => x
    | .ok page => (x.1, ⟨page.next_cursor, x.2.events ++ page.events⟩)

/-- The steps of the system among the turns give out positions in order. -/
def Turn.ordered {α : Type} (x : System × α) : Turn → Prop
  | .step op => op.ordered x.1
  | .read _ => True

/-- The events that the first page from a start is of. -/
def from_start (p : Principal) (r : ListRequest) (s : Start) (e : WebhookEvent) : Bool :=
  r.selects p e && s.before e

def cursor_of (c₀ : String) (rows : List WebhookEvent) : String :=
  (rows.getLast?.map (fun e => stream_cursor e.toEvent)).getD c₀

/-- What a client of the stream has read: the rows in order, and all that were asked for up
to the last of them. -/
structure Follows (db : Database) (p : Principal) (r : ListRequest) (c₀ : String) (s₀ : Start)
    (x : Reader) (rows : List WebhookEvent) : Prop where
  events : x.events = rows.map WebhookEvent.toEvent
  cursor : x.cursor = cursor_of c₀ rows
  after : ∀ e ∈ rows, s₀.position < e.stream_position
  reading : Paging.Reading db.webhook_events.table (r.selects p) (·.stream_position) rows
  whole : Paging.Whole db.webhook_events.table (from_start p r s₀) (·.stream_position) rows

variable {e : WebhookEvent} {s₀ : Start} {c₀ : String} {x : Reader} {rows : List WebhookEvent}
  {limit : ℕ} {page : EventPage} {turns : List Turn}

theorem selects_project (h : r.selects p e = true) :
    p.owns e = true ∧ e.project_id = p.project_id := by
  simp only [ListRequest.selects, Bool.and_eq_true, Principal.owns, decide_eq_true_eq] at h ⊢
  exact ⟨h.1.1.1, h.1.1.1.1⟩

theorem from_start_selects (h : from_start p r s₀ e = true) :
    r.selects p e = true ∧ s₀.before e = true := by
  rw [from_start, Bool.and_eq_true] at h
  exact h

theorem position_separates (db : Database) (scope : WebhookEvent → Bool) :
    Paging.Separates db.webhook_events.table scope (·.stream_position) :=
  fun e he e' he' _ _ heq => db.webhook_events.position e he e' he' heq

theorem start_stream_cursor {position : ℤ} {id : String} (h : 0 < position)
    (hmax : position < 2 ^ 63) (hid : valid_id id = true) :
    start k true (stream_cursor_at position id) = .ok ⟨position, none⟩ := by
  rw [start, if_neg (stream_cursor_ne_empty position id), decode_stream_cursor h hmax hid]
  rfl

theorem stream_rows_eq {s₁ : Start} (h : Follows db p r c₀ s₀ x rows) (hpositioned : Positioned db)
    (hstart : start k true c₀ = .ok s₀) (hnow : start k true x.cursor = .ok s₁) :
    ∃ scope : WebhookEvent → Bool, (∀ e, from_start p r s₀ e = true → scope e = true)
      ∧ (∀ e, scope e = true → r.selects p e = true) ∧ (rows = [] → scope = from_start p r s₀)
      ∧ ∀ n, db.webhook_events.table.select (fun e => r.selects p e && s₁.before e)
          (fun e e' => e.stream_position ≤ e'.stream_position) n
        = Paging.page db.webhook_events.table scope (·.stream_position) rows n := by
  rw [h.cursor, cursor_of] at hnow
  cases hlast : rows.getLast? with
  | none =>
    -- nothing was read, and the client is still at its start
    rw [hlast, Option.map_none, Option.getD_none, hstart] at hnow
    cases hnow
    refine ⟨from_start p r s₀, fun _ he => he, fun _ he => (from_start_selects he).1,
      fun _ => rfl, fun n => ?_⟩
    rw [Paging.page, List.getLast?_eq_none_iff.mp hlast]
    refine Table.select_congr fun e _ => ?_
    simp [from_start]
  | some last =>
    obtain ⟨hmem, -⟩ := h.reading.stored last (List.mem_of_getLast? hlast)
    obtain ⟨hpos, hmax, hid⟩ := hpositioned last hmem
    rw [hlast, Option.map_some, Option.getD_some, stream_cursor,
      start_stream_cursor hpos hmax hid] at hnow
    cases hnow
    refine ⟨r.selects p, fun _ he => (from_start_selects he).1, fun _ he => he, ?_, fun n => ?_⟩
    · rintro rfl
      cases hlast
    · rw [Paging.page]
      refine Table.select_congr fun e _ => congrArg (r.selects p e && ·) ?_
      rw [Start.before, Option.all_none, Bool.and_true]
      exact decide_eq_decide.mpr (h.reading.last hlast e).symm

/-- **A page of the stream** goes on from what was read, and with one that has no more
everything was read. -/
theorem stream_page (h : Follows db p r c₀ s₀ x rows) (hpositioned : Positioned db)
    (hstart : start k true c₀ = .ok s₀) (hpage : db.stream k p (r.next x.cursor limit) = .ok page) :
    ∃ more, Follows db p r c₀ s₀ ⟨page.next_cursor, x.events ++ page.events⟩ (rows ++ more)
      ∧ page.events = more.map WebhookEvent.toEvent
      ∧ (page.has_more = false → ∀ e ∈ db.webhook_events.table.rows,
        from_start p r s₀ e = true → e ∈ rows ++ more) := by
  obtain ⟨-, -, hpage⟩ := bind_eq_ok hpage
  obtain ⟨s₁, hnow, hpage⟩ := bind_eq_ok hpage
  cases hpage
  obtain ⟨scope, hsub, hselects, hfirst, hrows⟩ := stream_rows_eq h hpositioned hstart hnow
  set n := (r.next x.cursor limit).size true with hn
  set more := Paging.page db.webhook_events.table scope (·.stream_position) rows n with hmore
  have hlong : db.stream_rows p (r.next x.cursor limit) s₁
      = Paging.page db.webhook_events.table scope (·.stream_position) rows (n + 1) := hrows _
  have htake : (db.stream_rows p (r.next x.cursor limit) s₁).take n = more := by
    rw [hlong, hmore, Paging.page, Paging.page, Table.take_select (Nat.le_succ n)]
  have hsep := position_separates db scope
  have hreading : Paging.Reading db.webhook_events.table (r.selects p) (·.stream_position)
      (rows ++ more) := by
    refine ⟨List.pairwise_append.mpr ⟨h.reading.sorted, Paging.page_sorted hsep, ?_⟩, ?_⟩
    · exact fun e he e' he' => (Paging.mem_page he').2.2 e he
    · intro e he
      rcases List.mem_append.mp he with he | he
      · exact h.reading.stored e he
      · exact ⟨(Paging.mem_page he).1, hselects e (Paging.mem_page he).2.1⟩
  refine ⟨more, ⟨?_, ?_, fun e he => ?_, hreading, h.whole.append_page hsub hsep⟩, ?_, ?_⟩
  · dsimp only
    rw [htake, List.map_append, h.events]
  · dsimp only
    rw [htake, cursor_of, List.getLast?_map, Option.map_map]
    cases hlast : more.getLast? with
    | none =>
      rw [List.getLast?_eq_none_iff.mp hlast, List.append_nil]
      exact h.cursor
    | some last =>
      rw [List.getLast?_append, hlast]
      rfl
  · rcases List.mem_append.mp he with he | he
    · exact h.after e he
    · obtain ⟨-, hscope, hafter⟩ := Paging.mem_page he
      cases hrows' : rows with
      | nil =>
        rw [hfirst hrows'] at hscope
        have hbefore := (from_start_selects hscope).2
        rw [Start.before, Bool.and_eq_true, decide_eq_true_eq] at hbefore
        exact hbefore.1
      | cons first rest =>
        have hmem : first ∈ rows := hrows' ▸ List.mem_cons_self
        exact (h.after first hmem).trans (hafter first hmem)
  · exact congrArg (List.map WebhookEvent.toEvent) htake
  · intro hlast e he hscope
    rw [decide_eq_false_iff_not, not_lt, hlong] at hlast
    have hmore' : Paging.page db.webhook_events.table scope (·.stream_position) rows (n + 1)
        = more := by
      rw [← htake, hlong, List.take_of_length_le hlast]
    rw [← hmore']
    exact h.whole.rest hsub (Nat.lt_succ_of_le hlast) he hscope

theorem Follows.later (h : Follows db p r c₀ s₀ x rows) (hlater : Later db db') :
    Follows db' p r c₀ s₀ x rows := by
  refine ⟨h.events, h.cursor, h.after, h.reading.grow hlater.kept,
    h.whole.grow fun e he hscope => ?_⟩
  refine (hlater.new e he).imp_right fun hafter e' he' => ?_
  obtain ⟨hmem, hselects⟩ := h.reading.stored e' he'
  refine hafter e' hmem ?_
  rw [(selects_project hselects).2, (selects_project (from_start_selects hscope).1).2]

theorem follows_nil (db : Database) (p : Principal) (r : ListRequest) (c₀ : String)
    (s₀ : Start) : Follows db p r c₀ s₀ ⟨c₀, []⟩ [] where
  events := rfl
  cursor := rfl
  after e he := by cases he
  reading := Paging.reading_nil
  whole := Paging.whole_nil

def Streaming (p : Principal) (r : ListRequest) (c₀ : String) (s₀ : Start)
    (x : System × Reader) : Prop :=
  Positioned x.1.db ∧ ∃ rows, Follows x.1.db p r c₀ s₀ x.2 rows

theorem turn_streaming {x : System × Reader} {turn : Turn} (hstart : start k true c₀ = .ok s₀)
    (hturn : turn.ordered x) (h : Streaming p r c₀ s₀ x) :
    Streaming p r c₀ s₀ (stream_turn month k p r x turn) := by
  obtain ⟨hpositioned, rows, hfollows⟩ := h
  cases turn with
  | step op =>
    exact ⟨step_positioned hturn hpositioned, rows, hfollows.later (step_later hturn)⟩
  | read limit =>
    rw [stream_turn]
    split
    · exact ⟨hpositioned, rows, hfollows⟩
    next page hpage =>
      obtain ⟨more, hnext, -, -⟩ := stream_page hfollows hpositioned hstart hpage
      exact ⟨hpositioned, rows ++ more, hnext⟩

theorem run_streaming (hpositioned : Positioned s.db) (hstart : start k true c₀ = .ok s₀)
    (hturns : Machine.Meets (stream_turn month k p r) (fun x turn => turn.ordered x)
      (s, ⟨c₀, []⟩) turns) :
    Streaming p r c₀ s₀ (Machine.run (stream_turn month k p r) (s, ⟨c₀, []⟩) turns) :=
  hturns.keeps (I := Streaming p r c₀ s₀) (fun _ _ hturn h => turn_streaming hstart hturn h)
    ⟨hpositioned, [], follows_nil s.db p r c₀ s₀⟩

theorem run_later
    (hturns : Machine.Meets (stream_turn month k p r) (fun x turn => turn.ordered x) (s, x)
      turns) : Later s.db (Machine.run (stream_turn month k p r) (s, x) turns).1.db := by
  refine hturns.keeps (I := fun x : System × Reader => Later s.db x.1.db)
    (fun x turn hturn h => ?_) (.of_eq rfl)
  cases turn with
  | step op => exact h.trans (step_later hturn)
  | read limit =>
    rw [stream_turn]
    split <;> exact h

theorem start_next (h : Follows db p r c₀ s₀ x rows) (hpositioned : Positioned db)
    (hstart : start k true c₀ = .ok s₀) : ∃ s₁, start k true x.cursor = .ok s₁ := by
  rw [h.cursor, cursor_of]
  cases hlast : rows.getLast? with
  | none => exact ⟨s₀, hstart⟩
  | some last =>
    obtain ⟨hpos, hmax, hid⟩ := hpositioned last (h.reading.stored last
      (List.mem_of_getLast? hlast)).1
    exact ⟨_, start_stream_cursor hpos hmax hid⟩

/-! ## Walks of the history -/

/-- A client that walks the history, with the cursor that its first page named. -/
structure Walker where
  cursor : String
  events : List Event
  snapshot : Option String
  complete : Bool

def Walker.init : Walker := ⟨"", [], none, false⟩

def history_turn (month : ℤ → String) (k : Chrono) (p : Principal) (r : ListRequest)
    (x : System × Walker) : Turn → System × Walker
  | .step op => (step month x.1 op, x.2)
  | .read limit =>
    if x.2.complete then x
    else match x.1.db.list k p (r.next x.2.cursor limit) with
    | .error _ => x
    | .ok page =>
      (x.1, ⟨page.next_cursor, x.2.events ++ page.events,
        some (x.2.snapshot.getD page.snapshot_cursor), page.next_cursor.isEmpty⟩)

def WebhookEvent.depth (e : WebhookEvent) : (ℤ ×ₗ String)ᵒᵈ := OrderDual.toDual e.place

/-- The events that were there at the first page. -/
def from_page (p : Principal) (r : ListRequest) (db₀ : Database) (e : WebhookEvent) : Bool :=
  r.selects p e && (db₀.webhook_events.table.find e.key).isSome

/-- The cursor that a first page names. -/
def Database.named (db : Database) (p : Principal) : String :=
  (db.snapshot p).elim "" (fun e => stream_cursor_at e.stream_position e.id)

/-- What a walk has read: the rows in order, and all that were there at its first page up
to the last of them. -/
structure Walks (k : Chrono) (db : Database) (p : Principal) (r : ListRequest) (db₀ : Database)
    (x : Walker) (rows : List WebhookEvent) : Prop where
  since : Later db₀ db
  snapshot : x.snapshot = some (db₀.named p)
  events : x.events = rows.map WebhookEvent.toEvent
  reading : Paging.Reading db.webhook_events.table (r.selects p) WebhookEvent.depth rows
  whole : Paging.Whole db.webhook_events.table (from_page p r db₀) WebhookEvent.depth rows
  going : x.complete = false →
    ∃ last, rows.getLast? = some last ∧ x.cursor = history_cursor k last.toEvent
  complete : x.complete = true → ∀ e ∈ db.webhook_events.table.rows,
    from_page p r db₀ e = true → e ∈ rows

theorem depth_separates (db : Database) :
    Paging.Separates db.webhook_events.table (r.selects p) WebhookEvent.depth := by
  intro e he e' he' hscope hscope' heq
  have hplace : e.place = e'.place := heq
  have hid : e.id = e'.id := congrArg (fun q => (ofLex q).2) hplace
  refine List.inj_on_of_nodup_map db.webhook_events.table.nodup he he' ?_
  rw [WebhookEvent.key, WebhookEvent.key, (selects_project hscope).2, (selects_project hscope').2,
    hid]

theorem snapshot_none (h : db.snapshot p = none) (he : e ∈ db.webhook_events.table.rows) :
    p.owns e = false := by
  by_contra howns
  rw [Bool.not_eq_false] at howns
  have hmem : e ∈ (db.webhook_events.table.rows.filter p.owns).insertionSort
      (fun e e' => e'.stream_position ≤ e.stream_position) :=
    (List.mem_insertionSort _).mpr (List.mem_filter.mpr ⟨he, howns⟩)
  rw [Database.snapshot, Table.select, List.head?_eq_none_iff, List.take_eq_nil_iff] at h
  rcases h with h | h
  · cases h
  · rw [h] at hmem
    cases hmem

theorem snapshot_some {last : WebhookEvent} (h : db.snapshot p = some last) :
    last ∈ db.webhook_events.table.rows ∧ p.owns last = true :=
  Table.mem_select (List.mem_of_mem_head? h)

theorem list_eq_ok (h : db.list k p r = .ok page) :
    ∃ s, start k false r.cursor = .ok s ∧ page.snapshot_cursor = db.named p
      ∧ ((db.snapshot p = none ∧ page.events = [] ∧ page.next_cursor = "")
        ∨ (page.events = ((db.history_rows p r s).take (r.size false)).map WebhookEvent.toEvent
          ∧ page.next_cursor = if r.size false < (db.history_rows p r s).length then
              (((db.history_rows p r s).take (r.size false)).getLast?.map
                (fun e => history_cursor k e.toEvent)).getD r.cursor
            else "")) := by
  obtain ⟨-, -, h⟩ := bind_eq_ok h
  obtain ⟨s, hstart, h⟩ := bind_eq_ok h
  refine ⟨s, hstart, ?_⟩
  split at h
  next hnone =>
    cases h
    exact ⟨by rw [Database.named, hnone]; rfl, .inl ⟨hnone, rfl, rfl⟩⟩
  next last hlast =>
    split at h
    · cases h
      refine ⟨by rw [Database.named, hlast]; rfl, .inr ⟨rfl, ?_⟩⟩
      simp only [decide_eq_true_eq, List.getLast?_map, Option.map_map]
      rfl
    · cases h

theorem size_pos (r : ListRequest) (forward : Bool) : 0 < r.size forward := by
  rw [ListRequest.size]
  split
  · split <;> omega
  · omega

theorem history_rows_eq {cursor : String} {s₁ : Start} (hpositioned : Positioned db)
    (hreading : Paging.Reading db.webhook_events.table (r.selects p) WebhookEvent.depth rows)
    (hcursor : cursor = (rows.getLast?.map (fun e => history_cursor k e.toEvent)).getD "")
    (hnow : start k false cursor = .ok s₁) (n : ℕ) :
    db.webhook_events.table.select (fun e => r.selects p e && s₁.behind e)
        (fun e e' => e'.place ≤ e.place) n
      = Paging.page db.webhook_events.table (r.selects p) WebhookEvent.depth rows n := by
  have hpos : ∀ e ∈ db.webhook_events.table.rows, decide (0 < e.stream_position) = true :=
    fun e he => decide_eq_true (hpositioned e he).1
  refine Table.select_congr fun e he => congrArg (r.selects p e && ·) ?_
  rw [hcursor] at hnow
  cases hlast : rows.getLast? with
  | none =>
    rw [hlast] at hnow
    cases hnow
    rw [List.getLast?_eq_none_iff.mp hlast, Start.behind, hpos e he]
    simp
  | some last =>
    rw [hlast, Option.map_some, Option.getD_some, start,
      if_neg (history_cursor_ne_empty k last.toEvent)] at hnow
    cases hdecode : decode k (history_cursor k last.toEvent) with
    | error err =>
      rw [hdecode] at hnow
      cases hnow
    | ok c =>
      rw [hdecode, decode_history_cursor hdecode] at hnow
      cases hnow
      rw [Start.behind, hpos e he, Bool.true_and, Option.all_some]
      exact decide_eq_decide.mpr (hreading.last hlast e).symm

/-- **A page of the history** goes on from what was read; with the last one everything that
was there at the first was read. -/
theorem history_page (db₀ : Database) {cursor : String} (hpositioned : Positioned db)
    (hreading : Paging.Reading db.webhook_events.table (r.selects p) WebhookEvent.depth rows)
    (hwhole : Paging.Whole db.webhook_events.table (from_page p r db₀) WebhookEvent.depth rows)
    (hcursor : cursor = (rows.getLast?.map (fun e => history_cursor k e.toEvent)).getD "")
    (hpage : db.list k p (r.next cursor limit) = .ok page) :
    ∃ more, page.events = more.map WebhookEvent.toEvent
      ∧ Paging.Reading db.webhook_events.table (r.selects p) WebhookEvent.depth (rows ++ more)
      ∧ Paging.Whole db.webhook_events.table (from_page p r db₀) WebhookEvent.depth (rows ++ more)
      ∧ (page.next_cursor.isEmpty = false → ∃ last, (rows ++ more).getLast? = some last
        ∧ page.next_cursor = history_cursor k last.toEvent)
      ∧ (page.next_cursor.isEmpty = true → ∀ e ∈ db.webhook_events.table.rows,
        from_page p r db₀ e = true → e ∈ rows ++ more) := by
  obtain ⟨s₁, hnow, -, ⟨hnone, hevents, hnext⟩ | ⟨hevents, hnext⟩⟩ := list_eq_ok hpage
  · refine ⟨[], hevents, by rwa [List.append_nil], by rwa [List.append_nil], fun hmore => ?_,
      fun _ e he hscope => ?_⟩
    · rw [hnext] at hmore
      cases hmore
    · rw [from_page, Bool.and_eq_true] at hscope
      have howns := (selects_project hscope.1).1
      rw [snapshot_none hnone he] at howns
      cases howns
  · set n := (r.next cursor limit).size false with hn
    have hrows := history_rows_eq hpositioned hreading hcursor hnow
    set more := Paging.page db.webhook_events.table (r.selects p) WebhookEvent.depth rows n
      with hmore
    have hlong : db.history_rows p (r.next cursor limit) s₁
        = Paging.page db.webhook_events.table (r.selects p) WebhookEvent.depth rows (n + 1) :=
      hrows _
    have htake : (db.history_rows p (r.next cursor limit) s₁).take n = more := by
      rw [hlong, hmore, Paging.page, Paging.page, Table.take_select (Nat.le_succ n)]
    have hsub : ∀ e, from_page p r db₀ e = true → r.selects p e = true := by
      intro e he
      rw [from_page, Bool.and_eq_true] at he
      exact he.1
    have hsep := depth_separates (r := r) (p := p) db
    rw [htake] at hevents hnext
    -- a page that has more has a last event
    have hfull : n < (db.history_rows p (r.next cursor limit) s₁).length →
        ∃ last, more.getLast? = some last ∧ page.next_cursor = history_cursor k last.toEvent := by
      intro hlt
      cases hlast : more.getLast? with
      | none =>
        have hlength := congrArg List.length (List.getLast?_eq_none_iff.mp hlast)
        rw [← htake, List.length_take, List.length_nil] at hlength
        have hpos := size_pos (r.next cursor limit) false
        omega
      | some last =>
        rw [if_pos hlt, hlast] at hnext
        exact ⟨last, rfl, hnext⟩
    refine ⟨more, hevents, hreading.append_page hsep, hwhole.append_page hsub hsep,
      fun hgoing => ?_,
      fun hlast e he hscope => ?_⟩
    · by_cases hlt : n < (db.history_rows p (r.next cursor limit) s₁).length
      · obtain ⟨last, hlast, hcursor'⟩ := hfull hlt
        exact ⟨last, by rw [List.getLast?_append, hlast]; rfl, hcursor'⟩
      · rw [hnext, if_neg hlt] at hgoing
        cases hgoing
    · by_cases hlt : n < (db.history_rows p (r.next cursor limit) s₁).length
      · obtain ⟨last, -, hcursor'⟩ := hfull hlt
        rw [hcursor', String.isEmpty_iff] at hlast
        exact (history_cursor_ne_empty k last.toEvent hlast).elim
      · rw [not_lt] at hlt
        have hmore' : Paging.page db.webhook_events.table (r.selects p) WebhookEvent.depth rows
            (n + 1) = more := by
          rw [← htake, hlong, List.take_of_length_le (hlong ▸ hlt)]
        rw [← hmore']
        exact hwhole.rest hsub (Nat.lt_succ_of_le (hlong ▸ hlt)) he hscope

theorem Walks.later {db₀ : Database} {x : Walker} (h : Walks k db p r db₀ x rows)
    (hlater : Later db db') : Walks k db' p r db₀ x rows := by
  have hold : ∀ e ∈ db'.webhook_events.table.rows, from_page p r db₀ e = true →
      e ∈ db.webhook_events.table.rows := by
    intro e he hscope
    rw [from_page, Bool.and_eq_true, Option.isSome_iff_exists] at hscope
    obtain ⟨-, e₀, he₀⟩ := hscope
    obtain ⟨hmem, hkey⟩ := Table.find_eq_some.mp he₀
    have hmem' := h.since.kept e₀ hmem
    rw [List.inj_on_of_nodup_map db'.webhook_events.table.nodup he (hlater.kept e₀ hmem')
      hkey.symm]
    exact hmem'
  exact ⟨h.since.trans hlater, h.snapshot, h.events, h.reading.grow hlater.kept,
    h.whole.grow fun e he hscope => .inl (hold e he hscope), h.going,
    fun hcomplete e he hscope => h.complete hcomplete e (hold e he hscope) hscope⟩

/-- What a client that walks the history keeps, from its first page on. -/
def Walking (k : Chrono) (p : Principal) (r : ListRequest) (x : System × Walker) : Prop :=
  Positioned x.1.db ∧ (x.2 = Walker.init ∨ ∃ db₀ rows, Positioned db₀
    ∧ Walks k x.1.db p r db₀ x.2 rows)

theorem turn_walking {x : System × Walker} {turn : Turn} (hturn : turn.ordered x)
    (h : Walking k p r x) : Walking k p r (history_turn month k p r x turn) := by
  obtain ⟨hpositioned, hwalk⟩ := h
  cases turn with
  | step op =>
    refine ⟨step_positioned hturn hpositioned, hwalk.imp_right ?_⟩
    rintro ⟨db₀, rows, hpositioned₀, hwalks⟩
    exact ⟨db₀, rows, hpositioned₀, hwalks.later (step_later hturn)⟩
  | read limit =>
    rw [history_turn]
    split
    · exact ⟨hpositioned, hwalk⟩
    next hgoing =>
      rw [Bool.not_eq_true] at hgoing
      split
      · exact ⟨hpositioned, hwalk⟩
      next page hpage =>
        refine ⟨hpositioned, .inr ?_⟩
        obtain hinit | ⟨db₀, rows, hpositioned₀, hwalks⟩ := hwalk
        · -- the first page names where the stream stands
          rw [hinit] at hpage ⊢
          obtain ⟨more, hevents, hreading, hwhole, hnext, hdone⟩ :=
            history_page x.1.db hpositioned Paging.reading_nil Paging.whole_nil rfl hpage
          obtain ⟨-, -, hnamed, -⟩ := list_eq_ok hpage
          exact ⟨x.1.db, more, hpositioned, .of_eq rfl, congrArg some hnamed, hevents, hreading,
            hwhole, hnext, hdone⟩
        · obtain ⟨last, hlast, hcursor⟩ := hwalks.going hgoing
          obtain ⟨more, hevents, hreading, hwhole, hnext, hdone⟩ :=
            history_page db₀ hpositioned hwalks.reading hwalks.whole
              (by rw [hlast, hcursor]; rfl) hpage
          refine ⟨db₀, rows ++ more, hpositioned₀, hwalks.since, ?_, ?_, hreading, hwhole, hnext,
            hdone⟩
          · rw [hwalks.snapshot]
            rfl
          · rw [hevents, hwalks.events, List.map_append]

theorem run_walking (hpositioned : Positioned s.db)
    (hturns : Machine.Meets (history_turn month k p r) (fun x turn => turn.ordered x)
      (s, Walker.init) turns) :
    Walking k p r (Machine.run (history_turn month k p r) (s, Walker.init) turns) :=
  hturns.keeps (I := Walking k p r) (fun _ _ hturn h => turn_walking hturn h)
    ⟨hpositioned, .inl rfl⟩

/-- **What a complete walk misses** is behind the position that its first page named. -/
theorem missed_behind {db₀ : Database} {x : Walker} (h : Walks k db p r db₀ x rows)
    (hcomplete : x.complete = true) (hpositioned₀ : Positioned db₀) (hlater : Later db db')
    (hpositioned : Positioned db') :
    ∃ s₀, start k true (db₀.named p) = .ok s₀ ∧ ∀ e ∈ db'.webhook_events.table.rows,
      r.selects p e = true → e ∉ rows → from_start p r s₀ e = true := by
  have hnew : ∀ e ∈ db'.webhook_events.table.rows, r.selects p e = true → e ∉ rows →
      ∀ e₀ ∈ db₀.webhook_events.table.rows, e₀.project_id = e.project_id →
        e₀.stream_position < e.stream_position := by
    intro e he hselects hmissed
    rcases ((h.since.trans hlater).new e he) with hold | hafter
    · refine (hmissed (h.complete hcomplete e (h.since.kept e hold) ?_)).elim
      rw [from_page, hselects, Table.find_eq_some.mpr ⟨hold, rfl⟩]
      rfl
    · exact hafter
  cases hsnapshot : db₀.snapshot p with
  | none =>
    refine ⟨⟨0, none⟩, by rw [Database.named, hsnapshot]; rfl, fun e he hselects _ => ?_⟩
    rw [from_start, hselects, Start.before, decide_eq_true (hpositioned e he).1]
    rfl
  | some last =>
    obtain ⟨hlast, howns⟩ := snapshot_some hsnapshot
    obtain ⟨hpos, hmax, hid⟩ := hpositioned₀ last hlast
    refine ⟨⟨last.stream_position, none⟩, ?_, fun e he hselects hmissed => ?_⟩
    · rw [Database.named, hsnapshot, Option.elim_some, start_stream_cursor hpos hmax hid]
    · have hproject : last.project_id = p.project_id := by
        rw [Principal.owns, Bool.and_eq_true, decide_eq_true_eq] at howns
        exact howns.1
      have hlt := hnew e he hselects hmissed last hlast
        (hproject.trans (selects_project hselects).2.symm)
      rw [from_start, hselects, Start.before, decide_eq_true hlt]
      rfl

/-! ## Nothing is lost -/

theorem run_positioned {ops : List Op}
    (hops : Machine.Meets (step month) (fun s op => op.ordered s) System.init ops) :
    Positioned (Machine.run (step month) System.init ops).db :=
  hops.keeps (I := fun s => Positioned s.db) (fun _ _ hop h => step_positioned hop h)
    (fun e he => by cases he)

theorem stream_whole {x : System × Reader} (hstart : start k true c₀ = .ok s₀)
    (h : Streaming p r c₀ s₀ x) (hpage : x.1.db.stream k p (r.next x.2.cursor limit) = .ok page)
    (hlast : page.has_more = false) (he : e ∈ x.1.db.webhook_events.table.rows)
    (hscope : from_start p r s₀ e = true) : e.toEvent ∈ x.2.events ++ page.events := by
  obtain ⟨hpositioned, rows, hfollows⟩ := h
  obtain ⟨more, hnext, -, hall⟩ := stream_page hfollows hpositioned hstart hpage
  have hevents : x.2.events ++ page.events = (rows ++ more).map WebhookEvent.toEvent :=
    hnext.events
  rw [hevents]
  exact List.mem_map_of_mem (hall hlast e he hscope)

/-- **Events are not lost.** Positions are given out in order within a project. A client of
the stream is given events of its filter in strictly increasing position, behind its start,
each once, with a cursor to go on with; and with a page that has no more it has been given
every event of its filter behind its start. What a complete walk of the history has missed
is behind the position of its first page, and given to a client that streams from there. -/
theorem events_not_lost (month : ℤ → String) (k : Chrono) (p : Principal) (r : ListRequest)
    (ops : List Op)
    (hops : Machine.Meets (step month) (fun s op => op.ordered s) System.init ops) :
    let s := Machine.run (step month) System.init ops
    (∀ c₀ s₀, start k true c₀ = .ok s₀ → ∀ turns,
      Machine.Meets (stream_turn month k p r) (fun x turn => turn.ordered x) (s, ⟨c₀, []⟩) turns →
      let x := Machine.run (stream_turn month k p r) (s, ⟨c₀, []⟩) turns
      x.2.events.Pairwise (fun e e' => e.stream_position < e'.stream_position)
      ∧ (∀ e ∈ x.2.events, ∃ row ∈ x.1.db.webhook_events.table.rows, row.toEvent = e
        ∧ r.selects p row = true ∧ s₀.position < e.stream_position)
      ∧ (∃ s₁, start k true x.2.cursor = .ok s₁)
      ∧ ∀ limit page, x.1.db.stream k p (r.next x.2.cursor limit) = .ok page →
        page.has_more = false → ∀ e ∈ x.1.db.webhook_events.table.rows,
          r.selects p e = true → s₀.before e = true → e.toEvent ∈ x.2.events ++ page.events)
    ∧ ∀ turns,
      Machine.Meets (history_turn month k p r) (fun x turn => turn.ordered x) (s, Walker.init)
        turns →
      let w := Machine.run (history_turn month k p r) (s, Walker.init) turns
      w.2.complete = true → ∃ c s₀, w.2.snapshot = some c ∧ start k true c = .ok s₀
        ∧ ∀ turns',
          Machine.Meets (stream_turn month k p r) (fun x turn => turn.ordered x) (w.1, ⟨c, []⟩)
            turns' →
          let x := Machine.run (stream_turn month k p r) (w.1, ⟨c, []⟩) turns'
          ∀ e ∈ x.1.db.webhook_events.table.rows, r.selects p e = true →
            e.toEvent ∉ w.2.events → s₀.before e = true
            ∧ ∀ limit page, x.1.db.stream k p (r.next x.2.cursor limit) = .ok page →
              page.has_more = false → e.toEvent ∈ x.2.events ++ page.events := by
  intro s
  have hpositioned : Positioned s.db := run_positioned hops
  refine ⟨fun c₀ s₀ hstart turns hturns => ?_, fun turns hturns => ?_⟩
  · intro x
    have hstreaming : Streaming p r c₀ s₀ x := run_streaming hpositioned hstart hturns
    obtain ⟨hpositioned', rows, hfollows⟩ := hstreaming
    refine ⟨?_, fun e he => ?_, start_next hfollows hpositioned' hstart,
      fun limit page hpage hlast e he hselects hbefore =>
        stream_whole hstart ⟨hpositioned', rows, hfollows⟩ hpage hlast he ?_⟩
    · rw [hfollows.events]
      exact List.pairwise_map.mpr hfollows.reading.sorted
    · rw [hfollows.events] at he
      obtain ⟨row, hrow, rfl⟩ := List.mem_map.mp he
      obtain ⟨hmem, hselects⟩ := hfollows.reading.stored row hrow
      exact ⟨row, hmem, rfl, hselects, hfollows.after row hrow⟩
    · rw [from_start, hselects, hbefore]
      rfl
  · intro w hcomplete
    obtain ⟨hpositioned', hinit | ⟨db₀, rows, hpositioned₀, hwalks⟩⟩ :=
      run_walking (k := k) (p := p) (r := r) hpositioned hturns
    · rw [hinit] at hcomplete
      cases hcomplete
    · obtain ⟨s₀, hstart, -⟩ := missed_behind hwalks hcomplete hpositioned₀ (.of_eq rfl)
        hpositioned'
      refine ⟨db₀.named p, s₀, hwalks.snapshot, hstart, fun turns' hturns' => ?_⟩
      intro x e he hselects hmissed
      have hstreaming : Streaming p r (db₀.named p) s₀ x :=
        run_streaming hpositioned' hstart hturns'
      have hlater : Later w.1.db x.1.db := run_later hturns'
      obtain ⟨s₁, hstart', hbehind⟩ := missed_behind hwalks hcomplete hpositioned₀ hlater
        hstreaming.1
      rw [hstart] at hstart'
      cases hstart'
      have hscope := hbehind e he hselects fun hmem => hmissed (by
        rw [hwalks.events]
        exact List.mem_map_of_mem hmem)
      exact ⟨(from_start_selects hscope).2, fun limit page hpage hlast =>
        stream_whole hstart hstreaming hpage hlast he hscope⟩

/-! ## A run -/

namespace Sample

/-- The text of the first second; other times are numbers. -/
def rfc3339 (t : ℤ) : String :=
  if t = 0 then "1970-01-01T00:00:00Z"
  else if t < 0 then "-"
  else String.ofList (Decimal.write t.toNat)

def of_rfc3339 (text : String) : Option ℤ :=
  if text = "1970-01-01T00:00:00Z" then some 0
  else (Decimal.read text.toList).map Int.ofNat

theorem written_digits {t : ℤ} (h : 0 < t) :
    of_rfc3339 (String.ofList (Decimal.write t.toNat)) = some t := by
  have hne : String.ofList (Decimal.write t.toNat) ≠ "1970-01-01T00:00:00Z" := by
    intro heq
    have hmem : 'Z' ∈ Decimal.write t.toNat := by
      rw [← String.toList_ofList (l := Decimal.write t.toNat), heq]
      decide
    exact absurd (Decimal.mem_write hmem).1 (by decide)
  rw [of_rfc3339, if_neg hne, String.toList_ofList, Decimal.read_write, Option.map_some,
    Int.ofNat_eq_natCast, Int.toNat_of_nonneg h.le]

theorem of_rfc3339_rfc3339 {t : ℤ} (h : 0 ≤ t) : of_rfc3339 (rfc3339 t) = some t := by
  rw [rfc3339]
  split
  next hzero => rw [hzero]; rfl
  next hzero => rw [if_neg (by omega), written_digits (by omega)]

def chrono : Chrono where
  to_rfc3339_opts := rfc3339
  parse_from_rfc3339 := of_rfc3339
  parse_sound t t' h := by
    by_cases hneg : t < 0
    · rw [rfc3339, if_neg (by omega), if_pos hneg] at h
      cases h
    · rw [of_rfc3339_rfc3339 (not_lt.mp hneg)] at h
      exact (Option.some.inj h).symm
  parse_complete t h _ := of_rfc3339_rfc3339 h
  short t h h' := by
    rw [rfc3339]
    split
    · decide
    · have hdigits : (Decimal.write t.toNat).length ≤ 18 := by
        rw [year_10000] at h'
        exact Decimal.length_write (by omega) (by decide)
      rw [if_neg (by omega), ← Json.length_bytes_toList, String.toList_ofList,
        Json.length_plain fun c hc => (Decimal.mem_write hc).2]
      omega
  written t := by
    rw [rfc3339]
    split
    · decide
    · split
      · decide
      · rw [String.toList_ofList]
        refine ⟨no_bar _, fun hhead => ?_⟩
        exact absurd (Decimal.mem_write (List.mem_of_mem_head? hhead)).1 (by decide)

def principal : Principal := ⟨"p", none, .All, .All⟩

def request : ListRequest := ⟨"", 0, "", "", ""⟩

def accept (position : ℤ) (id : Uuid) (key operation : String) : Op :=
  .accept 0 position [id] ⟨"p", "telegram", "c"⟩ ⟨key, operation, .object [], 2⟩ none none

def months : ℤ → String := fun _ => "1970-01"

def accepted : List Op :=
  [.connect ⟨"c", "p", "telegram", .ApiKey, .Active, "s", .Unknown, "brand", .Brand⟩,
    accept 1 ⟨"00000000000000000000000000000001", by decide, by decide⟩ "k" "messages.list",
    accept 2 ⟨"00000000000000000000000000000002", by decide, by decide⟩ "l" "messages.send"]

/-- Pages of one event; a third event is accepted between the two. -/
def walk : List Turn :=
  [.read 1,
    .step (accept 3 ⟨"00000000000000000000000000000003", by decide, by decide⟩ "m" "messages.read"),
    .read 1]

theorem accepted_ordered :
    Machine.Meets (step months) (fun s op => op.ordered s) System.init accepted := by
  refine ⟨trivial, ⟨by decide, by decide, fun e he => ?_⟩, ⟨by decide, by decide, ?_⟩, trivial⟩
  · cases he
  · decide

def walked : System × Walker :=
  Machine.run (history_turn months chrono principal request)
    (Machine.run (step months) System.init accepted, Walker.init) walk

theorem walk_ordered : Machine.Meets (history_turn months chrono principal request)
    (fun x turn => turn.ordered x) (Machine.run (step months) System.init accepted, Walker.init)
    walk := by
  refine ⟨trivial, ⟨by decide, by decide, ?_⟩, trivial, trivial⟩
  decide

theorem walked_facts : walked.2.complete = true
    ∧ walked.2.events.map Event.operation = ["messages.send", "messages.list"]
    ∧ (∃ e ∈ walked.1.db.webhook_events.table.rows,
      request.selects principal e = true ∧ e.operation = "messages.read")
    ∧ (walked.1.db.stream chrono principal
      (request.next (walked.2.snapshot.getD "") 1)).map EventPage.has_more = .ok false := by
  decide

/-- The walk gives the two events that were there, and the stream from its snapshot the
third. -/
theorem accepted_streamed :
    walked.2.events.map Event.operation = ["messages.send", "messages.list"]
      ∧ ∃ c page, walked.2.snapshot = some c
        ∧ walked.1.db.stream chrono principal (request.next c 1) = .ok page
        ∧ ∃ e ∈ page.events, e.operation = "messages.read" := by
  obtain ⟨hcomplete, hevents, ⟨e, he, hselects, hoperation⟩, hmore⟩ := walked_facts
  unfold walked at hcomplete
  obtain ⟨x, hx⟩ : ∃ x, x = walked := ⟨_, rfl⟩
  rw [← hx] at hevents he hmore ⊢
  obtain ⟨c, s₀, hc, -, hstream⟩ := (events_not_lost months chrono principal request accepted
    accepted_ordered).2 walk walk_ordered hcomplete
  -- nothing below looks into the run
  rw [walked] at hx
  rw [← hx] at hc hstream
  have hmissed : e.toEvent ∉ x.2.events := by
    intro hmem
    have hgiven := List.mem_map_of_mem (f := Event.operation) hmem
    rw [hevents, show e.toEvent.operation = "messages.read" from hoperation] at hgiven
    revert hgiven
    decide
  rw [hc, Option.getD_some] at hmore
  refine ⟨hevents, c, ?_⟩
  cases hpage : x.1.db.stream chrono principal (request.next c 1) with
  | error err =>
    rw [hpage] at hmore
    cases hmore
  | ok page =>
    rw [hpage] at hmore
    have hgiven := (hstream [] trivial e he hselects hmissed).2 1 page hpage (Except.ok.inj hmore)
    exact ⟨page, hc, rfl, e.toEvent, hgiven, hoperation⟩

end Sample

end Appcall.Events
