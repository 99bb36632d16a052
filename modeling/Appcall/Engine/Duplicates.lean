/-
A second start of a run: `insert_run`, `PostgresStore::insert`, `Engine::start`
and the route `POST /runs` of `crates/appcall-engine-http/src/lib.rs`.

Both stores seal the history of a record before they reach the primary key of its
run, and they count the rows already sealed under its id to do so. For an id that
is taken these rows belong to the other run. A new run has no history to seal, so
as soon as the run in place has one sealed event the insert stops at `history
shrink`, an invalid request, and never gets to the conflict the primary key stands
for. This file says exactly which inserts do get there.
-/
import Mathlib.Algebra.Order.BigOperators.Group.List
import Appcall.Engine.Runs
import Appcall.Engine.Postgres

set_option autoImplicit false

namespace Appcall.Durable

/-! ## What is checked before the primary key -/

/-- The checks an insert passes before it looks at the runs: the revision fits its
column, the record resolves at least the events already sealed under its id, and
it is within the caps. -/
structure Admits (codec : Codec) (sealed_events : ℕ) (run : RunRecord) : Prop where
  revision : fits_i64 run.revision = true
  resolves : sealed_events ≤ seal_end run.history
  length : run.history.length ≤ HISTORY_CAP
  bytes : ((run.history.take (seal_end run.history)).map codec.event_len).sum
    + codec.record_len { run with history := run.history.drop (seal_end run.history) }
      ≤ RECORD_CAP

variable {s : SqliteStore} {run : RunRecord} {id : String} {h : List HistoryEvent}

theorem Admits.append_sealed (h : Admits s.codec (s.sealed_count run.id) run) :
    ∃ s', s.append_sealed run.id run.history (s.sealed_count run.id) (seal_end run.history)
      = .ok s' ∧ s'.codec = s.codec := by
  unfold SqliteStore.append_sealed
  simp only
  rw [if_neg]
  · split
    · exact ⟨_, rfl, rfl⟩
    · exact ⟨_, rfl, rfl⟩
  · have hlen := h.length
    have hseal := seal_end_le run.history
    have hle := h.resolves
    have hsum := h.bytes
    rw [Bool.or_eq_true, not_or]
    refine ⟨?_, ?_⟩
    · -- an event that is too long alone would be too long in the sum
      rw [List.any_eq_true]
      rintro ⟨event, hmem, hlong⟩
      have hmem' := List.mem_of_mem_drop hmem
      have hone := List.single_le_sum
        (l := (run.history.take (seal_end run.history)).map s.codec.event_len)
        (fun _ _ => Nat.zero_le _) _ (List.mem_map_of_mem hmem')
      rw [decide_eq_true_iff] at hlong
      omega
    · rw [decide_eq_true_iff, List.length_drop, List.length_take]
      omega

theorem persist_history_iff (hrev : fits_i64 run.revision = true) :
    (∃ out, s.persist_history run = .ok out) ↔ Admits s.codec (s.sealed_count run.id) run := by
  constructor
  · rintro ⟨⟨s', body⟩, hok⟩
    obtain ⟨-, -, -, -, hle, hcap, -⟩ := persist_history_ok hok
    refine ⟨hrev, hle, hcap, ?_⟩
    unfold SqliteStore.persist_history at hok
    simp only [bind, Except.bind, throw, throwThe, MonadExceptOf.throw] at hok
    rw [if_neg (by omega)] at hok
    cases ha : s.append_sealed run.id run.history (s.sealed_count run.id)
        (seal_end run.history) with
    | error e => rw [ha] at hok; cases hok
    | ok s1 =>
      rw [ha] at hok
      have hcodec := (append_sealed_ok ha).2.2.1
      unfold SqliteStore.encode_body at hok
      simp only at hok
      rw [if_neg (by omega), hcodec] at hok
      by_contra hbig
      rw [if_pos (by omega : _ + _ > RECORD_CAP), ite_self] at hok
      cases hok
  · intro h
    obtain ⟨s1, ha, hcodec⟩ := h.append_sealed
    have hle := h.resolves
    have hlen := h.length
    have hsum := h.bytes
    unfold SqliteStore.persist_history
    simp only [bind, Except.bind, throw, throwThe, MonadExceptOf.throw]
    rw [if_neg (by omega), ha]
    unfold SqliteStore.encode_body
    simp only
    rw [if_neg (by omega), hcodec, if_neg (by omega), if_neg (by omega)]
    exact ⟨_, rfl⟩

theorem persist_history_error {e : Error} (h : s.persist_history run = .error e) :
    e ≠ .Conflict ∧ e ≠ .Nondeterminism := by
  unfold SqliteStore.persist_history at h
  simp only [bind, Except.bind, throw, throwThe, MonadExceptOf.throw] at h
  split at h
  · cases h
    simp
  · cases ha : s.append_sealed run.id run.history (s.sealed_count run.id)
        (seal_end run.history) with
    | error e' =>
      rw [ha] at h
      cases h
      unfold SqliteStore.append_sealed at ha
      simp only at ha
      split at ha
      · cases ha
        simp
      · split at ha <;> cases ha
    | ok s1 =>
      rw [ha] at h
      simp only at h
      cases hb : s1.encode_body run (seal_end run.history) with
      | ok body => rw [hb] at h; cases h
      | error e' =>
        rw [hb] at h
        cases h
        rw [encode_body_error hb]
        simp

theorem insert_run_error {e : Error} (h : s.insert_run run = .error e) : e ≠ .Nondeterminism := by
  unfold SqliteStore.insert_run at h
  simp only [bind, Except.bind, throw, throwThe, MonadExceptOf.throw, pure, Except.pure] at h
  split at h
  · cases h
    intro h
    cases h
  · cases hp : s.persist_history run with
    | error e =>
      rw [hp] at h
      cases h
      exact (persist_history_error hp).2
    | ok out =>
      rw [hp] at h
      simp only at h
      split at h
      · cases h
        intro h
        cases h
      · cases h

/-! ## Inserts of a run that is there -/

theorem insert_run_conflict_iff {s : SqliteStore} {run : RunRecord} {row : Row}
    (hl : s.engine_runs.lookup run.id = some row) :
    s.insert_run run = .error .Conflict ↔ Admits s.codec (s.sealed_count run.id) run := by
  unfold SqliteStore.insert_run
  simp only [bind, Except.bind, throw, throwThe, MonadExceptOf.throw]
  by_cases hrev : fits_i64 run.revision = true
  · rw [if_neg (by rw [hrev]; decide), ← persist_history_iff hrev]
    cases hp : s.persist_history run with
    | error e =>
      have hne := (persist_history_error hp).1
      constructor
      · intro h
        exact absurd (Except.error.inj h) hne
      · rintro ⟨out, hout⟩
        cases hout
    | ok out =>
      obtain ⟨s', body⟩ := out
      have hruns := (persist_history_ok hp).1
      simp only [hruns, hl]
      exact ⟨fun _ => ⟨_, rfl⟩, fun _ => trivial⟩
  · rw [Bool.not_eq_true] at hrev
    rw [if_pos (by rw [hrev]; rfl)]
    constructor
    · intro h
      cases h
    · intro h
      rw [h.revision] at hrev
      cases hrev

theorem postgres_insert_conflict_iff {p : PostgresStore} {row : Row}
    (hl : p.appcall_workflow_runs.lookup run.id = some row) : p.insert run = .error .Conflict ↔
      p.appcall_workflow_owner ≠ p.epoch ∨ Admits p.codec (p.sealed_count run.id) run := by
  rw [PostgresStore.insert_eq]
  by_cases hf : p.appcall_workflow_owner ≠ p.epoch
  · rw [if_pos hf]
    exact ⟨fun _ => .inl hf, fun _ => rfl⟩
  · rw [if_neg hf]
    have hiff := @insert_run_conflict_iff p.tables run row hl
    -- `safe` only rewords storage errors, so it neither makes nor hides a conflict
    have hword : p.answer (p.tables.insert_run run) = .error .Conflict
        ↔ p.tables.insert_run run = .error .Conflict := by
      cases p.tables.insert_run run with
      | ok s => exact iff_of_false (fun h => by cases h) (fun h => by cases h)
      | error e =>
        unfold PostgresStore.answer
        cases e <;> simp [PostgresStore.worded, safe]
    rw [hword, hiff]
    exact ⟨fun h => .inr h, fun h => h.resolve_left hf⟩

/-! ## The route -/

/-- `HttpAdapter`, past its bearer token: the engine it serves and the scope of
its run ids. -/
structure HttpAdapter where
  engine : Engine
  scope : Option String

/-- The decoded body of `POST /runs`. -/
structure Start where
  id : String
  workflow : String
  version : String
  input : PayloadRef

def HttpAdapter.run_id (a : HttpAdapter) (id : String) : String :=
  match a.scope with
  | none => id
  | some scope => scope ++ "/" ++ id

/-- The status and code `handle` answers an error with. -/
def error_response : Error → ℕ × String
  | .NotFound => (404, "not_found")
  | .Conflict | .Nondeterminism => (409, "conflict")
  | .Invalid _ => (400, "invalid_request")
  | .Limit => (413, "limit")
  | .Unavailable => (503, "unavailable")
  | .Storage _ => (500, "storage_failure")

/-- The arm of `route` for `POST /runs`, as `handle` answers it. -/
def HttpAdapter.post_runs (a : HttpAdapter) (p : Start) (outages : List (Option String)) :
    ℕ × HttpAdapter :=
  match Step.exec ⟨.start (a.run_id p.id) p.workflow p.version p.input, outages⟩ a.engine with
  | (.ok _, engine) => (201, { a with engine })
  | (.error error, engine) => ((error_response error).1, { a with engine })

/-! ## Starts of a run that is there -/

/-- The record `start` inserts, once its identifiers are valid. -/
def started (id name version : String) (input : PayloadRef) : RunRecord :=
  { id, parent := none, workflow := name, version, input, state := .Running,
    failure_reason := none, revision := 0, history := [], tasks := [], signals := [],
    children := [], output := none, wakeup := some 0, reconciliation_audit := [],
    continued_as := none }

/-- The requests `start` takes to the store, and the store can encode. -/
def Acceptable (codec : Codec) (id name version : String) (input : PayloadRef) : Prop :=
  valid_identifier id = true ∧ valid_identifier name = true ∧ valid_identifier version = true
    ∧ codec.record_len (started id name version input) ≤ RECORD_CAP

theorem new_run_eq (id name version : String) (input : PayloadRef) :
    new_run id name version input =
      if valid_identifier id = true ∧ valid_identifier name = true
        ∧ valid_identifier version = true
      then .ok (started id name version input)
      else .error (.Invalid "invalid opaque identifier") := by
  unfold new_run validate
  by_cases h1 : valid_identifier id = true
  · by_cases h2 : valid_identifier name = true
    · by_cases h3 : valid_identifier version = true
      · simp only [h1, h2, h3]
        rfl
      · simp only [h1, h2, h3]
        rfl
    · simp only [h1, h2]
      rfl
  · simp only [h1]
    rfl

theorem admits_started {codec : Codec} {n : ℕ} {name version : String} {input : PayloadRef} :
    Admits codec n (started id name version input) ↔
      n = 0 ∧ codec.record_len (started id name version input) ≤ RECORD_CAP := by
  constructor
  · intro h
    refine ⟨Nat.le_zero.mp h.resolves, ?_⟩
    have hb := h.bytes
    simp only [started, List.take_nil, List.map_nil, List.sum_nil, Nat.zero_add,
      List.drop_nil] at hb
    exact hb
  · rintro ⟨rfl, hb⟩
    refine ⟨rfl, Nat.zero_le _, Nat.zero_le _, ?_⟩
    simp only [started, List.take_nil, List.map_nil, List.sum_nil, Nat.zero_add, List.drop_nil]
    exact hb

theorem start_exec (e : Engine) (id name version : String) (input : PayloadRef) :
    Step.exec ⟨.start id name version input, []⟩ e =
      match new_run id name version input with
      | .error error => (.error error, e.under [])
      | .ok run =>
        match (e.under []).store.insert_run run with
        | .error error => (.error error, e.under [])
        | .ok store => (.ok .unit, { e.under [] with store }) := by
  unfold Step.exec
  simp only [perform, start]
  cases new_run id name version input with
  | error error => rfl
  | ok run =>
    have hset : ∀ x : Except Error SqliteStore,
        (((result x >>= fun store => set { e.under [] with store }) >>=
          fun _ => pure Reply.unit : EngineM Reply) (e.under []))
        = match x with
          | .error error => (.error error, e.under [])
          | .ok store => (.ok .unit, { e.under [] with store }) := by
      intro x
      cases x <;> rfl
    exact hset ((e.under []).store.insert_run run)

theorem seal_end_resolved (hr : Resolved h) : seal_end h = h.length := by
  refine Nat.le_antisymm (seal_end_le _) (le_seal_end (Nat.le_refl _) ?_)
  rw [List.take_length]
  exact hr

theorem seal_end_append_open (hr : Resolved h) {e : HistoryEvent} (he : e.value = none) :
    seal_end (h ++ [e]) = h.length := by
  have hlen := seal_end_resolved hr
  unfold seal_end at hlen ⊢
  rw [List.findIdx_append, if_neg (by omega)]
  simp [he]

theorem WellFormed.sealed_count_eq (hw : WellFormed s) (h : s.load id = .ok run) :
    s.sealed_count id = seal_end run.history := by
  rw [hw.load_eq] at h
  unfold SqliteStore.view at h
  cases hl : s.engine_runs.lookup id with
  | none => rw [hl] at h; cases h
  | some row =>
    rw [hl] at h
    cases h
    have hres := hw.sealed_resolved id
    show (s.load_sealed id).length = seal_end (s.load_sealed id ++ row.record.history)
    rcases hw.tail id row hl with ht | ⟨e, ht, hopen⟩
    · rw [ht, List.append_nil, seal_end_resolved hres]
    · rw [ht, seal_end_append_open hres hopen]

theorem insert_run_taken {row : Row} (hl : s.engine_runs.lookup run.id = some row) :
    ∃ e, s.insert_run run = .error e := by
  cases hi : s.insert_run run with
  | error e => exact ⟨e, rfl⟩
  | ok s' =>
    obtain ⟨-, -, -, hnone, -⟩ := SqliteStore.insert_run_inv hi
    rw [hl] at hnone
    cases hnone

theorem lookup_of_load (h : s.load id = .ok run) : ∃ row, s.engine_runs.lookup id = some row := by
  unfold SqliteStore.load at h
  cases hl : s.engine_runs.lookup id with
  | none => rw [hl] at h; cases h
  | some row => exact ⟨row, rfl⟩

theorem start_taken {e : Engine} (he : Reachable e) {id name version : String}
    {input : PayloadRef} {run : RunRecord} (hrun : e.store.load id = .ok run) :
    ∃ error, Step.exec ⟨.start id name version input, []⟩ e = (.error error, e.under [])
      ∧ error ≠ .Nondeterminism
      ∧ (error = .Conflict ↔ Acceptable e.store.codec id name version input
          ∧ seal_end run.history = 0) := by
  obtain ⟨row, hl⟩ := lookup_of_load hrun
  have hcount := he.wellFormed.sealed_count_eq hrun
  rw [start_exec, new_run_eq]
  unfold Acceptable
  by_cases hvalid : valid_identifier id = true ∧ valid_identifier name = true
      ∧ valid_identifier version = true
  · rw [if_pos hvalid]
    obtain ⟨h1, h2, h3⟩ := hvalid
    have hl' : (e.under []).store.engine_runs.lookup (started id name version input).id
        = some row := hl
    obtain ⟨error, hi⟩ := insert_run_taken hl'
    have hiff := insert_run_conflict_iff hl'
    rw [hi, admits_started] at hiff
    simp only [hi]
    refine ⟨error, rfl, ?_, ?_⟩
    · exact insert_run_error hi
    · rw [← hcount]
      constructor
      · intro hc
        rw [hc] at hiff
        obtain ⟨hz, hb⟩ := hiff.mp rfl
        exact ⟨⟨h1, h2, h3, hb⟩, hz⟩
      · rintro ⟨⟨-, -, -, hb⟩, hz⟩
        exact Except.error.inj (hiff.mpr ⟨hz, hb⟩)
  · rw [if_neg hvalid]
    refine ⟨_, rfl, (fun h => by cases h), ?_⟩
    refine iff_of_false (fun h => by cases h) ?_
    rintro ⟨⟨h1, h2, h3, -⟩, -⟩
    exact hvalid ⟨h1, h2, h3⟩

/-- **When a duplicate start is a conflict.** On either store, exactly when the
record passes the checks that come before the primary key: above all, it resolves
as many events as are sealed under its id. For a start, whose history is empty,
that is when the run in place has no sealed event; the route answers 409 exactly
then. The store is left as it was in every case. -/
theorem duplicate_start_conflict_iff (s : SqliteStore) (q : PostgresStore) (a : HttpAdapter) :
    (∀ (run : RunRecord) (row : Row), s.engine_runs.lookup run.id = some row →
      (s.insert_run run = .error .Conflict ↔ Admits s.codec (s.sealed_count run.id) run))
    ∧ (∀ (run : RunRecord) (row : Row), q.appcall_workflow_runs.lookup run.id = some row →
      (q.insert run = .error .Conflict ↔
        q.appcall_workflow_owner ≠ q.epoch ∨ Admits q.codec (q.sealed_count run.id) run))
    ∧ (∀ (p : Start) (run : RunRecord), Reachable a.engine →
      a.engine.store.load (a.run_id p.id) = .ok run →
      ((Step.exec ⟨.start (a.run_id p.id) p.workflow p.version p.input, []⟩ a.engine).1
          = .error .Conflict ↔
        Acceptable a.engine.store.codec (a.run_id p.id) p.workflow p.version p.input
          ∧ seal_end run.history = 0)
      ∧ ((a.post_runs p []).1 = 409 ↔
        Acceptable a.engine.store.codec (a.run_id p.id) p.workflow p.version p.input
          ∧ seal_end run.history = 0)
      ∧ (a.post_runs p []).2.engine = a.engine.under []) := by
  refine ⟨fun run row hl => insert_run_conflict_iff hl,
    fun run row hl => postgres_insert_conflict_iff hl, fun p run he hrun => ?_⟩
  obtain ⟨error, hexec, hnd, hiff⟩ :=
    @start_taken _ he _ p.workflow p.version p.input _ hrun
  unfold HttpAdapter.post_runs
  rw [hexec, ← hiff]
  refine ⟨⟨fun h => Except.error.inj h, fun h => by rw [h]⟩, ?_, rfl⟩
  show (error_response error).1 = 409 ↔ _
  cases error <;> simp_all [error_response]

/-- The server store on the tables of an engine, in the session that owns them. -/
def Sample.server (e : Engine) : PostgresStore :=
  { appcall_workflow_runs := e.store.engine_runs
    appcall_workflow_history := e.store.engine_history
    appcall_workflow_owner := e.store.epoch, epoch := e.store.epoch, codec := e.store.codec }

/-- A run that was started and not driven: its second start is a conflict. -/
theorem duplicate_start_of_new_run :
    (Step.exec ⟨.start "run" "w" "1" Sample.payload, []⟩
        (Sample.host (Sample.start Sample.siblings))).1 = .error .Conflict
      ∧ (HttpAdapter.post_runs ⟨Sample.host (Sample.start Sample.siblings), none⟩
          ⟨"run", "w", "1", Sample.payload⟩ []).1 = 409 := by
  have hrun : (Sample.host (Sample.start Sample.siblings)).store.load "run"
      = .ok (started "run" "w" "1" Sample.payload) := by
    decide +kernel
  have hok : Acceptable (Sample.host (Sample.start Sample.siblings)).store.codec "run" "w" "1"
      Sample.payload := by
    refine ⟨by decide, by decide, by decide, ?_⟩
    decide +kernel
  obtain ⟨-, -, hall⟩ := duplicate_start_conflict_iff
    (Sample.host (Sample.start Sample.siblings)).store
    (Sample.server (Sample.host (Sample.start Sample.siblings)))
    ⟨Sample.host (Sample.start Sample.siblings), none⟩
  obtain ⟨h1, h2, -⟩ := hall ⟨"run", "w", "1", Sample.payload⟩ _ (Sample.host_reachable _) hrun
  exact ⟨h1.mpr ⟨hok, rfl⟩, h2.mpr ⟨hok, rfl⟩⟩

/-- **A duplicate start that is no conflict.** One drive seals the first command of
the run; a second start of it is then an invalid request, on both stores and over
HTTP. -/
theorem duplicate_start_not_conflict :
    Reachable (Sample.host (Sample.start Sample.siblings ++ [Sample.drive "run" 0]))
      ∧ (Sample.host (Sample.start Sample.siblings ++ [Sample.drive "run" 0])).store.load "run"
        ≠ .error .NotFound
      ∧ (Step.exec ⟨.start "run" "w" "1" Sample.payload, []⟩
          (Sample.host (Sample.start Sample.siblings ++ [Sample.drive "run" 0]))).1
        = .error (.Invalid "history shrink")
      ∧ (HttpAdapter.post_runs
          ⟨Sample.host (Sample.start Sample.siblings ++ [Sample.drive "run" 0]), none⟩
          ⟨"run", "w", "1", Sample.payload⟩ []).1 = 400
      ∧ (match (Sample.server (Sample.host
            (Sample.start Sample.siblings ++ [Sample.drive "run" 0]))).insert
            (started "run" "w" "1" Sample.payload) with
          | .error e => some e
          | .ok _ => none) = some (.Invalid "history shrink") := by
  refine ⟨Sample.host_reachable _, ?_, ?_, ?_, ?_⟩ <;> decide +kernel

end Appcall.Durable
