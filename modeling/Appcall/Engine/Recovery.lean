/-
Opening a database again: `SqliteStore::open`, `PostgresStore::from_client` and
the column `recoverable` they go by.

The owner of a database may die between any two commits. The next one raises the
epoch, which cuts off every attempt handed out before, and makes due the running
runs that have something to recover: one whose cancellation was under way, or one
with a task that was ready or with an executor. Which these are is read from a
flag that `insert` and `commit` write beside the blob, so that an open does not
decode every blob; a database from before the flag gets it once, for its running
runs, by `ensure_recoverable_column`.

The states of a store are those its calls and its opens lead to (`Served`). One
rule (`Served.rows`) says what every row of such a state satisfies, from what is
true of a row that is written; the flag and the bound on epochs are instances of it.
-/
import Appcall.Engine.Layout
import Appcall.Engine.Tasks

set_option autoImplicit false

namespace Appcall.Durable

/-! ## Databases without the flag -/

/-- A row of the table of runs without its `recoverable` column. -/
structure LegacyRow where
  revision : ℕ
  state : RowState
  wakeup : Option ℤ
  record : RunRecord

structure LegacyStore where
  engine_runs : AList (fun _ : String => LegacyRow)
  engine_history : AList (fun _ : String => List HistoryEvent)
  epoch : ℕ
  codec : Codec

/-- The row with its new column. The default of the column is unset, and the
backfill visits the running rows only. -/
def LegacyRow.upgraded (row : LegacyRow) : Row :=
  let recover := decide (row.state = .running) && requires_recovery row.record
  { revision := row.revision, state := row.state,
    wakeup := if recover then some 0 else row.wakeup,
    record := row.record, recoverable := recover }

/-- `ensure_recoverable_column` on a database without the column, run to its end. -/
def LegacyStore.ensure_recoverable_column (d : LegacyStore) : SqliteStore :=
  { engine_runs := ⟨d.engine_runs.entries.map (.map id (fun _ => LegacyRow.upgraded)),
      d.engine_runs.nodupKeys.map₂ _⟩
    engine_history := d.engine_history, epoch := d.epoch, codec := d.codec, outages := [] }

theorem LegacyStore.lookup_upgraded (d : LegacyStore) (id : String) :
    d.ensure_recoverable_column.engine_runs.lookup id
      = (d.engine_runs.lookup id).map LegacyRow.upgraded :=
  List.dlookup_map₂ id

/-- The columns a row has in every version of the table. -/
def Row.base (row : Row) : LegacyRow :=
  { revision := row.revision, state := row.state, wakeup := row.wakeup, record := row.record }

/-- The row an open leaves of a row it finds. -/
def LegacyRow.recovered (row : LegacyRow) : LegacyRow :=
  if row.state = .running ∧ requires_recovery row.record = true then
    { row with wakeup := some 0 }
  else row

/-- The tasks of a record were handed out in an epoch up to `epoch`. -/
def Stamped (epoch : ℕ) (run : RunRecord) : Prop :=
  ∀ task ∈ run.tasks, task.attempt.owner_epoch ≤ epoch

/-- What an earlier version left: the state column is that of the blob, and no
attempt is from an epoch that has not begun. -/
structure LegacyStore.Sound (d : LegacyStore) : Prop where
  column : ∀ id row, d.engine_runs.lookup id = some row → row.state = state row.record
  stamped : ∀ id row, d.engine_runs.lookup id = some row → Stamped d.epoch row.record

/-! ## The rows after an open -/

theorem SqliteStore.lookup_wake (s : SqliteStore) (x id : String) :
    (s.wake x).engine_runs.lookup id = (s.engine_runs.lookup id).map (fun row =>
      if id = x ∧ row.state = .running then { row with wakeup := some 0 } else row) := by
  unfold SqliteStore.wake
  cases hl : s.engine_runs.lookup x with
  | none =>
    simp only
    by_cases hid : id = x
    · rw [hid, hl]
      rfl
    · simp [hid]
  | some row =>
    simp only
    by_cases hid : id = x
    · subst hid
      by_cases hrun : row.state = .running
      · rw [if_pos hrun, hl]
        show (s.engine_runs.insert id _).lookup id = _
        rw [AList.lookup_insert]
        simp [hrun]
      · rw [if_neg hrun, hl]
        simp [hrun]
    · split
      · show (s.engine_runs.insert x _).lookup id = _
        rw [AList.lookup_insert_ne hid]
        simp [hid]
      · simp [hid]

theorem SqliteStore.lookup_foldl_wake (s : SqliteStore) (ids : List String) (id : String) :
    (ids.foldl SqliteStore.wake s).engine_runs.lookup id = (s.engine_runs.lookup id).map
      (fun row =>
        if id ∈ ids ∧ row.state = .running then { row with wakeup := some 0 } else row) := by
  induction ids generalizing s with
  | nil => simp
  | cons x ids ih =>
    rw [List.foldl_cons, ih, s.lookup_wake, Option.map_map]
    congr 1
    funext row
    simp only [Function.comp_apply, List.mem_cons]
    by_cases hrun : row.state = .running
    · by_cases hx : id = x <;> by_cases hin : id ∈ ids <;> simp [hx, hin, hrun]
    · simp [hrun]

theorem foldl_wake_epoch (s : SqliteStore) (ids : List String) :
    (ids.foldl SqliteStore.wake s).epoch = s.epoch := by
  induction ids generalizing s with
  | nil => rfl
  | cons x ids ih =>
    rw [List.foldl_cons, ih]
    unfold SqliteStore.wake
    split
    · split <;> rfl
    · rfl

variable {s : SqliteStore} {row : Row} {d : LegacyStore} {children : List RunRecord}
  (p : PostgresStore) {m : Machine} {l : Label} {e : Engine}

/-- The row an open leaves, flag included. -/
def Row.recovered (row : Row) : Row :=
  if row.state = .running ∧ requires_recovery row.record = true then
    { row with wakeup := some 0 }
  else row

theorem Row.recovered_base (row : Row) : row.recovered.base = row.base.recovered := by
  unfold Row.recovered LegacyRow.recovered Row.base
  simp only
  split <;> rfl

/-- **An open, row by row**, where the flags of the running runs can be trusted. -/
theorem SqliteStore.lookup_reopen {failed : ℕ} {id : String}
    (hflag : ∀ row, s.engine_runs.lookup id = some row → row.state = .running →
      row.recoverable = requires_recovery row.record) :
    (s.reopen failed).engine_runs.lookup id = (s.engine_runs.lookup id).map Row.recovered := by
  show (s.recovery_ids.foldl SqliteStore.wake s).engine_runs.lookup id = _
  rw [s.lookup_foldl_wake]
  cases hl : s.engine_runs.lookup id with
  | none => rfl
  | some row =>
    simp only [Option.map_some, SqliteStore.mem_recovery_ids hl]
    congr 1
    unfold Row.recovered
    by_cases hrun : row.state = .running
    · rw [← hflag row hl hrun]
      by_cases hf : row.recoverable = true
      · by_cases hw : row.wakeup = some 0
        · rw [if_neg (fun h => h.1.2.2 hw), if_pos ⟨hrun, hf⟩, ← hw]
        · rw [if_pos ⟨⟨hrun, hf, hw⟩, hrun⟩, if_pos ⟨hrun, hf⟩]
      · rw [if_neg (fun h => hf h.1.2.1), if_neg (fun h => hf h.2)]
    · rw [if_neg (fun h => hrun h.2), if_neg (fun h => hrun h.1)]

/-! ## The states of a store -/

/-- What the two stores have in common for their callers. -/
structure Backend (S : Type) where
  answer : S → StoreCall → Except Error S
  opened : S → S → Prop
  owner_epoch : S → ℕ
  rows : S → String → Option Row

section Served

variable {S : Type} (b : Backend S)

/-- The states a store goes through from one of `start`: calls that succeed, with
records whose attempts are from the epochs so far, and opens. -/
inductive Served (start : S → Prop) : S → Prop where
  | start {s : S} : start s → Served start s
  | call {s s' : S} {call : StoreCall} : Served start s →
      (∀ run ∈ call.written, Stamped (b.owner_epoch s) run) → b.answer s call = .ok s' →
      Served start s'
  | opened {s s' : S} : Served start s → b.opened s s' → Served start s'

/-- A row that was there, up to its wakeup. -/
def Moved (rows : String → Option Row) (id : String) (row' : Row) : Prop :=
  ∃ row w, rows id = some row ∧ row' = { row with wakeup := w }

/-- The row of one of the records written, up to its wakeup. -/
def WrittenRow (records : List RunRecord) (row' : Row) : Prop :=
  ∃ run ∈ records, ∃ h w, row' = { row_of run { run with history := h } with wakeup := w }

/-- What the statements do to the rows: a call leaves a row as it was up to its
wakeup, or writes the row of one of its records; an open moves wakeups and raises
the epoch. -/
structure Backend.Lawful : Prop where
  answered : ∀ s s' call, b.answer s call = .ok s' → b.owner_epoch s' = b.owner_epoch s
    ∧ ∀ id row', b.rows s' id = some row' →
      Moved (b.rows s) id row' ∨ WrittenRow call.written row'
  opened : ∀ s s', b.opened s s' → b.owner_epoch s < b.owner_epoch s'
    ∧ ∀ id row', b.rows s' id = some row' → Moved (b.rows s) id row'

variable {b}

/-- **The rule for rows.** What holds of the rows at the start, holds of every row
that is written, and neither depends on the wakeup nor is lost in a later epoch,
holds of every row of every state. -/
theorem Served.rows (hb : b.Lawful) {start : S → Prop} {P : ℕ → Row → Prop}
    (hstart : ∀ s, start s → ∀ id row, b.rows s id = some row → P (b.owner_epoch s) row)
    (hwritten : ∀ n run h, Stamped n run → P n (row_of run { run with history := h }))
    (hwake : ∀ n row w, P n row → P n { row with wakeup := w })
    (hlater : ∀ n n' row, P n row → n ≤ n' → P n' row) {s : S} (hs : Served b start s) :
    ∀ id row, b.rows s id = some row → P (b.owner_epoch s) row := by
  induction hs with
  | start h => exact hstart _ h
  | @call s s' call _ hstamped hok ih =>
    obtain ⟨hepoch, hrows⟩ := hb.answered s s' call hok
    intro id row' hrow'
    rw [hepoch]
    rcases hrows id row' hrow' with ⟨row, w, hrow, rfl⟩ | ⟨run, hrun, h, w, rfl⟩
    · exact hwake _ row w (ih id row hrow)
    · exact hwake _ _ w (hwritten _ run h (hstamped run hrun))
  | @opened s s' _ hopen ih =>
    obtain ⟨hepoch, hrows⟩ := hb.opened s s' hopen
    intro id row' hrow'
    obtain ⟨row, w, hrow, rfl⟩ := hrows id row' hrow'
    exact hwake _ row w (hlater _ _ row (ih id row hrow) (Nat.le_of_lt hepoch))

end Served

/-! ## The flag -/

/-- The flag of a run is what the blob says. -/
def Row.flagged (row : Row) : Prop := row.recoverable = requires_recovery row.record

/-- The flag is what the blob says, except for a suspended run of the old database
that has not been written since. -/
def Row.flagged_since (d : LegacyStore) (row : Row) : Prop :=
  row.flagged ∨ (row.state = .suspended ∧ row.recoverable = false
    ∧ ∃ id row0, d.engine_runs.lookup id = some row0 ∧ row0.record = row.record)

/-- The flag of a running run can be trusted. -/
def Row.flagged_running (row : Row) : Prop := row.state = .running → row.flagged

theorem Row.flagged_since.running (h : row.flagged_since d) : row.flagged_running := by
  intro hrun
  rcases h with h | ⟨hsus, -⟩
  · exact h
  · rw [hrun] at hsus
    cases hsus

theorem row_of_flagged (run : RunRecord) (h : List HistoryEvent) :
    (row_of run { run with history := h }).flagged := rfl

/-- What an open leaves: a running run with something to recover is due at zero,
every other row is as it was, and the epoch is above that of every attempt. -/
structure OpenRecovers (before after : String → Option LegacyRow) (epoch : ℕ) : Prop where
  rows : ∀ id, after id = (before id).map LegacyRow.recovered
  epoch : ∀ id row, before id = some row → ∀ task ∈ row.record.tasks,
    task.attempt.owner_epoch < epoch

/-! ## The two stores -/

/-- The embedded store. An open that dies half way leaves its epoch behind. -/
def embedded : Backend SqliteStore where
  answer := SqliteStore.answer
  opened s s' := ∃ failed, s' = s.reopen failed
  owner_epoch s := s.epoch
  rows s id := s.engine_runs.lookup id

def served_database : Backend PostgresStore where
  answer := PostgresStore.answers
  opened p p' := p' = p.from_client
  owner_epoch p := p.appcall_workflow_owner
  rows p id := p.appcall_workflow_runs.lookup id

/-- The rows of one store come from those of another and from some records. -/
def RowsFrom (s s' : SqliteStore) (records : List RunRecord) : Prop :=
  s'.epoch = s.epoch ∧ ∀ id row', s'.engine_runs.lookup id = some row' →
    Moved (embedded.rows s) id row' ∨ WrittenRow records row'

theorem RowsFrom.trans {s1 s2 : SqliteStore} {A B : List RunRecord} (h1 : RowsFrom s s1 A)
    (h2 : RowsFrom s1 s2 B) : RowsFrom s s2 (A ++ B) := by
  refine ⟨h2.1.trans h1.1, fun id row' hrow' => ?_⟩
  rcases h2.2 id row' hrow' with ⟨row, w, hrow, rfl⟩ | ⟨run, hrun, h, w, rfl⟩
  · rcases h1.2 id row hrow with ⟨row0, w0, hrow0, rfl⟩ | ⟨run, hrun, h, w0, rfl⟩
    · exact .inl ⟨row0, w, hrow0, rfl⟩
    · exact .inr ⟨run, List.mem_append_left _ hrun, h, w, rfl⟩
  · exact .inr ⟨run, List.mem_append_right _ hrun, h, w, rfl⟩

theorem RowsFrom.put {s1 : SqliteStore} {run body : RunRecord}
    (hp : s.persist_history run = .ok (s1, body)) :
    RowsFrom s { s1 with engine_runs := s1.engine_runs.insert run.id (row_of run body) } [run] := by
  obtain ⟨hruns, hep, -, -, -, -, hbody, -⟩ := persist_history_ok hp
  refine ⟨hep, fun id row' hrow' => ?_⟩
  rcases lookup_put hruns hrow' with ⟨rfl, rfl⟩ | ⟨-, hrow⟩
  · rw [hbody]
    exact .inr ⟨run, List.mem_singleton_self run, _, run.wakeup, rfl⟩
  · exact .inl ⟨row', row'.wakeup, hrow, rfl⟩

theorem RowsFrom.wake (s : SqliteStore) (x : String) : RowsFrom s (s.wake x) [] := by
  refine ⟨?_, fun id row' hrow' => ?_⟩
  · unfold SqliteStore.wake
    split
    · split <;> rfl
    · rfl
  · rw [s.lookup_wake, Option.map_eq_some_iff] at hrow'
    obtain ⟨row, hrow, rfl⟩ := hrow'
    left
    split
    · exact ⟨row, some 0, hrow, rfl⟩
    · exact ⟨row, row.wakeup, hrow, rfl⟩

theorem RowsFrom.insert_children {s' : SqliteStore} (hok : s.insert_children children = .ok s') :
    RowsFrom s s' children := by
  induction children generalizing s with
  | nil =>
    cases hok
    exact ⟨rfl, fun id row hrow => .inl ⟨row, row.wakeup, hrow, rfl⟩⟩
  | cons child children ih =>
    obtain ⟨s1, hi, hok⟩ := SqliteStore.insert_children_inv hok
    obtain ⟨s0, body, hp, -, rfl⟩ := SqliteStore.insert_run_inv hi
    have h1 := RowsFrom.put hp
    have h2 := ih hok
    exact h1.trans h2

theorem RowsFrom.answer {s' : SqliteStore} {call : StoreCall} (hok : s.answer call = .ok s') :
    RowsFrom s s' call.written := by
  cases call with
  | insert run =>
    obtain ⟨s1, body, hp, -, rfl⟩ := SqliteStore.insert_run_inv hok
    exact RowsFrom.put hp
  | commit expected run children =>
    obtain ⟨s1, body, row, s2, hp, -, -, hc, rfl⟩ := SqliteStore.commit_inv hok
    have h2 := (RowsFrom.put hp).trans (RowsFrom.insert_children hc)
    split
    · rename_i parent _ _
      have h3 := h2.trans (RowsFrom.wake s2 parent)
      rw [List.append_nil] at h3
      exact h3
    · exact h2

theorem embedded_lawful : embedded.Lawful where
  answered s s' call hok := RowsFrom.answer hok
  opened s s' hopen := by
    obtain ⟨failed, rfl⟩ := hopen
    refine ⟨?_, fun id row' hrow' => ?_⟩
    · have hep : (s.recovery_ids.foldl SqliteStore.wake s).epoch = s.epoch :=
        foldl_wake_epoch s s.recovery_ids
      show s.epoch < (s.recovery_ids.foldl SqliteStore.wake s).epoch + failed + 1
      omega
    · change (s.recovery_ids.foldl SqliteStore.wake s).engine_runs.lookup id = some row' at hrow'
      rw [s.lookup_foldl_wake, Option.map_eq_some_iff] at hrow'
      obtain ⟨row, hrow, rfl⟩ := hrow'
      split
      · exact ⟨row, some 0, hrow, rfl⟩
      · exact ⟨row, row.wakeup, hrow, rfl⟩

theorem PostgresStore.foldl_wake_eq (s : SqliteStore) (ids : List String) :
    ids.foldl PostgresStore.wake (p.with_tables s)
      = p.with_tables (ids.foldl SqliteStore.wake s) := by
  induction ids generalizing s with
  | nil => rfl
  | cons x ids ih => rw [List.foldl_cons, List.foldl_cons, PostgresStore.wake_eq, ih]

theorem PostgresStore.recovery_ids_eq : p.recovery_ids = p.tables.recovery_ids := by
  unfold PostgresStore.recovery_ids SqliteStore.recovery_ids
  congr 1
  refine List.filter_congr (fun entry _ => ?_)
  cases entry.2.wakeup <;> simp

/-- A connection numbers itself and then wakes what an open of the embedded store does. -/
theorem PostgresStore.from_client_eq :
    p.from_client = ({ p with
      appcall_workflow_owner := p.appcall_workflow_owner + 1
      epoch := p.appcall_workflow_owner + 1 } : PostgresStore).with_tables
        (p.tables.recovery_ids.foldl SqliteStore.wake
          { p.tables with epoch := p.appcall_workflow_owner + 1 }) := by
  unfold PostgresStore.from_client PostgresStore.recover_running
  simp only
  rw [← PostgresStore.foldl_wake_eq, PostgresStore.recovery_ids_eq]
  rfl

theorem PostgresStore.lookup_from_client (id : String) :
    p.from_client.appcall_workflow_runs.lookup id
      = (p.tables.reopen 0).engine_runs.lookup id := by
  rw [p.from_client_eq]
  show (p.tables.recovery_ids.foldl SqliteStore.wake _).engine_runs.lookup id
    = (p.tables.recovery_ids.foldl SqliteStore.wake p.tables).engine_runs.lookup id
  rw [SqliteStore.lookup_foldl_wake, SqliteStore.lookup_foldl_wake]

theorem PostgresStore.from_client_epochs :
    p.from_client.appcall_workflow_owner = p.appcall_workflow_owner + 1
      ∧ p.from_client.epoch = p.appcall_workflow_owner + 1 := by
  rw [p.from_client_eq]
  exact ⟨rfl, rfl⟩

theorem served_database_lawful : served_database.Lawful where
  answered p p' call hok := by
    obtain ⟨s', hs', rfl⟩ := PostgresStore.answers_inv hok
    exact ⟨rfl, (RowsFrom.answer hs').2⟩
  opened p p' hopen := by
    subst hopen
    refine ⟨?_, fun id row' hrow' => ?_⟩
    · show p.appcall_workflow_owner < p.from_client.appcall_workflow_owner
      rw [p.from_client_epochs.1]
      exact Nat.lt_succ_self _
    · change p.from_client.appcall_workflow_runs.lookup id = some row' at hrow'
      rw [p.lookup_from_client] at hrow'
      exact (embedded_lawful.opened p.tables _ ⟨0, rfl⟩).2 id row' hrow'

/-! ## Databases at the start -/

def NewStore (s : SqliteStore) : Prop := ∃ codec, s = SqliteStore.create codec

/-- A new database of the server store: its tables, and nobody's epoch. -/
def NewDatabase (p : PostgresStore) : Prop := ∃ codec, p = ⟨∅, ∅, 0, 0, codec⟩

/-- The database `d` from before the flag, upgraded to the end. -/
def UpgradedStore (d : LegacyStore) (s : SqliteStore) : Prop := s = d.ensure_recoverable_column

/-- `ensure_recoverable_column` of the server store. -/
def LegacyStore.server (d : LegacyStore) : PostgresStore :=
  { appcall_workflow_runs := d.ensure_recoverable_column.engine_runs
    appcall_workflow_history := d.engine_history
    appcall_workflow_owner := d.epoch, epoch := d.epoch, codec := d.codec }

def UpgradedDatabase (d : LegacyStore) (p : PostgresStore) : Prop := p = d.server

theorem LegacyStore.Sound.rows (hd : d.Sound) {id : String}
    (hrow : d.ensure_recoverable_column.engine_runs.lookup id = some row) :
    row.flagged_since d ∧ Stamped d.epoch row.record := by
  rw [d.lookup_upgraded, Option.map_eq_some_iff] at hrow
  obtain ⟨row0, h0, rfl⟩ := hrow
  refine ⟨?_, hd.stamped id row0 h0⟩
  cases hst : row0.state with
  | running =>
    left
    show (decide (row0.state = .running) && requires_recovery row0.record) = _
    rw [hst]
    rfl
  | suspended =>
    right
    refine ⟨hst, ?_, id, row0, h0, rfl⟩
    show (decide (row0.state = .running) && requires_recovery row0.record) = false
    rw [hst]
    rfl

theorem LegacyRow.upgraded_recovered (row : LegacyRow) :
    row.upgraded.recovered.base = row.recovered := by
  unfold LegacyRow.upgraded Row.recovered LegacyRow.recovered Row.base
  simp only
  by_cases hc : row.state = .running ∧ requires_recovery row.record = true
  · rw [if_pos hc, if_pos hc]
  · rw [if_neg hc, if_neg hc]
    have hb : (decide (row.state = .running) && requires_recovery row.record) = false := by
      rw [Bool.and_eq_false_iff]
      by_cases hrun : row.state = .running
      · exact .inr (Bool.eq_false_iff.mpr (fun h => hc ⟨hrun, h⟩))
      · exact .inl (decide_eq_false hrun)
    rw [hb]
    rfl

/-! ## Recovery -/

section Recovery

variable {S : Type}

/-- The rows of a state without the flag. -/
def Backend.base (b : Backend S) (s : S) (id : String) : Option LegacyRow :=
  (b.rows s id).map Row.base

/-- **Recovery by the flag**: the flag of every row is right, in the sense of
`flag`, in every state from `start`, and every open from there recovers. -/
structure RecoveryHolds (b : Backend S) (start : S → Prop) (flag : Row → Prop) : Prop where
  flags : ∀ s, Served b start s → ∀ id row, b.rows s id = some row → flag row
  opens : ∀ s s', Served b start s → b.opened s s' →
    OpenRecovers (b.base s) (b.base s') (b.owner_epoch s')

theorem OpenRecovers.of_recovered {b : Backend S} {s s' : S} {n epoch : ℕ}
    (hrows : ∀ id, b.rows s' id = (b.rows s id).map Row.recovered)
    (hst : ∀ id row, b.rows s id = some row → Stamped n row.record) (hlt : n < epoch) :
    OpenRecovers (b.base s) (b.base s') epoch := by
  refine ⟨fun id => ?_, fun id row hrow task htask => ?_⟩
  · unfold Backend.base
    rw [hrows id, Option.map_map, Option.map_map]
    congr 1
    funext row
    exact row.recovered_base
  · unfold Backend.base at hrow
    rw [Option.map_eq_some_iff] at hrow
    obtain ⟨row0, hrow0, rfl⟩ := hrow
    have hle := hst id row0 hrow0 task htask
    omega

/-- An open recovers whatever it finds, as long as the flags of running runs can be
trusted; this is how the two stores open. -/
def Backend.Recovering (b : Backend S) : Prop :=
  ∀ s s', b.opened s s' → (∀ id row, b.rows s id = some row → row.flagged_running) →
    ∀ id, b.rows s' id = (b.rows s id).map Row.recovered

theorem RecoveryHolds.of_rows {b : Backend S} (hb : b.Lawful) (hr : b.Recovering)
    {start : S → Prop} {flag : Row → Prop}
    (hstart : ∀ s, start s → ∀ id row, b.rows s id = some row →
      flag row ∧ Stamped (b.owner_epoch s) row.record)
    (hwritten : ∀ run h, flag (row_of run { run with history := h }))
    (hwake : ∀ row w, flag row → flag { row with wakeup := w })
    (hrunning : ∀ row, flag row → row.flagged_running) : RecoveryHolds b start flag := by
  -- the flag and the epochs of the attempts, together along every run of the store
  have hall : ∀ s, Served b start s → ∀ id row, b.rows s id = some row →
      flag row ∧ Stamped (b.owner_epoch s) row.record := fun s hs =>
    hs.rows hb (P := fun n row => flag row ∧ Stamped n row.record) hstart
      (fun n run h hst => ⟨hwritten run h, hst⟩)
      (fun n row w h => ⟨hwake row w h.1, h.2⟩)
      (fun n n' row h hle => ⟨h.1, fun task ht => Nat.le_trans (h.2 task ht) hle⟩)
  refine ⟨fun s hs id row hrow => (hall s hs id row hrow).1, fun s s' hs hopen => ?_⟩
  have hrows := hr s s' hopen (fun id row hrow => hrunning row (hall s hs id row hrow).1)
  have hlt := (hb.opened s s' hopen).1
  exact .of_recovered hrows (fun id row hrow => (hall s hs id row hrow).2) hlt

end Recovery

theorem embedded_recovering : embedded.Recovering := by
  rintro s s' ⟨failed, rfl⟩ hflag id
  exact SqliteStore.lookup_reopen (hflag id)

theorem served_database_recovering : served_database.Recovering := by
  intro p p' hopen hflag id
  cases hopen
  show p.from_client.appcall_workflow_runs.lookup id = _
  rw [p.lookup_from_client]
  exact SqliteStore.lookup_reopen (hflag id)

/-! ## The attempts of a running engine -/

theorem TaskMove.owner_epoch_le {id : String} {t t' : ActivityTask} (h : TaskMove m id l t t')
    (hle : t.attempt.owner_epoch ≤ m.epoch) : t'.attempt.owner_epoch ≤ m.epoch := by
  cases h with
  | kept ha _ => rw [ha]; exact hle
  | rejected _ ha _ => rw [ha]; exact hle
  | missing _ ha _ => rw [ha]; exact hle
  | invoked _ ha _ => rw [ha]; exact hle
  | completed _ _ ha _ => rw [ha]; exact hle
  | failed _ _ ha _ => rw [ha]; exact hle
  | interrupted _ ha _ => rw [ha]; exact hle
  | resolved _ ha _ => rw [ha]; exact hle
  | retried _ _ ha _ => rw [ha]; exact hle
  | dispatched _ ha _ => rw [ha]

theorem Change.stamped {r r' : RunRecord} (h : Change m l r r' children) (hr : Stamped m.epoch r) :
    Stamped m.epoch r' := by
  obtain ⟨base, hgrown, hmoves⟩ := h.tasks
  have hbase : ∀ t ∈ base, t.attempt.owner_epoch ≤ m.epoch := by
    rcases hgrown with rfl | ⟨index, name, version, input, policy, -, rfl⟩
    · exact hr
    · intro t ht
      rcases List.mem_append.mp ht with h1 | h1
      · exact hr t h1
      · rw [List.mem_singleton.mp h1]
        exact Nat.le_refl _
  intro t' ht'
  obtain ⟨i, hi⟩ := List.getElem?_of_mem ht'
  obtain ⟨t, ht, hmove⟩ := (forall₂_getElem? hmoves).2 t' hi
  exact hmove.owner_epoch_le (hbase t (List.mem_of_getElem? ht))

theorem Trans.epoch_le {m' : Machine} (h : Trans m l m') : m.epoch ≤ m'.epoch := by
  cases h with
  | restart failed => show m.epoch ≤ m.epoch + failed + 1; omega
  | _ => exact Nat.le_refl _

theorem Trans.stamped {m' : Machine} (h : Trans m l m')
    (hm : ∀ id en, m.runs id = some en → Stamped m.epoch en.record) {id : String} {en : Entry}
    (hen : m'.runs id = some en) : Stamped m'.epoch en.record := by
  have hle := h.epoch_le
  rcases h.backward hen with ⟨c, hr⟩ | ⟨r, c, run, children, hr, -, hc, heq⟩ | ⟨-, hn, -⟩
  · exact fun task htask => Nat.le_trans (hm id _ hr task htask) hle
  · rw [heq]
    exact fun task htask => Nat.le_trans (hc.stamped (hm id _ hr) task htask) hle
  · intro task htask
    rw [hn.tasks] at htask
    cases htask

theorem Reachable.stamped (h : Reachable e) {id : String} {en : Entry}
    (hr : e.machine.runs id = some en) : Stamped e.store.epoch en.record := by
  refine Reachable.invariant
    (I := fun m => ∀ id en, m.runs id = some en → Stamped m.epoch en.record) ?_ ?_ h id en hr
  · intro m hm id en hen
    rw [hm id] at hen
    cases hen
  · exact fun m l m' ht hI id en hen => ht.stamped hI hen

theorem Reachable.row_stamped (h : Reachable e) {id : String}
    (hl : e.store.engine_runs.lookup id = some row) : Stamped e.store.epoch row.record := by
  have hv : e.machine.runs id = some ⟨{ row.record with
      history := e.store.load_sealed id ++ row.record.history }, row.wakeup⟩ := by
    show e.store.view id = _
    unfold SqliteStore.view
    rw [hl]
    rfl
  exact h.stamped hv

/-! ## Polling after an open -/

/-- `runnable` answers every due row, unless there are more than it was asked for. -/
theorem mem_runnable {now : ℤ} {limit : ℕ} {ids : List String} {id : String}
    (hok : s.runnable now limit = .ok ids) (hl : s.engine_runs.lookup id = some row)
    (hdue : row.due now = true)
    (hfew : (s.engine_runs.entries.filter (fun entry => entry.2.due now)).length ≤ limit) :
    id ∈ ids := by
  unfold SqliteStore.runnable at hok
  split at hok
  · cases hok
  · cases hok
    have hmem : (⟨id, row⟩ : Sigma _) ∈ s.engine_runs.entries.filter
        (fun entry => entry.2.due now) :=
      List.mem_filter.mpr ⟨AList.mem_lookup_iff.mp hl, hdue⟩
    rw [List.take_of_length_le (by
      rw [List.length_insertionSort, List.length_map]
      exact hfew)]
    refine List.mem_map.mpr ⟨(row.wakeup.getD 0, id), ?_, rfl⟩
    rw [List.mem_insertionSort]
    exact List.mem_map.mpr ⟨⟨id, row⟩, hmem, rfl⟩

theorem Row.due_of_zero {row : Row} (hrun : row.state = .running) (hw : row.wakeup = some 0)
    {now : ℤ} (hnow : 0 ≤ now) : row.due now = true := by
  unfold Row.due
  rw [hrun, hw]
  simpa using hnow

theorem recovered_runnable {failed : ℕ}
    (hflag : ∀ id row, s.engine_runs.lookup id = some row → row.flagged_running) {id : String}
    (hl : s.engine_runs.lookup id = some row) (hrun : row.state = .running)
    (hrec : requires_recovery row.record = true) {now : ℤ} (hnow : 0 ≤ now) {limit : ℕ}
    {ids : List String} (hok : (s.reopen failed).runnable now limit = .ok ids)
    (hfew : ((s.reopen failed).engine_runs.entries.filter
      (fun entry => entry.2.due now)).length ≤ limit) : id ∈ ids := by
  have hl' := embedded_recovering s _ ⟨failed, rfl⟩ hflag id
  change (s.reopen failed).engine_runs.lookup id
    = (s.engine_runs.lookup id).map Row.recovered at hl'
  rw [hl, Option.map_some] at hl'
  have hr : row.recovered = { row with wakeup := some 0 } := by
    unfold Row.recovered
    rw [if_pos ⟨hrun, hrec⟩]
  rw [hr] at hl'
  have hdue : ({ row with wakeup := some 0 } : Row).due now = true :=
    @Row.due_of_zero { row with wakeup := some 0 } hrun rfl now hnow
  exact mem_runnable hok hl' hdue hfew

/-! ## The results -/

theorem new_store_recovery : RecoveryHolds embedded NewStore Row.flagged := by
  refine RecoveryHolds.of_rows embedded_lawful embedded_recovering ?_ row_of_flagged
    (fun _ _ h => h) (fun _ h _ => h)
  rintro s ⟨codec, rfl⟩ id row hrow
  cases hrow

theorem new_database_recovery : RecoveryHolds served_database NewDatabase Row.flagged := by
  refine RecoveryHolds.of_rows served_database_lawful served_database_recovering ?_
    row_of_flagged (fun _ _ h => h) (fun _ h _ => h)
  rintro p ⟨codec, rfl⟩ id row hrow
  cases hrow

theorem upgraded_store_recovery (hd : d.Sound) :
    RecoveryHolds embedded (UpgradedStore d) (Row.flagged_since d) := by
  refine RecoveryHolds.of_rows embedded_lawful embedded_recovering ?_
    (fun run h => .inl (row_of_flagged run h)) (fun _ _ h => h) (fun _ h => h.running)
  rintro s rfl id row hrow
  exact hd.rows hrow

theorem upgraded_database_recovery (hd : d.Sound) :
    RecoveryHolds served_database (UpgradedDatabase d) (Row.flagged_since d) := by
  refine RecoveryHolds.of_rows served_database_lawful served_database_recovering ?_
    (fun run h => .inl (row_of_flagged run h)) (fun _ _ h => h) (fun _ h => h.running)
  rintro p rfl id row hrow
  exact hd.rows hrow

theorem LegacyStore.recovers {after : String → Option LegacyRow} {epoch : ℕ}
    (h : OpenRecovers (embedded.base d.ensure_recoverable_column) after epoch) :
    OpenRecovers (fun id => d.engine_runs.lookup id) after epoch := by
  have hbase : ∀ id, embedded.base d.ensure_recoverable_column id
      = (d.engine_runs.lookup id).map (fun row => row.upgraded.base) := by
    intro id
    show (d.ensure_recoverable_column.engine_runs.lookup id).map Row.base = _
    rw [d.lookup_upgraded, Option.map_map]
    rfl
  refine ⟨fun id => ?_, fun id row hrow => ?_⟩
  · rw [h.rows id, hbase id, Option.map_map]
    congr 1
    funext row
    show row.upgraded.base.recovered = row.recovered
    rw [← Row.recovered_base, LegacyRow.upgraded_recovered]
  · have hb := hbase id
    rw [hrow, Option.map_some] at hb
    exact h.epoch id row.upgraded.base hb

theorem Reachable.recovers (he : Reachable e) (failed : ℕ) :
    OpenRecovers (embedded.base e.store) (embedded.base (e.store.reopen failed))
      (e.store.reopen failed).epoch := by
  have hrows := embedded_recovering e.store _ ⟨failed, rfl⟩
    (fun id row hrow _ => he.wellFormed.flag id row hrow)
  have hlt := (embedded_lawful.opened e.store _ ⟨failed, rfl⟩).1
  exact .of_recovered hrows (fun id row hrow => he.row_stamped hrow) hlt

/-- **Restart recovery is complete and minimal.** From a new database the flag of
every run is right and every open recovers exactly the running runs that need it,
above the epoch of every attempt: for the engine on the embedded store, and for
any caller of either store that stamps its attempts with the epochs so far. From
an upgraded database the same holds, except for the flag of suspended runs that
have not been written since; the open that upgrades recovers like any other. What
an open makes due is polled at any later time. -/
theorem restart_recovery :
    (∀ e, Reachable e →
      (∀ id row, e.store.engine_runs.lookup id = some row → row.flagged)
      ∧ ∀ failed, OpenRecovers (embedded.base e.store) (embedded.base (e.store.reopen failed))
        (e.store.reopen failed).epoch)
    ∧ RecoveryHolds embedded NewStore Row.flagged
    ∧ RecoveryHolds served_database NewDatabase Row.flagged
    ∧ (∀ d : LegacyStore, d.Sound →
      RecoveryHolds embedded (UpgradedStore d) (Row.flagged_since d)
      ∧ RecoveryHolds served_database (UpgradedDatabase d) (Row.flagged_since d)
      ∧ (∀ failed, OpenRecovers (fun id => d.engine_runs.lookup id)
        (embedded.base (d.ensure_recoverable_column.reopen failed))
        (d.ensure_recoverable_column.reopen failed).epoch)
      ∧ OpenRecovers (fun id => d.engine_runs.lookup id)
        (served_database.base d.server.from_client) d.server.from_client.epoch)
    ∧ ∀ s, (Served embedded NewStore s ∨ ∃ d, d.Sound ∧ Served embedded (UpgradedStore d) s) →
      ∀ failed id row, s.engine_runs.lookup id = some row → row.state = .running →
      requires_recovery row.record = true → ∀ now limit ids, 0 ≤ now →
      (s.reopen failed).runnable now limit = .ok ids →
      ((s.reopen failed).engine_runs.entries.filter (fun entry => entry.2.due now)).length
        ≤ limit → id ∈ ids := by
  refine ⟨fun e he => ⟨he.wellFormed.flag, he.recovers⟩, new_store_recovery,
    new_database_recovery, fun d hd => ⟨upgraded_store_recovery hd,
      upgraded_database_recovery hd, fun failed => ?_, ?_⟩, ?_⟩
  · refine LegacyStore.recovers ?_
    exact (upgraded_store_recovery hd).opens _ _ (.start rfl) ⟨failed, rfl⟩
  · refine LegacyStore.recovers ?_
    have h := (upgraded_database_recovery hd).opens _ _ (.start rfl) rfl
    have hepoch : served_database.owner_epoch d.server.from_client
        = d.server.from_client.epoch := by
      show d.server.from_client.appcall_workflow_owner = _
      rw [d.server.from_client_epochs.1, d.server.from_client_epochs.2]
    rw [hepoch] at h
    exact h
  · intro s hs failed id row hrow hrun hrec now limit ids hnow hok hfew
    refine recovered_runnable (fun id row hrow => ?_) hrow hrun hrec hnow hok hfew
    rcases hs with hs | ⟨d, hd, hs⟩
    · exact fun _ => new_store_recovery.flags s hs id row hrow
    · exact ((upgraded_store_recovery hd).flags s hs id row hrow).running

/-- The database of an engine, as a version without the flag would hold it. -/
def SqliteStore.legacy (s : SqliteStore) : LegacyStore :=
  { engine_runs := ⟨s.engine_runs.entries.map (.map id (fun _ => Row.base)),
      s.engine_runs.nodupKeys.map₂ _⟩
    engine_history := s.engine_history, epoch := s.epoch, codec := s.codec }

theorem SqliteStore.lookup_legacy (s : SqliteStore) (id : String) :
    s.legacy.engine_runs.lookup id = (s.engine_runs.lookup id).map Row.base :=
  List.dlookup_map₂ id

theorem Reachable.legacy_sound (he : Reachable e) : e.store.legacy.Sound := by
  constructor
  · intro id row hrow
    rw [SqliteStore.lookup_legacy, Option.map_eq_some_iff] at hrow
    obtain ⟨row0, h0, rfl⟩ := hrow
    exact he.wellFormed.column id row0 h0
  · intro id row hrow
    rw [SqliteStore.lookup_legacy, Option.map_eq_some_iff] at hrow
    obtain ⟨row0, h0, rfl⟩ := hrow
    exact he.row_stamped h0

/-- The activity of a run was rejected for want of an implementation: the run is
suspended, with its task ready. -/
def Sample.rejected : List Step :=
  Sample.start (Sample.pair .Read .Read) ++ [Sample.drive "run" 0,
    Sample.call (.reject_dispatch (Sample.attempt 0 1 1 .Read) .MissingActivityImplementation)]

/-- **A suspended run is not backfilled.** In the upgraded database the rejected run
has a ready task and no flag. -/
theorem suspended_run_not_flagged :
    Reachable (Sample.host Sample.rejected)
      ∧ (Sample.host Sample.rejected).store.legacy.Sound
      ∧ Served embedded (UpgradedStore (Sample.host Sample.rejected).store.legacy)
          (Sample.host Sample.rejected).store.legacy.ensure_recoverable_column
      ∧ ((Sample.host Sample.rejected).store.legacy.ensure_recoverable_column.engine_runs.lookup
          "run").map (fun row => (row.state, row.recoverable, requires_recovery row.record))
        = some (.suspended, false, true) := by
  refine ⟨Sample.host_reachable _, (Sample.host_reachable _).legacy_sound, .start rfl, ?_⟩
  decide +kernel

end Appcall.Durable
