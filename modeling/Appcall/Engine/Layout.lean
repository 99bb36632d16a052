/-
The split layout refines a plain table of records, on both stores.

`StoreView` reads the store of a running engine back, where every blob carries at
most one open event. A database may be older than that: rows written before the
history was split keep the whole of it in the blob, and nothing rewrites them
until their next commit. This file starts from any such mix (`Laid`) and from any
caller that writes histories once (`KeepsResolved`), and follows a plain record
store (`Plain`) beside the tables: one map from ids to records, which a call that
succeeds updates and a call that fails leaves alone.

The argument is one step lemma for a call that succeeds (`Laid.answered`) and the
induction over the calls (`served`), which both stores share.
-/
import Appcall.Engine.Postgres

set_option autoImplicit false

namespace Appcall.Durable

/-! ## Histories whose resolved events stay -/

/-- Every resolved event of `h` is in `h'`, at its place. -/
def KeepsResolved (h h' : List HistoryEvent) : Prop :=
  ∀ (i : ℕ) (e : HistoryEvent), h[i]? = some e → e.value.isSome = true → h'[i]? = some e

theorem KeepsResolved.take_append {h t h' : List HistoryEvent} (hx : KeepsResolved (h ++ t) h')
    (hr : Resolved h) : h'.take h.length = h := by
  refine List.ext_getElem? (fun i => ?_)
  rcases Nat.lt_or_ge i h.length with hi | hi
  · have hat : (h ++ t)[i]? = some h[i] := by
      rw [List.getElem?_append_left hi, List.getElem?_eq_getElem hi]
    rw [List.getElem?_take_of_lt hi, hx i h[i] hat (hr _ (List.getElem_mem hi)),
      List.getElem?_eq_getElem hi]
  · rw [List.getElem?_eq_none (by rw [List.length_take]; omega), List.getElem?_eq_none hi]

/-! ## Plain record stores -/

/-- The records a store has been told to keep. -/
abbrev Plain := String → Option RunRecord

/-- What `load` answers on a plain store. -/
def Plain.read (q : Plain) (id : String) : Except Error RunRecord :=
  match q id with
  | some run => .ok run
  | none => .error .NotFound

def Plain.write (q : Plain) (records : List RunRecord) : Plain :=
  records.foldl (fun q run => Function.update q run.id (some run)) q

/-- The calls of the trait `Store` that write. -/
inductive StoreCall where
  | insert (run : RunRecord)
  | commit (expected : ℕ) (run : RunRecord) (children : List RunRecord)

/-- The records a call writes when it succeeds. -/
def StoreCall.written : StoreCall → List RunRecord
  | .insert run => [run]
  | .commit _ run children => run :: children

/-- A committed history keeps the resolved events of the one before. -/
def StoreCall.Keeps (q : Plain) : StoreCall → Prop
  | .insert _ => True
  | .commit _ run _ => ∀ r, q run.id = some r → KeepsResolved r.history run.history

section Served

variable {S : Type} (answer : S → StoreCall → Except Error S)

/-- The store after a call: a call that fails is rolled back. -/
def serve (s : S) (call : StoreCall) : S :=
  match answer s call with
  | .ok s' => s'
  | .error _ => s

/-- The plain store beside a run of calls: the last record each id was given by a
call that succeeded. -/
def recorded (s : S) (q : Plain) : List StoreCall → Plain
  | [] => q
  | call :: calls =>
    match answer s call with
    | .ok s' => recorded s' (q.write call.written) calls
    | .error _ => recorded s q calls

/-- Every commit of the run that succeeds keeps the resolved events. -/
def WritesOnce (s : S) (q : Plain) : List StoreCall → Prop
  | [] => True
  | call :: calls =>
    match answer s call with
    | .ok s' => call.Keeps q ∧ WritesOnce s' (q.write call.written) calls
    | .error _ => WritesOnce s q calls

variable {answer}

theorem served {I : S → Plain → Prop}
    (hstep : ∀ s s' q call, I s q → answer s call = .ok s' → call.Keeps q →
      I s' (q.write call.written))
    {s : S} {q : Plain} (calls : List StoreCall) (h0 : I s q) (hw : WritesOnce answer s q calls) :
    I (calls.foldl (serve answer) s) (recorded answer s q calls) := by
  induction calls generalizing s q with
  | nil => exact h0
  | cons call calls ih =>
    rw [List.foldl_cons]
    unfold recorded serve
    unfold WritesOnce at hw
    cases ha : answer s call with
    | error e =>
      rw [ha] at hw
      exact ih h0 hw
    | ok s' =>
      rw [ha] at hw
      have h1 := hstep s s' q call h0 ha hw.1
      exact ih h1 hw.2

end Served

/-- **Refinement of a plain record store.** From a database that is laid out and
reads as `q`, a run of calls leaves one that reads as the plain store beside it;
and a call that fails changes neither a record nor a polled column. -/
structure RefinesPlain {S : Type} (answer : S → StoreCall → Except Error S)
    (load : S → String → Except Error RunRecord)
    (columns : S → String → Option (Option ℤ × Bool)) (laid : S → Prop) : Prop where
  reads : ∀ s q calls, laid s → (∀ id, load s id = q.read id) → WritesOnce answer s q calls →
    ∀ id, load (calls.foldl (serve answer) s) id = (recorded answer s q calls).read id
  failed : ∀ s call e, answer s call = .error e → ∀ id,
    load (serve answer s call) id = load s id ∧ columns (serve answer s call) id = columns s id

/-! ## The embedded store -/

def SqliteStore.answer (s : SqliteStore) : StoreCall → Except Error SqliteStore
  | .insert run => s.insert_run run
  | .commit expected run children => s.commit expected run children

/-- The polled columns of a run: its wakeup and its `recoverable` flag. -/
def SqliteStore.columns (s : SqliteStore) (id : String) : Option (Option ℤ × Bool) :=
  (s.engine_runs.lookup id).map (fun row => (row.wakeup, row.recoverable))

/-- A mix of legacy rows and new ones: a run without sealed events has its whole
history in the blob, and the sealed events of any other are resolved and fit the
cap with what the blob adds. -/
structure Laid (s : SqliteStore) : Prop where
  rows : ∀ id row, s.engine_runs.lookup id = some row → s.load_sealed id = [] ∨
    (Resolved (s.load_sealed id) ∧
      (s.load_sealed id ++ row.record.history).length ≤ HISTORY_CAP)
  orphan : ∀ id, s.engine_runs.lookup id = none → s.load_sealed id = []

variable {s s' : SqliteStore} {run : RunRecord} {children : List RunRecord} {call : StoreCall}

def SqliteStore.records (s : SqliteStore) : Plain := fun id => (s.view id).map (·.record)

theorem SqliteStore.records_some {id : String} {row : Row}
    (hl : s.engine_runs.lookup id = some row) :
    s.records id = some { row.record with history := s.load_sealed id ++ row.record.history } := by
  unfold SqliteStore.records SqliteStore.view
  rw [hl]
  rfl

theorem SqliteStore.records_none {id : String} :
    s.records id = none ↔ s.engine_runs.lookup id = none := by
  unfold SqliteStore.records
  rw [Option.map_eq_none_iff]
  exact WellFormed.view_eq_none

theorem Laid.load_eq (hs : Laid s) (id : String) : s.load id = s.records.read id := by
  unfold SqliteStore.load Plain.read
  cases hl : s.engine_runs.lookup id with
  | none => rw [SqliteStore.records_none.mpr hl]
  | some row =>
    rw [SqliteStore.records_some hl]
    simp only [assemble]
    rcases hs.rows id row hl with hnil | ⟨-, hcap⟩
    · rw [hnil]
      rfl
    · split
      · rename_i hemp
        rw [List.isEmpty_iff] at hemp
        rw [hemp]
        rfl
      · rw [if_neg (by omega)]

theorem Laid.records_eq (hs : Laid s) {q : Plain} (hq : ∀ id, s.load id = q.read id) :
    s.records = q := by
  funext id
  have h := (hs.load_eq id).symm.trans (hq id)
  unfold Plain.read at h
  cases hr : s.records id with
  | none =>
    rw [hr] at h
    cases hq' : q id with
    | none => rfl
    | some r => rw [hq'] at h; cases h
  | some r =>
    rw [hr] at h
    cases hq' : q id with
    | none => rw [hq'] at h; cases h
    | some r' =>
      rw [hq'] at h
      rw [Except.ok.inj h]

theorem Laid.put {body : RunRecord} (hs : Laid s) (hok : s.persist_history run = .ok (s', body))
    (hpre : s.load_sealed run.id = run.history.take (s.sealed_count run.id)) :
    Laid { s' with engine_runs := s'.engine_runs.insert run.id (row_of run body) }
      ∧ ({ s' with engine_runs := s'.engine_runs.insert run.id (row_of run body) }).records
          = Function.update s.records run.id (some run) := by
  obtain ⟨hruns, -, -, -, -, hcap, hbody, hsealed⟩ := persist_history_ok hok
  have hself := persist_history_sealed hok hpre
  refine ⟨⟨fun id row h => ?_, fun id h => ?_⟩, ?_⟩
  · show s'.load_sealed id = [] ∨ (Resolved (s'.load_sealed id)
      ∧ (s'.load_sealed id ++ row.record.history).length ≤ HISTORY_CAP)
    rcases lookup_put hruns h with ⟨rfl, rfl⟩ | ⟨hid, h'⟩
    · right
      refine ⟨?_, ?_⟩
      · rw [hself]
        exact resolved_take_seal_end run.history
      · simp only [row_of, hself, hbody, List.take_append_drop]
        exact hcap
    · rw [hsealed, if_neg hid]
      exact hs.rows id row h'
  · show s'.load_sealed id = []
    obtain ⟨hid, h'⟩ := lookup_put_none hruns h
    rw [hsealed, if_neg hid]
    exact hs.orphan id h'
  · funext id
    unfold SqliteStore.records
    rw [put_view hok hpre]
    by_cases hid : id = run.id
    · subst hid
      rw [Function.update_self, Function.update_self]
      rfl
    · rw [Function.update_of_ne hid, Function.update_of_ne hid]

theorem Laid.wake (hs : Laid s) (id : String) :
    Laid (s.wake id) ∧ (s.wake id).records = s.records := by
  unfold SqliteStore.wake
  cases hl : s.engine_runs.lookup id with
  | none => exact ⟨hs, rfl⟩
  | some row =>
    simp only
    split
    · refine ⟨⟨fun id' row' h => ?_, fun id' h => ?_⟩, ?_⟩
      · by_cases hid : id' = id
        · subst hid
          rw [AList.lookup_insert] at h
          cases h
          exact hs.rows id' row hl
        · rw [AList.lookup_insert_ne hid] at h
          exact hs.rows id' row' h
      · by_cases hid : id' = id
        · subst hid
          rw [AList.lookup_insert] at h
          cases h
        · rw [AList.lookup_insert_ne hid] at h
          exact hs.orphan id' h
      · funext id'
        by_cases hid : id' = id
        · subst hid
          rw [SqliteStore.records_some (AList.lookup_insert _), SqliteStore.records_some hl]
          rfl
        · unfold SqliteStore.records SqliteStore.view
          show Option.map _ (Option.map _ ((s.engine_runs.insert id
            { row with wakeup := some 0 }).lookup id')) = _
          rw [AList.lookup_insert_ne hid]
          rfl
    · exact ⟨hs, rfl⟩

theorem Laid.insert_run (hs : Laid s) (hok : s.insert_run run = .ok s') :
    Laid s' ∧ s'.records = Function.update s.records run.id (some run) := by
  obtain ⟨s1, body, hp, hl, rfl⟩ := SqliteStore.insert_run_inv hok
  have horphan := hs.orphan run.id hl
  refine hs.put hp ?_
  unfold SqliteStore.sealed_count
  rw [horphan]
  rfl

theorem Laid.insert_children (hs : Laid s) (hok : s.insert_children children = .ok s') :
    Laid s' ∧ s'.records = s.records.write children := by
  induction children generalizing s with
  | nil =>
    cases hok
    exact ⟨hs, rfl⟩
  | cons child children ih =>
    obtain ⟨s1, hi, hok⟩ := SqliteStore.insert_children_inv hok
    obtain ⟨hs1, hr1⟩ := hs.insert_run hi
    obtain ⟨hs2, hr2⟩ := ih hs1 hok
    refine ⟨hs2, ?_⟩
    rw [hr2, hr1]
    rfl

theorem Laid.commit {expected : ℕ} (hs : Laid s) (hok : s.commit expected run children = .ok s')
    (hx : ∀ r, s.records run.id = some r → KeepsResolved r.history run.history) :
    Laid s' ∧ s'.records = s.records.write (run :: children) := by
  obtain ⟨s1, body, row, s2, hp, hl, -, hc, rfl⟩ := SqliteStore.commit_inv hok
  have hext := hx _ (SqliteStore.records_some hl)
  -- the sealed events are resolved, so the new history starts with them
  have hpre : s.load_sealed run.id = run.history.take (s.sealed_count run.id) := by
    unfold SqliteStore.sealed_count
    rcases hs.rows run.id row hl with hnil | ⟨hr, -⟩
    · rw [hnil]
      rfl
    · exact (hext.take_append hr).symm
  obtain ⟨hs1, hr1⟩ := hs.put hp hpre
  obtain ⟨hs2, hr2⟩ := hs1.insert_children hc
  rw [hr1] at hr2
  split
  · rename_i parent _ _
    obtain ⟨hs3, hr3⟩ := hs2.wake parent
    exact ⟨hs3, hr3.trans hr2⟩
  · exact ⟨hs2, hr2⟩

/-- **The step.** A call that succeeds writes its records, and nothing else that
`load` reads. -/
theorem Laid.answered (hs : Laid s) (hok : s.answer call = .ok s') (hk : call.Keeps s.records) :
    Laid s' ∧ s'.records = s.records.write call.written := by
  cases call with
  | insert run => exact hs.insert_run hok
  | commit expected run children => exact hs.commit hok hk

/-! ## The server store -/

def PostgresStore.answers (p : PostgresStore) : StoreCall → Except Error PostgresStore
  | .insert run => p.insert run
  | .commit expected run children => p.commit expected run children

/-- The polled columns of a run of the server store. -/
def PostgresStore.columns (p : PostgresStore) (id : String) : Option (Option ℤ × Bool) :=
  (p.appcall_workflow_runs.lookup id).map (fun row => (row.wakeup, row.recoverable))

theorem PostgresStore.answers_inv {p p' : PostgresStore} (hok : p.answers call = .ok p') :
    ∃ s', p.tables.answer call = .ok s' ∧ p' = p.with_tables s' := by
  have hanswer : p.answer (p.tables.answer call) = .ok p' := by
    cases call with
    | insert run =>
      unfold PostgresStore.answers at hok
      simp only at hok
      rw [PostgresStore.insert_eq] at hok
      split at hok
      · cases hok
      · exact hok
    | commit expected run children =>
      unfold PostgresStore.answers at hok
      simp only at hok
      by_cases hf : p.appcall_workflow_owner = p.epoch
      · rw [PostgresStore.commit_eq p expected run children hf] at hok
        exact hok
      · obtain ⟨e, he⟩ := PostgresStore.commit_fenced hf expected run children
        rw [he] at hok
        cases hok
  cases ha : p.tables.answer call with
  | error e => rw [ha] at hanswer; cases hanswer
  | ok s' =>
    rw [ha] at hanswer
    exact ⟨s', rfl, (Except.ok.inj hanswer).symm⟩

/-! ## Both -/

theorem serve_failed {S : Type} {answer : S → StoreCall → Except Error S} {s : S} {e : Error}
    (h : answer s call = .error e) : serve answer s call = s := by
  unfold serve
  rw [h]

/-- **The split history is a plain record store.** From any mix of legacy and new
rows, and for any calls that write histories once, `load` answers the record of
the last call that succeeded for the id, on both stores. -/
theorem split_history_refines :
    RefinesPlain SqliteStore.answer SqliteStore.load SqliteStore.columns Laid
      ∧ RefinesPlain PostgresStore.answers PostgresStore.load PostgresStore.columns
          (fun p => Laid p.tables) := by
  refine ⟨⟨?_, ?_⟩, ⟨?_, ?_⟩⟩
  · intro s q calls hs hq hw id
    obtain ⟨hs', hr'⟩ := served (I := fun s q => Laid s ∧ s.records = q)
      (fun s s' q call hI hok hk => by
        obtain ⟨hs, rfl⟩ := hI
        exact hs.answered hok hk)
      calls ⟨hs, hs.records_eq hq⟩ hw
    rw [hs'.load_eq id, hr']
  · intro s call e he id
    rw [serve_failed he]
    exact ⟨rfl, rfl⟩
  · intro p q calls hs hq hw id
    obtain ⟨hs', hr'⟩ := served (I := fun p q => Laid p.tables ∧ p.tables.records = q)
      (fun p p' q call hI hok hk => by
        obtain ⟨hs, rfl⟩ := hI
        obtain ⟨s', hs', rfl⟩ := PostgresStore.answers_inv hok
        -- only the tables are read, and they are those of the embedded store
        obtain ⟨h1, h2⟩ := hs.answered hs' hk
        exact ⟨⟨h1.rows, h1.orphan⟩, h2⟩)
      calls ⟨hs, hs.records_eq hq⟩ hw
    rw [PostgresStore.load_eq, hs'.load_eq id, hr']
  · intro p call e he id
    rw [serve_failed he]
    exact ⟨rfl, rfl⟩

end Appcall.Durable
