/-
What the split layout of the store means: a table of whole records.

`store.rs` keeps a run in two places, and every caller of it assumes that `load`
gives back what `commit` wrote. That holds only as long as histories are written
once: a commit whose sealed events differ from the ones already in
`engine_history` would be read back as the old events. This file proves the
equation under exactly that condition (`Extends`), so that the engine can be
reasoned about over plain records (`SqliteStore.view`), and it names what a
well-formed store is (`WellFormed`).
-/
import Mathlib.Logic.Function.Basic
import Appcall.Engine.Store

set_option autoImplicit false

namespace Appcall.Durable

/-! ## Histories written once -/

def Resolved (history : List HistoryEvent) : Prop := ∀ e ∈ history, e.value.isSome = true

/-- At most one event is unresolved, and it is the last one. -/
def OneOpen (history : List HistoryEvent) : Prop := Resolved history.dropLast

/-- `h'` is at least as long as `h`, has its commands, and has its resolved values. -/
def Extends (h h' : List HistoryEvent) : Prop :=
  ∀ (i : ℕ) (e : HistoryEvent), h[i]? = some e →
    ∃ e', h'[i]? = some e' ∧ e'.command = e.command ∧ (e.value.isSome = true → e'.value = e.value)

theorem Extends.refl (h : List HistoryEvent) : Extends h h :=
  fun _ e he => ⟨e, he, rfl, fun _ => rfl⟩

variable {h h' : List HistoryEvent} {s : SqliteStore} {id : String} {s' : SqliteStore}
  {run body : RunRecord} {children : List RunRecord}

theorem Extends.trans {h'' : List HistoryEvent} (h1 : Extends h h') (h2 : Extends h' h'') :
    Extends h h'' := by
  intro i e he
  obtain ⟨e', he', hc', hv'⟩ := h1 i e he
  obtain ⟨e'', he'', hc'', hv''⟩ := h2 i e' he'
  refine ⟨e'', he'', hc''.trans hc', fun hs => ?_⟩
  have hs' : e'.value.isSome = true := by rw [hv' hs]; exact hs
  rw [hv'' hs', hv' hs]

theorem Extends.length_le (hx : Extends h h') : h.length ≤ h'.length := by
  by_contra hlt
  rw [not_le] at hlt
  obtain ⟨e', he', -, -⟩ := hx h'.length h[h'.length] (List.getElem?_eq_getElem hlt)
  rw [List.getElem?_eq_none (Nat.le_refl _)] at he'
  cases he'

theorem Extends.append (h t : List HistoryEvent) : Extends h (h ++ t) := by
  intro i e he
  have hi : i < h.length := (List.getElem?_eq_some_iff.mp he).1
  exact ⟨e, by rw [List.getElem?_append_left hi]; exact he, rfl, fun _ => rfl⟩

theorem Extends.take (hx : Extends h h') {n : ℕ} (hn : n ≤ h.length) (hr : Resolved (h.take n)) :
    h'.take n = h.take n := by
  have hlen := hx.length_le
  refine List.ext_getElem? (fun i => ?_)
  rcases Nat.lt_or_ge i n with hi | hi
  · have hih : i < h.length := by omega
    have hmem : h[i] ∈ h.take n := by
      rw [List.mem_take_iff_getElem]
      exact ⟨i, by omega, rfl⟩
    obtain ⟨e', he', hc, hv⟩ := hx i h[i] (List.getElem?_eq_getElem hih)
    rw [List.getElem?_take_of_lt hi, List.getElem?_take_of_lt hi, he',
      List.getElem?_eq_getElem hih]
    congr 1
    cases e' with
    | mk command value =>
      cases hh : h[i] with
      | mk command' value' =>
        rw [hh] at hc hv hmem
        simp only at hc hv
        rw [hc, hv (hr _ hmem)]
  · rw [List.getElem?_eq_none (by rw [List.length_take]; omega),
      List.getElem?_eq_none (by rw [List.length_take]; omega)]

/-! ## The seal -/

theorem seal_end_le (h : List HistoryEvent) : seal_end h ≤ h.length := List.findIdx_le_length

theorem resolved_take_seal_end (h : List HistoryEvent) : Resolved (h.take (seal_end h)) := by
  intro e he
  rw [List.mem_take_iff_getElem] at he
  obtain ⟨i, hi, rfl⟩ := he
  obtain ⟨hlt, hlen⟩ := Nat.lt_min.mp hi
  have hnot := List.not_of_lt_findIdx hlt
  cases hv : h[i].value with
  | none => simp [hv] at hnot
  | some v => rfl

theorem le_seal_end {n : ℕ} (hn : n ≤ h.length) (hr : Resolved (h.take n)) : n ≤ seal_end h := by
  rcases Nat.eq_zero_or_pos n with h0 | hpos
  · omega
  · have hlt : n - 1 < h.length := by omega
    have := List.lt_findIdx_of_not (p := fun event : HistoryEvent => event.value.isNone) hlt
      (by
        intro j hj
        have hmem : h[j] ∈ h.take n := by
          rw [List.mem_take_iff_getElem]
          exact ⟨j, by omega, rfl⟩
        have := hr _ hmem
        simp only [Bool.not_eq_true, Option.isNone_eq_false_iff]
        exact this)
    unfold seal_end
    omega

theorem OneOpen.drop_seal_end (ho : OneOpen h) :
    h.drop (seal_end h) = [] ∨ ∃ e, h.drop (seal_end h) = [e] ∧ e.value = none := by
  rcases Nat.lt_or_ge (seal_end h) h.length with hlt | hge
  · right
    have hle : h.length - 1 ≤ seal_end h := by
      refine le_seal_end (by omega) ?_
      rw [← List.dropLast_eq_take]
      exact ho
    have hs : seal_end h = h.length - 1 := by omega
    have hnone : h[seal_end h].value.isNone = true :=
      List.findIdx_of_getElem?_eq_some (p := fun event : HistoryEvent => event.value.isNone)
        (List.getElem?_eq_getElem hlt)
    refine ⟨h[seal_end h], ?_, by simpa using hnone⟩
    rw [List.drop_eq_getElem_cons hlt, List.drop_eq_nil_of_le (by omega)]
  · left
    exact List.drop_eq_nil_of_le hge

theorem OneOpen.of_resolved (hr : Resolved h) : OneOpen h :=
  fun e he => hr e ((List.dropLast_sublist h).subset he)

theorem OneOpen.append_singleton (hr : Resolved h) (e : HistoryEvent) : OneOpen (h ++ [e]) := by
  unfold OneOpen
  rw [List.dropLast_concat]
  exact hr

/-! ## Well-formed stores and what they hold -/

/-- A stored run: the record, and the wakeup column beside it. -/
structure Entry where
  record : RunRecord
  wakeup : Option ℤ

def SqliteStore.view (s : SqliteStore) (id : String) : Option Entry :=
  (s.engine_runs.lookup id).map (fun row =>
    { record := { row.record with history := s.load_sealed id ++ row.record.history }
      wakeup := row.wakeup })

/-- What every reachable store satisfies: the columns are those of the blob
(except the wakeup), the sealed events are resolved, and the blob carries at most
the one open event. -/
structure WellFormed (s : SqliteStore) : Prop where
  key : ∀ id row, s.engine_runs.lookup id = some row → row.record.id = id
  revision : ∀ id row, s.engine_runs.lookup id = some row → row.revision = row.record.revision
  column : ∀ id row, s.engine_runs.lookup id = some row → row.state = state row.record
  flag : ∀ id row, s.engine_runs.lookup id = some row →
    row.recoverable = requires_recovery row.record
  sealed_resolved : ∀ id, Resolved (s.load_sealed id)
  tail : ∀ id row, s.engine_runs.lookup id = some row →
    row.record.history = [] ∨ ∃ e, row.record.history = [e] ∧ e.value = none
  cap : ∀ id row, s.engine_runs.lookup id = some row →
    (s.load_sealed id ++ row.record.history).length ≤ HISTORY_CAP
  orphan : ∀ id, s.engine_runs.lookup id = none → s.load_sealed id = []

theorem state_congr {r r' : RunRecord} (h : r.state = r'.state) : state r = state r' := by
  unfold state
  rw [h]

theorem SqliteStore.view_inv {en : Entry} (h : s.view id = some en) :
    ∃ row, s.engine_runs.lookup id = some row ∧ en = ⟨{ row.record with
      history := s.load_sealed id ++ row.record.history }, row.wakeup⟩ := by
  unfold SqliteStore.view at h
  obtain ⟨row, hl, rfl⟩ := Option.map_eq_some_iff.mp h
  exact ⟨row, hl, rfl⟩

/-- The run of a row is in the row's state. -/
theorem WellFormed.view_row (hw : WellFormed s) {row : Row}
    (hl : s.engine_runs.lookup id = some row) :
    s.view id = some ⟨{ row.record with
        history := s.load_sealed id ++ row.record.history }, row.wakeup⟩
      ∧ state { row.record with history := s.load_sealed id ++ row.record.history }
        = row.state := by
  constructor
  · unfold SqliteStore.view
    rw [hl, Option.map_some]
  · rw [hw.column id row hl]
    exact state_congr rfl

theorem WellFormed.view_id (hw : WellFormed s) {en : Entry} (h : s.view id = some en) :
    en.record.id = id := by
  obtain ⟨row, hl, rfl⟩ := SqliteStore.view_inv h
  exact hw.key id row hl

theorem WellFormed.load_eq (hw : WellFormed s) (id : String) : s.load id = match s.view id with
      | some en => .ok en.record
      | none => .error .NotFound := by
  unfold SqliteStore.load SqliteStore.view
  cases hl : s.engine_runs.lookup id with
  | none => rfl
  | some row =>
    simp only [Option.map_some, assemble]
    have hcap := hw.cap id row hl
    by_cases he : (s.load_sealed id).isEmpty
    · rw [if_pos he]
      rw [List.isEmpty_iff] at he
      rw [he, List.nil_append]
    · rw [if_neg he, if_neg (by omega)]

theorem WellFormed.one_open (hw : WellFormed s) {en : Entry} (h : s.view id = some en) :
    OneOpen en.record.history := by
  obtain ⟨row, hl, rfl⟩ := SqliteStore.view_inv h
  show OneOpen (s.load_sealed id ++ row.record.history)
  rcases hw.tail id row hl with ht | ⟨e, ht, -⟩
  · rw [ht, List.append_nil]
    exact .of_resolved (hw.sealed_resolved id)
  · rw [ht]
    exact .append_singleton (hw.sealed_resolved id) e

/-! ## Sealing -/

theorem append_sealed_ok {a b : ℕ} (hok : s.append_sealed id h a b = .ok s') :
    s'.engine_runs = s.engine_runs ∧ s'.epoch = s.epoch ∧ s'.codec = s.codec
      ∧ s'.outages = s.outages
      ∧ ∀ id', s'.load_sealed id'
          = if id' = id then s.load_sealed id ++ (h.take b).drop a else s.load_sealed id' := by
  unfold SqliteStore.append_sealed at hok
  simp only at hok
  split at hok
  · cases hok
  · split at hok
    · rename_i hemp
      cases hok
      rw [List.isEmpty_iff] at hemp
      refine ⟨rfl, rfl, rfl, rfl, fun id' => ?_⟩
      rw [hemp, List.append_nil]
      by_cases hid : id' = id
      · rw [if_pos hid, hid]
      · rw [if_neg hid]
    · cases hok
      refine ⟨rfl, rfl, rfl, rfl, fun id' => ?_⟩
      unfold SqliteStore.load_sealed
      by_cases hid : id' = id
      · rw [if_pos hid, hid, AList.lookup_insert]
        rfl
      · rw [if_neg hid, AList.lookup_insert_ne hid]

theorem encode_body_error {n : ℕ} {e : Error} (h : s.encode_body run n = .error e) :
    e = .Limit := by
  unfold SqliteStore.encode_body at h
  simp only at h
  split at h
  · exact (Except.error.inj h).symm
  · split at h
    · exact (Except.error.inj h).symm
    · split at h
      · exact (Except.error.inj h).symm
      · cases h

theorem persist_history_ok (hok : s.persist_history run = .ok (s', body)) :
    s'.engine_runs = s.engine_runs ∧ s'.epoch = s.epoch ∧ s'.codec = s.codec
      ∧ s'.outages = s.outages
      ∧ s.sealed_count run.id ≤ seal_end run.history
      ∧ run.history.length ≤ HISTORY_CAP
      ∧ body = { run with history := run.history.drop (seal_end run.history) }
      ∧ ∀ id, s'.load_sealed id
          = if id = run.id then s.load_sealed run.id
              ++ (run.history.take (seal_end run.history)).drop (s.sealed_count run.id)
            else s.load_sealed id := by
  unfold SqliteStore.persist_history at hok
  simp only [bind, Except.bind, throw, throwThe, MonadExceptOf.throw, pure, Except.pure] at hok
  by_cases hlt : seal_end run.history < s.sealed_count run.id
  · rw [if_pos hlt] at hok
    cases hok
  · rw [if_neg hlt] at hok
    cases ha : s.append_sealed run.id run.history (s.sealed_count run.id)
        (seal_end run.history) with
    | error e => rw [ha] at hok; cases hok
    | ok s1 =>
      rw [ha] at hok
      simp only at hok
      cases hb : s1.encode_body run (seal_end run.history) with
      | error e => rw [hb] at hok; cases hok
      | ok b =>
        rw [hb] at hok
        cases hok
        obtain ⟨h1, h2, h3, h4, h5⟩ := append_sealed_ok ha
        unfold SqliteStore.encode_body at hb
        simp only at hb
        split at hb
        · cases hb
        · split at hb
          · cases hb
          · split at hb
            · cases hb
            · cases hb
              exact ⟨h1, h2, h3, h4, by omega, by omega, rfl, h5⟩

theorem persist_history_sealed (hok : s.persist_history run = .ok (s', body))
    (hpre : s.load_sealed run.id = run.history.take (s.sealed_count run.id)) :
    s'.load_sealed run.id = run.history.take (seal_end run.history) := by
  obtain ⟨-, -, -, -, hle, -, -, hsealed⟩ := persist_history_ok hok
  rw [hsealed, if_pos rfl, hpre, List.drop_take, ← List.take_add, Nat.add_sub_cancel' hle]

theorem put_view (hok : s.persist_history run = .ok (s', body))
    (hpre : s.load_sealed run.id = run.history.take (s.sealed_count run.id)) :
    ({ s' with engine_runs := s'.engine_runs.insert run.id (row_of run body) }).view
      = Function.update s.view run.id (some ⟨run, run.wakeup⟩) := by
  obtain ⟨hruns, -, -, -, -, -, hbody, hsealed⟩ := persist_history_ok hok
  have hself := persist_history_sealed hok hpre
  funext id
  unfold SqliteStore.view
  by_cases hid : id = run.id
  · subst hid
    rw [Function.update_self]
    show Option.map _ ((s'.engine_runs.insert run.id (row_of run body)).lookup run.id) = _
    rw [AList.lookup_insert]
    simp only [Option.map_some, row_of, Option.some.injEq, Entry.mk.injEq, and_true]
    show { body with history := s'.load_sealed run.id ++ body.history } = run
    rw [hself, hbody, List.take_append_drop]
  · rw [Function.update_of_ne hid]
    show Option.map _ ((s'.engine_runs.insert run.id (row_of run body)).lookup id) = _
    rw [AList.lookup_insert_ne hid, hruns]
    congr 1
    funext row
    show Entry.mk { row.record with history := s'.load_sealed id ++ row.record.history }
      row.wakeup = _
    rw [hsealed, if_neg hid]

theorem lookup_put {row : Row} (hruns : s'.engine_runs = s.engine_runs)
    (h : (s'.engine_runs.insert run.id (row_of run body)).lookup id = some row) :
    (id = run.id ∧ row = row_of run body)
      ∨ (id ≠ run.id ∧ s.engine_runs.lookup id = some row) := by
  by_cases hid : id = run.id
  · subst hid
    rw [AList.lookup_insert] at h
    exact .inl ⟨rfl, (Option.some.inj h).symm⟩
  · rw [AList.lookup_insert_ne hid, hruns] at h
    exact .inr ⟨hid, h⟩

theorem lookup_put_none (hruns : s'.engine_runs = s.engine_runs)
    (h : (s'.engine_runs.insert run.id (row_of run body)).lookup id = none) :
    id ≠ run.id ∧ s.engine_runs.lookup id = none := by
  by_cases hid : id = run.id
  · subst hid
    rw [AList.lookup_insert] at h
    cases h
  · rw [AList.lookup_insert_ne hid, hruns] at h
    exact ⟨hid, h⟩

theorem WellFormed.put (hw : WellFormed s) (hok : s.persist_history run = .ok (s', body))
    (hpre : s.load_sealed run.id = run.history.take (s.sealed_count run.id))
    (ho : OneOpen run.history) :
    WellFormed { s' with engine_runs := s'.engine_runs.insert run.id (row_of run body) }
      ∧ ({ s' with engine_runs := s'.engine_runs.insert run.id (row_of run body) }).view
          = Function.update s.view run.id (some ⟨run, run.wakeup⟩) := by
  obtain ⟨hruns, -, -, -, -, hcap, hbody, hsealed⟩ := persist_history_ok hok
  have hself := persist_history_sealed hok hpre
  have hother : ∀ id, id ≠ run.id → s'.load_sealed id = s.load_sealed id := by
    intro id hid
    rw [hsealed, if_neg hid]
  have hbh : body.history = run.history.drop (seal_end run.history) := by rw [hbody]
  refine ⟨⟨?_, ?_, ?_, ?_, ?_, ?_, ?_, ?_⟩, put_view hok hpre⟩
  · intro id row h
    rcases lookup_put hruns h with ⟨rfl, rfl⟩ | ⟨-, h'⟩
    · simp only [row_of, hbody]
    · exact hw.key id row h'
  · intro id row h
    rcases lookup_put hruns h with ⟨rfl, rfl⟩ | ⟨-, h'⟩
    · simp only [row_of, hbody]
    · exact hw.revision id row h'
  · intro id row h
    rcases lookup_put hruns h with ⟨rfl, rfl⟩ | ⟨-, h'⟩
    · simp only [row_of, hbody]
      exact state_congr rfl
    · exact hw.column id row h'
  · intro id row h
    rcases lookup_put hruns h with ⟨rfl, rfl⟩ | ⟨-, h'⟩
    · simp only [row_of, hbody, requires_recovery]
    · exact hw.flag id row h'
  · intro id
    show Resolved (s'.load_sealed id)
    by_cases hid : id = run.id
    · rw [hid, hself]
      exact resolved_take_seal_end run.history
    · rw [hother id hid]
      exact hw.sealed_resolved id
  · intro id row h
    rcases lookup_put hruns h with ⟨rfl, rfl⟩ | ⟨-, h'⟩
    · simp only [row_of, hbh]
      exact ho.drop_seal_end
    · exact hw.tail id row h'
  · intro id row h
    show (s'.load_sealed id ++ row.record.history).length ≤ HISTORY_CAP
    rcases lookup_put hruns h with ⟨rfl, rfl⟩ | ⟨hid, h'⟩
    · simp only [row_of, hself, hbh, List.take_append_drop]
      exact hcap
    · rw [hother id hid]
      exact hw.cap id row h'
  · intro id h
    show s'.load_sealed id = []
    obtain ⟨hid, h'⟩ := lookup_put_none hruns h
    rw [hother id hid]
    exact hw.orphan id h'

/-! ## The statements on the view -/

/-- `UPDATE .. SET wakeup=0 WHERE id=?1 AND state='running'` on whole records. -/
def wake_view (v : String → Option Entry) (id : String) : String → Option Entry :=
  Function.update v id ((v id).map (fun en =>
    if state en.record = .running then { en with wakeup := some 0 } else en))

def insert_view (v : String → Option Entry) : List RunRecord → String → Option Entry
  | [] => v
  | child :: children =>
    insert_view (Function.update v child.id (some ⟨child, child.wakeup⟩)) children

def commit_view (v : String → Option Entry) (run : RunRecord) (children : List RunRecord) :
    String → Option Entry :=
  let v := insert_view (Function.update v run.id (some ⟨run, run.wakeup⟩)) children
  match run.state.ends, run.parent with
  | true, some parent => wake_view v parent
  | _, _ => v

/-- The ids of new rows are new, and distinct. -/
def Fresh (v : String → Option Entry) : List RunRecord → Prop
  | [] => True
  | child :: children =>
    v child.id = none ∧ Fresh (Function.update v child.id (some ⟨child, child.wakeup⟩)) children

theorem WellFormed.view_eq_none : s.view id = none ↔ s.engine_runs.lookup id = none := by
  unfold SqliteStore.view
  cases s.engine_runs.lookup id <;> simp

theorem WellFormed.set_wakeup (hw : WellFormed s) {row : Row}
    (hl : s.engine_runs.lookup id = some row) (w : Option ℤ) :
    WellFormed { s with engine_runs := s.engine_runs.insert id { row with wakeup := w } } := by
  have hlk : ∀ id' row', (s.engine_runs.insert id { row with wakeup := w }).lookup id' = some row' →
      ∃ row'', s.engine_runs.lookup id' = some row'' ∧ row'.record = row''.record
        ∧ row'.revision = row''.revision ∧ row'.state = row''.state
        ∧ row'.recoverable = row''.recoverable := by
    intro id' row' h
    by_cases hid : id' = id
    · subst hid
      rw [AList.lookup_insert] at h
      cases h
      exact ⟨row, hl, rfl, rfl, rfl, rfl⟩
    · rw [AList.lookup_insert_ne hid] at h
      exact ⟨row', h, rfl, rfl, rfl, rfl⟩
  refine ⟨?_, ?_, ?_, ?_, hw.sealed_resolved, ?_, ?_, ?_⟩
  · intro id' row' h
    obtain ⟨row'', h'', h1, -⟩ := hlk id' row' h
    rw [h1]
    exact hw.key id' row'' h''
  · intro id' row' h
    obtain ⟨row'', h'', h1, h2, -⟩ := hlk id' row' h
    rw [h1, h2]
    exact hw.revision id' row'' h''
  · intro id' row' h
    obtain ⟨row'', h'', h1, -, h3, -⟩ := hlk id' row' h
    rw [h1, h3]
    exact hw.column id' row'' h''
  · intro id' row' h
    obtain ⟨row'', h'', h1, -, -, h4⟩ := hlk id' row' h
    rw [h1, h4]
    exact hw.flag id' row'' h''
  · intro id' row' h
    obtain ⟨row'', h'', h1, -⟩ := hlk id' row' h
    rw [h1]
    exact hw.tail id' row'' h''
  · intro id' row' h
    obtain ⟨row'', h'', h1, -⟩ := hlk id' row' h
    rw [h1]
    exact hw.cap id' row'' h''
  · intro id' h
    refine hw.orphan id' ?_
    by_cases hid : id' = id
    · subst hid
      rw [AList.lookup_insert] at h
      cases h
    · rw [AList.lookup_insert_ne hid] at h
      exact h

theorem WellFormed.wake (hw : WellFormed s) (id : String) :
    WellFormed (s.wake id) ∧ (s.wake id).view = wake_view s.view id
      ∧ (s.wake id).epoch = s.epoch ∧ (s.wake id).codec = s.codec := by
  unfold SqliteStore.wake
  cases hl : s.engine_runs.lookup id with
  | none =>
    refine ⟨hw, ?_, rfl, rfl⟩
    have hv : s.view id = none := WellFormed.view_eq_none.mpr hl
    unfold wake_view
    rw [hv, Option.map_none, ← hv, Function.update_eq_self]
  | some row =>
    obtain ⟨hv, hst⟩ := hw.view_row hl
    dsimp only
    by_cases hrun : row.state = .running
    · rw [if_pos hrun]
      refine ⟨hw.set_wakeup hl (some 0), ?_, rfl, rfl⟩
      funext id'
      unfold wake_view
      by_cases hid : id' = id
      · subst hid
        rw [Function.update_self, hv, Option.map_some, if_pos (hst.trans hrun)]
        show Option.map _ ((s.engine_runs.insert id' { row with wakeup := some 0 }).lookup id') = _
        rw [AList.lookup_insert]
        rfl
      · rw [Function.update_of_ne hid]
        show Option.map _ ((s.engine_runs.insert id { row with wakeup := some 0 }).lookup id') = _
        rw [AList.lookup_insert_ne hid]
        rfl
    · rw [if_neg hrun]
      refine ⟨hw, ?_, rfl, rfl⟩
      unfold wake_view
      rw [hv, Option.map_some]
      simp only [hst, hrun, if_false]
      rw [← hv, Function.update_eq_self]

theorem SqliteStore.mem_recovery_ids {row : Row} (hl : s.engine_runs.lookup id = some row) :
    id ∈ s.recovery_ids ↔
      row.state = .running ∧ row.recoverable = true ∧ row.wakeup ≠ some 0 := by
  have hwake : row.wakeup.getD (-1) ≠ 0 ↔ row.wakeup ≠ some 0 := by
    cases row.wakeup <;> simp
  rw [← hwake]
  unfold SqliteStore.recovery_ids
  simp only [List.mem_map, List.mem_filter, Bool.and_eq_true, decide_eq_true_eq]
  constructor
  · rintro ⟨⟨id', row'⟩, ⟨hin, hcond⟩, rfl⟩
    have hrow : row' ∈ s.engine_runs.lookup id' := AList.mem_lookup_iff.mpr hin
    rw [hl] at hrow
    cases hrow
    exact ⟨hcond.1.1, hcond.1.2, hcond.2⟩
  · rintro ⟨h1, h2, h3⟩
    exact ⟨⟨id, row⟩, ⟨AList.mem_lookup_iff.mp hl, ⟨h1, h2⟩, h3⟩, rfl⟩

theorem SqliteStore.insert_run_inv (hok : s.insert_run run = .ok s') :
    ∃ s1 body, s.persist_history run = .ok (s1, body) ∧ s.engine_runs.lookup run.id = none
      ∧ s' = { s1 with engine_runs := s1.engine_runs.insert run.id (row_of run body) } := by
  unfold SqliteStore.insert_run at hok
  simp only [bind, Except.bind, throw, throwThe, MonadExceptOf.throw, pure, Except.pure] at hok
  split at hok
  · cases hok
  · cases hp : s.persist_history run with
    | error e => rw [hp] at hok; cases hok
    | ok out =>
      obtain ⟨s1, body⟩ := out
      rw [hp] at hok
      simp only at hok
      have hruns := (persist_history_ok hp).1
      cases hl : s1.engine_runs.lookup run.id with
      | some row => rw [hl] at hok; cases hok
      | none =>
        rw [hl] at hok
        cases hok
        exact ⟨s1, body, rfl, hruns ▸ hl, rfl⟩

theorem SqliteStore.commit_inv {expected : ℕ} (hok : s.commit expected run children = .ok s') :
    ∃ s1 body row s2, s.persist_history run = .ok (s1, body)
      ∧ s.engine_runs.lookup run.id = some row ∧ row.revision = expected
      ∧ SqliteStore.insert_children
          { s1 with engine_runs := s1.engine_runs.insert run.id (row_of run body) } children
          = .ok s2
      ∧ s' = match run.state.ends, run.parent with
        | true, some parent => s2.wake parent
        | _, _ => s2 := by
  unfold SqliteStore.commit at hok
  simp only [bind, Except.bind, throw, throwThe, MonadExceptOf.throw, pure, Except.pure] at hok
  split at hok
  · cases hok
  split at hok
  · cases hok
  split at hok
  · cases hok
  cases hp : s.persist_history run with
  | error e => rw [hp] at hok; cases hok
  | ok out =>
    obtain ⟨s1, body⟩ := out
    rw [hp] at hok
    simp only at hok
    have hruns := (persist_history_ok hp).1
    cases hl : s1.engine_runs.lookup run.id with
    | none => rw [hl] at hok; cases hok
    | some row =>
      rw [hl] at hok
      simp only at hok
      split at hok
      · cases hok
      · rename_i hrev
        rw [not_not] at hrev
        cases hc : SqliteStore.insert_children
            { s1 with engine_runs := s1.engine_runs.insert run.id (row_of run body) }
            children with
        | error e => rw [hc] at hok; cases hok
        | ok s2 =>
          rw [hc] at hok
          simp only at hok
          refine ⟨s1, body, row, s2, rfl, hruns ▸ hl, hrev, hc, ?_⟩
          -- the notification is the last statement, and only a run that ends has one
          cases hends : run.state.ends with
          | false =>
            rw [hends] at hok
            exact (Except.ok.inj hok).symm
          | true =>
            rw [hends] at hok
            cases hpar : run.parent with
            | none =>
              rw [hpar] at hok
              exact (Except.ok.inj hok).symm
            | some parent =>
              rw [hpar] at hok
              exact (Except.ok.inj hok).symm

theorem insert_run_ok (hw : WellFormed s) (hok : s.insert_run run = .ok s')
    (hh : run.history = []) :
    WellFormed s' ∧ s.view run.id = none
      ∧ s'.view = Function.update s.view run.id (some ⟨run, run.wakeup⟩)
      ∧ s'.epoch = s.epoch ∧ s'.codec = s.codec ∧ s'.outages = s.outages := by
  obtain ⟨s1, body, hp, hl, rfl⟩ := SqliteStore.insert_run_inv hok
  obtain ⟨-, hep, hcodec, hout, -⟩ := persist_history_ok hp
  have horphan := hw.orphan run.id hl
  obtain ⟨h1, h2⟩ := hw.put hp
    (by rw [hh, List.take_nil, horphan]) (by rw [hh]; intro e he; cases he)
  exact ⟨h1, WellFormed.view_eq_none.mpr hl, h2, hep, hcodec, hout⟩

theorem SqliteStore.insert_children_inv {child : RunRecord}
    (hok : s.insert_children (child :: children) = .ok s') :
    ∃ s1, s.insert_run child = .ok s1 ∧ s1.insert_children children = .ok s' := by
  unfold SqliteStore.insert_children at hok
  cases hi : s.insert_run child with
  | error e =>
    rw [hi] at hok
    cases e <;> cases hok
  | ok s1 =>
    rw [hi] at hok
    exact ⟨s1, rfl, hok⟩

theorem insert_children_ok (hw : WellFormed s) (hok : s.insert_children children = .ok s')
    (hh : ∀ c ∈ children, c.history = []) :
    WellFormed s' ∧ s'.view = insert_view s.view children ∧ Fresh s.view children
      ∧ s'.epoch = s.epoch ∧ s'.codec = s.codec ∧ s'.outages = s.outages := by
  induction children generalizing s with
  | nil =>
    cases hok
    exact ⟨hw, rfl, trivial, rfl, rfl, rfl⟩
  | cons child children ih =>
    obtain ⟨s1, hi, hok⟩ := SqliteStore.insert_children_inv hok
    obtain ⟨hw1, hnone, hv1, he1, hc1, ho1⟩ :=
      insert_run_ok hw hi (hh child List.mem_cons_self)
    obtain ⟨hw2, hv2, hf2, he2, hc2, ho2⟩ :=
      ih hw1 hok (fun c hc => hh c (List.mem_cons_of_mem _ hc))
    refine ⟨hw2, ?_, ⟨hnone, ?_⟩, he2.trans he1, hc2.trans hc1, ho2.trans ho1⟩
    · rw [hv2, hv1]
      rfl
    · rw [← hv1]
      exact hf2

/-- **Commit reads back.** A commit that succeeds, of a run that extends the
stored one, is the commit of the whole record: the store is well formed, the
view is the committed one, and the revision that was compared is the stored one. -/
theorem commit_ok {expected : ℕ} (hw : WellFormed s) (hok : s.commit expected run children = .ok s')
    (hx : ∀ en, s.view run.id = some en → en.record.revision = expected →
      Extends en.record.history run.history) (ho : OneOpen run.history)
    (hh : ∀ c ∈ children, c.history = []) :
    WellFormed s' ∧ s'.view = commit_view s.view run children
      ∧ (∃ en, s.view run.id = some en ∧ en.record.revision = expected)
      ∧ Fresh (Function.update s.view run.id (some ⟨run, run.wakeup⟩)) children
      ∧ s'.epoch = s.epoch ∧ s'.codec = s.codec := by
  obtain ⟨s1, body, row, s2, hp, hl, hrev, hc, rfl⟩ := SqliteStore.commit_inv hok
  obtain ⟨-, hep, hcodec, -⟩ := persist_history_ok hp
  have hview : s.view run.id = some ⟨{ row.record with
      history := s.load_sealed run.id ++ row.record.history }, row.wakeup⟩ := by
    unfold SqliteStore.view
    rw [hl, Option.map_some]
  have hrev' : row.record.revision = expected := by
    rw [← hw.revision run.id row hl, hrev]
  have hext := hx _ hview hrev'
  have hpre : s.load_sealed run.id = run.history.take (s.sealed_count run.id) := by
    rw [hext.take (n := s.sealed_count run.id)
      (by simp only [SqliteStore.sealed_count, List.length_append]; omega)
      (by
        simp only [SqliteStore.sealed_count, List.take_left']
        exact hw.sealed_resolved run.id)]
    simp only [SqliteStore.sealed_count, List.take_left']
  obtain ⟨hw2, hv2⟩ := hw.put hp hpre ho
  obtain ⟨hw3, hv3, hf3, he3, hc3, -⟩ := insert_children_ok hw2 hc hh
  rw [hv2] at hv3 hf3
  unfold commit_view
  cases hends : run.state.ends with
  | false => exact ⟨hw3, hv3, ⟨_, hview, hrev'⟩, hf3, he3.trans hep, hc3.trans hcodec⟩
  | true =>
    cases hpar : run.parent with
    | none => exact ⟨hw3, hv3, ⟨_, hview, hrev'⟩, hf3, he3.trans hep, hc3.trans hcodec⟩
    | some parent =>
      obtain ⟨hw4, hv4, he4, hc4⟩ := hw3.wake parent
      refine ⟨hw4, ?_, ⟨_, hview, hrev'⟩, hf3, (he4.trans he3).trans hep,
        (hc4.trans hc3).trans hcodec⟩
      simp only
      rw [hv4, hv3]

end Appcall.Durable
