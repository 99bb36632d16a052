/-
The calls that share the ledger.

An execute call acquires its key, reserves, and then makes its transactions; it may be
cancelled or crash between any two of them, a transaction that was already under way may
still commit, and a deadline adds one of its own. So the system does not keep the order
in which one call makes its transactions: every call may make any of them at any time,
and again. What it does keep is what no caller can do otherwise: a request id is drawn
once, a call reserves once and works with the reservation it got, and a keyed call binds
its reservation before it marks it.
-/
import Appcall.Actions.Changes

set_option autoImplicit false

namespace Appcall.Actions

variable {Value : Type}

/-! ## The system -/

/-- An execute call that has acquired its key. -/
structure Execute where
  attempt : Attempt
  quota : Quota
  bound : Bool
  deriving DecidableEq

def Execute.request_id (x : Execute) : String := x.attempt.request_id

def Execute.reserve (quota : String × String) (x : Execute) : Execute :=
  { x with quota := some quota }

/-- The call with its reservation bound. -/
def Execute.bind (x : Execute) : Execute := { x with bound := true }

/-- The stored state, the calls, and the reads of `finish_read_timeout` that are not
closed. -/
structure System (Value : Type) where
  db : Database Value
  executes : Table Execute.request_id
  reads : List (Attempt × Option TimeoutRead)

def System.at_rest (db : Database Value) : System Value :=
  { db, executes := .empty, reads := [] }

/-- One transaction of a call, named by its request, or of an operator. -/
inductive Op (Value : Type) where
  | acquire (a : Attempt) (disabled : Bool)
  | release_pending (request_id : String)
  | reserve (request_id : String) (q : Reserve)
  | bind (request_id : String)
  | mark (request_id : String) (current : Option Connection) (revision : Connection)
  | release_pending_with_reservation (request_id : String)
  | release_quota (request_id : String)
  | release_not_dispatched (request_id : String)
  | finish_not_dispatched (request_id : String)
  | finish (request_id : String) (output : Option Value) (failed : Bool)
  | finish_read_failure (request_id : String)
  /-- `finish_read_timeout` in one step. -/
  | finish_read_timeout (request_id : String) (id : Option String)
      (outcome : ActionDispatchOutcome)
  /-- The first query of `finish_read_timeout`, and its rest. -/
  | read_timed_out (request_id : String) (id : Option String)
  | close_timed_out (read : ℕ) (outcome : ActionDispatchOutcome)
  | reconcile (command : ActionClaimReconciliation)

/-- A transaction that fails leaves nothing. -/
def System.commit {ε : Type} (s : System Value) (result : Except ε (Database Value)) :
    System Value :=
  match result with
  | .error _ => s
  | .ok db => { s with db := db }

def System.call {ε : Type} (s : System Value) (request_id : String)
    (f : Attempt → Except ε (Database Value)) : System Value :=
  match s.executes.find request_id with
  | none => s
  | some x => s.commit (f x.attempt)

/-- The call of a request with what it has reserved. -/
def System.reserved (s : System Value) (request_id : String) :
    Option (Execute × String × String) :=
  (s.executes.find request_id).bind (fun x => x.quota.map (fun quota => (x, quota)))

def System.call_reserved {ε : Type} (s : System Value) (request_id : String)
    (f : Attempt → String × String → Except ε (Database Value)) : System Value :=
  match s.reserved request_id with
  | none => s
  | some (x, quota) => s.commit (f x.attempt quota)

/-- The call of `reserve` for an attempt. -/
def Reserve.of (q : Reserve) (a : Attempt) : Reserve :=
  { q with
    connection_id := a.connection_id
    connector := a.connector
    action := a.action
    external_account_id := a.external_account_id
    idempotency_key := a.key
    input_hash := a.input_hash }

/-- A reservation for a call that has none. -/
def System.reserve (cal : Calendar) (config : PolicyConfig) (s : System Value)
    (request_id : String) (q : Reserve) (now : ℤ) : System Value :=
  match s.executes.find request_id with
  | none => s
  | some x =>
    if x.quota.isSome then s
    else
      let out := s.db.reserve cal config (q.of x.attempt) now
      match out.1 with
      | .error _ => { s with db := out.2 }
      | .ok p =>
        { s with
          db := out.2
          executes := s.executes.modify request_id (Execute.reserve (p.quota_id, p.quota_month))
            (fun _ => rfl) }

/-- The binding of a call's reservation. -/
def System.bind (s : System Value) (request_id : String) : System Value :=
  match s.reserved request_id with
  | none => s
  | some (x, quota) =>
    match s.db.bind_reservation_identity x.attempt (some quota) with
    | .error _ => s
    | .ok db =>
      { s with
        db := db
        executes := s.executes.modify request_id Execute.bind (fun _ => rfl) }

def System.mark (s : System Value) (request_id : String) (current : Option Connection)
    (revision : Connection) (now : ℤ) : System Value :=
  match s.reserved request_id with
  | none => s
  | some (x, quota) =>
    if x.attempt.key ≠ "" ∧ x.bound = false then s
    else s.commit (s.db.mark_dispatched_checked_with_reservation x.attempt current revision
      (some quota) now)

def System.step (cal : Calendar) (config : PolicyConfig) (s : System Value) :
    ℤ × Op Value → System Value
  | (now, .acquire a disabled) =>
    match s.executes.insert { attempt := a, quota := none, bound := false } with
    | none => s
    | some executes =>
      match s.db.acquire a disabled now with
      | .error _ => s
      | .ok (.Cached _, db) => { s with db := db }
      | .ok (.Acquired, db) => { s with db := db, executes := executes }
  | (_, .release_pending request_id) =>
    s.call request_id (fun a => (.ok (s.db.release_pending a) : Except Code _))
  | (now, .reserve request_id q) => s.reserve cal config request_id q now
  | (_, .bind request_id) => s.bind request_id
  | (now, .mark request_id current revision) => s.mark request_id current revision now
  | (_, .release_pending_with_reservation request_id) =>
    s.call_reserved request_id (fun a quota =>
      s.db.release_pending_with_reservation a (some quota))
  | (_, .release_quota request_id) =>
    s.call_reserved request_id (fun a quota =>
      s.db.release_quota_with_reservation a (some quota))
  | (_, .release_not_dispatched request_id) =>
    s.call_reserved request_id (fun a quota =>
      s.db.release_not_dispatched_with_reservation a (some quota))
  | (_, .finish_not_dispatched request_id) =>
    s.call_reserved request_id (fun a quota =>
      s.db.finish_not_dispatched_with_reservation a (some quota))
  | (now, .finish request_id output failed) =>
    s.call_reserved request_id (fun a quota =>
      s.db.finish_with_reservation cal a (some quota) output failed now)
  | (now, .finish_read_failure request_id) =>
    s.call_reserved request_id (fun a quota =>
      s.db.finish_read_failure_with_reservation cal a (some quota) now)
  | (now, .finish_read_timeout request_id id outcome) =>
    s.call request_id (fun a => s.db.finish_read_timeout cal a id outcome now)
  | (_, .read_timed_out request_id id) =>
    match s.executes.find request_id with
    | none => s
    | some x =>
      if x.attempt.key = "" then s
      else { s with reads := s.reads ++ [(x.attempt, s.db.read_timed_out x.attempt id)] }
  | (now, .close_timed_out read outcome) =>
    match s.reads[read]? with
    | none => s
    | some (a, t) => s.commit (s.db.close_timed_out cal a t outcome now)
  | (now, .reconcile command) => s.commit (s.db.reconcile_action_claim cal command now)

/-! ## Steps are paths of changes -/

variable {cal : Calendar} {config : PolicyConfig} {permit : Database Value → Write → Prop}

variable {s : System Value} {request_id : String} {x : Execute} {ε : Type} {op : Op Value}

theorem reserved_eq_some {quota : String × String} (h : s.reserved request_id = some (x, quota)) :
    s.executes.find request_id = some x ∧ x.quota = some quota := by
  obtain ⟨x', hfind, hquota⟩ := Option.bind_eq_some_iff.mp h
  obtain ⟨quota', hquota', heq⟩ := Option.map_eq_some_iff.mp hquota
  cases heq
  exact ⟨hfind, hquota'⟩

theorem commit_changes {result : Except ε (Database Value)}
    (h : ∀ db, result = .ok db → Changes cal config permit s.db db) :
    Changes cal config permit s.db (s.commit result).db := by
  cases result with
  | error e => exact .refl
  | ok db => exact h db rfl

theorem call_changes {f : Attempt → Except ε (Database Value)}
    (h : ∀ x db, s.executes.find request_id = some x → f x.attempt = .ok db →
      Changes cal config permit s.db db) :
    Changes cal config permit s.db (s.call request_id f).db := by
  rw [System.call]
  split
  · exact .refl
  next x hfind => exact commit_changes (fun db hdb => h x db hfind hdb)

theorem call_reserved_changes {f : Attempt → String × String → Except ε (Database Value)}
    (h : ∀ x id month db, s.executes.find request_id = some x → x.quota = some (id, month) →
      f x.attempt (id, month) = .ok db → Changes cal config permit s.db db) :
    Changes cal config permit s.db (s.call_reserved request_id f).db := by
  rw [System.call_reserved]
  split
  · exact .refl
  next x quota hreserved =>
    obtain ⟨hfind, hquota⟩ := reserved_eq_some hreserved
    exact commit_changes (fun db hdb => h x quota.1 quota.2 db hfind hquota hdb)

/-- The permits a step needs: those of its call, for the writes of its kind. -/
structure System.Permits (cal : Calendar) (permit : Database Value → Write → Prop)
    (s : System Value) (now : ℤ) (op : Op Value) : Prop where
  acquire : ∀ a disabled executes, op = .acquire a disabled →
    s.executes.insert { attempt := a, quota := none, bound := false } = some executes →
    a.key ≠ "" → permit s.db (.claim (a.claim now)) ∧
      ∀ c ∈ s.db.claims.rows, c.idempotency_key = a.key → a.matches_claim c = true →
        c.dispatched_at = none → permit s.db (.claim (a.take_over now c))
  grant : ∀ request_id q x, op = .reserve request_id q →
    s.executes.find request_id = some x → ∀ db, permit db (.grant (q.of x.attempt) now)
  bind : ∀ request_id x id month r, op = .bind request_id →
    s.executes.find request_id = some x → x.quota = some (id, month) → r.id = id →
    r.month = month → permit s.db (.bind r x.request_id)
  dispatch : ∀ request_id current revision x id month, op = .mark request_id current revision →
    s.executes.find request_id = some x → x.quota = some (id, month) →
    (x.attempt.key ≠ "" → x.bound = true) →
    (x.attempt.key ≠ "" → ∀ c ∈ s.db.claims.rows, c.idempotency_key = x.attempt.key →
      c.request_id = x.request_id → permit s.db (.claim { c with dispatched_at := some now })) ∧
    ∀ db r, r.id = id → r.month = month → r.state = .pending → permit db (.dispatch r)
  /-- A call settles its own reservation, and finds it dispatched. -/
  settle : ∀ x id month r, s.executes.find x.request_id = some x → x.quota = some (id, month) →
    s.db.reservation id month = some r → r.state = .dispatched →
    ∀ db, db.reservations = s.db.reservations → permit db (.meter (some r) x.request_id)
  timeout : ∀ request_id x id outcome r, op = .finish_read_timeout request_id id outcome →
    s.executes.find request_id = some x → x.attempt.key ≠ "" →
    s.db.latest_timed_out x.attempt id = some r → r.state = .dispatched →
      permit s.db (.meter (some r) x.request_id)
  close : ∀ i outcome a t, op = .close_timed_out i outcome → s.reads[i]? = some (a, some t) →
    ∃ r, s.db.reservations.find r.id = some r ∧ r.id = t.id ∧ r.month = t.month ∧
      (t.state = .dispatched → s.db.dispatched_claim a = true → outcome ≠ .NotDispatched →
        permit s.db (.meter (some r) a.request_id))
  reconcile : ∀ command, op = .reconcile command → ∀ claim reservation,
    s.db.reconcilable command now = .ok (claim, reservation) →
    command.resolution = .ProviderOutcomeKnown true →
    (∀ r, reservation = some r → r.state = .dispatched ∨ r.state = .settled) →
    permit s.db (.meter reservation claim.request_id)

theorem latest_timed_out_eq {db : Database Value} {a : Attempt} {id : Option String}
    {r : Reservation} (h : db.latest_timed_out a id = some r) :
    db.reservations.find r.id = some r ∧ a.timed_out r = true := by
  obtain ⟨hlatest, -⟩ := Option.filter_eq_some_iff.mp h
  obtain ⟨hfind, hmatches⟩ := Option.filter_eq_some_iff.mp hlatest
  obtain ⟨id', -, hfind'⟩ := Option.bind_eq_some_iff.mp hfind
  have hid := (Table.find_eq_some.mp hfind').2
  exact ⟨by rw [hid]; exact hfind', hmatches⟩

/-- **Every step is a path of changes** that have the permits of the step. -/
theorem step_changes {now : ℤ} (h : s.Permits cal permit now op) :
    Changes cal config permit s.db (s.step cal config (now, op)).db := by
  cases op with
  | acquire a disabled =>
    simp only [System.step]
    split
    · exact .refl
    next executes hinsert =>
    have hpermit := h.acquire a disabled executes rfl hinsert
    split
    · exact .refl
    next hacquire =>
      exact .single (acquire_change hacquire (fun hkey => (hpermit hkey).1)
        (fun c hc hkey => (hpermit hkey).2 c hc))
    next hacquire =>
      exact .single (acquire_change hacquire (fun hkey => (hpermit hkey).1)
        (fun c hc hkey => (hpermit hkey).2 c hc))
  | release_pending request_id =>
    refine call_changes ?_
    intro x db hfind hdb
    cases hdb
    exact .single (release_pending_change s.db x.attempt)
  | reserve request_id q =>
    simp only [System.step, System.reserve]
    split
    · exact .refl
    next x hfind =>
    split
    · exact .refl
    have hpath : Changes cal config permit s.db (s.db.reserve cal config (q.of x.attempt) now).2 :=
      reserve_changes s.db (q.of x.attempt) now (h.grant request_id q x rfl hfind)
    split
    · exact hpath
    · exact hpath
  | bind request_id =>
    simp only [System.step, System.bind]
    split
    · exact .refl
    next x quota hreserved =>
    obtain ⟨hfind, hquota⟩ := reserved_eq_some hreserved
    split
    · exact .refl
    next db hbind =>
    obtain ⟨id, month⟩ := quota
    by_cases hkey : x.attempt.key = ""
    · simp only [Database.bind_reservation_identity, if_pos hkey] at hbind
      cases hbind
      exact .refl
    · obtain ⟨r, hrow, hid, hmonth, -, ⟨-, rfl⟩ | ⟨hunbound, rfl⟩⟩ := bind_cases hbind hkey
      · exact .refl
      · exact .single (.bind r x.attempt.request_id hrow hunbound
          (h.bind request_id x id month r rfl hfind hquota hid hmonth))
  | mark request_id current revision =>
    simp only [System.step, System.mark]
    split
    · exact .refl
    next x quota hreserved =>
    obtain ⟨hfind, hquota⟩ := reserved_eq_some hreserved
    split
    · exact .refl
    next hbound =>
    refine commit_changes ?_
    intro db hmark
    have hbefore : x.attempt.key ≠ "" → x.bound = true := by
      intro hkey
      by_contra hnot
      exact hbound ⟨hkey, by simpa using hnot⟩
    obtain ⟨hclaim, hdispatch⟩ := h.dispatch request_id current revision x quota.1 quota.2 rfl
      hfind hquota hbefore
    exact mark_changes hmark hclaim hdispatch
  | release_pending_with_reservation request_id =>
    exact call_reserved_changes
      (fun _ _ _ _ _ _ hrelease => release_quota_reservation_changes hrelease)
  | release_quota request_id =>
    exact call_reserved_changes
      (fun _ _ _ _ _ _ hrelease => release_quota_reservation_changes hrelease)
  | release_not_dispatched request_id =>
    exact call_reserved_changes
      (fun _ _ _ _ _ _ hrelease => release_not_dispatched_changes hrelease)
  | finish_not_dispatched request_id =>
    exact call_reserved_changes
      (fun _ _ _ _ _ _ hfinish => finish_not_dispatched_changes hfinish)
  | finish request_id output failed =>
    refine call_reserved_changes ?_
    intro x id month db hfind hquota hfinish
    have hself : s.executes.find x.request_id = some x := by
      rw [(Table.find_eq_some.mp hfind).2]
      exact hfind
    exact finish_with_reservation_changes hfinish (fun db1 r hrows hrow hdispatched =>
      h.settle x id month r hself hquota hrow hdispatched db1 hrows)
  | finish_read_failure request_id =>
    refine call_reserved_changes ?_
    intro x id month db hfind hquota hfinish
    have hself : s.executes.find x.request_id = some x := by
      rw [(Table.find_eq_some.mp hfind).2]
      exact hfind
    exact finish_read_failure_changes hfinish (fun r hrow hdispatched =>
      h.settle x id month r hself hquota hrow hdispatched s.db rfl)
  | finish_read_timeout request_id id outcome =>
    refine call_changes ?_
    intro x db hfind hclose
    rw [Database.finish_read_timeout] at hclose
    split at hclose
    · cases hclose
      exact .refl
    next hkey =>
    refine close_timed_out_changes hclose ?_
    intro t hread
    obtain ⟨r, hlatest, rfl⟩ := Option.map_eq_some_iff.mp hread
    obtain ⟨hrow, -⟩ := latest_timed_out_eq hlatest
    exact ⟨r, hrow, rfl, rfl, fun hdispatched _ _ =>
      h.timeout request_id x id outcome r rfl hfind hkey hlatest hdispatched⟩
  | read_timed_out request_id id =>
    simp only [System.step]
    split
    · exact .refl
    split
    · exact .refl
    · exact .refl
  | close_timed_out i outcome =>
    simp only [System.step]
    split
    · exact .refl
    next a read hread =>
    refine commit_changes ?_
    intro db hclose
    refine close_timed_out_changes hclose ?_
    rintro t rfl
    exact h.close i outcome a t rfl hread
  | reconcile command =>
    refine commit_changes ?_
    intro db hreconcile
    exact reconcile_changes hreconcile (h.reconcile command rfl)

/-! ## Readings -/

/-- What a deadline has read is a reservation that is there. -/
def System.Read (s : System Value) : Prop :=
  ∀ a t, (a, some t) ∈ s.reads →
    ∃ r, s.db.reservations.find r.id = some r ∧ r.id = t.id ∧ r.month = t.month

theorem commit_reads (s : System Value) (result : Except ε (Database Value)) :
    (s.commit result).reads = s.reads := by
  cases result with
  | error e => rfl
  | ok db => rfl

theorem call_reads (s : System Value) (request_id : String)
    (f : Attempt → Except ε (Database Value)) : (s.call request_id f).reads = s.reads := by
  rw [System.call]
  split
  · rfl
  · exact commit_reads s _

theorem call_reserved_reads (s : System Value) (request_id : String)
    (f : Attempt → String × String → Except ε (Database Value)) :
    (s.call_reserved request_id f).reads = s.reads := by
  rw [System.call_reserved]
  split
  · rfl
  · exact commit_reads s _

theorem step_reads (s : System Value) (now : ℤ) (op : Op Value) :
    (s.step cal config (now, op)).reads = s.reads ∨
      ∃ request_id id x, op = .read_timed_out request_id id ∧
        s.executes.find request_id = some x ∧ x.attempt.key ≠ "" ∧
        s.step cal config (now, op) = { s with
          reads := s.reads ++ [(x.attempt, s.db.read_timed_out x.attempt id)] } := by
  cases op with
  | acquire a disabled =>
    left
    simp only [System.step]
    split
    · rfl
    split
    · rfl
    · rfl
    · rfl
  | release_pending request_id => exact .inl (call_reads s request_id _)
  | reserve request_id q =>
    left
    simp only [System.step, System.reserve]
    split
    · rfl
    split
    · rfl
    split
    · rfl
    · rfl
  | bind request_id =>
    left
    simp only [System.step, System.bind]
    split
    · rfl
    split
    · rfl
    · rfl
  | mark request_id current revision =>
    left
    simp only [System.step, System.mark]
    split
    · rfl
    split
    · rfl
    · exact commit_reads s _
  | release_pending_with_reservation request_id => exact .inl (call_reserved_reads s request_id _)
  | release_quota request_id => exact .inl (call_reserved_reads s request_id _)
  | release_not_dispatched request_id => exact .inl (call_reserved_reads s request_id _)
  | finish_not_dispatched request_id => exact .inl (call_reserved_reads s request_id _)
  | finish request_id output failed => exact .inl (call_reserved_reads s request_id _)
  | finish_read_failure request_id => exact .inl (call_reserved_reads s request_id _)
  | finish_read_timeout request_id id outcome => exact .inl (call_reads s request_id _)
  | read_timed_out request_id id =>
    simp only [System.step]
    split
    · exact .inl rfl
    next x hfind =>
    split
    · exact .inl rfl
    next hkey => exact .inr ⟨request_id, id, x, rfl, hfind, hkey, rfl⟩
  | close_timed_out i outcome =>
    left
    simp only [System.step]
    split
    · rfl
    · exact commit_reads s _
  | reconcile command => exact .inl (commit_reads s _)

theorem commit_executes (s : System Value) (result : Except ε (Database Value)) :
    (s.commit result).executes = s.executes := by
  cases result with
  | error e => rfl
  | ok db => rfl

/-- A call, later: it may have reserved, and bound its reservation. -/
structure Execute.Later (x x' : Execute) : Prop where
  attempt : x'.attempt = x.attempt
  quota : x.quota.isSome = true → x'.quota = x.quota
  bound : x.bound = true → x'.bound = true

theorem Execute.Later.refl (x : Execute) : x.Later x := ⟨rfl, fun _ => rfl, id⟩

theorem find_later {executes : Table Execute.request_id} {k : String}
    (h : executes.find request_id = some x) (f : Execute → Execute)
    (hf : ∀ x, (f x).request_id = x.request_id) (hlater : request_id = k → x.Later (f x)) :
    ∃ x', (executes.modify k f hf).find request_id = some x' ∧ x.Later x' := by
  rw [Table.find_modify]
  split
  next heq =>
    rw [← heq, h]
    exact ⟨f x, rfl, hlater heq⟩
  next => exact ⟨x, h, .refl x⟩

theorem step_executes_eq (s : System Value) (now : ℤ)
    (hacquire : ∀ a disabled, op ≠ .acquire a disabled)
    (hreserve : ∀ request_id q, op ≠ .reserve request_id q)
    (hbind : ∀ request_id, op ≠ .bind request_id) :
    (s.step cal config (now, op)).executes = s.executes := by
  have hcall : ∀ {ε : Type} request_id (f : Attempt → Except ε (Database Value)),
      (s.call request_id f).executes = s.executes := by
    intro ε request_id f
    rw [System.call]
    split
    · rfl
    · exact commit_executes s _
  have hreserved : ∀ {ε : Type} request_id
      (f : Attempt → String × String → Except ε (Database Value)),
      (s.call_reserved request_id f).executes = s.executes := by
    intro ε request_id f
    rw [System.call_reserved]
    split
    · rfl
    · exact commit_executes s _
  cases op with
  | acquire a disabled => exact absurd rfl (hacquire a disabled)
  | reserve request_id q => exact absurd rfl (hreserve request_id q)
  | bind request_id => exact absurd rfl (hbind request_id)
  | release_pending request_id => exact hcall request_id _
  | mark request_id current revision =>
    simp only [System.step, System.mark]
    split
    · rfl
    split
    · rfl
    · exact commit_executes s _
  | release_pending_with_reservation request_id => exact hreserved request_id _
  | release_quota request_id => exact hreserved request_id _
  | release_not_dispatched request_id => exact hreserved request_id _
  | finish_not_dispatched request_id => exact hreserved request_id _
  | finish request_id output failed => exact hreserved request_id _
  | finish_read_failure request_id => exact hreserved request_id _
  | finish_read_timeout request_id id outcome => exact hcall request_id _
  | read_timed_out request_id id =>
    simp only [System.step]
    split
    · rfl
    split
    · rfl
    · rfl
  | close_timed_out i outcome =>
    simp only [System.step]
    split
    · rfl
    · exact commit_executes s _
  | reconcile command => exact commit_executes s _

theorem step_executes (h : s.executes.find request_id = some x) (op : ℤ × Op Value) :
    ∃ x', (s.step cal config op).executes.find request_id = some x' ∧ x.Later x' := by
  obtain ⟨now, op⟩ := op
  by_cases hacquire : ∃ a disabled, op = .acquire a disabled
  · obtain ⟨a, disabled, rfl⟩ := hacquire
    simp only [System.step]
    split
    · exact ⟨x, h, .refl x⟩
    next executes hinsert =>
    split
    · exact ⟨x, h, .refl x⟩
    · exact ⟨x, h, .refl x⟩
    · refine ⟨x, ?_, .refl x⟩
      change executes.find request_id = some x
      rw [Table.find_insert hinsert]
      split
      next heq =>
        -- the new request is not one that is there
        rw [heq, (Table.insert_eq_some hinsert).1] at h
        cases h
      next => exact h
  by_cases hreserve : ∃ request_id q, op = .reserve request_id q
  · obtain ⟨request_id', q, rfl⟩ := hreserve
    simp only [System.step, System.reserve]
    split
    · exact ⟨x, h, .refl x⟩
    next x' hfind =>
    split
    · exact ⟨x, h, .refl x⟩
    next hnone =>
    split
    · exact ⟨x, h, .refl x⟩
    next p hreserve =>
      refine find_later h (Execute.reserve (p.quota_id, p.quota_month)) (fun _ => rfl) ?_
      rintro rfl
      rw [h] at hfind
      cases hfind
      exact ⟨rfl, fun hquota => absurd hquota hnone, id⟩
  by_cases hbind : ∃ request_id, op = .bind request_id
  · obtain ⟨request_id', rfl⟩ := hbind
    simp only [System.step, System.bind]
    split
    · exact ⟨x, h, .refl x⟩
    split
    · exact ⟨x, h, .refl x⟩
    · exact find_later h Execute.bind (fun _ => rfl) (fun _ => ⟨rfl, fun _ => rfl, fun _ => rfl⟩)
  · refine ⟨x, ?_, .refl x⟩
    rw [step_executes_eq s now (fun a disabled heq => hacquire ⟨a, disabled, heq⟩)
      (fun request_id q heq => hreserve ⟨request_id, q, heq⟩)
      (fun request_id heq => hbind ⟨request_id, heq⟩)]
    exact h

theorem step_read {now : ℤ}
    (hpath : Changes cal config permit s.db (s.step cal config (now, op)).db) (h : s.Read) :
    (s.step cal config (now, op)).Read := by
  intro a t hmem
  rcases @step_reads _ cal config s now op with hsame | ⟨request_id, id, x, -, -, -, hstep⟩
  · rw [hsame] at hmem
    obtain ⟨r, hfind, hid, hmonth⟩ := h a t hmem
    obtain ⟨r', hfind', hlater⟩ := hpath.later hfind
    exact ⟨r', by rw [hlater.id]; exact hfind', hlater.id.trans hid, hlater.month.trans hmonth⟩
  · rw [hstep] at hmem ⊢
    rcases List.mem_append.mp hmem with hold | hnew
    · exact h a t hold
    · have hread : some t = s.db.read_timed_out x.attempt id :=
        (Prod.mk.inj (List.mem_singleton.mp hnew)).2
      obtain ⟨r, hlatest, rfl⟩ := Option.map_eq_some_iff.mp hread.symm
      exact ⟨r, (latest_timed_out_eq hlatest).1, rfl, rfl⟩

theorem permits_of_admit {now : ℤ} (hread : s.Read)
    (hfree : ∀ db w, (∀ q now, w ≠ .grant q now) → permit db w)
    (hgrant : ∀ request_id q x, op = .reserve request_id q →
      s.executes.find request_id = some x → ∀ db, permit db (.grant (q.of x.attempt) now)) :
    s.Permits cal permit now op where
  acquire := fun _ _ _ _ _ _ => ⟨hfree _ _ (fun _ _ h => by cases h),
    fun _ _ _ _ _ => hfree _ _ (fun _ _ h => by cases h)⟩
  grant := hgrant
  bind := fun _ _ _ _ _ _ _ _ _ _ => hfree _ _ (fun _ _ h => by cases h)
  dispatch := fun _ _ _ _ _ _ _ _ _ _ => ⟨fun _ _ _ _ _ => hfree _ _ (fun _ _ h => by cases h),
    fun _ _ _ _ _ => hfree _ _ (fun _ _ h => by cases h)⟩
  settle := fun _ _ _ _ _ _ _ _ _ _ => hfree _ _ (fun _ _ h => by cases h)
  timeout := fun _ _ _ _ _ _ _ _ _ _ => hfree _ _ (fun _ _ h => by cases h)
  close := by
    intro i outcome a t _ hget
    obtain ⟨r, hfind, hid, hmonth⟩ := hread a t (List.mem_of_getElem? hget)
    exact ⟨r, hfind, hid, hmonth, fun _ _ _ => hfree _ _ (fun _ _ h => by cases h)⟩
  reconcile := fun _ _ _ _ _ _ _ => hfree _ _ (fun _ _ h => by cases h)

theorem free_permits (hread : s.Read) (now : ℤ) (op : Op Value) :
    s.Permits cal (fun _ _ => True) now op :=
  permits_of_admit hread (fun _ _ _ => trivial) (fun _ _ _ _ _ _ => trivial)

/-! ## A sample call -/

def sample_calendar : Calendar :=
  { month := fun _ => "2026-07", day := fun _ => "2026-07-14", hour := fun _ => "2026-07-14T09"
    iso_week := fun _ => "2026-W29" }

def sample_config : PolicyConfig :=
  { send_cost_micros := 500
    linkedin :=
      { warmup_enabled := false, invite_daily_cap := 20, invite_weekly_cap := 80
        invite_noted_monthly_cap := 5, invite_spacing_seconds := 30, message_daily_cap := 15
        message_weekly_cap := 100, message_spacing_seconds := 20, profile_view_daily_cap := 100 }
    cost_nonneg := by decide }

def sample_attempt (request_id : String) : Attempt :=
  { request_id, connection_id := "con_1", connector := "unipile", external_account_id := "acct"
    action := "linkedin.invitation.send", key := "invite-7", input_hash := "h7"
    lease_ms := 180000 }

def sample_reserve (quota_id : String) : Reserve :=
  { connection_id := "", connector := "", action := "", external_account_id := ""
    idempotency_key := "", input_hash := "", timeout_ms := 120000, read_only := false
    noted := false, expected_account := "acc_1"
    entitlements := some { action_calls_soft := 1, action_calls_hard := 1, send_cap := 1
                           spend_cap_micros := 500, nonneg := by decide }
    subaccount := some { connected := true, created_at := 0, provider_account_id := "acc_1" }
    clock := 0, quota_id }

def sample_connection : Connection :=
  { id := "con_1", connector := "unipile", status := "active", auth_type := "unipile"
    external_account_id := "acct", secret_ref_id := "sec_1" }

end Appcall.Actions
