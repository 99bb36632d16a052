/-
A mutation under an idempotency key runs at most once: `execute_inner` and `dispatch` of
`crates/appcall-actions/src/service.rs`.

An execute call makes its transactions in order, and enters the runner once, after the
one that marks it as dispatched. It may stop anywhere: its deadline or a crash may take it
between any two of its steps, a transaction of a call that is gone may still commit, and a
call may be told of an error although its transaction has committed. The calls of one key
are followed through their phases; those of other keys, the sweeps and the operators go on
beside them. A log keeps the order in which the calls of the key were marked, entered the
runner and were given up.
-/
import Appcall.Actions.Keys

set_option autoImplicit false

namespace Appcall.Actions

variable {Value : Type}

/-! ## Calls of a key -/

/-- What `runner.execute` comes to: an output that passes its checks or fails them, or a
failure with the evidence for its dispatch. -/
inductive RunnerAnswer (Value : Type) where
  | valid (output : Value)
  | invalid
  | failed (outcome : ActionDispatchOutcome)

inductive Phase (Value : Type) where
  | acquired
  /-- `reserve` has refused it. -/
  | denied
  | reserved
  | bound
  /-- Its binding or its dispatch has failed. -/
  | refused
  | dispatched
  | running
  | answered (answer : RunnerAnswer Value)
  | ended

/-- What a call learns of a transaction: how it went, that it failed, whatever it did, or
nothing, as the call is gone. -/
inductive Told where
  | result
  | error
  | nothing
  deriving DecidableEq

/-- What happens to the calls of the key. -/
inductive Event where
  | marked (request_id : String)
  | entered (request_id : String)
  | not_dispatched (request_id : String)
  | released (request_id : String)
  | reconciled (request_id : String)
  deriving DecidableEq

/-- The system with the phases of the calls and the log. -/
structure Flow (Value : Type) where
  system : System Value
  phases : String → Option (Phase Value)
  log : List Event

/-- A step of a call or of an operator. -/
inductive Act (Value : Type) where
  | transact (op : Op Value) (told : Told)
  | enter (request_id : String)
  | answer (request_id : String) (answer : RunnerAnswer Value)

def Flow.start (db : Database Value) : Flow Value :=
  { system := System.at_rest db, phases := fun _ => none, log := [] }

/-- The request a transaction is made for. -/
def Op.request_id : Op Value → Option String
  | .acquire a _ => some a.request_id
  | .release_pending request_id => some request_id
  | .reserve request_id _ => some request_id
  | .bind request_id => some request_id
  | .mark request_id _ _ => some request_id
  | .release_pending_with_reservation request_id => some request_id
  | .release_quota request_id => some request_id
  | .release_not_dispatched request_id => some request_id
  | .finish_not_dispatched request_id => some request_id
  | .finish request_id _ _ => some request_id
  | .finish_read_failure request_id => some request_id
  | .finish_read_timeout request_id _ _ => some request_id
  | .read_timed_out request_id _ => some request_id
  | .close_timed_out _ _ => none
  | .reconcile _ => none

/-- The transactions of a mutation, each in its place in `dispatch`. -/
def Phase.allows [DecidableEq Value] : Phase Value → Op Value → Bool
  | .acquired, .release_pending _ => true
  | .acquired, .reserve _ q => !q.read_only
  | .denied, .release_pending _ => true
  | .reserved, .bind _ => true
  | .bound, .mark _ _ _ => true
  | .refused, .release_not_dispatched _ => true
  | .refused, .release_pending _ => true
  | .answered (.valid output), .finish _ o failed => decide (o = some output) && !failed
  | .answered .invalid, .finish _ o failed => o.isNone && failed
  | .answered (.failed .NotDispatched), .finish_not_dispatched _ => true
  | .answered (.failed .ResponseReceived), .release_quota _ => true
  | .answered (.failed .ResponseReceived), .finish _ o failed => o.isNone && failed
  | .answered (.failed .Unknown), .finish _ o failed => o.isNone && failed
  | _, _ => false

/-- A call of the key makes its transactions in order, and acquires first. -/
def Flow.permits [DecidableEq Value] (key : String) (f : Flow Value) (op : Op Value) : Bool :=
  match op with
  | .acquire _ _ => true
  | op =>
    ((op.request_id).bind f.system.executes.find).all (fun x =>
      decide (x.attempt.key ≠ key) || (f.phases x.request_id).any (fun p => p.allows op))

/-- The transaction gives the call what it asks for. -/
def System.succeeds (cal : Calendar) (config : PolicyConfig) (s : System Value) :
    ℤ × Op Value → Bool
  | (now, .acquire a disabled) =>
    (s.executes.find a.request_id).isNone &&
      (match s.db.acquire a disabled now with
        | .ok (.Acquired, _) => true
        | _ => false)
  | (now, .reserve request_id q) =>
    (s.executes.find request_id).any (fun x => x.quota.isNone
      && (s.db.reserve cal config (q.of x.attempt) now).1.isOk)
  | (_, .bind request_id) =>
    (s.reserved request_id).any (fun x =>
      (s.db.bind_reservation_identity x.1.attempt (some x.2)).isOk)
  | (now, .mark request_id current revision) =>
    (s.reserved request_id).any (fun x => x.1.bound
      && (s.db.mark_dispatched_checked_with_reservation x.1.attempt current revision (some x.2)
        now).isOk)
  | _ => true

/-- The next phase of a call that has made a transaction. -/
def Phase.next (p : Phase Value) (told : Told) (ok : Bool) (op : Op Value) : Phase Value :=
  if told = .nothing then .ended
  else
    let ok := ok && decide (told = .result)
    match op with
    | .reserve _ _ => if ok then .reserved else .denied
    | .bind _ => if ok then .bound else .refused
    | .mark _ _ _ => if ok then .dispatched else .refused
    | .release_not_dispatched _ => p
    | .release_quota _ => p
    | _ => .ended

def Flow.to_phase (f : Flow Value) (request_id : String) (p : Phase Value) :
    String → Option (Phase Value) :=
  fun id => if id = request_id then some p else f.phases id

/-- The phases after a transaction. A call that is not told that it has acquired does
nothing more. -/
def Flow.phases_after (cal : Calendar) (config : PolicyConfig) (key : String) (f : Flow Value)
    (op : ℤ × Op Value) (told : Told) : String → Option (Phase Value) :=
  match op.2 with
  | .acquire a _ =>
    if a.key = key ∧ f.system.succeeds cal config op = true then
      f.to_phase a.request_id (if told = .result then .acquired else .ended)
    else f.phases
  | .close_timed_out _ _ => f.phases
  | .reconcile _ => f.phases
  | _ =>
    match op.2.request_id with
    | none => f.phases
    | some request_id =>
      match f.phases request_id with
      | none => f.phases
      | some p => f.to_phase request_id (p.next told (f.system.succeeds cal config op) op.2)

def System.keyed (s : System Value) (key request_id : String) : Bool :=
  (s.executes.find request_id).any (fun x => decide (x.attempt.key = key))

/-- What a transaction adds to the log of the key. -/
def Flow.events (cal : Calendar) (config : PolicyConfig) (key : String) (f : Flow Value)
    (op : ℤ × Op Value) : List Event :=
  match op.2 with
  | .mark request_id _ _ =>
    if f.system.keyed key request_id && f.system.succeeds cal config op then [.marked request_id]
    else []
  | .release_not_dispatched request_id =>
    if f.system.keyed key request_id then [.released request_id] else []
  | .finish_not_dispatched request_id =>
    if f.system.keyed key request_id then [.not_dispatched request_id] else []
  | .reconcile command =>
    if decide (command.idempotency_key = key)
        && decide (command.resolution = .ProvenNotDispatched)
        && (f.system.db.reconcile_action_claim cal command op.1).isOk then
      [.reconciled command.expected_request_id]
    else []
  | _ => []

def Flow.step [DecidableEq Value] (cal : Calendar) (config : PolicyConfig) (key : String)
    (f : Flow Value) : ℤ × Act Value → Flow Value
  | (now, .transact op told) =>
    if f.permits key op then
      { system := f.system.step cal config (now, op)
        phases := f.phases_after cal config key (now, op) told
        log := f.log ++ f.events cal config key (now, op) }
    else f
  | (_, .enter request_id) =>
    match f.phases request_id with
    | some .dispatched =>
      { f with
        phases := f.to_phase request_id .running
        log := f.log ++ [.entered request_id] }
    | _ => f
  | (_, .answer request_id answer) =>
    match f.phases request_id with
    | some .running => { f with phases := f.to_phase request_id (.answered answer) }
    | _ => f

/-! ## The reservations of the calls -/

variable {cal : Calendar} {config : PolicyConfig}

/-- Each call has a reservation of its own. -/
structure System.Quotas (s : System Value) : Prop where
  found : ∀ request_id x id month, s.executes.find request_id = some x →
    x.quota = some (id, month) → (s.db.reservations.find id).isSome = true
  own : ∀ request_id request_id' x x' id month month', s.executes.find request_id = some x →
    s.executes.find request_id' = some x' → x.quota = some (id, month) →
    x'.quota = some (id, month') → request_id = request_id'

variable {s : System Value} {id : Option String} {db db' : Database Value}

/-- A call of the table after a step: it was there, or it has acquired, or it has reserved
under an id that was free. -/
theorem step_quota (op : ℤ × Op Value) {request_id : String} {x' : Execute} {id month : String}
    (hx' : (s.step cal config op).executes.find request_id = some x')
    (hquota : x'.quota = some (id, month)) :
    (∃ x, s.executes.find request_id = some x ∧ x.quota = some (id, month)) ∨
      s.db.reservations.find id = none ∧
        (∃ r, (s.step cal config op).db.reservations.find id = some r ∧ r.state = .pending) ∧
        ∀ request_id', request_id' ≠ request_id →
          (s.step cal config op).executes.find request_id' = s.executes.find request_id' := by
  obtain ⟨now, op⟩ := op
  by_cases hacquire : ∃ a disabled, op = .acquire a disabled
  · obtain ⟨a, disabled, rfl⟩ := hacquire
    left
    simp only [System.step] at hx'
    split at hx'
    · exact ⟨x', hx', hquota⟩
    next executes hinsert =>
    split at hx'
    · exact ⟨x', hx', hquota⟩
    · exact ⟨x', hx', hquota⟩
    · change executes.find request_id = some x' at hx'
      rw [Table.find_insert hinsert] at hx'
      split at hx'
      · cases hx'
        cases hquota
      · exact ⟨x', hx', hquota⟩
  by_cases hreserve : ∃ request_id q, op = .reserve request_id q
  · obtain ⟨request_id', q, rfl⟩ := hreserve
    simp only [System.step, System.reserve] at hx' ⊢
    split at hx'
    · exact .inl ⟨x', hx', hquota⟩
    next x hx =>
    split at hx'
    · exact .inl ⟨x', hx', hquota⟩
    next hnone =>
    rcases @reserve_cases _ cal config (fun _ _ => True) s.db (q.of x.attempt) now with
      ⟨⟨code, hcode⟩, -⟩ | ⟨p, swept, e, hok, hpid, hpmonth, hpath, -, -, -, hgrant⟩
    · rw [hcode] at hx'
      exact .inl ⟨x', hx', hquota⟩
    · rw [hok] at hx'
      by_cases hsame : request_id = request_id'
      · subst hsame
        right
        have hself := Table.find_modify_self hx (Execute.reserve (p.quota_id, p.quota_month))
          (fun _ => rfl)
        cases hself.symm.trans hx'
        obtain ⟨rfl, rfl⟩ := Prod.mk.inj (Option.some.inj hquota)
        obtain ⟨n, linkedin, n', send, reservations, -, -, hinsert, hdb⟩ := grant_eq hgrant
        have hfree : swept.reservations.find p.quota_id = none := by
          rw [hpid]
          exact (Table.insert_eq_some hinsert).1
        refine ⟨?_, ?_, ?_⟩
        · -- a row that was there would be there after the cleanup
          cases hold : s.db.reservations.find p.quota_id with
          | none => rfl
          | some r =>
            obtain ⟨r', hr', -⟩ := hpath.later hold
            rw [hfree] at hr'
            cases hr'
        · rw [if_neg hnone, hok]
          change ∃ r, (s.db.reserve cal config (q.of x.attempt) now).2.reservations.find
            p.quota_id = some r ∧ r.state = .pending
          rw [hdb]
          exact ⟨_, (Table.find_insert hinsert p.quota_id).trans (if_pos hpid), rfl⟩
        · intro request_id' hne
          rw [if_neg hnone, hok]
          exact Table.find_modify_other s.executes
            (Execute.reserve (p.quota_id, p.quota_month)) (fun _ => rfl) hne
      · left
        have hother := Table.find_modify_other s.executes
          (Execute.reserve (p.quota_id, p.quota_month)) (fun _ => rfl) hsame
        exact ⟨x', hother.symm.trans hx', hquota⟩
  by_cases hbind : ∃ request_id, op = .bind request_id
  · obtain ⟨request_id', rfl⟩ := hbind
    left
    simp only [System.step, System.bind] at hx'
    split at hx'
    · exact ⟨x', hx', hquota⟩
    next x quota hreserved =>
    obtain ⟨hx, -⟩ := reserved_eq_some hreserved
    split at hx'
    · exact ⟨x', hx', hquota⟩
    · by_cases hsame : request_id = request_id'
      · subst hsame
        have hself := Table.find_modify_self hx Execute.bind (fun _ => rfl)
        cases hself.symm.trans hx'
        exact ⟨x, hx, hquota⟩
      · have hother := Table.find_modify_other s.executes Execute.bind (fun _ => rfl) hsame
        exact ⟨x', hother.symm.trans hx', hquota⟩
  · left
    rw [step_executes_eq s now (fun a disabled heq => hacquire ⟨a, disabled, heq⟩)
      (fun request_id q heq => hreserve ⟨request_id, q, heq⟩)
      (fun request_id heq => hbind ⟨request_id, heq⟩)] at hx'
    exact ⟨x', hx', hquota⟩

theorem step_quotas (hread : s.Read) (h : s.Quotas) (op : ℤ × Op Value) :
    (s.step cal config op).Quotas := by
  have hpath := @step_changes _ cal config _ _ _ _ (free_permits hread op.1 op.2)
  refine ⟨?_, ?_⟩
  · intro request_id x' id month hx' hquota
    rcases step_quota op hx' hquota with ⟨x, hx, hquota'⟩ | ⟨-, ⟨r', hr', -⟩, -⟩
    · obtain ⟨r, hr⟩ := Option.isSome_iff_exists.mp (h.found request_id x id month hx hquota')
      obtain ⟨r', hr', -⟩ := hpath.later hr
      exact Option.isSome_iff_exists.mpr ⟨r', hr'⟩
    · exact Option.isSome_iff_exists.mpr ⟨r', hr'⟩
  · intro request_id request_id' x x' id month month' hx hx' hquota hquota'
    -- an id that was free is that of one call
    have hnone : ∀ {request_id y m}, s.db.reservations.find id = none →
        s.executes.find request_id = some y → y.quota ≠ some (id, m) := by
      intro request_id y m hfree hy hyq
      have hsome := h.found request_id y id m hy hyq
      rw [hfree] at hsome
      cases hsome
    rcases step_quota op hx hquota with ⟨y, hy, hyq⟩ | ⟨hfree, -, hothers⟩
    · rcases step_quota op hx' hquota' with ⟨z, hz, hzq⟩ | ⟨hfree, -, -⟩
      · exact h.own request_id request_id' y z id month month' hy hz hyq hzq
      · exact absurd hyq (hnone hfree hy)
    · by_contra hne
      rw [hothers request_id' (fun heq => hne heq.symm)] at hx'
      exact hnone hfree hx' hquota'

/-- No reservation is dispatched but the one of the given id. -/
def Dispatches (id : Option String) (_ : Database Value) : Write → Prop
  | .dispatch r => id = some r.id
  | _ => True

theorem Change.dispatched (h : Change cal config (Dispatches id) db db') {k : String}
    {r' : Reservation} (hr' : db'.reservations.find k = some r') (hstate : r'.state = .dispatched) :
    id = some k ∨ ∃ r, db.reservations.find k = some r ∧ r.state = .dispatched := by
  have hmodify : ∀ (k' : String) (f : Reservation → Reservation) (hf : ∀ r, (f r).id = r.id),
      (∀ r, (f r).state = .dispatched → r.state = .dispatched) →
      (db.reservations.modify k' f hf).find k = some r' →
      ∃ r, db.reservations.find k = some r ∧ r.state = .dispatched := by
    intro k' f hf hsame hfind
    rw [Table.find_modify] at hfind
    split at hfind
    next heq =>
      obtain ⟨r, hr, rfl⟩ := Option.map_eq_some_iff.mp hfind
      exact ⟨r, by rw [heq]; exact hr, hsame r hstate⟩
    next => exact ⟨r', hfind, hstate⟩
  have hto_state : ∀ (states : List ReservationState) (state : ReservationState),
      state ≠ .dispatched → ∀ r : Reservation, (r.to_state states state).state = .dispatched →
      r.state = .dispatched := by
    intro states state hne r hr
    rw [Reservation.to_state] at hr
    split at hr
    · exact absurd hr hne
    · exact hr
  cases h with
  | keys db' claims reservations counters usage_events rollups =>
    rw [reservations] at hr'
    exact .inr ⟨r', hr', hstate⟩
  | refund r db' found refunded =>
    obtain ⟨counters, -, rfl⟩ := refund_charges_eq refunded
    exact .inr (hmodify r.id Reservation.refund (fun _ => rfl) (fun _ hr => hr) hr')
  | release k' states active =>
    exact .inr (hmodify k' _ (Reservation.to_state_id _ _) (hto_state states .released
      (by decide)) hr')
  | recover r found dispatched =>
    rw [Database.set_state, meter_reservations] at hr'
    exact .inr (hmodify r.id _ (Reservation.to_state_id _ _) (hto_state _ .settled (by decide))
      hr')
  | settle r request_id account now found permitted =>
    rw [Database.set_state, write_usage_reservations] at hr'
    exact .inr (hmodify r.id _ (Reservation.to_state_id _ _) (hto_state _ .settled (by decide))
      hr')
  | usage request_id account now permitted =>
    rw [write_usage_reservations] at hr'
    exact .inr ⟨r', hr', hstate⟩
  | bind r request_id found unbound permitted =>
    exact .inr (hmodify r.id (Reservation.bind request_id) (fun _ => rfl) (fun _ hr => hr) hr')
  | dispatch r now found pending permitted =>
    by_cases hk : k = r.id
    · exact .inl (by rw [hk]; exact permitted)
    · right
      have hother := Table.find_modify_other db.reservations (Reservation.dispatch now)
        (fun _ => rfl) hk
      exact ⟨r', hother.symm.trans hr', hstate⟩
  | grant q e now db' entitled room swept admitted permitted =>
    obtain ⟨n, linkedin, n', send, reservations, -, -, hinsert, rfl⟩ := grant_eq admitted
    have hfind := Table.find_insert hinsert k
    have hr'' : reservations.find k = some r' := hr'
    rw [hfind] at hr''
    split at hr''
    · cases hr''
      cases hstate
    · exact .inr ⟨r', hr'', hstate⟩

theorem Changes.dispatched (h : Changes cal config (Dispatches id) db db') {k : String}
    {r' : Reservation} (hr' : db'.reservations.find k = some r') (hstate : r'.state = .dispatched) :
    id = some k ∨ ∃ r, db.reservations.find k = some r ∧ r.state = .dispatched := by
  induction h generalizing r' with
  | refl => exact .inr ⟨r', hr', hstate⟩
  | tail _ hlast ih =>
    rcases hlast.dispatched hr' hstate with hid | ⟨r, hr, hrstate⟩
    · exact .inl hid
    · exact ih hr hrstate

theorem dispatch_permits (hread : s.Read) {now : ℤ} {op : Op Value}
    (h : ∀ request_id current revision x id' month, op = .mark request_id current revision →
      s.executes.find request_id = some x → x.quota = some (id', month) → id = some id') :
    s.Permits cal (Dispatches id) now op where
  acquire := fun _ _ _ _ _ _ => ⟨trivial, fun _ _ _ _ _ => trivial⟩
  grant := fun _ _ _ _ _ _ => trivial
  bind := fun _ _ _ _ _ _ _ _ _ _ => trivial
  dispatch := by
    intro request_id current revision x id' month hop hx hquota _
    refine ⟨fun _ _ _ _ _ => trivial, ?_⟩
    rintro db r rfl - -
    exact h request_id current revision x r.id month hop hx hquota
  settle := fun _ _ _ _ _ _ _ _ _ _ => trivial
  timeout := fun _ _ _ _ _ _ _ _ _ _ => trivial
  close := by
    intro i outcome a t _ hget
    obtain ⟨r, hr, hid, hmonth⟩ := hread a t (List.mem_of_getElem? hget)
    exact ⟨r, hr, hid, hmonth, fun _ _ _ => trivial⟩
  reconcile := fun _ _ _ _ _ _ _ => trivial

end Appcall.Actions
