/-
What an action call is metered for.

A call writes its usage under the key of its request, the cleanup under a key of the
reservation it recovers. Two keys do not exclude each other, so the state of the
reservation must: usage is written when the reservation leaves `dispatched`, by one of the
two. A reconciliation that finds the reservation settled writes under the key of the
request all the same, and so does a deadline that has read the reservation before the
cleanup got to it; where the cleanup was first, the call is metered twice.
-/
import Mathlib.Data.List.Induction
import Appcall.Actions.Accounts

set_option autoImplicit false

namespace Appcall.Actions

variable {Value : Type} {cal : Calendar} {config : PolicyConfig}

/-! ## Rollups -/

def UsageEvent.counts (cal : Calendar) (account month : String) (e : UsageEvent) : ℤ :=
  if e.external_account_id = account ∧ cal.month e.occurred_at = month then 1 else 0

/-- The rollups count the events, and the reservations are of the month they were made
in. -/
structure Database.Tallied (cal : Calendar) (db : Database Value) : Prop where
  month : ∀ r ∈ db.reservations.rows, cal.month r.created_at = r.month
  rollups : ∀ account month, db.rollups.read (account, month) Rollup.quantity
    = db.usage_events.sum (UsageEvent.counts cal account month)

variable {db db' : Database Value} {request_id : String} {s : System Value}

theorem meter_rollups {key account month : String} {occurred_at : ℤ}
    (h : ∀ account month, db.rollups.read (account, month) Rollup.quantity
      = db.usage_events.sum (UsageEvent.counts cal account month))
    (hmonth : cal.month occurred_at = month) (account' month' : String) :
    (db.meter key account occurred_at month).rollups.read (account', month') Rollup.quantity
      = (db.meter key account occurred_at month).usage_events.sum
        (UsageEvent.counts cal account' month') := by
  rw [Database.meter]
  split
  · exact h account' month'
  next usage_events hinsert =>
    have hread := Table.read_upsert db.rollups
      { external_account_id := account, month, quantity := 1 }
      (fun r => { r with quantity := r.quantity + 1 }) (fun _ => rfl) (m := Rollup.quantity)
      (d := 1) rfl (fun _ => rfl) (account', month')
    refine hread.trans ?_
    change _ = usage_events.sum _
    rw [Table.sum_insert hinsert, h account' month', UsageEvent.counts, hmonth]
    congr 1
    by_cases heq : account = account' ∧ month = month'
    · rw [if_pos heq, if_pos (by rw [heq.1, heq.2]; rfl)]
    · rw [if_neg heq, if_neg]
      intro hwindow
      exact heq ⟨(congrArg Prod.fst hwindow).symm, (congrArg Prod.snd hwindow).symm⟩

theorem tallied_months (h : ∀ r ∈ db.reservations.rows, cal.month r.created_at = r.month)
    (id : String) (f : Reservation → Reservation) (hf : ∀ r, (f r).id = r.id)
    (hsame : ∀ r, (f r).created_at = r.created_at ∧ (f r).month = r.month)
    (hreservations : db'.reservations = db.reservations.modify id f hf) :
    ∀ r ∈ db'.reservations.rows, cal.month r.created_at = r.month := by
  intro r' hr'
  rw [hreservations] at hr'
  obtain ⟨r, hr, rfl⟩ := List.mem_map.mp hr'
  split
  · rw [(hsame r).1, (hsame r).2]
    exact h r hr
  · exact h r hr

theorem to_state_made (states : List ReservationState) (state : ReservationState)
    (r : Reservation) : (r.to_state states state).created_at = r.created_at ∧
      (r.to_state states state).month = r.month := by
  rw [Reservation.to_state]
  split
  · exact ⟨rfl, rfl⟩
  · exact ⟨rfl, rfl⟩

variable {permit : Database Value → Write → Prop}

theorem Change.tallied (h : Change cal config permit db db') (htallied : db.Tallied cal) :
    db'.Tallied cal := by
  cases h with
  | keys db' claims reservations counters usage_events rollups =>
    refine ⟨?_, ?_⟩
    · rw [reservations]
      exact htallied.month
    · rw [rollups, usage_events]
      exact htallied.rollups
  | refund r db' found refunded =>
    obtain ⟨counters, -, rfl⟩ := refund_charges_eq refunded
    exact ⟨tallied_months htallied.month r.id Reservation.refund (fun _ => rfl)
      (fun _ => ⟨rfl, rfl⟩) rfl, htallied.rollups⟩
  | release id states active =>
    exact ⟨tallied_months htallied.month id _ (Reservation.to_state_id _ _) (to_state_made _ _)
      rfl, htallied.rollups⟩
  | recover r found dispatched =>
    have hmade := htallied.month r (Table.find_eq_some.mp found).1
    refine ⟨tallied_months htallied.month r.id (Reservation.to_state [.dispatched] .settled)
      (Reservation.to_state_id _ _) (to_state_made _ _) ?_,
      meter_rollups htallied.rollups hmade⟩
    rw [Database.set_state, meter_reservations]
  | settle r request_id account now found permitted =>
    have hmade := htallied.month r (Table.find_eq_some.mp found).1
    refine ⟨tallied_months htallied.month r.id (Reservation.to_state [.dispatched] .settled)
      (Reservation.to_state_id _ _) (to_state_made _ _) ?_, ?_⟩
    · rw [Database.set_state, write_usage_reservations]
    · have hevents : (db.write_usage cal request_id account (some (r.id, r.month)) now)
          = db.meter (action_key request_id) account r.created_at r.month := by
        rw [Database.write_usage, Option.bind_some, found]
        rfl
      rw [hevents]
      exact meter_rollups htallied.rollups hmade
  | usage request_id account now permitted =>
    refine ⟨?_, meter_rollups htallied.rollups rfl⟩
    rw [write_usage_reservations]
    exact htallied.month
  | bind r request_id found unbound permitted =>
    exact ⟨tallied_months htallied.month r.id (Reservation.bind request_id) (fun _ => rfl)
      (fun _ => ⟨rfl, rfl⟩) rfl, htallied.rollups⟩
  | dispatch r now found pending permitted =>
    exact ⟨tallied_months htallied.month r.id (Reservation.dispatch now) (fun _ => rfl)
      (fun _ => ⟨rfl, rfl⟩) rfl, htallied.rollups⟩
  | grant q e now db' entitled room swept admitted permitted =>
    obtain ⟨n, linkedin, n', send, reservations, -, -, hinsert, rfl⟩ := grant_eq admitted
    refine ⟨?_, htallied.rollups⟩
    intro r hr
    change r ∈ reservations.rows at hr
    rw [(Table.insert_eq_some hinsert).2, List.mem_append, List.mem_singleton] at hr
    rcases hr with hr | rfl
    · exact htallied.month r hr
    · rfl

theorem Changes.tallied (h : Changes cal config permit db db') (htallied : db.Tallied cal) :
    db'.Tallied cal := by
  induction h with
  | refl => exact htallied
  | tail _ hlast ih => exact hlast.tallied ih

theorem empty_tallied : (@Database.empty Value).Tallied cal where
  month := fun _ hr => absurd hr List.not_mem_nil
  rollups := fun _ _ => rfl

/-! ## The usage of a call -/

/-- The events of a call: under its request, or for the recovery of its reservation. -/
def Database.usage_of (db : Database Value) (request_id id : String) : List UsageEvent :=
  db.usage_events.rows.filter (fun e => decide (e.metering_event_key = action_key request_id)
    || decide (e.metering_event_key = recovery_key id))

theorem mem_usage_of {id : String} {e : UsageEvent} : e ∈ db.usage_of request_id id ↔
      db.usage_events.find (action_key request_id) = some e ∨
        db.usage_events.find (recovery_key id) = some e := by
  rw [Database.usage_of, List.mem_filter, Bool.or_eq_true, decide_eq_true_eq, decide_eq_true_eq,
    Table.find_eq_some, Table.find_eq_some, and_or_left]

theorem usage_of_once {id : String} : (db.usage_of request_id id).length ≤ 1 ↔
      (db.usage_events.find (action_key request_id) = none ∨
        db.usage_events.find (recovery_key id) = none) := by
  refine ⟨?_, ?_⟩
  · intro hlength
    by_contra hboth
    rw [not_or, ← ne_eq, ← ne_eq, Option.ne_none_iff_exists', Option.ne_none_iff_exists'] at hboth
    obtain ⟨⟨e, he⟩, e', he'⟩ := hboth
    -- the two events have different keys
    have hne : e ≠ e' := by
      rintro rfl
      exact action_key_ne request_id id
        ((Table.find_eq_some.mp he).2.symm.trans (Table.find_eq_some.mp he').2)
    have hmem : e ∈ db.usage_of request_id id := mem_usage_of.mpr (.inl he)
    have hmem' : e' ∈ db.usage_of request_id id := mem_usage_of.mpr (.inr he')
    cases hlist : db.usage_of request_id id with
    | nil =>
      rw [hlist] at hmem
      cases hmem
    | cons e0 rest =>
      rw [hlist, List.length_cons] at hlength
      have hrest : rest = [] := List.length_eq_zero_iff.mp (by omega)
      rw [hlist, hrest, List.mem_singleton] at hmem hmem'
      exact hne (hmem.trans hmem'.symm)
  · intro hone
    have hnodup : (db.usage_of request_id id).Nodup :=
      (List.Nodup.of_map _ db.usage_events.nodup).filter _
    have hsame : ∀ e ∈ db.usage_of request_id id, ∀ e' ∈ db.usage_of request_id id, e = e' := by
      intro e he e' he'
      rw [mem_usage_of] at he he'
      rcases hone with hnone | hnone
      · rw [hnone] at he he'
        have heq := he.resolve_left (fun h => by cases h)
        rw [he'.resolve_left (fun h => by cases h)] at heq
        exact (Option.some.inj heq).symm
      · rw [hnone] at he he'
        have heq := he.resolve_right (fun h => by cases h)
        rw [he'.resolve_right (fun h => by cases h)] at heq
        exact (Option.some.inj heq).symm
    cases hlist : db.usage_of request_id id with
    | nil => exact Nat.zero_le 1
    | cons e rest =>
      cases rest with
      | nil => exact Nat.le_refl 1
      | cons e' rest =>
        rw [hlist] at hnodup hsame
        have heq := hsame e List.mem_cons_self e' (List.mem_cons_of_mem _ List.mem_cons_self)
        rw [List.nodup_cons, heq] at hnodup
        exact absurd List.mem_cons_self hnodup.1

/-- The usage of a call is metered once, for a reservation that was dispatched, in its
month. -/
structure Database.Metered (cal : Calendar) (db : Database Value) (request_id : String)
    (r : Reservation) : Prop where
  request : r.request_id = none ∨ r.request_id = some request_id
  once : (db.usage_of request_id r.id).length ≤ 1
  dispatched : ∀ e ∈ db.usage_of request_id r.id, r.dispatched_at.isSome = true
  month : ∀ e ∈ db.usage_of request_id r.id, cal.month e.occurred_at = r.month

/-- Every reservation is metered so, for its call, and each rollup is the number of the
events of its account and month. -/
structure System.Metered (cal : Calendar) (s : System Value) : Prop where
  owned : ∀ id r, s.db.reservations.find id = some r →
    ∃ x, s.executes.find x.request_id = some x ∧ x.quota = some (id, r.month)
  metered : ∀ x id month, s.executes.find x.request_id = some x → x.quota = some (id, month) →
    ∃ r, s.db.reservations.find id = some r ∧ r.month = month ∧
      s.db.Metered cal x.request_id r
  rollups : ∀ account month, s.db.rollups.read (account, month) Rollup.quantity
    = s.db.usage_events.sum (UsageEvent.counts cal account month)

theorem System.Accounts.metered (h : s.Accounts) (htallied : s.db.Tallied cal) : s.Metered cal where
  owned := h.sound.owned
  rollups := htallied.rollups
  metered := by
    intro x id month hx hquota
    obtain ⟨r, hr, hmonth, hholds⟩ := h.sound.holds x id month hx hquota
    have hmade := htallied.month r (Table.find_eq_some.mp hr).1
    refine ⟨r, hr, hmonth, hholds.request, ?_, ?_, ?_⟩
    · rw [usage_of_once]
      cases haction : s.db.usage_events.find (action_key x.request_id) with
      | none => exact .inl rfl
      | some e => exact .inr (hholds.metered e haction).2.2.1
    · intro e he
      rcases mem_usage_of.mp he with haction | hrecovery
      · exact (hholds.metered e haction).2.1
      · exact hholds.begun (.inr (hholds.recovered e hrecovery).1)
    · intro e he
      rcases mem_usage_of.mp he with haction | hrecovery
      · rw [(hholds.metered e haction).2.2.2, hmade]
      · rw [(hholds.recovered e hrecovery).2, hmade]

/-! ## Twice -/

theorem twice_not_metered {x : Execute} {r : Reservation}
    (hx : s.executes.find x.request_id = some x) (hquota : x.quota = some (r.id, r.month))
    (haction : (s.db.usage_events.find (action_key x.request_id)).isSome = true)
    (hrecovery : (s.db.usage_events.find (recovery_key r.id)).isSome = true) : ¬s.Metered cal := by
  intro h
  obtain ⟨r', hr', -, hmetered⟩ := h.metered x r.id r.month hx hquota
  have honce := hmetered.once
  rw [(Table.find_eq_some.mp hr').2, usage_of_once] at honce
  rcases honce with hnone | hnone
  · rw [hnone] at haction
    cases haction
  · rw [hnone] at hrecovery
    cases hrecovery

theorem write_usage_events {account : String} {r : Reservation} {now : ℤ}
    (hr : db.reservations.find r.id = some r) (k : String) :
    (k = action_key request_id ∨ (db.usage_events.find k).isSome = true) →
    ((db.write_usage cal request_id account (some (r.id, r.month)) now).usage_events.find k).isSome
      = true := by
  intro hk
  have hevents : (db.write_usage cal request_id account (some (r.id, r.month)) now)
      = db.meter (action_key request_id) account r.created_at r.month := by
    rw [Database.write_usage, Option.bind_some, hr]
    rfl
  rw [hevents, find_meter]
  split
  · rfl
  next hne => exact hk.resolve_left hne

theorem delete_claim_events (db : Database Value) (a : Attempt) :
    (db.delete_claim a).usage_events = db.usage_events := by
  rw [Database.delete_claim]
  split <;> rfl

/-- **A doubled step meters a call twice.** -/
theorem doubled_not_metered (h : s.Accounts) {op : ℤ × Op Value} (hop : s.Doubled op) :
    ¬(s.step cal config op).Metered cal := by
  obtain ⟨now, op⟩ := op
  cases op with
  | reconcile command =>
    obtain ⟨hresolution, claim, r, hreconcilable, hrecovered⟩ := hop
    obtain ⟨x, r', hx, heq, hr, hquota, hholds⟩ := h.sound.reconcilable hreconcilable
    cases heq
    obtain ⟨e, he⟩ := Option.isSome_iff_exists.mp hrecovered
    have hsettled := (hholds.recovered e he).1
    have hid := (Table.find_eq_some.mp hx).2
    -- the reconciliation succeeds, and writes the usage of the request
    have hevents : (s.step cal config (now, .reconcile command)).db.usage_events
        = (s.db.write_usage cal claim.request_id claim.external_account_id
          (some (r.id, r.month)) now).usage_events := by
      simp only [System.step, Database.reconcile_action_claim, hreconcilable, hresolution,
        Database.resolve, Database.succeeded, hsettled, reduceCtorEq, or_self, if_false,
        System.commit, Database.close_claim]
      rfl
    refine twice_not_metered (x := x) (r := r) ?_ hquota ?_ ?_
    · simp only [System.step]
      rw [commit_executes]
      exact find_execute hx
    · rw [hevents]
      exact write_usage_events hr _ (.inl (by rw [hid]))
    · rw [hevents]
      exact write_usage_events hr _ (.inr hrecovered)
  | close_timed_out i outcome =>
    obtain ⟨a, t, hget, hdispatched, hclaim, hunknown, hrecovered⟩ := hop
    have hread := h.reads a t (List.mem_of_getElem? hget)
    obtain ⟨r, hr, hid, hmonth, -⟩ := hread.reservation
    obtain ⟨x, hx, rfl, hquota⟩ := hread.call
    rw [← hid] at hrecovered
    have hevents : (s.step cal config (now, .close_timed_out i outcome)).db.usage_events
        = (s.db.write_usage cal x.attempt.request_id x.attempt.external_account_id
          (some (r.id, r.month)) now).usage_events := by
      cases hfind : s.db.claims.find x.attempt.key with
      | none =>
        rw [Database.dispatched_claim, hfind] at hclaim
        cases hclaim
      | some c =>
        rw [Database.dispatched_claim, hfind, Option.any_some, Bool.and_eq_true] at hclaim
        have hheld : (some c).filter x.attempt.holds = some c :=
          Option.filter_eq_some_iff.mpr ⟨rfl, hclaim.1⟩
        simp only [System.step, hget, Database.close_timed_out, hfind, hheld, hdispatched,
          hclaim.2, ne_eq, hunknown, not_false_eq_true, and_self, if_true, System.commit]
        rw [← hid, ← hmonth, delete_claim_events]
        rfl
    refine twice_not_metered (x := x) (r := r) ?_ (by rw [hid, hmonth]; exact hquota hdispatched)
      ?_ ?_
    · simp only [System.step, hget]
      rw [commit_executes]
      exact hx
    · rw [hevents]
      exact write_usage_events hr _ (.inl rfl)
    · rw [hevents]
      exact write_usage_events hr _ (.inr hrecovered)
  | acquire a disabled => exact absurd hop id
  | release_pending request_id => exact absurd hop id
  | reserve request_id q => exact absurd hop id
  | bind request_id => exact absurd hop id
  | mark request_id current revision => exact absurd hop id
  | release_pending_with_reservation request_id => exact absurd hop id
  | release_quota request_id => exact absurd hop id
  | release_not_dispatched request_id => exact absurd hop id
  | finish_not_dispatched request_id => exact absurd hop id
  | finish request_id output failed => exact absurd hop id
  | finish_read_failure request_id => exact absurd hop id
  | finish_read_timeout request_id id' outcome => exact absurd hop id
  | read_timed_out request_id id' => exact absurd hop id

/-! ## Runs -/

theorem run_accounts {ops : List (ℤ × Op Value)}
    (h : Machine.Meets (System.step cal config) (fun s op => ¬s.Doubled op)
      (System.at_rest Database.empty) ops) :
    (Machine.run (System.step cal config) (System.at_rest Database.empty) ops).Accounts ∧
      (Machine.run (System.step cal config) (System.at_rest Database.empty)
        ops).db.Tallied cal := by
  refine h.keeps (I := fun s => s.Accounts ∧ s.db.Tallied cal) ?_ ⟨empty_accounts, empty_tallied⟩
  rintro s op hop ⟨haccounts, htallied⟩
  exact ⟨step_accounts haccounts hop,
    (step_changes (free_permits haccounts.read op.1 op.2)).tallied htallied⟩

/-- **Each call is metered at most once** in the runs that never meter a call the cleanup
has metered, and only in those. -/
theorem metered_once_iff_never_doubled (cal : Calendar) (config : PolicyConfig)
    (ops : List (ℤ × Op Value)) :
    (∀ pre post, ops = pre ++ post →
      (Machine.run (System.step cal config) (System.at_rest Database.empty) pre).Metered cal) ↔
      Machine.Meets (System.step cal config) (fun s op => ¬s.Doubled op)
        (System.at_rest Database.empty) ops := by
  refine ⟨?_, ?_⟩
  · intro hmetered
    induction ops using List.reverseRecOn with
    | nil => trivial
    | append_singleton pre op ih =>
      have hpre : Machine.Meets (System.step cal config) (fun s op => ¬s.Doubled op)
          (System.at_rest Database.empty) pre := by
        apply ih
        intro pre' post hsplit
        exact hmetered pre' (post ++ [op]) (by rw [hsplit, List.append_assoc])
      rw [Machine.meets_append]
      refine ⟨hpre, ?_, trivial⟩
      intro hdoubled
      have hlast := hmetered (pre ++ [op]) [] (by rw [List.append_nil])
      rw [Machine.run_append] at hlast
      exact doubled_not_metered (run_accounts hpre).1 hdoubled hlast
  · rintro hmeets pre post rfl
    obtain ⟨haccounts, htallied⟩ := run_accounts (Machine.meets_append.mp hmeets).1
    exact haccounts.metered htallied

/-- A day after an invitation was dispatched its call is gone. The next reservation of the
project recovers it, and an operator reports that the provider had succeeded. -/
def sample_recovery : List (ℤ × Op String) :=
  [(1, .acquire (sample_attempt "req_a") false), (2, .reserve "req_a" (sample_reserve "q_a")),
    (3, .bind "req_a"), (4, .mark "req_a" (some sample_connection) sample_connection),
    (86400000005, .acquire { sample_attempt "req_b" with key := "invite-8" } false),
    (86400000006, .reserve "req_b" (sample_reserve "q_b")),
    (86400000007, .reconcile
      { external_account_id := "acct", idempotency_key := "invite-7"
        expected_request_id := "req_a", actor_id := "ops", evidence_ref := "ticket-1"
        resolution := .ProviderOutcomeKnown true })]

/-- The invitation is metered twice: two events of one call, and a rollup of two. -/
theorem recovered_call_metered_twice :
    ((Machine.run (System.step sample_calendar sample_config) (System.at_rest Database.empty)
        sample_recovery).db.usage_of "req_a" "q_a").length = 2 ∧
      (Machine.run (System.step sample_calendar sample_config) (System.at_rest Database.empty)
        sample_recovery).db.rollups.read ("acct", "2026-07") Rollup.quantity = 2 ∧
      ¬(Machine.run (System.step sample_calendar sample_config) (System.at_rest Database.empty)
        sample_recovery).Metered sample_calendar := by
  have hlength : ((Machine.run (System.step sample_calendar sample_config)
      (System.at_rest Database.empty) sample_recovery).db.usage_of "req_a" "q_a").length = 2 := by
    decide
  refine ⟨hlength, by decide, ?_⟩
  intro h
  obtain ⟨r, hr, -, hmetered⟩ := h.metered
    { attempt := sample_attempt "req_a", quota := some ("q_a", "2026-07"), bound := true } "q_a"
    "2026-07" (by decide) rfl
  have honce := hmetered.once
  rw [(Table.find_eq_some.mp hr).2] at honce
  change ((Machine.run (System.step sample_calendar sample_config)
    (System.at_rest Database.empty) sample_recovery).db.usage_of "req_a" "q_a").length ≤ 1 at honce
  rw [hlength] at honce
  omega

end Appcall.Actions
