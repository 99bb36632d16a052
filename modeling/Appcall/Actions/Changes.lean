/-
What a transaction can do to the ledger.

Every transaction of an action call is a path of `Change`s of the reservations, the
counters and the usage: a charge is refunded, a reservation is released, recovered,
settled, bound or dispatched, a call is admitted. The changes that depend on who makes
them ask for a permit, a predicate that each result below chooses for itself. The
invariants of the ledger are proved once for each change, and the lemmas of this file
carry them to the transactions.
-/
import Mathlib.Data.List.Forall2
import Mathlib.Logic.Relation
import Appcall.Actions.Reconcile

set_option autoImplicit false

namespace Appcall.Actions

variable {Value : Type}

/-! ## Changes -/

inductive Write where
  | claim (c : Claim)
  | bind (r : Reservation) (request_id : String)
  | dispatch (r : Reservation)
  | meter (r : Option Reservation) (request_id : String)
  | grant (q : Reserve) (now : ℤ)

inductive Change (cal : Calendar) (config : PolicyConfig)
    (permit : Database Value → Write → Prop) (db : Database Value) : Database Value → Prop where
  /-- The ledger stays; claims, records and audits may not. -/
  | keys (db' : Database Value)
      (claims : ∀ c ∈ db'.claims.rows, c ∈ db.claims.rows ∨ permit db (.claim c))
      (reservations : db'.reservations = db.reservations)
      (counters : db'.counters = db.counters) (usage_events : db'.usage_events = db.usage_events)
      (rollups : db'.rollups = db.rollups) : Change cal config permit db db'
  | refund (r : Reservation) (db' : Database Value)
      (found : db.reservations.find r.id = some r) (refunded : db.refund_charges r = some db') :
      Change cal config permit db db'
  | release (id : String) (states : List ReservationState)
      (active : ∀ state ∈ states, state = .pending ∨ state = .dispatched) :
      Change cal config permit db (db.set_state id states .released)
  /-- The sweep meters a dispatched reservation under a key of its own. -/
  | recover (r : Reservation) (found : db.reservations.find r.id = some r)
      (dispatched : r.state = .dispatched) :
      Change cal config permit db ((db.meter (recovery_key r.id) r.external_account_id
        r.created_at r.month).set_state r.id [.dispatched] .settled)
  | settle (r : Reservation) (request_id account : String) (now : ℤ)
      (found : db.reservations.find r.id = some r)
      (permitted : permit db (.meter (some r) request_id)) :
      Change cal config permit db ((db.write_usage cal request_id account
        (some (r.id, r.month)) now).set_state r.id [.dispatched] .settled)
  /-- Usage of a request that has no reservation. -/
  | usage (request_id account : String) (now : ℤ)
      (permitted : permit db (.meter none request_id)) :
      Change cal config permit db (db.write_usage cal request_id account none now)
  | bind (r : Reservation) (request_id : String) (found : db.reservations.find r.id = some r)
      (unbound : r.request_id = none) (permitted : permit db (.bind r request_id)) :
      Change cal config permit db { db with
        reservations := db.reservations.modify r.id (Reservation.bind request_id)
          (fun _ => rfl) }
  | dispatch (r : Reservation) (now : ℤ) (found : db.reservations.find r.id = some r)
      (pending : r.state = .pending) (permitted : permit db (.dispatch r)) :
      Change cal config permit db { db with
        reservations := db.reservations.modify r.id (Reservation.dispatch now) (fun _ => rfl) }
  /-- A call is admitted when its month has room and nothing in it has expired. -/
  | grant (q : Reserve) (e : Entitlements) (now : ℤ) (db' : Database Value)
      (entitled : q.entitlements = some e)
      (room : 0 < e.action_calls_hard →
        db.used (cal.month now) + db.unexpired (cal.month now) now + 1 ≤ e.action_calls_hard)
      (swept : ∀ r ∈ db.reservations.rows, r.month = cal.month now → r.active = true →
        r.expired now = false)
      (admitted : db.grant cal config q e (cal.month now) now = .ok db')
      (permitted : permit db (.grant q now)) : Change cal config permit db db'

abbrev Changes (cal : Calendar) (config : PolicyConfig)
    (permit : Database Value → Write → Prop) : Database Value → Database Value → Prop :=
  Relation.ReflTransGen (Change cal config permit)

/-! ## Rows stay -/

/-- A charge, later: it may have been refunded, once. -/
def Charge.Later (c c' : Charge) : Prop :=
  c' = c ∨ c.refunded = false ∧ c' = { c with refunded := true }

theorem Charge.Later.trans {c c' c'' : Charge} (h : c.Later c') (h' : c'.Later c'') :
    c.Later c'' := by
  rcases h with rfl | ⟨hlive, rfl⟩
  · exact h'
  · rcases h' with rfl | ⟨hrefunded, rfl⟩
    · exact .inr ⟨hlive, rfl⟩
    · cases hrefunded

theorem charges_refl (charges : List Charge) : List.Forall₂ Charge.Later charges charges :=
  List.forall₂_same.mpr (fun _ _ => .inl rfl)

theorem charges_trans {charges charges' charges'' : List Charge}
    (h : List.Forall₂ Charge.Later charges charges')
    (h' : List.Forall₂ Charge.Later charges' charges'') :
    List.Forall₂ Charge.Later charges charges'' := by
  induction h generalizing charges'' with
  | nil => exact h'
  | cons hc _ ih =>
    cases h' with
    | cons hc' hrest => exact .cons (hc.trans hc') (ih hrest)

theorem charges_refund (r : Reservation) :
    List.Forall₂ Charge.Later r.charges r.refund.charges := by
  rw [Reservation.refund, List.forall₂_map_right_iff, List.forall₂_same]
  intro c _
  by_cases hrefunded : c.refunded = true
  · left
    rw [← hrefunded]
  · exact .inr ⟨by simpa using hrefunded, rfl⟩

structure Reservation.Later (r r' : Reservation) : Prop where
  id : r'.id = r.id
  month : r'.month = r.month
  created_at : r'.created_at = r.created_at
  connection_id : r'.connection_id = r.connection_id
  connector : r'.connector = r.connector
  action : r'.action = r.action
  external_account_id : r'.external_account_id = r.external_account_id
  idempotency_key : r'.idempotency_key = r.idempotency_key
  input_hash : r'.input_hash = r.input_hash
  charges : List.Forall₂ Charge.Later r.charges r'.charges
  request_id : r.request_id ≠ none → r'.request_id = r.request_id
  dispatched_at : r.dispatched_at.isSome = true → r'.dispatched_at.isSome = true

theorem Reservation.Later.refl (r : Reservation) : r.Later r := by
  constructor <;> intros <;> first | rfl | assumption | exact charges_refl _

variable {r : Reservation} {db db' : Database Value} {month : String} {now : ℤ} {id : String}
  {a : Attempt} {state : ReservationState} {current : Option Connection} {revision : Connection}
  {quota : Quota} {command : ActionClaimReconciliation} {claim c : ClaimRecord}

theorem Reservation.Later.trans {r' r'' : Reservation} (h : r.Later r') (h' : r'.Later r'') :
    r.Later r'' := by
  refine ⟨h'.id.trans h.id, h'.month.trans h.month, h'.created_at.trans h.created_at,
    h'.connection_id.trans h.connection_id, h'.connector.trans h.connector,
    h'.action.trans h.action, h'.external_account_id.trans h.external_account_id,
    h'.idempotency_key.trans h.idempotency_key, h'.input_hash.trans h.input_hash,
    charges_trans h.charges h'.charges, ?_, fun hsome => h'.dispatched_at (h.dispatched_at hsome)⟩
  intro hbound
  have hsame := h.request_id hbound
  exact (h'.request_id (by rw [hsame]; exact hbound)).trans hsame

theorem later_to_state (states : List ReservationState) (state : ReservationState)
    (r : Reservation) : r.Later (r.to_state states state) := by
  rw [Reservation.to_state]
  split
  · constructor <;> intros <;> first | rfl | assumption | exact charges_refl _
  · exact .refl r

theorem modify_later (id : String) (f : Reservation → Reservation) (hf : ∀ r, (f r).id = r.id)
    (hlater : ∀ r, db.reservations.find id = some r → r.Later (f r)) {k : String}
    (hfind : db.reservations.find k = some r) :
    ∃ r', (db.reservations.modify id f hf).find k = some r' ∧ r.Later r' := by
  rw [Table.find_modify]
  by_cases hk : k = id
  · subst hk
    rw [if_pos rfl, hfind]
    exact ⟨f r, rfl, hlater r hfind⟩
  · rw [if_neg hk]
    exact ⟨r, hfind, .refl r⟩

theorem meter_reservations (db : Database Value) (key account : String) (occurred_at : ℤ)
    (month : String) :
    (db.meter key account occurred_at month).reservations = db.reservations := by
  rw [Database.meter]
  split <;> rfl

theorem write_usage_reservations (cal : Calendar) (db : Database Value)
    (request_id account : String) (reservation : Option (String × String)) (now : ℤ) :
    (db.write_usage cal request_id account reservation now).reservations = db.reservations :=
  meter_reservations _ _ _ _ _

theorem refund_charges_eq (h : db.refund_charges r = some db') :
    ∃ counters, db.counters.refund greatest r.external_account_id r.live = some counters ∧
      db' = { db with
        counters
        reservations := db.reservations.modify r.id Reservation.refund (fun _ => rfl) } := by
  obtain ⟨counters, hrefund, rfl⟩ := Option.map_eq_some_iff.mp h
  exact ⟨counters, hrefund, rfl⟩

theorem grant_eq {cal : Calendar} {config : PolicyConfig} {q : Reserve} {e : Entitlements}
    (h : db.grant cal config q e month now = .ok db') : ∃ n linkedin n' send reservations,
      q.charge_linkedin cal config now db.counters = .ok (n, linkedin) ∧
      q.charge_send cal config e now n = .ok (n', send) ∧
      db.reservations.insert (q.row month now (send ++ linkedin)) = some reservations ∧
      db' = { db with counters := n', reservations } := by
  rw [Database.grant] at h
  split at h
  · cases h
  next n linkedin hlinkedin =>
  split at h
  · cases h
  next n' send hsend =>
  split at h
  · cases h
  next reservations hinsert =>
  cases h
  exact ⟨n, linkedin, n', send, reservations, hlinkedin, hsend, hinsert, rfl⟩

variable {cal : Calendar} {config : PolicyConfig} {permit : Database Value → Write → Prop}

theorem Change.later (h : Change cal config permit db db')
    (hfind : db.reservations.find id = some r) :
    ∃ r', db'.reservations.find id = some r' ∧ r.Later r' := by
  cases h with
  | keys db' claims reservations counters usage_events rollups =>
    rw [reservations]
    exact ⟨r, hfind, .refl r⟩
  | refund r' db' found refunded =>
    obtain ⟨counters, -, rfl⟩ := refund_charges_eq refunded
    refine modify_later r'.id Reservation.refund (fun _ => rfl) ?_ hfind
    intro r _
    constructor <;> intros <;> first | rfl | assumption | exact charges_refund r
  | release id' states active =>
    exact modify_later id' _ (Reservation.to_state_id _ _) (fun r _ => later_to_state _ _ r) hfind
  | recover r' found dispatched =>
    rw [Database.set_state, meter_reservations]
    exact modify_later r'.id _ (Reservation.to_state_id _ _) (fun r _ => later_to_state _ _ r)
      hfind
  | settle r' request_id account now found permitted =>
    rw [Database.set_state, write_usage_reservations]
    exact modify_later r'.id _ (Reservation.to_state_id _ _) (fun r _ => later_to_state _ _ r)
      hfind
  | usage request_id account now permitted =>
    rw [write_usage_reservations]
    exact ⟨r, hfind, .refl r⟩
  | bind r' request_id found unbound permitted =>
    refine modify_later r'.id (Reservation.bind request_id) (fun _ => rfl) ?_ hfind
    intro r hr
    rw [found] at hr
    cases hr
    constructor <;> intros <;> first | rfl | assumption | contradiction | exact charges_refl _
  | dispatch r' now found pending permitted =>
    refine modify_later r'.id (Reservation.dispatch now) (fun _ => rfl) ?_ hfind
    intro r hr
    constructor <;> intros <;> first | rfl | exact charges_refl _
  | grant q e now db' entitled room swept admitted permitted =>
    obtain ⟨n, linkedin, n', send, reservations, -, -, hinsert, rfl⟩ := grant_eq admitted
    refine ⟨r, ?_, .refl r⟩
    change reservations.find id = some r
    rw [Table.find_insert hinsert]
    by_cases hid : id = (q.row (cal.month now) now (send ++ linkedin)).id
    · -- the id of the new row was free
      have hfree := (Table.insert_eq_some hinsert).1
      rw [← hid, hfind] at hfree
      cases hfree
    · rw [if_neg hid]
      exact hfind

theorem Changes.later (h : Changes cal config permit db db')
    (hfind : db.reservations.find id = some r) :
    ∃ r', db'.reservations.find id = some r' ∧ r.Later r' := by
  induction h with
  | refl => exact ⟨r, hfind, .refl r⟩
  | tail _ hlast ih =>
    obtain ⟨r', hr', hlater⟩ := ih
    obtain ⟨r'', hr'', hlater'⟩ := hlast.later hr'
    exact ⟨r'', hr'', hlater.trans hlater'⟩

/-! ## Claims, records and audits -/

theorem Change.same (claims : db'.claims = db.claims)
    (reservations : db'.reservations = db.reservations) (counters : db'.counters = db.counters)
    (usage_events : db'.usage_events = db.usage_events) (rollups : db'.rollups = db.rollups) :
    Change cal config permit db db' := by
  refine .keys db' ?_ reservations counters usage_events rollups
  intro c hc
  rw [claims] at hc
  exact .inl hc

theorem delete_claims_change (db : Database Value) (p : Claim → Bool) :
    Change cal config permit db { db with claims := db.claims.delete p } := by
  refine .keys _ ?_ rfl rfl rfl rfl
  intro c hc
  exact .inl (List.mem_filter.mp hc).1

theorem release_pending_change (db : Database Value) (a : Attempt) :
    Change cal config permit db (db.release_pending a) := by
  rw [Database.release_pending]
  split
  · exact .same rfl rfl rfl rfl rfl
  · exact delete_claims_change db _

theorem delete_claim_change (db : Database Value) (a : Attempt) :
    Change cal config permit db (db.delete_claim a) := by
  rw [Database.delete_claim]
  split
  · exact .same rfl rfl rfl rfl rfl
  · exact delete_claims_change db _

theorem record_change (db : Database Value) (a : Attempt) (output : Value) :
    Change cal config permit db (db.record a output) := by
  rw [Database.record]
  split
  · exact .same rfl rfl rfl rfl rfl
  · exact .same rfl rfl rfl rfl rfl

theorem close_claim_changes (db : Database Value) (c : ClaimRecord)
    (command : ActionClaimReconciliation) :
    Changes cal config permit db (db.close_claim c command) := by
  have haudited : Change cal config permit db
      { db with audits := db.audits ++ [c.audit command] } := .same rfl rfl rfl rfl rfl
  rw [Database.close_claim]
  split
  · exact (Relation.ReflTransGen.single haudited).tail (delete_claims_change _ _)
  · exact .single haudited

theorem mark_claim_change (h : db.mark_claim a now = .ok db')
    (hpermit : a.key ≠ "" → ∀ c ∈ db.claims.rows, c.idempotency_key = a.key →
      c.request_id = a.request_id → permit db (.claim { c with dispatched_at := some now })) :
    Change cal config permit db db' := by
  rw [Database.mark_claim] at h
  split at h
  · cases h
    exact .same rfl rfl rfl rfl rfl
  next hkey =>
  split at h
  next hheld =>
    cases h
    refine .keys _ ?_ rfl rfl rfl rfl
    intro c hc
    obtain ⟨c', hc', rfl⟩ := List.mem_map.mp hc
    split
    next hsame =>
      -- the one claim of the key is the one that was checked
      have hfind : db.claims.find a.key = some c' := Table.find_eq_some.mpr ⟨hc', hsame⟩
      rw [hfind, Option.any_some] at hheld
      simp only [Bool.and_eq_true, decide_eq_true_eq] at hheld
      exact .inr (hpermit hkey c' hc' hsame hheld.1.1)
    next => exact .inl hc'
  · cases h

theorem acquire_change {disabled : Bool} {acquisition : Acquisition Value}
    (h : db.acquire a disabled now = .ok (acquisition, db'))
    (hnew : a.key ≠ "" → permit db (.claim (a.claim now)))
    (hover : ∀ c ∈ db.claims.rows, a.key ≠ "" → c.idempotency_key = a.key →
      a.matches_claim c = true → c.dispatched_at = none →
      permit db (.claim (a.take_over now c))) : Change cal config permit db db' := by
  rw [Database.acquire] at h
  split at h
  · cases h
  split at h
  · cases h
    exact .same rfl rfl rfl rfl rfl
  next hkey =>
  split at h
  · split at h
    · cases h
      exact .same rfl rfl rfl rfl rfl
    · cases h
  split at h
  · cases h
  split at h
  next hfree =>
    cases h
    refine .keys _ ?_ rfl rfl rfl rfl
    intro c hc
    have hrows := Table.upsert_rows_of_none (t := db.claims) (r := a.claim now) hfree id
      (fun _ => rfl)
    change c ∈ (db.claims.upsert (a.claim now) id _).rows at hc
    rw [hrows, List.mem_append, List.mem_singleton] at hc
    rcases hc with hc | rfl
    · exact .inl hc
    · exact .inr (hnew hkey)
  next c hfind =>
  split at h
  next hover' =>
    cases h
    obtain ⟨hmem, hsame⟩ := Table.find_eq_some.mp hfind
    simp only [Bool.and_eq_true, Option.isNone_iff_eq_none] at hover'
    refine .keys _ ?_ rfl rfl rfl rfl
    intro c' hc'
    obtain ⟨c'', hc'', rfl⟩ := List.mem_map.mp hc'
    split
    next hsame' =>
      have heq : db.claims.find a.key = some c'' := Table.find_eq_some.mpr ⟨hc'', hsame'⟩
      rw [hfind] at heq
      cases heq
      exact .inr (hover c hmem hkey hsame hover'.1.1 hover'.2)
    next => exact .inl hc''
  · cases h

/-! ## Refunds and the cleanup -/

theorem refund_reservation_charges_change (h : db.refund_reservation_charges id = .ok db') :
    Change cal config permit db db' := by
  rw [Database.refund_reservation_charges] at h
  split at h
  · cases h
  next r hfind =>
  split at h
  · cases h
  next db1 hrefund =>
  cases h
  have hid : r.id = id := (Table.find_eq_some.mp hfind).2
  exact .refund r _ (by rw [hid]; exact hfind) hrefund

theorem expire_one_changes (h : db.expire_one id = .ok db') : Changes cal config permit db db' := by
  rw [Database.expire_one] at h
  split at h
  · cases h
  next db1 hrefund =>
  cases h
  refine .head (refund_reservation_charges_change hrefund) (.single (.release id [.pending] ?_))
  intro state hstate
  exact .inl (List.mem_singleton.mp hstate)

theorem expire_pending_quota_changes (h : db.expire_pending_quota month now = .ok db') :
    Changes cal config permit db db' :=
  Machine.foldlM_keeps h (fun _ _ _ _ hone hpath => hpath.trans (expire_one_changes hone))
    .refl

theorem recover_one_changes (hmonth : ∀ r, db.reservations.find id = some r → r.month = month) :
    Changes cal config permit db (db.recover_one month id) := by
  rw [Database.recover_one]
  split
  · exact .refl
  next r hfind =>
  split
  next hdispatched =>
    have hid : r.id = id := (Table.find_eq_some.mp hfind).2
    have hchange := @Change.recover _ cal config permit db r (by rw [hid]; exact hfind)
      hdispatched
    rw [hid, hmonth r hfind] at hchange
    exact .single hchange
  next => exact .refl

theorem recover_expired_dispatched_quota_changes (db : Database Value) (month : String)
    (now : ℤ) :
    Changes cal config permit db (db.recover_expired_dispatched_quota month now) := by
  rw [Database.recover_expired_dispatched_quota]
  refine Machine.foldl_keeps ?_ .refl
  intro db1 id hid hpath
  refine hpath.trans (recover_one_changes ?_)
  intro r' hr'
  obtain ⟨r, hr, rfl⟩ := List.mem_map.mp hid
  obtain ⟨hmem, hcond⟩ := List.mem_filter.mp hr
  obtain ⟨r'', hr'', hlater⟩ := hpath.later (Table.find_eq_some.mpr ⟨hmem, rfl⟩)
  rw [hr'] at hr''
  cases hr''
  simp only [Bool.and_eq_true, decide_eq_true_eq] at hcond
  exact hlater.month.trans hcond.1.1

theorem sweep_month_changes (h : db.sweep_month now month = .ok db') :
    Changes cal config permit db db' := by
  rw [Database.sweep_month] at h
  split at h
  · cases h
  next db1 hexpire =>
  cases h
  exact (expire_pending_quota_changes hexpire).trans
    (recover_expired_dispatched_quota_changes db1 month now)

theorem sweep_changes (h : db.sweep month now = .ok db') : Changes cal config permit db db' :=
  Machine.foldlM_keeps h (fun _ _ _ _ hone hpath => hpath.trans (sweep_month_changes hone))
    .refl

/-! ## The cleanup is complete -/

/-- What the cleanup may do to a row: give it up. -/
structure Reservation.Swept (r r' : Reservation) : Prop where
  month : r'.month = r.month
  expires_at : r'.expires_at = r.expires_at
  state : r'.state = r.state ∨ r'.active = false

/-- Every row of the later database was there before. -/
def Swept (db db' : Database Value) : Prop :=
  ∀ id r', db'.reservations.find id = some r' →
    ∃ r, db.reservations.find id = some r ∧ r.Swept r'

theorem Swept.refl (db : Database Value) : Swept db db :=
  fun _ r' hfind => ⟨r', hfind, rfl, rfl, .inl rfl⟩

theorem Swept.trans {db'' : Database Value} (h : Swept db db') (h' : Swept db' db'') :
    Swept db db'' := by
  intro id r'' hfind
  obtain ⟨r', hr', hswept'⟩ := h' id r'' hfind
  obtain ⟨r, hr, hswept⟩ := h id r' hr'
  refine ⟨r, hr, hswept'.month.trans hswept.month, hswept'.expires_at.trans hswept.expires_at,
    ?_⟩
  rcases hswept'.state with heq | hgone
  · rcases hswept.state with heq' | hgone'
    · exact .inl (heq.trans heq')
    · right
      rw [Reservation.active, heq]
      exact hgone'
  · exact .inr hgone

theorem swept_modify (id : String) (f : Reservation → Reservation) (hf : ∀ r, (f r).id = r.id)
    (hswept : ∀ r : Reservation, r.Swept (f r)) (id' : String) (r' : Reservation)
    (hfind : (db.reservations.modify id f hf).find id' = some r') :
    ∃ r, db.reservations.find id' = some r ∧ r.Swept r' := by
  rw [Table.find_modify] at hfind
  split at hfind
  next heq =>
    subst heq
    obtain ⟨r, hr, rfl⟩ := Option.map_eq_some_iff.mp hfind
    exact ⟨r, hr, hswept r⟩
  next => exact ⟨r', hfind, rfl, rfl, .inl rfl⟩

theorem swept_set_state {states : List ReservationState}
    (h : state = .settled ∨ state = .released) :
    Swept db (db.set_state id states state) := by
  refine swept_modify id _ (Reservation.to_state_id _ _) ?_
  intro r
  rw [Reservation.to_state]
  split
  · refine ⟨rfl, rfl, .inr ?_⟩
    rcases h with rfl | rfl <;> rfl
  · exact ⟨rfl, rfl, .inl rfl⟩

theorem set_state_ne {state' : ReservationState} (hne : state' ≠ state) (r : Reservation)
    (hfind : (db.set_state id [state] state').reservations.find id = some r) : r.state ≠ state := by
  rw [Database.set_state, Table.find_modify, if_pos rfl] at hfind
  obtain ⟨r', -, rfl⟩ := Option.map_eq_some_iff.mp hfind
  rw [Reservation.to_state]
  split
  next => exact hne
  next hnot => exact fun heq => hnot (List.mem_singleton.mpr heq)

theorem expire_one_swept (h : db.expire_one id = .ok db') :
    Swept db db' ∧ ∀ r, db'.reservations.find id = some r → r.state ≠ .pending := by
  rw [Database.expire_one] at h
  split at h
  · cases h
  next db1 hrefund =>
  cases h
  refine ⟨?_, fun r hr => set_state_ne (by decide) r hr⟩
  rw [Database.refund_reservation_charges] at hrefund
  split at hrefund
  · cases hrefund
  next r hfind =>
  split at hrefund
  · cases hrefund
  next db2 hcharges =>
  cases hrefund
  obtain ⟨counters, -, rfl⟩ := refund_charges_eq hcharges
  have hrefunded : Swept db { db with
      counters
      reservations := db.reservations.modify r.id Reservation.refund (fun _ => rfl) } :=
    swept_modify r.id Reservation.refund (fun _ => rfl) (fun _ => ⟨rfl, rfl, .inl rfl⟩)
  exact hrefunded.trans (swept_set_state (.inr rfl))

theorem recover_one_swept (db : Database Value) (month id : String) :
    Swept db (db.recover_one month id) ∧
      ∀ r, (db.recover_one month id).reservations.find id = some r → r.state ≠ .dispatched := by
  rw [Database.recover_one]
  cases hfind : db.reservations.find id with
  | none =>
    refine ⟨.refl db, fun r hr => ?_⟩
    rw [hfind] at hr
    cases hr
  | some r =>
    simp only
    split
    next hdispatched =>
      refine ⟨?_, fun r hr => set_state_ne (by decide) r hr⟩
      have hmetered : Swept db (db.meter (recovery_key id) r.external_account_id r.created_at
          month) := by
        intro id' r' hr'
        rw [meter_reservations] at hr'
        exact ⟨r', hr', rfl, rfl, .inl rfl⟩
      exact hmetered.trans (swept_set_state (.inl rfl))
    next hother =>
      refine ⟨.refl db, fun r' hr' => ?_⟩
      rw [hfind] at hr'
      cases hr'
      exact hother

theorem pass_swept {f : Database Value → String → Except Code (Database Value)}
    (hstate : ∀ r : Reservation, r.state = state → r.active = true)
    (hf : ∀ (db : Database Value) (id : String) (db' : Database Value), f db id = .ok db' →
      Swept db db' ∧ ∀ r, db'.reservations.find id = some r → r.state ≠ state) {ids : List String}
    (h : ids.foldlM f db = .ok db') :
    Swept db db' ∧ ∀ id ∈ ids, ∀ r, db'.reservations.find id = some r → r.state ≠ state := by
  induction ids generalizing db with
  | nil =>
    cases h
    exact ⟨.refl _, (fun id hid => by cases hid)⟩
  | cons id ids ih =>
    rw [List.foldlM_cons] at h
    cases hone : f db id with
    | error e =>
      rw [hone] at h
      cases h
    | ok db1 =>
      rw [hone] at h
      obtain ⟨hswept, hout⟩ := hf db id db1 hone
      obtain ⟨hrest, hids⟩ := ih h
      refine ⟨hswept.trans hrest, ?_⟩
      intro id' hid' r hr
      rcases List.mem_cons.mp hid' with rfl | hid'
      · -- what the rest of the pass does to the row does not bring the state back
        obtain ⟨r1, hr1, hlater⟩ := hrest id' r hr
        rcases hlater.state with heq | hgone
        · rw [heq]
          exact hout r1 hr1
        · intro heq
          rw [hstate r heq] at hgone
          cases hgone
      · exact hids id' hid' r hr

theorem pass_month (hstate : ∀ r : Reservation, r.state = state → r.active = true)
    (hswept : Swept db db')
    (hids : ∀ id ∈ db.expired_ids month state now, ∀ r, db'.reservations.find id = some r →
      r.state ≠ state) (r' : Reservation) (hmem : r' ∈ db'.reservations.rows)
    (hmonth : r'.month = month) (hexpired : r'.expired now = true) : r'.state ≠ state := by
  have hfind : db'.reservations.find r'.id = some r' := Table.find_eq_some.mpr ⟨hmem, rfl⟩
  obtain ⟨r, hr, hrow⟩ := hswept r'.id r' hfind
  rcases hrow.state with heq | hgone
  · intro hpending
    obtain ⟨hrmem, hid⟩ := Table.find_eq_some.mp hr
    refine hids r'.id ?_ r' hfind hpending
    rw [← hid]
    apply List.mem_map_of_mem
    rw [List.mem_filter]
    refine ⟨hrmem, ?_⟩
    rw [Reservation.expired, hrow.expires_at] at hexpired
    simp only [Bool.and_eq_true, decide_eq_true_eq, Reservation.expired]
    exact ⟨⟨hrow.month.symm.trans hmonth, heq.symm.trans hpending⟩,
      of_decide_eq_true hexpired⟩
  · intro hactive
    rw [hstate r' hactive] at hgone
    cases hgone

/-- No reservation of the month that holds capacity has expired. -/
def Database.Clean (db : Database Value) (month : String) (now : ℤ) : Prop :=
  ∀ r ∈ db.reservations.rows, r.month = month → r.active = true → r.expired now = false

theorem Swept.clean (h : Swept db db') (hclean : db.Clean month now) : db'.Clean month now := by
  intro r' hmem hmonth hactive
  obtain ⟨r, hr, hrow⟩ := h r'.id r' (Table.find_eq_some.mpr ⟨hmem, rfl⟩)
  rcases hrow.state with heq | hgone
  · have hexpired := hclean r (Table.find_eq_some.mp hr).1 (hrow.month.symm.trans hmonth)
      (by rw [← hactive, Reservation.active, Reservation.active, heq])
    rw [Reservation.expired, hrow.expires_at]
    exact hexpired
  · rw [hactive] at hgone
    cases hgone

theorem sweep_month_clean (h : db.sweep_month now month = .ok db') :
    Swept db db' ∧ db'.Clean month now := by
  rw [Database.sweep_month] at h
  split at h
  · cases h
  next db1 hexpire =>
  cases h
  have hpending : ∀ r : Reservation, r.state = .pending → r.active = true := by
    intro r hr
    rw [Reservation.active, hr]
    rfl
  have hdispatched : ∀ r : Reservation, r.state = .dispatched → r.active = true := by
    intro r hr
    rw [Reservation.active, hr]
    rfl
  obtain ⟨hswept, hids⟩ := pass_swept hpending (fun _ _ _ hone => expire_one_swept hone) hexpire
  have hrecover : (db1.expired_ids month .dispatched now).foldlM
      (fun db id => (Except.ok (db.recover_one month id) : Except Code _)) db1
        = .ok (db1.recover_expired_dispatched_quota month now) := List.foldlM_pure ..
  obtain ⟨hswept', hids'⟩ := pass_swept hdispatched (fun db id _ hone => by
    cases hone
    exact recover_one_swept db month id) hrecover
  refine ⟨hswept.trans hswept', ?_⟩
  intro r' hmem hmonth hactive
  by_contra hexpired
  rw [Bool.not_eq_false] at hexpired
  -- the row is not dispatched after the second pass, and not pending after the first
  have hnot := pass_month hdispatched hswept' hids' r' hmem hmonth hexpired
  obtain ⟨r, hr, hrow⟩ := hswept' r'.id r' (Table.find_eq_some.mpr ⟨hmem, rfl⟩)
  have hnot' : r.state ≠ .pending := by
    refine pass_month hpending hswept hids r (Table.find_eq_some.mp hr).1
      (hrow.month.symm.trans hmonth) ?_
    rw [Reservation.expired, ← hrow.expires_at]
    exact hexpired
  rcases hrow.state with heq | hgone
  · rw [Reservation.active, Bool.or_eq_true, decide_eq_true_eq, decide_eq_true_eq] at hactive
    rcases hactive with hstate | hstate
    · exact hnot' (heq.symm.trans hstate)
    · exact hnot hstate
  · rw [hactive] at hgone
    cases hgone

/-- **The cleanup is complete** in the month that is admitted to. -/
theorem sweep_clean (h : db.sweep month now = .ok db') : db'.Clean month now := by
  have hmonth : month ∈ db.quota_months_to_lock month now := by
    simp [Database.quota_months_to_lock]
  rw [Database.sweep] at h
  generalize db.quota_months_to_lock month now = months at h hmonth
  induction months generalizing db with
  | nil => cases hmonth
  | cons m months ih =>
    rw [List.foldlM_cons] at h
    cases hone : db.sweep_month now m with
    | error e =>
      rw [hone] at h
      cases h
    | ok db1 =>
      rw [hone] at h
      change months.foldlM (Database.sweep_month now) db1 = .ok db' at h
      by_cases hm : month = m
      · subst hm
        refine Machine.foldlM_keeps (I := fun db : Database Value => db.Clean month now) h ?_
          (sweep_month_clean hone).2
        intro db1 m db2 _ hstep hclean
        exact (sweep_month_clean hstep).1.clean hclean
      · exact ih h (List.mem_of_ne_of_mem hm hmonth)

/-! ## Transactions -/

theorem usage_snapshot_eq {e : Entitlements} {usage : UsageSnapshot}
    (h : db.usage_snapshot month now e = some usage) :
    usage.projected = db.used month + db.unexpired month now + 1 := by
  simp only [Database.usage_snapshot] at h
  split at h
  · cases h
    rfl
  · cases h

theorem reserve_cases (db : Database Value) (q : Reserve) (now : ℤ) :
    ((∃ code, (db.reserve cal config q now).1 = .error code) ∧
      Changes cal config permit db (db.reserve cal config q now).2) ∨
    ∃ p swept e, (db.reserve cal config q now).1 = .ok p ∧ p.quota_id = q.quota_id ∧
      p.quota_month = cal.month now ∧ Changes cal config permit db swept ∧
      q.entitlements = some e ∧
      (0 < e.action_calls_hard → swept.used (cal.month now)
        + swept.unexpired (cal.month now) now + 1 ≤ e.action_calls_hard) ∧
      swept.Clean (cal.month now) now ∧
      swept.grant cal config q e (cal.month now) now
        = .ok (db.reserve cal config q now).2 := by
  cases hentitled : q.entitlements with
  | none =>
    left
    simp only [Database.reserve, hentitled]
    exact ⟨⟨_, rfl⟩, .refl⟩
  | some e =>
    simp only [Database.reserve, hentitled]
    cases hsweep : db.sweep (cal.month now) now with
    | error code => exact .inl ⟨⟨_, rfl⟩, .refl⟩
    | ok swept =>
      have hpath : Changes cal config permit db swept := sweep_changes hsweep
      simp only
      cases husage : swept.usage_snapshot (cal.month now) now e with
      | none =>
        left
        simp only
        split
        · exact ⟨⟨_, rfl⟩, hpath⟩
        · exact ⟨⟨_, rfl⟩, .refl⟩
      | some usage =>
        simp only
        by_cases hfull : e.action_calls_hard > 0 ∧ usage.projected > e.action_calls_hard
        · rw [if_pos hfull]
          exact .inl ⟨⟨_, rfl⟩, hpath⟩
        · rw [if_neg hfull]
          cases hgrant : swept.grant cal config q e (cal.month now) now with
          | error code => exact .inl ⟨⟨_, rfl⟩, .refl⟩
          | ok db' =>
            refine .inr ⟨_, swept, e, rfl, rfl, rfl, hpath, rfl, ?_, sweep_clean hsweep, hgrant⟩
            intro hhard
            have hprojected := usage_snapshot_eq husage
            have hroom : ¬usage.projected > e.action_calls_hard := fun h => hfull ⟨hhard, h⟩
            omega

theorem reserve_changes (db : Database Value) (q : Reserve) (now : ℤ)
    (hpermit : ∀ db, permit db (.grant q now)) :
    Changes cal config permit db (db.reserve cal config q now).2 := by
  rcases @reserve_cases _ cal config permit db q now with ⟨-, hpath⟩ |
    ⟨p, swept, e, -, -, -, hpath, hentitled, hroom, hclean, hgrant⟩
  · exact hpath
  · exact hpath.tail (.grant q e now _ hentitled hroom hclean hgrant (hpermit swept))

theorem reservation_eq_some (h : db.reservation id month = some r) :
    db.reservations.find r.id = some r ∧ r.id = id ∧ r.month = month := by
  obtain ⟨hfind, hmonth⟩ := Option.filter_eq_some_iff.mp h
  have hid := (Table.find_eq_some.mp hfind).2
  exact ⟨by rw [hid]; exact hfind, hid, of_decide_eq_true hmonth⟩

theorem bind_cases (h : db.bind_reservation_identity a (some (id, month)) = .ok db')
    (hkey : a.key ≠ "") : ∃ r, db.reservations.find r.id = some r ∧ r.id = id ∧ r.month = month ∧
      a.reserved r = true ∧
      (r.request_id = some a.request_id ∧ db' = db ∨
        r.request_id = none ∧ db' = { db with
          reservations := db.reservations.modify r.id (Reservation.bind a.request_id)
            (fun _ => rfl) }) := by
  simp only [Database.bind_reservation_identity, if_neg hkey] at h
  split at h
  · cases h
  next r hfind =>
  obtain ⟨hrow, hid, hmonth⟩ := reservation_eq_some hfind
  split at h
  · cases h
  next hmatches =>
  have hreserved : a.reserved r = true := by
    by_contra hnot
    exact hmatches (by simp [hnot])
  split at h
  next request_id hbound =>
    split at h
    · cases h
    next hsame =>
      cases h
      exact ⟨r, hrow, hid, hmonth, hreserved, .inl ⟨by rw [hbound, not_not.mp hsame], rfl⟩⟩
  next hunbound =>
    cases h
    subst hid
    exact ⟨r, hrow, rfl, hmonth, hreserved, .inr ⟨hunbound, rfl⟩⟩

/-- A dispatch: the reservation is dispatched already, or it is pending and the claim of
a keyed call is marked with it. -/
theorem mark_cases
    (h : db.mark_dispatched_checked_with_reservation a current revision (some (id, month)) now
      = .ok db') : ∃ r, db.reservations.find r.id = some r ∧ r.id = id ∧ r.month = month ∧
      (r.state = .dispatched ∧ db' = db ∨
        r.state = .pending ∧ ∃ db1, db.mark_claim a now = .ok db1 ∧
          db' = { db1 with
            reservations := db1.reservations.modify r.id (Reservation.dispatch now)
              (fun _ => rfl) }) := by
  simp only [Database.mark_dispatched_checked_with_reservation] at h
  split at h
  · cases h
  next r hfind =>
  obtain ⟨hrow, hid, hmonth⟩ := reservation_eq_some hfind
  split at h
  next hdispatched =>
    split at h
    · cases h
    · cases h
      exact ⟨r, hrow, hid, hmonth, .inl ⟨hdispatched, rfl⟩⟩
  split at h
  · cases h
  next hpending =>
  split at h
  · cases h
  split at h
  · cases h
  next db1 hmark =>
  cases h
  subst hid
  refine ⟨r, hrow, rfl, hmonth, .inr ⟨?_, db1, hmark, rfl⟩⟩
  by_contra hother
  exact hpending (.inl hother)

theorem mark_claim_reservations (h : db.mark_claim a now = .ok db') :
    db'.reservations = db.reservations := by
  rw [Database.mark_claim] at h
  split at h
  · cases h
    rfl
  split at h
  · cases h
    rfl
  · cases h

theorem mark_changes
    (h : db.mark_dispatched_checked_with_reservation a current revision (some (id, month)) now
      = .ok db') (hclaim : a.key ≠ "" → ∀ c ∈ db.claims.rows, c.idempotency_key = a.key →
      c.request_id = a.request_id → permit db (.claim { c with dispatched_at := some now }))
    (hpermit : ∀ db r, r.id = id → r.month = month → r.state = .pending →
      permit db (.dispatch r)) : Changes cal config permit db db' := by
  obtain ⟨r, hrow, hid, hmonth, ⟨-, rfl⟩ | ⟨hpending, db1, hmark, rfl⟩⟩ := mark_cases h
  · exact .refl
  · refine .head (mark_claim_change hmark hclaim) (.single (.dispatch r now ?_ hpending ?_))
    · rw [mark_claim_reservations hmark]
      exact hrow
    · exact hpermit db1 r hid hmonth hpending

theorem release_quota_reservation_changes {allow_dispatched clear_claim refund_charges : Bool}
    (h : db.release_quota_reservation a quota allow_dispatched clear_claim refund_charges
      = .ok db') : Changes cal config permit db db' := by
  cases quota with
  | none =>
    cases h
    exact .single (release_pending_change db a)
  | some quota =>
    obtain ⟨id, month⟩ := quota
    simp only [Database.release_quota_reservation] at h
    generalize (decide (Option.map (·.state) (db.reservation id month) = some .pending)
      || allow_dispatched && decide (Option.map (·.state) (db.reservation id month)
        = some .dispatched)) = can_clear at h
    -- whichever of the two claims is deleted
    have hclear : ∀ db : Database Value, Change cal config permit db
        (if (clear_claim && can_clear) = true then db.delete_claim a
          else db.release_pending a) := by
      intro db
      split
      · exact delete_claim_change db a
      · exact release_pending_change db a
    split at h
    · split at h
      · cases h
      next db1 hrefund =>
      cases h
      have hrefunded : Changes cal config permit db db1 := by
        split at hrefund
        · exact .single (refund_reservation_charges_change hrefund)
        · cases hrefund
          exact .refl
      refine (hrefunded.tail (.release id [.pending, .dispatched] ?_)).tail (hclear _)
      intro state hstate
      simpa using hstate
    · cases h
      exact .single (hclear db)

theorem release_not_dispatched_changes
    (h : db.release_not_dispatched_with_reservation a quota = .ok db') :
    Changes cal config permit db db' := by
  cases quota with
  | none =>
    cases h
    exact .single (delete_claim_change db a)
  | some quota =>
    have hrelease : db.release_quota_reservation a (some quota) true true true = .ok db' := h
    exact release_quota_reservation_changes hrelease

theorem finish_not_dispatched_changes
    (h : db.finish_not_dispatched_with_reservation a quota = .ok db') :
    Changes cal config permit db db' := by
  rw [Database.finish_not_dispatched_with_reservation.eq_def] at h
  split at h
  · split at h
    · cases h
    · cases h
      exact .single (delete_claim_change db a)
  next id month =>
  split at h
  · cases h
  split at h
  · cases h
  split at h
  · cases h
  split at h
  · cases h
  next db1 hrefund =>
  cases h
  refine ((Relation.ReflTransGen.single (refund_reservation_charges_change hrefund)).tail
    (.release id [.dispatched] ?_)).tail (delete_claim_change _ a)
  intro state hstate
  exact .inr (List.mem_singleton.mp hstate)

theorem settle_change (now : ℤ) (hfind : db.reservations.find r.id = some r)
    (hpermit : permit db (.meter (some r) a.request_id)) :
    Change cal config permit db (db.settle cal a r.id r.month now) :=
  .settle r a.request_id a.external_account_id now hfind hpermit

theorem record_reservations (db : Database Value) (a : Attempt) (output : Value) :
    (db.record a output).reservations = db.reservations := by
  rw [Database.record]
  split <;> rfl

theorem finish_with_reservation_changes {output : Option Value} {failed : Bool}
    (h : db.finish_with_reservation cal a (some (id, month)) output failed now = .ok db')
    (hpermit : ∀ db1 r, db1.reservations = db.reservations → db.reservation id month = some r →
      r.state = .dispatched → permit db1 (.meter (some r) a.request_id)) :
    Changes cal config permit db db' := by
  simp only [Database.finish_with_reservation] at h
  split at h
  · cases h
  next r hfind =>
  obtain ⟨hrow, rfl, rfl⟩ := reservation_eq_some hfind
  split at h
  · cases h
  split at h
  · cases h
    exact .refl
  split at h
  · cases h
  cases output with
  | none =>
    cases h
    exact .refl
  | some output =>
    have hrecord : Change cal config permit db (db.record a output) := record_change db a output
    have hrows := record_reservations db a output
    simp only at h
    split at h
    next hdispatched =>
      cases h
      refine ((Relation.ReflTransGen.single hrecord).tail ?_).tail (delete_claim_change _ a)
      refine settle_change now (by rw [hrows]; exact hrow) ?_
      exact hpermit _ r hrows hfind hdispatched
    split at h
    · cases h
    · cases h
      exact (Relation.ReflTransGen.single hrecord).tail (delete_claim_change _ a)

theorem finish_read_failure_changes
    (h : db.finish_read_failure_with_reservation cal a (some (id, month)) now = .ok db')
    (hpermit : ∀ r, db.reservation id month = some r → r.state = .dispatched →
      permit db (.meter (some r) a.request_id)) : Changes cal config permit db db' := by
  simp only [Database.finish_read_failure_with_reservation] at h
  split at h
  · cases h
  next r hfind =>
  obtain ⟨hrow, rfl, rfl⟩ := reservation_eq_some hfind
  split at h
  · cases h
  split at h
  next hdispatched =>
    cases h
    refine (Relation.ReflTransGen.single ?_).tail (delete_claim_change _ a)
    exact settle_change now hrow (hpermit r hfind hdispatched)
  split at h
  · cases h
  · cases h
    exact .single (delete_claim_change db a)

theorem close_timed_out_changes {read : Option TimeoutRead} {outcome : ActionDispatchOutcome}
    (h : db.close_timed_out cal a read outcome now = .ok db')
    (hread : ∀ t, read = some t → ∃ r, db.reservations.find r.id = some r ∧ r.id = t.id ∧
      r.month = t.month ∧ (t.state = .dispatched → db.dispatched_claim a = true →
        outcome ≠ .NotDispatched → permit db (.meter (some r) a.request_id))) :
    Changes cal config permit db db' := by
  rw [Database.close_timed_out] at h
  split at h
  · cases h
    exact .refl
  next c hclaim =>
  split at h
  · cases h
    exact .single (delete_claim_change db a)
  next t =>
  obtain ⟨r, hrow, hid, hmonth, hpermit⟩ := hread t rfl
  split at h
  next hsettles =>
    cases h
    refine (Relation.ReflTransGen.single ?_).tail (delete_claim_change _ a)
    rw [← hid, ← hmonth]
    refine settle_change now hrow (hpermit hsettles.1 ?_ hsettles.2.2)
    obtain ⟨hfind, hholds⟩ := Option.filter_eq_some_iff.mp hclaim
    rw [Database.dispatched_claim, hfind, Option.any_some, hholds]
    exact hsettles.2.1
  split at h
  · cases h
  next db1 hrefund =>
  cases h
  refine ((Relation.ReflTransGen.single (refund_reservation_charges_change hrefund)).tail
    (.release t.id [.pending, .dispatched] ?_)).tail (delete_claim_change _ a)
  intro state hstate
  simpa using hstate

/-! ## Reconciliation -/

theorem reconcilable_ok {reservation : Option Reservation}
    (h : db.reconcilable command now = .ok (claim, reservation)) :
    db.load_claim command = .ok claim ∧ db.completed_record_exists claim = .ok false ∧
      db.terminal_audits claim.idempotency_key = [] ∧ claim.dispatched = true ∧
      claim.leased_until ≤ now ∧ db.load_reservation claim = .ok reservation := by
  rw [Database.reconcilable] at h
  split at h
  · cases h
  split at h
  · cases h
  next claim' hload =>
  split at h
  · cases h
  next completed hcompleted =>
  split at h
  · cases h
  next hopen =>
  split at h
  · cases h
  next hdispatched =>
  split at h
  · cases h
  next hlease =>
  split at h
  · cases h
  next reservation' hreservation =>
  cases h
  rw [Bool.or_eq_true, not_or, decide_eq_true_eq, not_not, Bool.not_eq_true] at hopen
  refine ⟨hload, by rw [hcompleted, hopen.1], hopen.2, by simpa using hdispatched, ?_,
    hreservation⟩
  omega

theorem load_claim_ok (h : db.load_claim command = .ok claim) :
    ∃ c, db.claims.find command.idempotency_key = some c ∧
      c.idempotency_key = claim.idempotency_key ∧ c.request_id = claim.request_id ∧
      c.connection_id = claim.connection_id ∧
      c.external_account_id = some claim.external_account_id ∧
      c.connector = some claim.connector ∧ c.action = claim.action ∧
      c.input_hash = claim.input_hash ∧ c.dispatched_at.isSome = claim.dispatched ∧
      claim.request_id = command.expected_request_id := by
  rw [Database.load_claim] at h
  split at h
  · cases h
  next c hfind =>
  split at h
  · cases h
  next account haccount =>
  split at h
  · cases h
  split at h
  · cases h
  next hrequest =>
  split at h
  · cases h
  next connector hconnector =>
  cases h
  exact ⟨c, hfind, rfl, rfl, rfl, haccount, (Option.filter_eq_some_iff.mp hconnector).1, rfl, rfl,
    rfl, not_not.mp hrequest⟩

theorem look_foldlM {rows : List Reservation} {exact found : Option Reservation}
    (h : rows.foldlM c.look exact = .ok found) :
    (∀ r, found = some r → exact = some r ∨ r ∈ rows ∧ c.reserved r = true) ∧
      (found = none → exact = none ∧
        ∀ r ∈ rows, r.complete = true → c.reserved r = false) := by
  induction rows generalizing exact with
  | nil =>
    cases h
    exact ⟨fun r hr => .inl hr, fun hnone => ⟨hnone, (fun r hr => by cases hr)⟩⟩
  | cons r rows ih =>
    rw [List.foldlM_cons] at h
    cases hlook : c.look exact r with
    | error e =>
      rw [hlook] at h
      cases h
    | ok next =>
      rw [hlook] at h
      obtain ⟨hsome, hnone⟩ := ih h
      rw [ClaimRecord.look] at hlook
      by_cases hcomplete : r.complete = true
      · by_cases hreserved : c.reserved r = true
        · -- the row is the claim's
          simp only [hcomplete, hreserved, Bool.not_true, Bool.false_eq_true, if_false] at hlook
          split at hlook
          · cases hlook
          cases hlook
          refine ⟨fun r' hr' => ?_, fun hfound => ?_⟩
          · rcases hsome r' hr' with heq | ⟨hmem, hres⟩
            · cases heq
              exact .inr ⟨List.mem_cons_self, hreserved⟩
            · exact .inr ⟨List.mem_cons_of_mem _ hmem, hres⟩
          · cases (hnone hfound).1
        · simp only [hcomplete, hreserved, Bool.not_true, Bool.false_eq_true, if_false,
            Bool.not_false, if_true] at hlook
          split at hlook
          · cases hlook
          cases hlook
          refine ⟨fun r' hr' => ?_, fun hfound => ⟨(hnone hfound).1, fun r' hr' hc' => ?_⟩⟩
          · rcases hsome r' hr' with heq | ⟨hmem, hres⟩
            · exact .inl heq
            · exact .inr ⟨List.mem_cons_of_mem _ hmem, hres⟩
          · rcases List.mem_cons.mp hr' with rfl | hmem
            · simpa using hreserved
            · exact (hnone hfound).2 r' hmem hc'
      · simp only [hcomplete, Bool.not_false, if_true] at hlook
        split at hlook
        · cases hlook
        cases hlook
        refine ⟨fun r' hr' => ?_, fun hfound => ⟨(hnone hfound).1, fun r' hr' hc' => ?_⟩⟩
        · rcases hsome r' hr' with heq | ⟨hmem, hres⟩
          · exact .inl heq
          · exact .inr ⟨List.mem_cons_of_mem _ hmem, hres⟩
        · rcases List.mem_cons.mp hr' with rfl | hmem
          · exact absurd hc' hcomplete
          · exact (hnone hfound).2 r' hmem hc'

theorem load_reservation_some (h : db.load_reservation c = .ok (some r)) :
    db.reservations.find r.id = some r ∧ c.reserved r = true := by
  rcases (look_foldlM h).1 r rfl with heq | ⟨hmem, hreserved⟩
  · cases heq
  · rw [List.mem_insertionSort] at hmem
    exact ⟨Table.find_eq_some.mpr ⟨(List.mem_filter.mp hmem).1, rfl⟩, hreserved⟩

theorem load_reservation_none (h : db.load_reservation c = .ok none) (r : Reservation)
    (hmem : r ∈ db.reservations.rows) (hcomplete : r.complete = true) : c.reserved r = false := by
  by_contra hreserved
  rw [Bool.not_eq_false] at hreserved
  have hkey : r.idempotency_key = some c.idempotency_key := by
    simp only [ClaimRecord.reserved, Bool.and_eq_true, decide_eq_true_eq] at hreserved
    exact hreserved.1.1.2
  have hnot := ((look_foldlM h).2 rfl).2 r (by
    rw [List.mem_insertionSort, List.mem_filter]
    exact ⟨hmem, decide_eq_true hkey⟩) hcomplete
  rw [hreserved] at hnot
  cases hnot

/-- A reconciliation as changes, with what it may meter. -/
theorem reconcile_changes (h : db.reconcile_action_claim cal command now = .ok db')
    (hpermit : ∀ claim reservation, db.reconcilable command now = .ok (claim, reservation) →
      command.resolution = .ProviderOutcomeKnown true →
      (∀ r, reservation = some r → r.state = .dispatched ∨ r.state = .settled) →
      permit db (.meter reservation claim.request_id)) : Changes cal config permit db db' := by
  rw [Database.reconcile_action_claim] at h
  split at h
  · cases h
  next claim reservation hreconcilable =>
  have hload := (reconcilable_ok hreconcilable).2.2.2.2.2
  split at h
  · cases h
  next db1 hresolve =>
  cases h
  refine Relation.ReflTransGen.trans ?_ (close_claim_changes db1 claim command)
  rw [Database.resolve.eq_def] at hresolve
  have hactive : ∀ state ∈ [ReservationState.pending, .dispatched],
      state = .pending ∨ state = .dispatched := by
    intro state hstate
    simpa using hstate
  split at hresolve
  · -- nothing was dispatched
    rw [Database.not_dispatched.eq_def] at hresolve
    split at hresolve
    · cases hresolve
      exact .refl
    next r =>
    split at hresolve
    · cases hresolve
    split at hresolve
    · cases hresolve
    next db2 hrefund =>
    cases hresolve
    exact (Relation.ReflTransGen.single
      (.refund r db2 (load_reservation_some hload).1 hrefund)).tail (.release r.id _ hactive)
  next hresolution =>
    -- the provider has succeeded
    rw [Database.succeeded.eq_def] at hresolve
    split at hresolve
    · cases hresolve
      refine .single (.usage claim.request_id claim.external_account_id now ?_)
      exact hpermit claim none hreconcilable hresolution (fun r hr => by cases hr)
    next r =>
    split at hresolve
    · cases hresolve
    next hstate =>
    cases hresolve
    refine .single (.settle r claim.request_id claim.external_account_id now
      (load_reservation_some hload).1 ?_)
    refine hpermit claim (some r) hreconcilable hresolution ?_
    intro r' hr'
    cases hr'
    cases hcase : r.state with
    | pending => exact absurd (.inl hcase) hstate
    | released => exact absurd (.inr hcase) hstate
    | dispatched => exact .inl rfl
    | settled => exact .inr rfl
  · -- the provider has failed
    rw [Database.provider_failed.eq_def] at hresolve
    split at hresolve
    · cases hresolve
      exact .refl
    split at hresolve
    · cases hresolve
    · cases hresolve
      exact .single (.release _ _ hactive)

end Appcall.Actions
