/-
What the calls account for.

Every reservation is that of one call, every claim is held by the call it names, and a
claim is dispatched only by a call that has bound its reservation. So what a deadline or
an operator finds under a request is the reservation of that call. Usage is written for it
under two keys, that of the request and that of its recovery; the state of the reservation
tells which of them there is, as long as no step writes the one after the other.
-/
import Appcall.Actions.Ledger

set_option autoImplicit false

namespace Appcall.Actions

variable {Value : Type}

/-! ## Keys -/

variable {t : String} {x : Execute} {db db' : Database Value} {r : Reservation} {now : ℤ}
  {s : System Value}

theorem append_inj {pre s : String} (h : pre ++ s = pre ++ t) : s = t := by
  have happend : pre.toList ++ s.toList = pre.toList ++ t.toList := by
    rw [← String.toList_append, ← String.toList_append, h]
  exact String.toList_inj.mp (List.append_cancel_left happend)

theorem action_key_inj {s : String} (h : action_key s = action_key t) : s = t := append_inj h

theorem recovery_key_inj {s : String} (h : recovery_key s = recovery_key t) : s = t :=
  append_inj h

theorem action_key_ne (request_id id : String) : action_key request_id ≠ recovery_key id := by
  intro h
  have hlist := congrArg String.toList h
  rw [action_key, recovery_key, String.toList_append, String.toList_append] at hlist
  have hhead := congrArg List.head? hlist
  cases hhead

theorem find_meter (db : Database Value) (key account : String) (occurred_at : ℤ)
    (month k : String) :
    (db.meter key account occurred_at month).usage_events.find k
      = if k = key then some ((db.usage_events.find key).getD
          { metering_event_key := key, external_account_id := account, occurred_at })
        else db.usage_events.find k := by
  rw [Database.meter]
  split
  next hinsert =>
    obtain ⟨e, hfind⟩ := Table.insert_eq_none hinsert
    have hsame : db.usage_events.find key = some e := hfind
    by_cases hk : k = key
    · rw [if_pos hk, hk, hsame, Option.getD_some]
    · rw [if_neg hk]
  next usage_events hinsert =>
    have hnone : db.usage_events.find key = none := (Table.insert_eq_some hinsert).1
    have hfind := Table.find_insert hinsert k
    change usage_events.find k = _
    rw [hfind, hnone, Option.getD_none]

/-! ## What holds of a call -/

/-- The claims of a call: they are of its identity, and dispatched once it has bound its
reservation. -/
structure Execute.Claims (x : Execute) (c : Claim) : Prop where
  key : c.idempotency_key = x.attempt.key
  keyed : x.attempt.key ≠ ""
  identity : x.attempt.matches_claim c = true
  dispatched : c.dispatched_at.isSome = true → x.bound = true ∧ x.quota.isSome = true

/-- The reservation of a call, and the usage written for it: under the key of the request
once the reservation has left its active states, or else by the cleanup that settled it. -/
structure Execute.Holds (x : Execute) (db : Database Value) (r : Reservation) : Prop where
  reserved : x.attempt.reserved r = true
  request : r.request_id = none ∨ r.request_id = some x.request_id
  bound : x.bound = true → x.attempt.key ≠ "" → r.request_id = some x.request_id
  unbound : x.attempt.key ≠ "" → r.request_id = none →
    r.state ≠ .dispatched ∧ r.state ≠ .settled
  pending : r.state = .pending → r.dispatched_at = none
  begun : r.state = .dispatched ∨ r.state = .settled → r.dispatched_at.isSome = true
  metered : ∀ e, db.usage_events.find (action_key x.request_id) = some e →
    (r.state = .settled ∨ r.state = .released) ∧ r.dispatched_at.isSome = true ∧
      db.usage_events.find (recovery_key r.id) = none ∧ e.occurred_at = r.created_at
  recovered : ∀ e, db.usage_events.find (recovery_key r.id) = some e →
    r.state = .settled ∧ e.occurred_at = r.created_at

/-- The calls account for the claims, the reservations and the usage. -/
structure Sound (executes : Table Execute.request_id) (db : Database Value) : Prop where
  claims : ∀ c ∈ db.claims.rows, ∃ x, executes.find c.request_id = some x ∧ x.Claims c
  holds : ∀ x id month, executes.find x.request_id = some x → x.quota = some (id, month) →
    ∃ r, db.reservations.find id = some r ∧ r.month = month ∧ x.Holds db r
  owned : ∀ id r, db.reservations.find id = some r →
    ∃ x, executes.find x.request_id = some x ∧ x.quota = some (id, r.month)
  binding : ∀ x, executes.find x.request_id = some x → x.bound = true → x.quota.isSome = true
  distinct : ∀ x x' id month month', executes.find x.request_id = some x →
    executes.find x'.request_id = some x' → x.quota = some (id, month) →
    x'.quota = some (id, month') → x = x'
  actions : ∀ request_id e, db.usage_events.find (action_key request_id) = some e →
    ∃ x, executes.find request_id = some x ∧ x.quota.isSome = true
  recoveries : ∀ id e, db.usage_events.find (recovery_key id) = some e →
    (db.reservations.find id).isSome = true

/-- Usage that was not recovered is written for a reservation that is dispatched, or was. -/
def Unrecovered (db : Database Value) (r : Reservation) : Prop :=
  r.state = .dispatched ∨
    r.state ≠ .pending ∧ r.dispatched_at.isSome = true ∧
      db.usage_events.find (recovery_key r.id) = none

/-- Every write is one of a call, on its own claim and reservation. -/
def Accounted (executes : Table Execute.request_id) (db : Database Value) : Write → Prop
  | .claim c => ∃ x, executes.find c.request_id = some x ∧ x.Claims c
  | .bind r request_id => ∃ x, executes.find request_id = some x ∧ x.quota = some (r.id, r.month)
  | .dispatch r => ∃ x, executes.find x.request_id = some x ∧ x.quota = some (r.id, r.month) ∧
      (x.attempt.key ≠ "" → x.bound = true)
  | .meter (some r) request_id => ∃ x, executes.find request_id = some x ∧
      x.quota = some (r.id, r.month) ∧ Unrecovered db r
  | .meter none _ => False
  | .grant _ _ => False

/-! ## One change -/

theorem Execute.Holds.congr {r' : Reservation} (h : x.Holds db r) (hid : r'.id = r.id)
    (hreserved : x.attempt.reserved r' = true) (hrequest : r'.request_id = r.request_id)
    (hstate : r'.state = r.state) (hdispatched : r'.dispatched_at = r.dispatched_at)
    (hcreated : r'.created_at = r.created_at)
    (haction : db'.usage_events.find (action_key x.request_id)
      = db.usage_events.find (action_key x.request_id))
    (hrecovery : db'.usage_events.find (recovery_key r.id)
      = db.usage_events.find (recovery_key r.id)) : x.Holds db' r' where
  reserved := hreserved
  request := by
    rw [hrequest]
    exact h.request
  bound := by
    rw [hrequest]
    exact h.bound
  unbound := by
    rw [hrequest, hstate]
    exact h.unbound
  pending := by
    rw [hstate, hdispatched]
    exact h.pending
  begun := by
    rw [hstate, hdispatched]
    exact h.begun
  metered := by
    rw [haction, hid, hrecovery, hstate, hdispatched, hcreated]
    exact h.metered
  recovered := by
    rw [hid, hrecovery, hstate, hcreated]
    exact h.recovered

theorem Sound.modify {executes : Table Execute.request_id} (h : Sound executes db) (id : String)
    (f : Reservation → Reservation) (hf : ∀ r, (f r).id = r.id)
    (hmonth : ∀ r, (f r).month = r.month) (hclaims : db'.claims = db.claims)
    (hreservations : db'.reservations = db.reservations.modify id f hf)
    (hself : ∀ x r, executes.find x.request_id = some x → x.quota = some (r.id, r.month) →
      db.reservations.find r.id = some r → r.id = id → x.Holds db r → x.Holds db' (f r))
    (hother : ∀ x r, executes.find x.request_id = some x → x.quota = some (r.id, r.month) →
      db.reservations.find r.id = some r → r.id ≠ id → x.Holds db r → x.Holds db' r)
    (hactions : ∀ request_id e, db'.usage_events.find (action_key request_id) = some e →
      ∃ x, executes.find request_id = some x ∧ x.quota.isSome = true)
    (hrecoveries : ∀ id e, db'.usage_events.find (recovery_key id) = some e →
      (db.reservations.find id).isSome = true) : Sound executes db' where
  claims := by
    rw [hclaims]
    exact h.claims
  holds := by
    intro x id' month hx hquota
    obtain ⟨r, hfind, rfl, hholds⟩ := h.holds x id' month hx hquota
    have hid := (Table.find_eq_some.mp hfind).2
    subst hid
    rw [hreservations, Table.find_modify]
    by_cases heq : r.id = id
    · rw [if_pos heq, ← heq, hfind]
      exact ⟨f r, rfl, hmonth r, hself x r hx hquota hfind heq hholds⟩
    · rw [if_neg heq]
      exact ⟨r, hfind, rfl, hother x r hx hquota hfind heq hholds⟩
  owned := by
    intro id' r' hfind
    rw [hreservations, Table.find_modify] at hfind
    split at hfind
    next heq =>
      obtain ⟨r, hr, rfl⟩ := Option.map_eq_some_iff.mp hfind
      rw [heq, hmonth]
      exact h.owned id r hr
    next => exact h.owned id' r' hfind
  binding := h.binding
  distinct := h.distinct
  actions := hactions
  recoveries := by
    intro id' e he
    have hsome := hrecoveries id' e he
    rw [hreservations, Table.find_modify]
    split
    next heq =>
      rw [Option.isSome_map, ← heq]
      exact hsome
    next => exact hsome

theorem Sound.update {executes : Table Execute.request_id} (h : Sound executes db) (id : String)
    (f : Reservation → Reservation) (hf : ∀ r, (f r).id = r.id)
    (hmonth : ∀ r, (f r).month = r.month) (hclaims : db'.claims = db.claims)
    (hreservations : db'.reservations = db.reservations.modify id f hf)
    (hevents : db'.usage_events = db.usage_events)
    (hself : ∀ x r, executes.find x.request_id = some x → x.quota = some (r.id, r.month) →
      db.reservations.find r.id = some r → r.id = id → x.Holds db r → x.Holds db' (f r)) :
    Sound executes db' := by
  refine h.modify id f hf hmonth hclaims hreservations hself ?_ ?_ ?_
  · intro x r _ _ _ _ hholds
    exact hholds.congr rfl hholds.reserved rfl rfl rfl rfl (by rw [hevents]) (by rw [hevents])
  · rw [hevents]
    exact h.actions
  · rw [hevents]
    exact h.recoveries

theorem Execute.Holds.release (h : x.Holds db r) {states : List ReservationState}
    (hactive : ∀ state ∈ states, state = .pending ∨ state = .dispatched)
    (hevents : db'.usage_events = db.usage_events) : x.Holds db' (r.to_state states .released) := by
  rw [Reservation.to_state]
  split
  next hstate =>
    -- an active reservation has no usage
    have hnot : r.state ≠ .settled ∧ r.state ≠ .released := by
      rcases hactive r.state hstate with heq | heq
      · rw [heq]
        exact ⟨by decide, by decide⟩
      · rw [heq]
        exact ⟨by decide, by decide⟩
    refine ⟨h.reserved, h.request, h.bound,
      fun _ _ => ⟨(fun heq => by cases heq), (fun heq => by cases heq)⟩,
      (fun heq => by cases heq), (fun heq => by rcases heq with heq | heq <;> cases heq), ?_, ?_⟩
    · intro e he
      rw [hevents] at he
      rcases (h.metered e he).1 with heq | heq
      · exact absurd heq hnot.1
      · exact absurd heq hnot.2
    · intro e he
      rw [hevents] at he
      exact absurd (h.recovered e he).1 hnot.1
  next => exact h.congr rfl h.reserved rfl rfl rfl rfl (by rw [hevents]) (by rw [hevents])

theorem Execute.Holds.recover (h : x.Holds db r) (hdispatched : r.state = .dispatched)
    (hevents : db'.usage_events = (db.meter (recovery_key r.id) r.external_account_id
      r.created_at r.month).usage_events) : x.Holds db' (r.to_state [.dispatched] .settled) := by
  rw [Reservation.to_state, if_pos (List.mem_singleton.mpr hdispatched)]
  refine ⟨h.reserved, h.request, h.bound, ?_, (fun heq => by cases heq),
    fun _ => h.begun (.inl hdispatched), ?_, ?_⟩
  · intro hkey hunbound
    exact absurd hdispatched (h.unbound hkey hunbound).1
  · intro e he
    rw [hevents, find_meter, if_neg (action_key_ne _ _)] at he
    -- the call has not written its usage, as the reservation was dispatched
    rcases (h.metered e he).1 with heq | heq
    · rw [hdispatched] at heq
      cases heq
    · rw [hdispatched] at heq
      cases heq
  · intro e he
    rw [hevents, find_meter, if_pos rfl] at he
    refine ⟨rfl, ?_⟩
    cases hold : db.usage_events.find (recovery_key r.id) with
    | none =>
      rw [hold] at he
      cases he
      rfl
    | some e' =>
      have hsettled := (h.recovered e' hold).1
      rw [hdispatched] at hsettled
      cases hsettled

theorem Execute.Holds.settle {account : String} (h : x.Holds db r) (hunrecovered : Unrecovered db r)
    (hevents : db'.usage_events = (db.meter (action_key x.request_id) account r.created_at
      r.month).usage_events) : x.Holds db' (r.to_state [.dispatched] .settled) := by
  have hrecovery : db.usage_events.find (recovery_key r.id) = none := by
    rcases hunrecovered with hdispatched | ⟨-, -, hnone⟩
    · cases hold : db.usage_events.find (recovery_key r.id) with
      | none => rfl
      | some e =>
        have hsettled := (h.recovered e hold).1
        rw [hdispatched] at hsettled
        cases hsettled
    · exact hnone
  have hbegun : r.dispatched_at.isSome = true := by
    rcases hunrecovered with hdispatched | ⟨-, hsome, -⟩
    · exact h.begun (.inl hdispatched)
    · exact hsome
  have hrecovery' : db'.usage_events.find (recovery_key r.id) = none := by
    rw [hevents, find_meter, if_neg (fun heq => action_key_ne _ _ heq.symm)]
    exact hrecovery
  have hoccurred : ∀ e, db'.usage_events.find (action_key x.request_id) = some e →
      e.occurred_at = r.created_at := by
    intro e he
    rw [hevents, find_meter, if_pos rfl] at he
    cases hold : db.usage_events.find (action_key x.request_id) with
    | none =>
      rw [hold] at he
      cases he
      rfl
    | some e' =>
      rw [hold] at he
      cases he
      exact (h.metered _ hold).2.2.2
  rw [Reservation.to_state]
  split
  next hstate =>
    refine ⟨h.reserved, h.request, h.bound, ?_, (fun heq => by cases heq), fun _ => hbegun, ?_, ?_⟩
    · intro hkey hunbound
      exact absurd (List.mem_singleton.mp hstate) (h.unbound hkey hunbound).1
    · exact fun e he => ⟨.inl rfl, hbegun, hrecovery', hoccurred e he⟩
    · intro e he
      rw [hrecovery'] at he
      cases he
  next hstate =>
    refine ⟨h.reserved, h.request, h.bound, h.unbound, h.pending, h.begun, ?_, ?_⟩
    · intro e he
      refine ⟨?_, hbegun, hrecovery', hoccurred e he⟩
      -- not dispatched, and not pending either
      rcases hunrecovered with hdispatched | ⟨hpending, -, -⟩
      · exact absurd (List.mem_singleton.mpr hdispatched) hstate
      · cases hcase : r.state with
        | pending => exact absurd hcase hpending
        | dispatched => exact absurd (List.mem_singleton.mpr hcase) hstate
        | settled => exact .inl rfl
        | released => exact .inr rfl
    · intro e he
      rw [hrecovery'] at he
      cases he

variable {cal : Calendar} {config : PolicyConfig} {executes : Table Execute.request_id}

theorem find_execute {request_id : String} (h : executes.find request_id = some x) :
    executes.find x.request_id = some x := by
  rw [(Table.find_eq_some.mp h).2]
  exact h

theorem to_state_month (states : List ReservationState) (state : ReservationState)
    (r : Reservation) : (r.to_state states state).month = r.month := by
  rw [Reservation.to_state]
  split <;> rfl

/-- A change that the calls account for. -/
theorem Change.sound (h : Change cal config (Accounted executes) db db')
    (hsound : Sound executes db) : Sound executes db' := by
  cases h with
  | keys db' claims reservations counters usage_events rollups =>
    refine ⟨?_, ?_, ?_, hsound.binding, hsound.distinct, ?_, ?_⟩
    · intro c hc
      rcases claims c hc with hold | hnew
      · exact hsound.claims c hold
      · exact hnew
    · intro x id month hx hquota
      obtain ⟨r, hfind, hmonth, hholds⟩ := hsound.holds x id month hx hquota
      exact ⟨r, by rw [reservations]; exact hfind, hmonth, hholds.congr rfl hholds.reserved rfl
        rfl rfl rfl (by rw [usage_events]) (by rw [usage_events])⟩
    · rw [reservations]
      exact hsound.owned
    · rw [usage_events]
      exact hsound.actions
    · rw [usage_events, reservations]
      exact hsound.recoveries
  | refund r db' found refunded =>
    obtain ⟨counters, -, rfl⟩ := refund_charges_eq refunded
    refine hsound.update r.id Reservation.refund (fun _ => rfl) (fun _ => rfl) rfl rfl rfl ?_
    intro x r' _ _ _ _ hholds
    exact hholds.congr rfl hholds.reserved rfl rfl rfl rfl rfl rfl
  | release id states active =>
    refine hsound.update id _ (Reservation.to_state_id _ _) (to_state_month _ _) rfl rfl rfl ?_
    intro x r _ _ _ _ hholds
    exact hholds.release active rfl
  | recover r found dispatched =>
    refine hsound.modify r.id (Reservation.to_state [.dispatched] .settled)
      (Reservation.to_state_id _ _) (to_state_month _ _) ?_ ?_ ?_ ?_ ?_ ?_
    · change (db.meter _ _ _ _).claims = db.claims
      rw [Database.meter]
      split <;> rfl
    · rw [Database.set_state, meter_reservations]
    · intro x r' _ _ hfind hid hholds
      rw [hid, found] at hfind
      cases hfind
      exact hholds.recover dispatched rfl
    · intro x r' _ _ _ hid hholds
      refine hholds.congr rfl hholds.reserved rfl rfl rfl rfl ?_ ?_
      · change (db.meter _ _ _ _).usage_events.find _ = _
        rw [find_meter, if_neg (action_key_ne _ _)]
      · change (db.meter _ _ _ _).usage_events.find _ = _
        rw [find_meter, if_neg (fun heq => hid (recovery_key_inj heq))]
    · intro request_id e he
      change (db.meter _ _ _ _).usage_events.find _ = _ at he
      rw [find_meter, if_neg (action_key_ne _ _)] at he
      exact hsound.actions request_id e he
    · intro id e he
      change (db.meter _ _ _ _).usage_events.find _ = _ at he
      rw [find_meter] at he
      split at he
      next heq =>
        rw [recovery_key_inj heq, found]
        rfl
      next => exact hsound.recoveries id e he
  | settle r request_id account now found permitted =>
    obtain ⟨x0, hx0, hquota0, hunrecovered⟩ := permitted
    have hrequest : x0.request_id = request_id := (Table.find_eq_some.mp hx0).2
    have hevents : (db.write_usage cal request_id account (some (r.id, r.month)) now)
        = db.meter (action_key request_id) account r.created_at r.month := by
      rw [Database.write_usage, Option.bind_some, found]
      rfl
    rw [hevents]
    refine hsound.modify r.id (Reservation.to_state [.dispatched] .settled)
      (Reservation.to_state_id _ _) (to_state_month _ _) ?_ ?_ ?_ ?_ ?_ ?_
    · change (db.meter _ _ _ _).claims = db.claims
      rw [Database.meter]
      split <;> rfl
    · rw [Database.set_state, meter_reservations]
    · intro x r' hx hquota hfind hid hholds
      rw [hid, found] at hfind
      cases hfind
      have hsame : x = x0 := hsound.distinct x x0 r.id r.month r.month hx (find_execute hx0)
        hquota hquota0
      subst hsame
      exact hholds.settle hunrecovered (by rw [hrequest]; rfl)
    · intro x r' hx hquota hfind hid hholds
      refine hholds.congr rfl hholds.reserved rfl rfl rfl rfl ?_ ?_
      · change (db.meter _ _ _ _).usage_events.find _ = _
        rw [find_meter, if_neg]
        intro heq
        -- two reservations of one request would be the same
        have hsame : x = x0 := by
          rw [action_key_inj heq, hx0] at hx
          cases hx
          rfl
        subst hsame
        rw [hquota0] at hquota
        exact hid (congrArg Prod.fst (Option.some.inj hquota)).symm
      · change (db.meter _ _ _ _).usage_events.find _ = _
        rw [find_meter, if_neg (fun heq => action_key_ne _ _ heq.symm)]
    · intro request_id' e he
      change (db.meter _ _ _ _).usage_events.find _ = _ at he
      rw [find_meter] at he
      split at he
      next heq =>
        rw [action_key_inj heq]
        exact ⟨x0, hx0, by rw [hquota0]; rfl⟩
      next => exact hsound.actions request_id' e he
    · intro id e he
      change (db.meter _ _ _ _).usage_events.find _ = _ at he
      rw [find_meter, if_neg (fun heq => action_key_ne _ _ heq.symm)] at he
      exact hsound.recoveries id e he
  | usage request_id account now permitted => exact absurd permitted id
  | bind r request_id found unbound permitted =>
    obtain ⟨x0, hx0, hquota0⟩ := permitted
    have hrequest : x0.request_id = request_id := (Table.find_eq_some.mp hx0).2
    refine hsound.update r.id (Reservation.bind request_id) (fun _ => rfl) (fun _ => rfl) rfl rfl
      rfl ?_
    intro x r' hx hquota hfind hid hholds
    rw [hid, found] at hfind
    cases hfind
    have hsame : x = x0 := hsound.distinct x x0 r.id r.month r.month hx (find_execute hx0)
      hquota hquota0
    subst hsame
    have hown : (r.bind request_id).request_id = some x.request_id := by rw [hrequest]; rfl
    refine ⟨hholds.reserved, .inr hown, fun _ _ => hown, ?_, hholds.pending, hholds.begun,
      hholds.metered, hholds.recovered⟩
    intro _ hnone
    rw [hown] at hnone
    cases hnone
  | dispatch r now found pending permitted =>
    obtain ⟨x0, hx0, hquota0, hbound⟩ := permitted
    refine hsound.update r.id (Reservation.dispatch now) (fun _ => rfl) (fun _ => rfl) rfl rfl
      rfl ?_
    intro x r' hx hquota hfind hid hholds
    rw [hid, found] at hfind
    cases hfind
    have hsame : x = x0 := hsound.distinct x x0 r.id r.month r.month hx hx0 hquota hquota0
    subst hsame
    refine ⟨hholds.reserved, hholds.request, hholds.bound, ?_, (fun heq => by cases heq),
      fun _ => rfl, ?_, ?_⟩
    · intro hkey hnone
      have hown := hholds.bound (hbound hkey) hkey
      change r.request_id = none at hnone
      rw [hown] at hnone
      cases hnone
    · intro e he
      rcases (hholds.metered e he).1 with heq | heq
      · rw [pending] at heq
        cases heq
      · rw [pending] at heq
        cases heq
    · intro e he
      have heq := (hholds.recovered e he).1
      rw [pending] at heq
      cases heq
  | grant q e now db' entitled room swept admitted permitted => exact absurd permitted id

theorem Changes.sound (h : Changes cal config (Accounted executes) db db')
    (hsound : Sound executes db) : Sound executes db' := by
  induction h with
  | refl => exact hsound
  | tail _ hlast ih => exact hlast.sound ih

/-! ## New calls, reservations and bindings -/

theorem Execute.Claims.later {x' : Execute} {c : Claim} (h : x.Claims c) (hlater : x.Later x') :
    x'.Claims c where
  key := by
    rw [hlater.attempt]
    exact h.key
  keyed := by
    rw [hlater.attempt]
    exact h.keyed
  identity := by
    rw [hlater.attempt]
    exact h.identity
  dispatched := by
    intro hsome
    obtain ⟨hbound, hquota⟩ := h.dispatched hsome
    exact ⟨hlater.bound hbound, by rw [hlater.quota hquota]; exact hquota⟩

theorem Sound.acquire (h : Sound executes db) {a : Attempt} {executes' : Table Execute.request_id}
    (hinsert : executes.insert { attempt := a, quota := none, bound := false }
      = some executes') : Sound executes' db := by
  have hnew : executes.find a.request_id = none := (Table.insert_eq_some hinsert).1
  have hfind : ∀ k, executes'.find k
      = if k = a.request_id then some { attempt := a, quota := none, bound := false }
        else executes.find k := Table.find_insert hinsert
  -- the calls that were there are still there
  have hold : ∀ k x, executes.find k = some x → executes'.find k = some x := by
    intro k x hx
    rw [hfind, if_neg]
    · exact hx
    · rintro rfl
      rw [hnew] at hx
      cases hx
  -- and a call that has reserved was there
  have hback : ∀ x, executes'.find x.request_id = some x → x.quota.isSome = true →
      executes.find x.request_id = some x := by
    intro x hx hquota
    rw [hfind] at hx
    split at hx
    · cases hx
      cases hquota
    · exact hx
  refine ⟨?_, ?_, ?_, ?_, ?_, ?_, h.recoveries⟩
  · intro c hc
    obtain ⟨x, hx, hclaims⟩ := h.claims c hc
    exact ⟨x, hold _ x hx, hclaims⟩
  · intro x id month hx hquota
    exact h.holds x id month (hback x hx (by rw [hquota]; rfl)) hquota
  · intro id r hr
    obtain ⟨x, hx, hquota⟩ := h.owned id r hr
    exact ⟨x, hold _ x hx, hquota⟩
  · intro x hx hbound
    rw [hfind] at hx
    split at hx
    · cases hx
      cases hbound
    · exact h.binding x hx hbound
  · intro x x' id month month' hx hx' hquota hquota'
    exact h.distinct x x' id month month' (hback x hx (by rw [hquota]; rfl))
      (hback x' hx' (by rw [hquota']; rfl)) hquota hquota'
  · intro request_id e he
    obtain ⟨x, hx, hquota⟩ := h.actions request_id e he
    exact ⟨x, hold _ x hx, hquota⟩

theorem find_updated {request_id : String} {f : Execute → Execute}
    {hf : ∀ x, (f x).request_id = x.request_id} {x' : Execute}
    (h : (executes.modify request_id f hf).find x'.request_id = some x') :
    ∃ x, executes.find x.request_id = some x ∧
      (x.request_id = request_id ∧ x' = f x ∨ x.request_id ≠ request_id ∧ x' = x) := by
  rw [Table.find_modify] at h
  split at h
  next heq =>
    obtain ⟨x, hx, rfl⟩ := Option.map_eq_some_iff.mp h
    have hid := (Table.find_eq_some.mp hx).2
    exact ⟨x, find_execute hx, .inl ⟨hid, rfl⟩⟩
  next hne => exact ⟨x', h, .inr ⟨hne, rfl⟩⟩

theorem Sound.bind (h : Sound executes db) (hx : executes.find x.request_id = some x)
    (hquota : x.quota.isSome = true)
    (hbound : ∀ id month r, x.quota = some (id, month) → db.reservations.find id = some r →
      x.attempt.key ≠ "" → r.request_id = some x.request_id) :
    Sound (executes.modify x.request_id Execute.bind (fun _ => rfl)) db := by
  have hlater : ∀ k y, executes.find k = some y →
      ∃ y', (executes.modify x.request_id Execute.bind (fun _ => rfl)).find k = some y' ∧
        y.Later y' :=
    fun k y hy => find_later hy Execute.bind (fun _ => rfl)
      (fun _ => ⟨rfl, fun _ => rfl, fun _ => rfl⟩)
  -- a call of the new table, and what it has reserved
  have hback : ∀ y', (executes.modify x.request_id Execute.bind (fun _ => rfl)).find
      y'.request_id = some y' → ∃ y, executes.find y.request_id = some y ∧
        y'.quota = y.quota ∧ (y = x ∧ y' = x.bind ∨ y' = y) := by
    intro y' hy'
    obtain ⟨y, hy, ⟨hid, rfl⟩ | ⟨-, rfl⟩⟩ := find_updated hy'
    · rw [hid, hx] at hy
      cases hy
      exact ⟨x, hx, rfl, .inl ⟨rfl, rfl⟩⟩
    · exact ⟨y', hy, rfl, .inr rfl⟩
  refine ⟨?_, ?_, ?_, ?_, ?_, ?_, h.recoveries⟩
  · intro c hc
    obtain ⟨y, hy, hclaims⟩ := h.claims c hc
    obtain ⟨y', hy', hyl⟩ := hlater _ y hy
    exact ⟨y', hy', hclaims.later hyl⟩
  · intro y' id month hy' hquota'
    obtain ⟨y, hy, hsame, hcase⟩ := hback y' hy'
    rw [hsame] at hquota'
    obtain ⟨r, hr, hmonth, hholds⟩ := h.holds y id month hy hquota'
    refine ⟨r, hr, hmonth, ?_⟩
    rcases hcase with ⟨rfl, rfl⟩ | rfl
    · exact ⟨hholds.reserved, hholds.request, fun _ hkey => hbound id month r hquota' hr hkey,
        hholds.unbound, hholds.pending, hholds.begun, hholds.metered, hholds.recovered⟩
    · exact hholds
  · intro id r hr
    obtain ⟨y, hy, hquota'⟩ := h.owned id r hr
    obtain ⟨y', hy', hyl⟩ := hlater _ y hy
    have hid := (Table.find_eq_some.mp hy').2
    exact ⟨y', by rw [hid]; exact hy', by rw [hyl.quota (by rw [hquota']; rfl)]; exact hquota'⟩
  · intro y' hy' hbound'
    obtain ⟨y, hy, hsame, ⟨rfl, -⟩ | rfl⟩ := hback y' hy'
    · rw [hsame]
      exact hquota
    · exact h.binding y' hy hbound'
  · intro y' z' id month month' hy' hz' hyq hzq
    obtain ⟨y, hy, hysame, hycase⟩ := hback y' hy'
    obtain ⟨z, hz, hzsame, hzcase⟩ := hback z' hz'
    rw [hysame] at hyq
    rw [hzsame] at hzq
    have heq := h.distinct y z id month month' hy hz hyq hzq
    subst heq
    have hid : y'.request_id = z'.request_id := by
      rcases hycase with ⟨rfl, rfl⟩ | rfl
      · rcases hzcase with ⟨-, rfl⟩ | rfl
        · rfl
        · rfl
      · rcases hzcase with ⟨rfl, rfl⟩ | rfl
        · rfl
        · rfl
    rw [hid, hz'] at hy'
    cases hy'
    rfl
  · intro request_id e he
    obtain ⟨y, hy, hquota'⟩ := h.actions request_id e he
    obtain ⟨y', hy', hyl⟩ := hlater _ y hy
    exact ⟨y', hy', by rw [hyl.quota hquota']; exact hquota'⟩

/-- A reservation is granted, and the call holds it. -/
theorem Sound.grant (h : Sound executes db) (hx : executes.find x.request_id = some x)
    (hnone : x.quota = none) {q : Reserve} {e : Entitlements} {month : String}
    (hgrant : db.grant cal config (q.of x.attempt) e month now = .ok db') :
    Sound (executes.modify x.request_id (Execute.reserve (q.quota_id, month)) (fun _ => rfl))
      db' := by
  obtain ⟨n, linkedin, n', send, reservations, -, -, hinsert, rfl⟩ := grant_eq hgrant
  have hfree : db.reservations.find q.quota_id = none := (Table.insert_eq_some hinsert).1
  have hfind : ∀ k, reservations.find k
      = if k = q.quota_id then some ((q.of x.attempt).row month now (send ++ linkedin))
        else db.reservations.find k := Table.find_insert hinsert
  have hlater : ∀ k y, executes.find k = some y →
      ∃ y', (executes.modify x.request_id (Execute.reserve (q.quota_id, month))
        (fun _ => rfl)).find k = some y' ∧ y.Later y' := by
    intro k y hy
    refine find_later hy (Execute.reserve (q.quota_id, month)) (fun _ => rfl) ?_
    rintro rfl
    rw [hx] at hy
    cases hy
    exact ⟨rfl, (fun hsome => by rw [hnone] at hsome; cases hsome), id⟩
  have hback : ∀ y', (executes.modify x.request_id (Execute.reserve (q.quota_id, month))
      (fun _ => rfl)).find y'.request_id = some y' →
        y' = x.reserve (q.quota_id, month) ∨
          executes.find y'.request_id = some y' := by
    intro y' hy'
    obtain ⟨y, hy, ⟨hid, rfl⟩ | ⟨-, rfl⟩⟩ := find_updated hy'
    · rw [hid, hx] at hy
      cases hy
      exact .inl rfl
    · exact .inr hy
  -- an old reservation does not have the new id
  have hne : ∀ id r, db.reservations.find id = some r → id ≠ q.quota_id := by
    rintro id r hr rfl
    rw [hfree] at hr
    cases hr
  refine ⟨?_, ?_, ?_, ?_, ?_, ?_, ?_⟩
  · intro c hc
    obtain ⟨y, hy, hclaims⟩ := h.claims c hc
    obtain ⟨y', hy', hyl⟩ := hlater _ y hy
    exact ⟨y', hy', hclaims.later hyl⟩
  · intro y' id month' hy' hquota'
    rcases hback y' hy' with rfl | hy
    · cases hquota'
      refine ⟨(q.of x.attempt).row month now (send ++ linkedin), ?_, rfl, ?_⟩
      · change reservations.find q.quota_id = _
        rw [hfind, if_pos rfl]
      · refine ⟨?_, .inl rfl, ?_, fun _ _ => ⟨(fun heq => by cases heq), (fun heq => by cases heq)⟩,
          fun _ => rfl, (fun heq => by rcases heq with heq | heq <;> cases heq), ?_, ?_⟩
        · simp [Attempt.reserved, Reserve.row, Reserve.of, Execute.reserve]
        · intro hbound
          have hsome := h.binding x hx hbound
          rw [hnone] at hsome
          cases hsome
        · intro e' he'
          -- the call has reserved nothing before, so it has no usage
          obtain ⟨y, hy, hsome⟩ := h.actions x.request_id e' he'
          rw [hx] at hy
          cases hy
          rw [hnone] at hsome
          cases hsome
        · intro e' he'
          have hsome := h.recoveries q.quota_id e' he'
          rw [hfree] at hsome
          cases hsome
    · obtain ⟨r, hr, hmonth, hholds⟩ := h.holds y' id month' hy hquota'
      refine ⟨r, ?_, hmonth, hholds.congr rfl hholds.reserved rfl rfl rfl rfl rfl rfl⟩
      change reservations.find id = some r
      rw [hfind, if_neg (hne id r hr)]
      exact hr
  · intro id r hr
    change reservations.find id = some r at hr
    rw [hfind] at hr
    split at hr
    next heq =>
      cases hr
      refine ⟨x.reserve (q.quota_id, month), ?_, by rw [heq]; rfl⟩
      exact Table.find_modify_self hx (Execute.reserve (q.quota_id, month)) (fun _ => rfl)
    next =>
      obtain ⟨y, hy, hquota'⟩ := h.owned id r hr
      obtain ⟨y', hy', hyl⟩ := hlater _ y hy
      have hid := (Table.find_eq_some.mp hy').2
      exact ⟨y', by rw [hid]; exact hy', by rw [hyl.quota (by rw [hquota']; rfl)]; exact hquota'⟩
  · intro y' hy' hbound
    rcases hback y' hy' with rfl | hy
    · rfl
    · exact h.binding y' hy hbound
  · intro y' z' id m m' hy' hz' hyq hzq
    -- no other call has reserved the new id
    have hold : ∀ z, executes.find z.request_id = some z → ∀ m, z.quota ≠ some (q.quota_id, m) := by
      intro z hz m hzq
      obtain ⟨r, hr, -, -⟩ := h.holds z q.quota_id m hz hzq
      rw [hfree] at hr
      cases hr
    rcases hback y' hy' with rfl | hy
    · cases hyq
      rcases hback z' hz' with rfl | hz
      · rfl
      · exact absurd hzq (hold z' hz m')
    · rcases hback z' hz' with rfl | hz
      · cases hzq
        exact absurd hyq (hold y' hy m)
      · exact h.distinct y' z' id m m' hy hz hyq hzq
  · intro request_id e' he'
    obtain ⟨y, hy, hquota'⟩ := h.actions request_id e' he'
    obtain ⟨y', hy', hyl⟩ := hlater _ y hy
    exact ⟨y', hy', by rw [hyl.quota hquota']; exact hquota'⟩
  · intro id e' he'
    have hsome := h.recoveries id e' he'
    change (reservations.find id).isSome = true
    rw [hfind]
    split
    · rfl
    · exact hsome

/-! ## Whose reservation it is -/

theorem Sound.owner (h : Sound executes db) (hr : db.reservations.find r.id = some r) :
    ∃ x, executes.find x.request_id = some x ∧ x.quota = some (r.id, r.month) ∧ x.Holds db r := by
  obtain ⟨x, hx, hquota⟩ := h.owned r.id r hr
  obtain ⟨r', hr', -, hholds⟩ := h.holds x r.id r.month hx hquota
  rw [hr] at hr'
  cases hr'
  exact ⟨x, hx, hquota, hholds⟩

theorem Sound.own (h : Sound executes db) (hx : executes.find x.request_id = some x)
    (hr : db.reservations.find r.id = some r) (hrequest : r.request_id = some x.request_id) :
    x.quota = some (r.id, r.month) ∧ x.Holds db r := by
  obtain ⟨y, hy, hquota, hholds⟩ := h.owner hr
  rcases hholds.request with hnone | hsome
  · rw [hrequest] at hnone
    cases hnone
  · rw [hrequest] at hsome
    rw [← Option.some.inj hsome, hx] at hy
    cases hy
    exact ⟨hquota, hholds⟩

theorem Sound.timed_out (h : Sound executes db) (hx : executes.find x.request_id = some x)
    (hkey : x.attempt.key ≠ "") (hr : db.reservations.find r.id = some r)
    (htimed : x.attempt.timed_out r = true) (hdispatched : r.state = .dispatched) :
    x.quota = some (r.id, r.month) ∧ x.Holds db r := by
  simp only [Attempt.timed_out, Bool.and_eq_true, Bool.or_eq_true, decide_eq_true_eq] at htimed
  obtain ⟨⟨hreserved, -⟩, hrequest | hnone⟩ := htimed
  · exact h.own hx hr hrequest
  · obtain ⟨y, -, -, hholds⟩ := h.owner hr
    have hkeys : y.attempt.key = x.attempt.key := by
      have hown := hholds.reserved
      simp only [Attempt.reserved, Bool.and_eq_true, decide_eq_true_eq] at hown hreserved
      have heq := hown.1.2
      rw [hreserved.1.2] at heq
      exact (Option.some.inj heq).symm
    exact absurd hdispatched (hholds.unbound (by rw [hkeys]; exact hkey) hnone).1

theorem Sound.reconcilable (h : Sound executes db) {command : ActionClaimReconciliation}
    {claim : ClaimRecord} {reservation : Option Reservation}
    (hreconcilable : db.reconcilable command now = .ok (claim, reservation)) :
    ∃ x r, executes.find claim.request_id = some x ∧ reservation = some r ∧
      db.reservations.find r.id = some r ∧ x.quota = some (r.id, r.month) ∧ x.Holds db r := by
  obtain ⟨hload, -, -, hdispatched, -, hreservation⟩ := reconcilable_ok hreconcilable
  obtain ⟨c, hfind, hkey, hrequest, hconnection, haccount, hconnector, haction, hinput,
    hmarked, -⟩ :=
    load_claim_ok hload
  obtain ⟨x, hx, hclaims⟩ := h.claims c (Table.find_eq_some.mp hfind).1
  rw [hdispatched] at hmarked
  obtain ⟨hbound, hquota⟩ := hclaims.dispatched hmarked
  rw [hrequest] at hx
  have hid := (Table.find_eq_some.mp hx).2
  cases reservation with
  | none =>
    -- the call has bound its reservation, so the look would have found it
    obtain ⟨quota, hquota⟩ := Option.isSome_iff_exists.mp hquota
    obtain ⟨r, hr, -, hholds⟩ := h.holds x quota.1 quota.2 (find_execute hx) hquota
    have hnot := load_reservation_none hreservation r (Table.find_eq_some.mp hr).1
    have hown := hholds.bound hbound hclaims.keyed
    have hreserved := hholds.reserved
    have hidentity := hclaims.identity
    simp only [Attempt.reserved, Attempt.matches_claim, Bool.and_eq_true, decide_eq_true_eq]
      at hreserved hidentity
    obtain ⟨⟨⟨⟨⟨hrc, hrn⟩, hra⟩, hre⟩, hrk⟩, hri⟩ := hreserved
    obtain ⟨⟨⟨⟨hcc, hca⟩, hci⟩, hce⟩, hcn⟩ := hidentity
    rw [haccount] at hce
    rw [hconnector] at hcn
    have hcomplete : r.complete = true := by
      rw [Reservation.complete, hrk, hown, hri]
      rfl
    have hmatches : claim.reserved r = true := by
      simp only [ClaimRecord.reserved, Bool.and_eq_true, decide_eq_true_eq]
      refine ⟨⟨⟨⟨⟨⟨?_, ?_⟩, ?_⟩, ?_⟩, ?_⟩, ?_⟩, ?_⟩
      · rw [hrc, ← hcc, hconnection]
      · rw [hrn, ← Option.some.inj hcn]
      · rw [hra, ← hca, haction]
      · rw [hre, ← Option.some.inj hce]
      · rw [hrk, ← hclaims.key, hkey]
      · rw [hown, hid]
      · rw [hri, ← hci, hinput]
    rw [hmatches] at hnot
    exact absurd (hnot hcomplete) (by decide)
  | some r =>
    obtain ⟨hr, hreserved⟩ := load_reservation_some hreservation
    simp only [ClaimRecord.reserved, Bool.and_eq_true, decide_eq_true_eq] at hreserved
    have hown := h.own (find_execute hx) hr (by rw [hid]; exact hreserved.1.2)
    exact ⟨x, r, hx, rfl, hr, hown.1, hown.2⟩

/-! ## Steps -/

/-- The step meters a call that the cleanup has metered: an operator reports the success of
a claim whose reservation was recovered, or a deadline settles one that was recovered after
it had read it. -/
def System.Doubled (s : System Value) : ℤ × Op Value → Prop
  | (now, .reconcile command) => command.resolution = .ProviderOutcomeKnown true ∧
      ∃ claim r, s.db.reconcilable command now = .ok (claim, some r) ∧
        (s.db.usage_events.find (recovery_key r.id)).isSome = true
  | (_, .close_timed_out i outcome) => ∃ a t, s.reads[i]? = some (a, some t) ∧
      t.state = .dispatched ∧ s.db.dispatched_claim a = true ∧ outcome ≠ .NotDispatched ∧
        (s.db.usage_events.find (recovery_key t.id)).isSome = true
  | _ => False

/-- What a deadline has read: a reservation that is there, and the one of its call if it
was dispatched. -/
structure System.HasRead (s : System Value) (a : Attempt) (t : TimeoutRead) : Prop where
  reservation : ∃ r, s.db.reservations.find r.id = some r ∧ r.id = t.id ∧ r.month = t.month ∧
    (t.state = .dispatched → r.dispatched_at.isSome = true)
  call : ∃ x, s.executes.find x.request_id = some x ∧ x.attempt = a ∧
    (t.state = .dispatched → x.quota = some (t.id, t.month))

/-- What every state keeps that is reached without metering a call twice. -/
structure System.Accounts (s : System Value) : Prop where
  sound : Sound s.executes s.db
  reads : ∀ a t, (a, some t) ∈ s.reads → s.HasRead a t

theorem System.Accounts.read (h : s.Accounts) : s.Read := by
  intro a t hmem
  obtain ⟨r, hr, hid, hmonth, -⟩ := (h.reads a t hmem).reservation
  exact ⟨r, hr, hid, hmonth⟩

theorem accounted_permits (h : s.Accounts) {op : Op Value} (hop : ¬s.Doubled (now, op))
    (hacquire : ∀ a disabled, op ≠ .acquire a disabled)
    (hreserve : ∀ request_id q, op ≠ .reserve request_id q) :
    s.Permits cal (Accounted s.executes) now op where
  acquire := fun a disabled _ heq => absurd heq (hacquire a disabled)
  grant := fun request_id q _ heq => absurd heq (hreserve request_id q)
  bind := by
    rintro request_id x id month r - hx hquota rfl rfl
    exact ⟨x, find_execute hx, hquota⟩
  dispatch := by
    intro request_id current revision x id month _ hx hquota hbound
    have hself := find_execute hx
    refine ⟨?_, ?_⟩
    · intro hkey c hc hckey hcrequest
      obtain ⟨y, hy, hclaims⟩ := h.sound.claims c hc
      rw [hcrequest, hself] at hy
      cases hy
      refine ⟨x, by rw [hcrequest]; exact hself, hclaims.key, hclaims.keyed, hclaims.identity, ?_⟩
      exact fun _ => ⟨hbound hkey, by rw [hquota]; rfl⟩
    · rintro db r rfl rfl -
      exact ⟨x, hself, hquota, hbound⟩
  settle := by
    intro x id month r hx hquota hreservation hdispatched db _
    obtain ⟨-, rfl, rfl⟩ := reservation_eq_some hreservation
    exact ⟨x, hx, hquota, .inl hdispatched⟩
  timeout := by
    intro request_id x id outcome r _ hx hkey hlatest hdispatched
    have hself := find_execute hx
    obtain ⟨hr, htimed⟩ := latest_timed_out_eq hlatest
    obtain ⟨hquota, -⟩ := h.sound.timed_out hself hkey hr htimed hdispatched
    exact ⟨x, hself, hquota, .inl hdispatched⟩
  close := by
    rintro i outcome a t rfl hget
    have hread := h.reads a t (List.mem_of_getElem? hget)
    obtain ⟨r, hr, hid, hmonth, hbegun⟩ := hread.reservation
    refine ⟨r, hr, hid, hmonth, ?_⟩
    intro hdispatched hclaim hunknown
    obtain ⟨x, hx, rfl, hquota⟩ := hread.call
    refine ⟨x, hx, by rw [hid, hmonth]; exact hquota hdispatched, .inr ⟨?_, hbegun hdispatched, ?_⟩⟩
    · -- a reservation that was dispatched is not pending again
      intro hpending
      obtain ⟨y, -, -, hholds⟩ := h.sound.owner hr
      have hsome := hbegun hdispatched
      rw [hholds.pending hpending] at hsome
      cases hsome
    · by_contra hrecovered
      apply hop
      refine ⟨x.attempt, t, hget, hdispatched, hclaim, hunknown, ?_⟩
      rw [← hid]
      exact Option.isSome_iff_ne_none.mpr hrecovered
  reconcile := by
    rintro command rfl claim reservation hreconcilable hresolution hstate
    obtain ⟨x, r, hx, rfl, hr, hquota, hholds⟩ := h.sound.reconcilable hreconcilable
    refine ⟨x, hx, hquota, ?_⟩
    rcases hstate r rfl with hdispatched | hsettled
    · exact .inl hdispatched
    · refine .inr ⟨by rw [hsettled]; decide, hholds.begun (.inr hsettled), ?_⟩
      by_contra hrecovered
      exact hop ⟨hresolution, claim, r, hreconcilable, Option.isSome_iff_ne_none.mpr hrecovered⟩

theorem acquire_cached {a : Attempt} {disabled : Bool} {output : Value}
    (h : db.acquire a disabled now = .ok (.Cached output, db')) : db' = db := by
  rw [Database.acquire] at h
  split at h
  · cases h
  split at h
  · cases h
  split at h
  · split at h
    · cases h
      rfl
    · cases h
  split at h
  · cases h
  split at h
  · cases h
  split at h
  · cases h
  · cases h

theorem acquire_sound (h : Sound s.executes s.db) (now : ℤ) (a : Attempt) (disabled : Bool) :
    Sound (s.step cal config (now, .acquire a disabled)).executes
      (s.step cal config (now, .acquire a disabled)).db := by
  simp only [System.step]
  split
  · exact h
  next executes hinsert =>
  split
  · exact h
  next hacquire =>
    rw [acquire_cached hacquire]
    exact h
  next db hacquire =>
    have hself : executes.find a.request_id
        = some { attempt := a, quota := none, bound := false } :=
      (Table.find_insert hinsert a.request_id).trans (if_pos rfl)
    -- the new claim, or the one taken over, is of the new call
    have hchange : Change cal config (Accounted executes) s.db db := by
      refine acquire_change hacquire ?_ ?_
      · intro hkey
        refine ⟨_, hself, rfl, hkey, ?_, (fun hsome => by cases hsome)⟩
        simp [Attempt.matches_claim, Attempt.claim]
      · intro c _ hkey hsame hmatches hpending
        refine ⟨_, hself, hsame, hkey, hmatches, ?_⟩
        intro hsome
        change c.dispatched_at.isSome = true at hsome
        rw [hpending] at hsome
        cases hsome
    exact hchange.sound (h.acquire hinsert)

theorem reserve_sound (h : Sound s.executes s.db) (now : ℤ) (request_id : String) (q : Reserve) :
    Sound (s.step cal config (now, .reserve request_id q)).executes
      (s.step cal config (now, .reserve request_id q)).db := by
  simp only [System.step, System.reserve]
  split
  · exact h
  next x hx =>
  have hid := (Table.find_eq_some.mp hx).2
  split
  · exact h
  next hnone =>
  rcases @reserve_cases _ cal config (Accounted s.executes) s.db (q.of x.attempt) now with
    ⟨⟨code, hcode⟩, hpath⟩ | ⟨p, swept, e, hok, hpid, hpmonth, hpath, -, -, -, hgrant⟩
  · rw [hcode]
    exact hpath.sound h
  · rw [hok]
    have hadmitted := (hpath.sound h).grant (find_execute hx) (by simpa using hnone) hgrant
    rw [hid] at hadmitted
    obtain ⟨usage, quota_id, quota_month⟩ := p
    cases hpid
    cases hpmonth
    exact hadmitted

theorem bind_sound (h : s.Accounts) (now : ℤ) (request_id : String) :
    Sound (s.step cal config (now, .bind request_id)).executes
      (s.step cal config (now, .bind request_id)).db := by
  have hpermits : s.Permits cal (Accounted s.executes) now (.bind request_id) :=
    accounted_permits h id (fun _ _ heq => by cases heq) (fun _ _ heq => by cases heq)
  have hpath := @step_changes _ cal config _ _ _ _ hpermits
  have hsound := hpath.sound h.sound
  simp only [System.step, System.bind] at hsound ⊢
  split
  · exact h.sound
  next x quota hreserved =>
  obtain ⟨hx, hquota⟩ := reserved_eq_some hreserved
  split
  · exact h.sound
  next db hbind =>
  have hid := (Table.find_eq_some.mp hx).2
  rw [hreserved] at hsound
  simp only [hbind] at hsound
  have hbound := Sound.bind hsound (find_execute hx) (by rw [hquota]; rfl) (by
    intro id month r hquota' hr hkey
    rw [hquota] at hquota'
    cases hquota'
    obtain ⟨r', hr', rfl, -, -, ⟨hrequest, rfl⟩ | ⟨-, rfl⟩⟩ := bind_cases hbind hkey
    · rw [hr'] at hr
      cases hr
      exact hrequest
    · have hself := Table.find_modify_self hr' (Reservation.bind x.attempt.request_id)
        (fun _ => rfl)
      cases hself.symm.trans hr
      rfl)
  rw [hid] at hbound
  exact hbound

theorem step_has_read (h : s.Accounts) (op : ℤ × Op Value) (a : Attempt) (t : TimeoutRead)
    (hmem : (a, some t) ∈ (s.step cal config op).reads) : (s.step cal config op).HasRead a t := by
  obtain ⟨now, op⟩ := op
  have hpath := @step_changes _ cal config _ _ _ _ (free_permits h.read now op)
  have hlater : s.HasRead a t → (s.step cal config (now, op)).HasRead a t := by
    rintro ⟨⟨r, hr, hid, hmonth, hbegun⟩, x, hx, hattempt, hquota⟩
    obtain ⟨r', hr', hrl⟩ := hpath.later hr
    obtain ⟨x', hx', hxl⟩ := @step_executes _ cal config _ _ _ hx (now, op)
    refine ⟨⟨r', by rw [hrl.id]; exact hr', hrl.id.trans hid, hrl.month.trans hmonth,
      fun hstate => hrl.dispatched_at (hbegun hstate)⟩, x', find_execute hx',
      hxl.attempt.trans hattempt, ?_⟩
    intro hstate
    rw [hxl.quota (by rw [hquota hstate]; rfl)]
    exact hquota hstate
  rcases @step_reads _ cal config s now op with hsame | ⟨request_id, id, x, rfl, hx, hkey, hstep⟩
  · rw [hsame] at hmem
    exact hlater (h.reads a t hmem)
  · rw [hstep] at hmem
    rcases List.mem_append.mp hmem with hold | hnew
    · exact hlater (h.reads a t hold)
    · obtain ⟨rfl, hread⟩ := Prod.mk.inj (List.mem_singleton.mp hnew)
      obtain ⟨r, hlatest, rfl⟩ := Option.map_eq_some_iff.mp hread.symm
      obtain ⟨hr, htimed⟩ := latest_timed_out_eq hlatest
      have hself := find_execute hx
      rw [hstep]
      refine ⟨⟨r, hr, rfl, rfl, ?_⟩, x, hself, rfl, ?_⟩
      · intro hdispatched
        exact (h.sound.timed_out hself hkey hr htimed hdispatched).2.begun (.inl hdispatched)
      · intro hdispatched
        exact (h.sound.timed_out hself hkey hr htimed hdispatched).1

/-- **A step that does not meter a call twice** keeps the account of the calls. -/
theorem step_accounts (h : s.Accounts) {op : ℤ × Op Value} (hop : ¬s.Doubled op) :
    (s.step cal config op).Accounts := by
  refine ⟨?_, fun a t => step_has_read h op a t⟩
  obtain ⟨now, op⟩ := op
  by_cases hacquire : ∃ a disabled, op = .acquire a disabled
  · obtain ⟨a, disabled, rfl⟩ := hacquire
    exact acquire_sound h.sound now a disabled
  by_cases hreserve : ∃ request_id q, op = .reserve request_id q
  · obtain ⟨request_id, q, rfl⟩ := hreserve
    exact reserve_sound h.sound now request_id q
  by_cases hbind : ∃ request_id, op = .bind request_id
  · obtain ⟨request_id, rfl⟩ := hbind
    exact bind_sound h now request_id
  · have hnot : ∀ a disabled, op ≠ .acquire a disabled :=
      fun a disabled heq => hacquire ⟨a, disabled, heq⟩
    have hnot' : ∀ request_id q, op ≠ .reserve request_id q :=
      fun request_id q heq => hreserve ⟨request_id, q, heq⟩
    rw [step_executes_eq s now hnot hnot' (fun request_id heq => hbind ⟨request_id, heq⟩)]
    exact (step_changes (accounted_permits h hop hnot hnot')).sound h.sound

theorem empty_accounts : (System.at_rest (@Database.empty Value)).Accounts where
  sound :=
    { claims := fun c hc => absurd hc List.not_mem_nil
      holds := fun x id month hx => by cases hx
      owned := fun id r hr => by cases hr
      binding := fun x hx => by cases hx
      distinct := fun x x' id month month' hx => by cases hx
      actions := fun request_id e he => by cases he
      recoveries := fun id e he => by cases he }
  reads := fun a t hmem => absurd hmem List.not_mem_nil

end Appcall.Actions
