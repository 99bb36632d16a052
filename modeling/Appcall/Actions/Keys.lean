/-
The life of one idempotency key.

Three tables speak of a key: its claim, its record, and the audits that close it. Seen
from one key every transaction is a short move or none at all: the key is claimed, the
claim is taken over, given up or marked as dispatched, the call finishes, an operator
closes the key. The moves say what they need of the key, and the lemmas of this file that
every step of the system is one of them.
-/
import Appcall.Actions.Ledger

set_option autoImplicit false

namespace Appcall.Actions

variable {Value : Type}

/-! ## A key and its moves -/

/-- What is stored of a key: its claim, its record and the audits that close it. -/
structure KeyView (Value : Type) where
  claim : Option Claim
  record : Option (Record Value)
  audits : List Audit

def Database.view (db : Database Value) (key : String) : KeyView Value :=
  { claim := db.claims.find key
    record := db.records.find key
    audits := db.terminal_audits key }

inductive Move (Value : Type) where
  | stay
  | claim (a : Attempt) (now : ℤ)
  | take_over (a : Attempt) (now : ℤ)
  /-- The claim of a request goes while it is not dispatched, or whatever it is. -/
  | drop (request_id : String)
  | give_up (request_id : String)
  | mark (request_id : String) (now : ℤ)
  | finish (a : Attempt) (output : Value)
  | close (u : Audit)

/-- The key has no record and is not closed. -/
def KeyView.Free (v : KeyView Value) : Prop := v.record = none ∧ v.audits = []

/-- The record of a call that has finished. -/
def Attempt.record (a : Attempt) (output : Value) : Record Value :=
  { idempotency_key := a.key, connection_id := a.connection_id, action := a.action
    input_hash := a.input_hash, output }

/-- The moves, each with what it needs. -/
inductive KeyView.Moves (v : KeyView Value) : Move Value → KeyView Value → Prop where
  | stay : v.Moves .stay v
  | claim (a : Attempt) (now : ℤ) (free : v.Free) (unclaimed : v.claim = none) :
      v.Moves (.claim a now) { v with claim := some (a.claim now) }
  | take_over (a : Attempt) (now : ℤ) (c : Claim) (free : v.Free) (held : v.claim = some c)
      (same : a.matches_claim c = true) (pending : c.dispatched_at = none) :
      v.Moves (.take_over a now) { v with claim := some (a.take_over now c) }
  | drop (request_id : String) : v.Moves (.drop request_id) { v with
      claim := v.claim.filter (fun c =>
        !(decide (c.request_id = request_id) && c.dispatched_at.isNone)) }
  | give_up (request_id : String) : v.Moves (.give_up request_id) { v with
      claim := v.claim.filter (fun c => !decide (c.request_id = request_id)) }
  | mark (request_id : String) (now : ℤ) (c : Claim) (held : v.claim = some c)
      (own : c.request_id = request_id) (pending : c.dispatched_at = none) :
      v.Moves (.mark request_id now) { v with claim := some { c with dispatched_at := some now } }
  | finish (a : Attempt) (output : Value) (c : Claim) (held : v.claim = some c)
      (own : c.request_id = a.request_id) (dispatched : c.dispatched_at.isSome = true) :
      v.Moves (.finish a output) { v with
        claim := none
        record := some (v.record.getD (a.record output)) }
  | close (u : Audit) (c : Claim) (held : v.claim = some c) (own : c.request_id = u.request_id)
      (dispatched : c.dispatched_at.isSome = true) (terminal : u.terminal = true) :
      v.Moves (.close u) { v with audits := v.audits ++ [u] }

/-! ## The ledger keeps the keys -/

structure Database.Frame (db db' : Database Value) : Prop where
  claims : db'.claims = db.claims
  records : db'.records = db.records
  audits : db'.audits = db.audits

theorem Database.Frame.refl (db : Database Value) : db.Frame db := ⟨rfl, rfl, rfl⟩

variable {db db' : Database Value} {id month : String} {now : ℤ} {key : String} {a : Attempt}
  {cal : Calendar} {s : System Value} {op : ℤ × Op Value} {request_id : String}

theorem Database.Frame.trans {db'' : Database Value} (h : db.Frame db') (h' : db'.Frame db'') :
    db.Frame db'' :=
  ⟨h'.claims.trans h.claims, h'.records.trans h.records, h'.audits.trans h.audits⟩

theorem Database.Frame.view (h : db.Frame db') (key : String) : db'.view key = db.view key := by
  rw [Database.view, Database.view, Database.terminal_audits, Database.terminal_audits, h.claims,
    h.records, h.audits]

theorem refund_charges_frame {r : Reservation} (h : db.refund_charges r = some db') :
    db.Frame db' := by
  obtain ⟨counters, -, rfl⟩ := refund_charges_eq h
  exact ⟨rfl, rfl, rfl⟩

theorem refund_reservation_charges_frame (h : db.refund_reservation_charges id = .ok db') :
    db.Frame db' := by
  rw [Database.refund_reservation_charges] at h
  split at h
  · cases h
  split at h
  · cases h
  next hrefund =>
  cases h
  exact refund_charges_frame hrefund

theorem meter_frame (db : Database Value) (key account : String) (occurred_at : ℤ)
    (month : String) : db.Frame (db.meter key account occurred_at month) := by
  rw [Database.meter]
  split
  · exact .refl db
  · exact ⟨rfl, rfl, rfl⟩

theorem settle_frame (cal : Calendar) (db : Database Value) (a : Attempt) (id month : String)
    (now : ℤ) : db.Frame (db.settle cal a id month now) :=
  (meter_frame db _ _ _ _).trans ⟨rfl, rfl, rfl⟩

theorem expire_one_frame (h : db.expire_one id = .ok db') : db.Frame db' := by
  rw [Database.expire_one] at h
  split at h
  · cases h
  next hrefund =>
  cases h
  exact (refund_reservation_charges_frame hrefund).trans ⟨rfl, rfl, rfl⟩

theorem recover_one_frame (db : Database Value) (month id : String) :
    db.Frame (db.recover_one month id) := by
  rw [Database.recover_one]
  split
  · exact .refl db
  split
  · exact (meter_frame db _ _ _ _).trans ⟨rfl, rfl, rfl⟩
  · exact .refl db

theorem sweep_month_frame (h : db.sweep_month now month = .ok db') : db.Frame db' := by
  rw [Database.sweep_month] at h
  split at h
  · cases h
  next db1 hexpire =>
  cases h
  have hexpired : db.Frame db1 :=
    Machine.foldlM_keeps hexpire (fun _ _ _ _ hone hframe => hframe.trans (expire_one_frame hone))
      (.refl db)
  refine hexpired.trans ?_
  rw [Database.recover_expired_dispatched_quota]
  exact Machine.foldl_keeps (fun _ _ _ hframe => hframe.trans (recover_one_frame _ _ _))
    (.refl db1)

theorem sweep_frame (h : db.sweep month now = .ok db') : db.Frame db' :=
  Machine.foldlM_keeps h (fun _ _ _ _ hone hframe => hframe.trans (sweep_month_frame hone))
    (.refl db)

theorem reserve_frame (cal : Calendar) (config : PolicyConfig) (db : Database Value) (q : Reserve)
    (now : ℤ) : db.Frame (db.reserve cal config q now).2 := by
  rw [Database.reserve]
  split
  · exact .refl db
  simp only
  split
  · exact .refl db
  next swept hsweep =>
  have hswept := sweep_frame hsweep
  split
  · split
    · exact hswept
    · exact .refl db
  split
  · exact hswept
  split
  · exact .refl db
  next db' hgrant =>
  obtain ⟨n, linkedin, n', send, reservations, -, -, -, rfl⟩ := grant_eq hgrant
  exact hswept.trans ⟨rfl, rfl, rfl⟩

/-! ## Claims -/

theorem view_claims (db : Database Value) (claims : Table Claim.idempotency_key)
    {claim : Option Claim} (h : claims.find key = claim) :
    ({ db with claims } : Database Value).view key = { db.view key with claim } := by
  rw [← h]
  rfl

theorem view_claims_other (db : Database Value) (claims : Table Claim.idempotency_key)
    (h : claims.find key = db.claims.find key) :
    ({ db with claims } : Database Value).view key = db.view key :=
  view_claims db claims h

theorem view_delete (db : Database Value) (p : Claim → Bool) (key : String) :
    ({ db with claims := db.claims.delete p } : Database Value).view key
      = { db.view key with claim := (db.view key).claim.filter (fun c => !p c) } := by
  rw [Database.view, Database.view, KeyView.mk.injEq]
  exact ⟨Table.find_delete db.claims p key, rfl, rfl⟩

theorem filter_claim {p q : Claim → Bool} (h : ∀ c, c.idempotency_key = key → p c = q c) :
    (db.view key).claim.filter p = (db.view key).claim.filter q := by
  change (db.claims.find key).filter p = (db.claims.find key).filter q
  cases hfind : db.claims.find key with
  | none => rfl
  | some c => rw [Option.filter_some, Option.filter_some, h c (Table.find_eq_some.mp hfind).2]

theorem filter_claim_keep {p : Claim → Bool} (h : ∀ c, c.idempotency_key = key → p c = true) :
    ({ db.view key with claim := (db.view key).claim.filter p } : KeyView Value)
      = db.view key := by
  rw [Database.view, KeyView.mk.injEq]
  refine ⟨?_, rfl, rfl⟩
  change (db.claims.find key).filter p = db.claims.find key
  cases hfind : db.claims.find key with
  | none => rfl
  | some c => rw [Option.filter_some, if_pos (h c (Table.find_eq_some.mp hfind).2)]

theorem holds_eq (hkey : a.key = key) {c : Claim} (hc : c.idempotency_key = key) :
    a.holds c = decide (c.request_id = a.request_id) := by
  rw [Attempt.holds, hc, hkey, decide_eq_true rfl, Bool.true_and]

theorem holds_other (hkey : a.key ≠ key) {c : Claim} (hc : c.idempotency_key = key) :
    a.holds c = false := by
  rw [Attempt.holds, hc, decide_eq_false (fun heq => hkey heq.symm), Bool.false_and]

theorem release_pending_moves {db : Database Value} (a : Attempt) {key : String}
    (hkey : key ≠ "") :
    ∃ m, (db.view key).Moves m ((db.release_pending a).view key) ∧
      (m = .stay ∨ a.key = key ∧ m = .drop a.request_id) := by
  rw [Database.release_pending]
  by_cases hsame : a.key = key
  · rw [if_neg (by rw [hsame]; exact hkey), view_delete]
    refine ⟨.drop a.request_id, ?_, .inr ⟨hsame, rfl⟩⟩
    rw [filter_claim (q := fun c =>
      !(decide (c.request_id = a.request_id) && c.dispatched_at.isNone))
      (fun c hc => by rw [holds_eq hsame hc])]
    exact .drop a.request_id
  · refine ⟨.stay, ?_, .inl rfl⟩
    split
    · exact .stay
    · rw [view_delete, filter_claim_keep (fun c hc => by rw [holds_other hsame hc]; rfl)]
      exact .stay

theorem delete_claim_moves {db : Database Value} (a : Attempt) {key : String} (hkey : key ≠ "") :
    ∃ m, (db.view key).Moves m ((db.delete_claim a).view key) ∧
      (m = .stay ∨ a.key = key ∧ m = .give_up a.request_id) := by
  rw [Database.delete_claim]
  by_cases hsame : a.key = key
  · rw [if_neg (by rw [hsame]; exact hkey), view_delete]
    refine ⟨.give_up a.request_id, ?_, .inr ⟨hsame, rfl⟩⟩
    rw [filter_claim (q := fun c => !decide (c.request_id = a.request_id))
      (fun c hc => by rw [holds_eq hsame hc])]
    exact .give_up a.request_id
  · refine ⟨.stay, ?_, .inl rfl⟩
    split
    · exact .stay
    · rw [view_delete, filter_claim_keep (fun c hc => by rw [holds_other hsame hc]; rfl)]
      exact .stay

/-! ## Transactions -/

theorem acquire_moves {disabled : Bool} {acquisition : Acquisition Value}
    (h : db.acquire a disabled now = .ok (acquisition, db')) (hkey : key ≠ "") :
    ∃ m, (db.view key).Moves m (db'.view key) ∧
      (m = .stay ∨ a.key = key ∧ acquisition = .Acquired ∧
        (m = .claim a now ∨ m = .take_over a now)) := by
  rw [Database.acquire] at h
  split at h
  · cases h
  split at h
  · cases h
    exact ⟨.stay, .stay, .inl rfl⟩
  split at h
  · split at h
    · cases h
      exact ⟨.stay, .stay, .inl rfl⟩
    · cases h
  next hrecord =>
  split at h
  · cases h
  next hopen =>
  rw [not_not] at hopen
  split at h
  next hclaim =>
    cases h
    by_cases hsame : a.key = key
    · subst hsame
      refine ⟨.claim a now, ?_, .inr ⟨rfl, rfl, .inl rfl⟩⟩
      have hself := Table.find_upsert_self db.claims (a.claim now) id (fun _ => rfl)
      have hfind : (db.claims.upsert (a.claim now) id (fun _ => rfl)).find a.key
          = some ((db.claims.find a.key).elim (a.claim now) id) := hself
      rw [hclaim] at hfind
      rw [view_claims db _ hfind]
      exact .claim a now ⟨hrecord, hopen⟩ hclaim
    · refine ⟨.stay, ?_, .inl rfl⟩
      rw [view_claims_other db _ (Table.find_upsert_other db.claims (a.claim now) id (fun _ => rfl)
        (fun heq => hsame heq.symm))]
      exact .stay
  next c hclaim =>
  split at h
  next hover =>
    cases h
    simp only [Bool.and_eq_true, Option.isNone_iff_eq_none] at hover
    by_cases hsame : a.key = key
    · subst hsame
      refine ⟨.take_over a now, ?_, .inr ⟨rfl, rfl, .inr rfl⟩⟩
      rw [view_claims db _ (Table.find_modify_self hclaim (a.take_over now) (fun _ => rfl))]
      exact .take_over a now c ⟨hrecord, hopen⟩ hclaim hover.1.1 hover.2
    · refine ⟨.stay, ?_, .inl rfl⟩
      rw [view_claims_other db _ (Table.find_modify_other db.claims (a.take_over now)
        (fun _ => rfl) (fun heq => hsame heq.symm))]
      exact .stay
  · cases h

theorem mark_claim_moves (h : db.mark_claim a now = .ok db') (hkey : key ≠ "") :
    ∃ m, (db.view key).Moves m (db'.view key) ∧
      (a.key ≠ key ∧ m = .stay ∨ a.key = key ∧ m = .mark a.request_id now) := by
  rw [Database.mark_claim] at h
  split at h
  next hnone =>
    cases h
    exact ⟨.stay, .stay, .inl ⟨fun heq => hkey (heq.symm.trans hnone), rfl⟩⟩
  split at h
  next hheld =>
    cases h
    by_cases hsame : a.key = key
    · subst hsame
      cases hclaim : db.claims.find a.key with
      | none =>
        rw [hclaim] at hheld
        cases hheld
      | some c =>
        rw [hclaim, Option.any_some] at hheld
        simp only [Bool.and_eq_true, decide_eq_true_eq, Option.isNone_iff_eq_none] at hheld
        refine ⟨.mark a.request_id now, ?_, .inr ⟨rfl, rfl⟩⟩
        rw [view_claims db _ (Table.find_modify_self hclaim
          (fun c => { c with dispatched_at := some now }) (fun _ => rfl))]
        exact .mark a.request_id now c hclaim hheld.1.1 hheld.2
    · refine ⟨.stay, ?_, .inl ⟨hsame, rfl⟩⟩
      rw [view_claims_other db _ (Table.find_modify_other db.claims
        (fun c => { c with dispatched_at := some now }) (fun _ => rfl)
        (fun heq => hsame heq.symm))]
      exact .stay
  · cases h

theorem mark_moves {current : Option Connection} {revision : Connection}
    (h : db.mark_dispatched_checked_with_reservation a current revision (some (id, month)) now
      = .ok db') (hkey : key ≠ "") : ∃ m, (db.view key).Moves m (db'.view key) ∧
      (m = .stay ∨ a.key = key ∧ m = .mark a.request_id now) ∧
      ((∃ r, db.reservations.find id = some r ∧ r.state = .dispatched) ∨ a.key ≠ key ∨
        m = .mark a.request_id now) := by
  obtain ⟨r, hr, rfl, -, ⟨hdispatched, rfl⟩ | ⟨-, db1, hmark, rfl⟩⟩ := mark_cases h
  · exact ⟨.stay, .stay, .inl rfl, .inl ⟨r, hr, hdispatched⟩⟩
  · obtain ⟨m, hmoves, hcase⟩ := mark_claim_moves hmark hkey
    refine ⟨m, hmoves, ?_, ?_⟩
    · exact hcase.elim (fun h => .inl h.2) .inr
    · exact .inr (hcase.elim (fun h => .inl h.1) (fun h => .inr h.2))

theorem release_quota_reservation_moves {quota : Quota}
    {allow_dispatched clear_claim refund_charges : Bool}
    (h : db.release_quota_reservation a quota allow_dispatched clear_claim refund_charges
      = .ok db') (hkey : key ≠ "") : ∃ m, (db.view key).Moves m (db'.view key) ∧
      (m = .stay ∨ a.key = key ∧
        (m = .drop a.request_id ∨ clear_claim = true ∧ m = .give_up a.request_id)) := by
  cases quota with
  | none =>
    cases h
    obtain ⟨m, hmoves, hcase⟩ := @release_pending_moves _ db a _ hkey
    exact ⟨m, hmoves, hcase.imp_right (fun h => ⟨h.1, .inl h.2⟩)⟩
  | some quota =>
    obtain ⟨id, month⟩ := quota
    simp only [Database.release_quota_reservation] at h
    generalize (decide (Option.map (·.state) (db.reservation id month) = some .pending)
      || allow_dispatched && decide (Option.map (·.state) (db.reservation id month)
        = some .dispatched)) = can_clear at h
    -- whichever of the two claims is deleted
    have hclear : ∀ db1 : Database Value, db1.view key = db.view key → ∃ m,
        (db.view key).Moves m ((if (clear_claim && can_clear) = true then db1.delete_claim a
          else db1.release_pending a).view key) ∧
        (m = .stay ∨ a.key = key ∧
          (m = .drop a.request_id ∨ clear_claim = true ∧ m = .give_up a.request_id)) := by
      intro db1 hview
      rw [← hview]
      split
      next hboth =>
        obtain ⟨m, hmoves, hcase⟩ := @delete_claim_moves _ db1 a _ hkey
        rw [Bool.and_eq_true] at hboth
        exact ⟨m, hmoves, hcase.imp_right (fun h => ⟨h.1, .inr ⟨hboth.1, h.2⟩⟩)⟩
      · obtain ⟨m, hmoves, hcase⟩ := @release_pending_moves _ db1 a _ hkey
        exact ⟨m, hmoves, hcase.imp_right (fun h => ⟨h.1, .inl h.2⟩)⟩
    split at h
    · split at h
      · cases h
      next db1 hrefund =>
      cases h
      have hframe : db.Frame db1 := by
        split at hrefund
        · exact refund_reservation_charges_frame hrefund
        · cases hrefund
          exact .refl db
      exact hclear _ (hframe.view key)
    · cases h
      exact hclear db rfl

theorem finish_not_dispatched_moves
    (h : db.finish_not_dispatched_with_reservation a (some (id, month)) = .ok db')
    (hkey : key ≠ "") :
    ∃ m, (db.view key).Moves m (db'.view key) ∧
      (m = .stay ∨ a.key = key ∧ m = .give_up a.request_id) := by
  rw [Database.finish_not_dispatched_with_reservation.eq_def] at h
  simp only at h
  split at h
  · cases h
  split at h
  · cases h
  split at h
  · cases h
  split at h
  · cases h
  next db1 hrefund =>
  cases h
  have hframe : db.Frame (db1.set_state id [.dispatched] .released) :=
    (refund_reservation_charges_frame hrefund).trans ⟨rfl, rfl, rfl⟩
  rw [← hframe.view key]
  exact delete_claim_moves a hkey

theorem finish_read_failure_moves
    (h : db.finish_read_failure_with_reservation cal a (some (id, month)) now = .ok db')
    (hkey : key ≠ "") : ∃ m, (db.view key).Moves m (db'.view key) ∧
      (m = .stay ∨ a.key = key ∧ m = .give_up a.request_id) := by
  simp only [Database.finish_read_failure_with_reservation] at h
  split at h
  · cases h
  split at h
  · cases h
  split at h
  · cases h
    rw [← (settle_frame cal db a id month now).view key]
    exact delete_claim_moves a hkey
  split at h
  · cases h
  · cases h
    exact delete_claim_moves a hkey

theorem close_timed_out_moves {read : Option TimeoutRead} {outcome : ActionDispatchOutcome}
    (h : db.close_timed_out cal a read outcome now = .ok db') (hkey : key ≠ "") :
    ∃ m, (db.view key).Moves m (db'.view key) ∧
      (m = .stay ∨ a.key = key ∧ m = .give_up a.request_id) := by
  rw [Database.close_timed_out] at h
  split at h
  · cases h
    exact ⟨.stay, .stay, .inl rfl⟩
  split at h
  · cases h
    exact delete_claim_moves a hkey
  next t =>
  split at h
  · cases h
    rw [← (settle_frame cal db a t.id t.month now).view key]
    exact delete_claim_moves a hkey
  split at h
  · cases h
  next db1 hrefund =>
  cases h
  have hframe : db.Frame (db1.set_state t.id [.pending, .dispatched] .released) :=
    (refund_reservation_charges_frame hrefund).trans ⟨rfl, rfl, rfl⟩
  rw [← hframe.view key]
  exact delete_claim_moves a hkey

theorem record_moves {db1 : Database Value} {output : Value}
    (hframe : (db.record a output).Frame db1) (hclaim : a.key ≠ "" → db.dispatched_claim a = true)
    (hkey : key ≠ "") : ∃ m, (db.view key).Moves m ((db1.delete_claim a).view key) ∧
      (m = .stay ∨ a.key = key ∧ m = .finish a output) := by
  have hview := hframe.view key
  by_cases hsame : a.key = key
  · subst hsame
    have hdispatched := hclaim hkey
    rw [Database.record, if_neg hkey] at hview
    cases hfind : db.claims.find a.key with
    | none =>
      rw [Database.dispatched_claim, hfind] at hdispatched
      cases hdispatched
    | some c =>
      rw [Database.dispatched_claim, hfind, Option.any_some, Bool.and_eq_true, Attempt.holds,
        Bool.and_eq_true, decide_eq_true_eq, decide_eq_true_eq] at hdispatched
      obtain ⟨⟨hckey, hrequest⟩, hmarked⟩ := hdispatched
      refine ⟨.finish a output, ?_, .inr ⟨rfl, rfl⟩⟩
      have hmove := KeyView.Moves.finish (v := db.view a.key) a output c hfind hrequest hmarked
      have hself := Table.find_upsert_self db.records (a.record output) id (fun _ => rfl)
      have hrecord : (db1.view a.key).record
          = some ((db.records.find a.key).elim (a.record output) id) := by
        rw [hview]
        exact hself
      have hclaim' : (db1.view a.key).claim = some c := by
        rw [hview]
        exact hfind
      have haudits : (db1.view a.key).audits = (db.view a.key).audits := by
        rw [hview]
        rfl
      have hafter : (db1.delete_claim a).view a.key
          = { db.view a.key with
              claim := none
              record := some ((db.view a.key).record.getD (a.record output)) } := by
        rw [Database.delete_claim, if_neg hkey, view_delete, KeyView.mk.injEq]
        refine ⟨?_, ?_, haudits⟩
        · rw [hclaim', Option.filter_some, holds_eq rfl hckey, hrequest, decide_eq_true rfl]
          rfl
        · rw [hrecord]
          change _ = some ((db.records.find a.key).getD (a.record output))
          cases db.records.find a.key with
          | none => rfl
          | some r => rfl
      rw [hafter]
      exact hmove
  · have hother : (db.record a output).view key = db.view key := by
      rw [Database.record]
      split
      · rfl
      · rw [Database.view, Database.view, KeyView.mk.injEq]
        exact ⟨rfl, Table.find_upsert_other db.records (a.record output) id (fun _ => rfl)
          (fun heq => hsame heq.symm), rfl⟩
    rw [← hother, ← hview]
    obtain ⟨m, hmoves, hcase⟩ := @delete_claim_moves _ db1 a _ hkey
    refine ⟨m, hmoves, .inl ?_⟩
    rcases hcase with hstay | ⟨heq, -⟩
    · exact hstay
    · exact absurd heq hsame

theorem finish_moves {output : Option Value} {failed : Bool}
    (h : db.finish_with_reservation cal a (some (id, month)) output failed now = .ok db')
    (hkey : key ≠ "") : ∃ m, (db.view key).Moves m (db'.view key) ∧
      (m = .stay ∨ a.key = key ∧ ∃ o, output = some o ∧ m = .finish a o) := by
  simp only [Database.finish_with_reservation] at h
  split at h
  · cases h
  next r hfind =>
  split at h
  · cases h
  next hreleased =>
  split at h
  · cases h
    exact ⟨.stay, .stay, .inl rfl⟩
  split at h
  · cases h
  next hheld =>
  cases output with
  | none =>
    cases h
    exact ⟨.stay, .stay, .inl rfl⟩
  | some o =>
    -- the reservation is not released, so the claim was asked for
    have hclaim : a.key ≠ "" → db.dispatched_claim a = true := by
      intro hne
      by_contra hnot
      rw [Bool.not_eq_true] at hnot
      exact hheld ⟨hne, hnot, fun h => hreleased ⟨rfl, h.1⟩⟩
    have hrecord : ∀ db1, (db.record a o).Frame db1 →
        ∃ m, (db.view key).Moves m ((db1.delete_claim a).view key) ∧
          (m = .stay ∨ a.key = key ∧ ∃ o', some o = some o' ∧ m = .finish a o') := by
      intro db1 hframe
      obtain ⟨m, hmoves, hcase⟩ := record_moves hframe hclaim hkey
      exact ⟨m, hmoves, hcase.imp_right (fun h => ⟨h.1, o, rfl, h.2⟩)⟩
    simp only at h
    split at h
    · cases h
      exact hrecord _ (settle_frame cal (db.record a o) a id month now)
    split at h
    · cases h
    · cases h
      exact hrecord _ (.refl _)

theorem resolve_frame {claim : ClaimRecord} {reservation : Option Reservation}
    {resolution : ClaimResolution} (h : db.resolve cal claim reservation resolution now = .ok db') :
    db.Frame db' := by
  rw [Database.resolve.eq_def] at h
  split at h
  · rw [Database.not_dispatched.eq_def] at h
    split at h
    · cases h
      exact .refl db
    split at h
    · cases h
    split at h
    · cases h
    next hrefund =>
    cases h
    exact (refund_charges_frame hrefund).trans ⟨rfl, rfl, rfl⟩
  · rw [Database.succeeded.eq_def] at h
    split at h
    · cases h
      exact meter_frame db _ _ _ _
    split at h
    · cases h
    · cases h
      exact (meter_frame db _ _ _ _).trans ⟨rfl, rfl, rfl⟩
  · rw [Database.provider_failed.eq_def] at h
    split at h
    · cases h
      exact .refl db
    split at h
    · cases h
    · cases h
      exact ⟨rfl, rfl, rfl⟩

theorem terminal_audits_append (db : Database Value) (u : Audit) (key : String) :
    ({ db with audits := db.audits ++ [u] } : Database Value).terminal_audits key
      = db.terminal_audits key
        ++ (if u.idempotency_key = key ∧ u.terminal = true then [u] else []) := by
  rw [Database.terminal_audits, Database.terminal_audits, List.filter_append]
  congr 1
  rw [List.filter_singleton]
  by_cases hboth : u.idempotency_key = key ∧ u.terminal = true
  · rw [if_pos hboth, hboth.2, decide_eq_true hboth.1]
    rfl
  · rw [if_neg hboth]
    have hfalse : (decide (u.idempotency_key = key) && u.terminal) = false := by
      by_contra hnot
      rw [Bool.not_eq_false, Bool.and_eq_true, decide_eq_true_eq] at hnot
      exact hboth hnot
    rw [hfalse]
    rfl

/-- What a reconciliation does to the claim of a key. -/
theorem reconcile_moves {command : ActionClaimReconciliation}
    (h : db.reconcile_action_claim cal command now = .ok db') (key : String) :
    ∃ m, (db.view key).Moves m (db'.view key) ∧
      (m = .stay ∨ command.idempotency_key = key ∧
        (command.resolution = .ProvenNotDispatched ∧ m = .give_up command.expected_request_id ∨
          ∃ u, m = .close u)) := by
  rw [Database.reconcile_action_claim] at h
  split at h
  · cases h
  next claim reservation hreconcilable =>
  split at h
  · cases h
  next db1 hresolve =>
  cases h
  obtain ⟨hload, -, -, hdispatched, -, -⟩ := reconcilable_ok hreconcilable
  obtain ⟨c, hfind, hckey, hcrequest, -, -, -, -, -, hmarked, hexpected⟩ := load_claim_ok hload
  have hkey : claim.idempotency_key = command.idempotency_key :=
    hckey.symm.trans (Table.find_eq_some.mp hfind).2
  rw [← (resolve_frame hresolve).view key]
  have hclaims := (resolve_frame hresolve).claims
  rw [Database.close_claim]
  cases hresolution : command.resolution with
  | ProvenNotDispatched =>
    -- the audit does not close the key, and the claim of the request goes
    rw [if_pos rfl, view_delete]
    have hview : ({ db1 with audits := db1.audits ++ [claim.audit command] } :
        Database Value).view key = db1.view key := by
      rw [Database.view, Database.view, terminal_audits_append, if_neg, List.append_nil]
      rintro ⟨-, hterminal⟩
      rw [Audit.terminal, ClaimRecord.audit, hresolution] at hterminal
      cases hterminal
    rw [hview]
    by_cases hsame : command.idempotency_key = key
    · refine ⟨.give_up command.expected_request_id, ?_, .inr ⟨hsame, .inl ⟨rfl, rfl⟩⟩⟩
      rw [filter_claim (q := fun c => !decide (c.request_id = command.expected_request_id))
        (fun c hc => by rw [hc, hkey, hsame, hexpected, decide_eq_true rfl, Bool.true_and])]
      exact .give_up command.expected_request_id
    · refine ⟨.stay, ?_, .inl rfl⟩
      rw [filter_claim_keep (fun c hc => by
        rw [hc, hkey, decide_eq_false (fun heq => hsame heq.symm)]
        rfl)]
      exact .stay
  | ProviderOutcomeKnown provider_succeeded =>
    rw [if_neg (fun heq => by cases heq)]
    have hterminal : (claim.audit command).terminal = true := by
      rw [Audit.terminal, ClaimRecord.audit, hresolution]
    by_cases hsame : command.idempotency_key = key
    · refine ⟨.close (claim.audit command), ?_, .inr ⟨hsame, .inr ⟨_, rfl⟩⟩⟩
      have hview : ({ db1 with audits := db1.audits ++ [claim.audit command] } :
          Database Value).view key
            = { db1.view key with audits := (db1.view key).audits ++ [claim.audit command] } := by
        rw [Database.view, terminal_audits_append, if_pos ⟨hkey.trans hsame, hterminal⟩]
        rfl
      rw [hview]
      refine .close (claim.audit command) c ?_ hcrequest (by rw [hmarked]; exact hdispatched)
        hterminal
      rw [← hsame]
      change db1.claims.find command.idempotency_key = some c
      rw [hclaims]
      exact hfind
    · refine ⟨.stay, ?_, .inl rfl⟩
      have hview : ({ db1 with audits := db1.audits ++ [claim.audit command] } :
          Database Value).view key = db1.view key := by
        rw [Database.view, Database.view, terminal_audits_append, if_neg, List.append_nil]
        exact fun hboth => hsame (hkey.symm.trans hboth.1)
      rw [hview]
      exact .stay

theorem bind_frame (h : db.bind_reservation_identity a (some (id, month)) = .ok db') :
    db.Frame db' := by
  by_cases hkey : a.key = ""
  · simp only [Database.bind_reservation_identity, if_pos hkey] at h
    cases h
    exact .refl _
  · obtain ⟨r, -, -, -, -, ⟨-, rfl⟩ | ⟨-, rfl⟩⟩ := bind_cases h hkey
    · exact .refl _
    · exact ⟨rfl, rfl, rfl⟩

/-! ## Steps -/

def System.Keyed (s : System Value) (key request_id : String) : Prop :=
  ∃ x, s.executes.find request_id = some x ∧ x.attempt.key = key

def System.Makes (cal : Calendar) (s : System Value) (key : String) :
    ℤ × Op Value → Move Value → Prop
  | _, .stay => True
  | (now, .acquire a disabled), m => a.key = key ∧ s.executes.find a.request_id = none ∧
      (∃ db, s.db.acquire a disabled now = .ok (.Acquired, db)) ∧
      (m = .claim a now ∨ m = .take_over a now)
  | (now, .mark request_id _ _), m => s.Keyed key request_id ∧ m = .mark request_id now
  | (_, .release_pending request_id), m => s.Keyed key request_id ∧ m = .drop request_id
  | (_, .release_quota request_id), m => s.Keyed key request_id ∧ m = .drop request_id
  | (_, .release_pending_with_reservation request_id), m =>
    s.Keyed key request_id ∧ (m = .drop request_id ∨ m = .give_up request_id)
  | (_, .release_not_dispatched request_id), m =>
    s.Keyed key request_id ∧ (m = .drop request_id ∨ m = .give_up request_id)
  | (_, .finish_not_dispatched request_id), m => s.Keyed key request_id ∧ m = .give_up request_id
  | (_, .finish_read_failure request_id), m => s.Keyed key request_id ∧ m = .give_up request_id
  | (_, .finish_read_timeout request_id _ _), m =>
    s.Keyed key request_id ∧ m = .give_up request_id
  | (_, .finish request_id output _), m => ∃ x o, s.executes.find request_id = some x ∧
      x.attempt.key = key ∧ output = some o ∧ m = .finish x.attempt o
  | (_, .close_timed_out i _), m => ∃ a t, s.reads[i]? = some (a, t) ∧ a.key = key ∧
      m = .give_up a.request_id
  | (now, .reconcile command), m => command.idempotency_key = key ∧
      (∃ db, s.db.reconcile_action_claim cal command now = .ok db) ∧
      (command.resolution = .ProvenNotDispatched ∧ m = .give_up command.expected_request_id ∨
        ∃ u, m = .close u)
  | _, _ => False

theorem stays {s' : System Value} (h : s'.db.view key = s.db.view key) :
    ∃ m, (s.db.view key).Moves m (s'.db.view key) ∧ s.Makes cal key op m := by
  rw [h]
  exact ⟨.stay, .stay, by cases op; trivial⟩

theorem commit_moves {ε : Type} {result : Except ε (Database Value)} (h : ∀ db, result = .ok db →
      ∃ m, (s.db.view key).Moves m (db.view key) ∧ s.Makes cal key op m) :
    ∃ m, (s.db.view key).Moves m ((s.commit result).db.view key) ∧ s.Makes cal key op m := by
  cases result with
  | error e => exact stays rfl
  | ok db => exact h db rfl

theorem call_moves {ε : Type} {f : Attempt → Except ε (Database Value)}
    (h : ∀ x db, s.executes.find request_id = some x → f x.attempt = .ok db →
      ∃ m, (s.db.view key).Moves m (db.view key) ∧ s.Makes cal key op m) :
    ∃ m, (s.db.view key).Moves m ((s.call request_id f).db.view key) ∧ s.Makes cal key op m := by
  rw [System.call]
  split
  · exact stays rfl
  next x hfind => exact commit_moves (fun db hdb => h x db hfind hdb)

theorem call_reserved_moves {ε : Type} {f : Attempt → String × String → Except ε (Database Value)}
    (h : ∀ x id month db, s.executes.find request_id = some x → f x.attempt (id, month) = .ok db →
      ∃ m, (s.db.view key).Moves m (db.view key) ∧ s.Makes cal key op m) :
    ∃ m, (s.db.view key).Moves m ((s.call_reserved request_id f).db.view key) ∧
      s.Makes cal key op m := by
  rw [System.call_reserved]
  split
  · exact stays rfl
  next x quota hreserved =>
    obtain ⟨hfind, -⟩ := reserved_eq_some hreserved
    exact commit_moves (fun db hdb => h x quota.1 quota.2 db hfind hdb)

/-- **Every step is a move of the key**, one that its transaction makes. -/
theorem step_moves (cal : Calendar) (config : PolicyConfig) (s : System Value) (op : ℤ × Op Value)
    (hkey : key ≠ "") :
    ∃ m, (s.db.view key).Moves m ((s.step cal config op).db.view key) ∧ s.Makes cal key op m := by
  obtain ⟨now, op⟩ := op
  -- the call of a request, for the moves that name it
  have hid : ∀ {request_id : String} {x : Execute}, s.executes.find request_id = some x →
      x.attempt.request_id = request_id := fun hx => (Table.find_eq_some.mp hx).2
  cases op with
  | acquire a disabled =>
    simp only [System.step]
    split
    · exact stays rfl
    next executes hinsert =>
    split
    · exact stays rfl
    next hacquire =>
      obtain ⟨m, hmoves, rfl | ⟨-, hacquired, -⟩⟩ := acquire_moves hacquire hkey
      · exact ⟨.stay, hmoves, trivial⟩
      · cases hacquired
    next hacquire =>
      obtain ⟨m, hmoves, rfl | ⟨hsame, -, hm⟩⟩ := acquire_moves hacquire hkey
      · exact ⟨.stay, hmoves, trivial⟩
      · refine ⟨m, hmoves, ?_⟩
        have hnew : s.executes.find a.request_id = none := (Table.insert_eq_some hinsert).1
        rcases hm with rfl | rfl
        · exact ⟨hsame, hnew, ⟨_, hacquire⟩, .inl rfl⟩
        · exact ⟨hsame, hnew, ⟨_, hacquire⟩, .inr rfl⟩
  | release_pending request_id =>
    refine call_moves ?_
    intro x db hx hdb
    cases hdb
    obtain ⟨m, hmoves, rfl | ⟨hsame, rfl⟩⟩ := @release_pending_moves _ s.db x.attempt _ hkey
    · exact ⟨.stay, hmoves, trivial⟩
    · exact ⟨_, hmoves, ⟨x, hx, hsame⟩, by rw [hid hx]⟩
  | reserve request_id q =>
    simp only [System.step, System.reserve]
    split
    · exact stays rfl
    split
    · exact stays rfl
    next x hx _ =>
    have hframe := reserve_frame cal config s.db (q.of x.attempt) now
    split
    · exact stays (hframe.view key)
    · exact stays (hframe.view key)
  | bind request_id =>
    simp only [System.step, System.bind]
    split
    · exact stays rfl
    split
    · exact stays rfl
    next hbind => exact stays ((bind_frame hbind).view key)
  | mark request_id current revision =>
    simp only [System.step, System.mark]
    split
    · exact stays rfl
    next x quota hreserved =>
    obtain ⟨hx, -⟩ := reserved_eq_some hreserved
    split
    · exact stays rfl
    refine commit_moves ?_
    intro db hmark
    obtain ⟨m, hmoves, rfl | ⟨hsame, rfl⟩, -⟩ := mark_moves hmark hkey
    · exact ⟨.stay, hmoves, trivial⟩
    · exact ⟨_, hmoves, ⟨x, hx, hsame⟩, by rw [hid hx]⟩
  | release_pending_with_reservation request_id =>
    refine call_reserved_moves ?_
    intro x id month db hx hrelease
    obtain ⟨m, hmoves, rfl | ⟨hsame, rfl | ⟨-, rfl⟩⟩⟩ :=
      release_quota_reservation_moves hrelease hkey
    · exact ⟨.stay, hmoves, trivial⟩
    · exact ⟨_, hmoves, ⟨x, hx, hsame⟩, .inl (by rw [hid hx])⟩
    · exact ⟨_, hmoves, ⟨x, hx, hsame⟩, .inr (by rw [hid hx])⟩
  | release_quota request_id =>
    refine call_reserved_moves ?_
    intro x id month db hx hrelease
    obtain ⟨m, hmoves, rfl | ⟨hsame, rfl | ⟨hclear, -⟩⟩⟩ :=
      release_quota_reservation_moves hrelease hkey
    · exact ⟨.stay, hmoves, trivial⟩
    · exact ⟨_, hmoves, ⟨x, hx, hsame⟩, by rw [hid hx]⟩
    · cases hclear
  | release_not_dispatched request_id =>
    refine call_reserved_moves ?_
    intro x id month db hx hrelease
    have hquota : s.db.release_quota_reservation x.attempt (some (id, month)) true true true
        = .ok db := hrelease
    obtain ⟨m, hmoves, rfl | ⟨hsame, rfl | ⟨-, rfl⟩⟩⟩ :=
      release_quota_reservation_moves hquota hkey
    · exact ⟨.stay, hmoves, trivial⟩
    · exact ⟨_, hmoves, ⟨x, hx, hsame⟩, .inl (by rw [hid hx])⟩
    · exact ⟨_, hmoves, ⟨x, hx, hsame⟩, .inr (by rw [hid hx])⟩
  | finish_not_dispatched request_id =>
    refine call_reserved_moves ?_
    intro x id month db hx hfinish
    obtain ⟨m, hmoves, rfl | ⟨hsame, rfl⟩⟩ := finish_not_dispatched_moves hfinish hkey
    · exact ⟨.stay, hmoves, trivial⟩
    · exact ⟨_, hmoves, ⟨x, hx, hsame⟩, by rw [hid hx]⟩
  | finish request_id output failed =>
    refine call_reserved_moves ?_
    intro x id month db hx hfinish
    obtain ⟨m, hmoves, rfl | ⟨hsame, o, ho, rfl⟩⟩ := finish_moves hfinish hkey
    · exact ⟨.stay, hmoves, trivial⟩
    · exact ⟨_, hmoves, x, o, hx, hsame, ho, rfl⟩
  | finish_read_failure request_id =>
    refine call_reserved_moves ?_
    intro x id month db hx hfinish
    obtain ⟨m, hmoves, rfl | ⟨hsame, rfl⟩⟩ := finish_read_failure_moves hfinish hkey
    · exact ⟨.stay, hmoves, trivial⟩
    · exact ⟨_, hmoves, ⟨x, hx, hsame⟩, by rw [hid hx]⟩
  | finish_read_timeout request_id id outcome =>
    refine call_moves ?_
    intro x db hx hclose
    rw [Database.finish_read_timeout] at hclose
    split at hclose
    · cases hclose
      exact ⟨.stay, .stay, trivial⟩
    obtain ⟨m, hmoves, rfl | ⟨hsame, rfl⟩⟩ := close_timed_out_moves hclose hkey
    · exact ⟨.stay, hmoves, trivial⟩
    · exact ⟨_, hmoves, ⟨x, hx, hsame⟩, by rw [hid hx]⟩
  | read_timed_out request_id id =>
    simp only [System.step]
    split
    · exact stays rfl
    split
    · exact stays rfl
    · exact stays rfl
  | close_timed_out i outcome =>
    simp only [System.step]
    split
    · exact stays rfl
    next a t hget =>
    refine commit_moves ?_
    intro db hclose
    obtain ⟨m, hmoves, rfl | ⟨hsame, rfl⟩⟩ := close_timed_out_moves hclose hkey
    · exact ⟨.stay, hmoves, trivial⟩
    · exact ⟨_, hmoves, a, t, hget, hsame, rfl⟩
  | reconcile command =>
    refine commit_moves ?_
    intro db hreconcile
    obtain ⟨m, hmoves, rfl | ⟨hsame, ⟨hresolution, rfl⟩ | ⟨u, rfl⟩⟩⟩ :=
      reconcile_moves hreconcile key
    · exact ⟨.stay, hmoves, trivial⟩
    · exact ⟨_, hmoves, hsame, ⟨db, hreconcile⟩, .inl ⟨hresolution, rfl⟩⟩
    · exact ⟨_, hmoves, hsame, ⟨db, hreconcile⟩, .inr ⟨u, rfl⟩⟩

end Appcall.Actions
