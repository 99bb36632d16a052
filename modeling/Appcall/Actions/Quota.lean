/-
The hard limit of a month.

What a month has used and what its reservations hold never exceed the limit. A call is
admitted when there is room for one more; after that its capacity only moves, from
pending to dispatched to the rollup, or is given back. The count of the admission leaves
out what has expired, and it may, because the cleanup before it has given that up.
-/
import Appcall.Actions.Ledger

set_option autoImplicit false

namespace Appcall.Actions

variable {Value : Type}

/-! ## Capacity -/

def Reservation.holds (month : String) (r : Reservation) : ℤ :=
  if r.month = month ∧ r.active = true then 1 else 0

/-- The reservations of a month that are pending or dispatched. -/
def Database.held (db : Database Value) (month : String) : ℤ :=
  db.reservations.sum (Reservation.holds month)

def Database.Within (limit : ℤ) (db : Database Value) : Prop :=
  ∀ month, db.used month + db.held month ≤ limit

theorem used_meter (db : Database Value) (key account : String) (occurred_at : ℤ)
    (month' month : String) :
    (db.meter key account occurred_at month').used month
      ≤ db.used month + (if month' = month then 1 else 0) := by
  rw [Database.meter]
  split
  · split
    · omega
    · omega
  · -- the row of the account and the month goes up, or starts at one
    refine Int.le_trans (Int.le_of_eq (Table.sum_upsert db.rollups _ _ _ _)) ?_
    cases hfind : db.rollups.find (account, month') with
    | none =>
      change db.used month + Option.elim (db.rollups.find (account, month')) _ _ ≤ _
      rw [hfind]
      exact Int.le_refl _
    | some row =>
      have hrow : row.month = month' := congrArg Prod.snd (Table.find_eq_some.mp hfind).2
      change db.used month + Option.elim (db.rollups.find (account, month')) _ _ ≤ _
      rw [hfind, Option.elim_some, hrow]
      by_cases hmonth : month' = month
      · rw [if_pos hmonth, if_pos hmonth, if_pos hmonth]
        change db.used month + (row.quantity + 1 - row.quantity) ≤ db.used month + 1
        omega
      · rw [if_neg hmonth, if_neg hmonth, if_neg hmonth]
        omega

theorem held_modify_le {db : Database Value} (month id : String) (f : Reservation → Reservation)
    (hf : ∀ r, (f r).id = r.id)
    (hle : ∀ r, db.reservations.find id = some r →
      Reservation.holds month (f r) ≤ Reservation.holds month r) :
    (db.reservations.modify id f hf).sum (Reservation.holds month) ≤ db.held month := by
  cases hfind : db.reservations.find id with
  | none =>
    rw [Table.sum, Table.modify_of_none hfind]
    exact Int.le_refl _
  | some r =>
    have hrow := hle r hfind
    rw [Table.sum_modify hfind, Database.held]
    omega

variable {db : Database Value} {r : Reservation} {db' : Database Value}

theorem active_settled (h : r.state = .settled) : r.active = false := by
  rw [Reservation.active, h]
  rfl

theorem active_dispatched (h : r.state = .dispatched) : r.active = true := by
  rw [Reservation.active, h]
  rfl

theorem active_released (h : r.state = .released) : r.active = false := by
  rw [Reservation.active, h]
  rfl

theorem holds_released (month : String) (states : List ReservationState) (r : Reservation) :
    Reservation.holds month (r.to_state states .released) ≤ Reservation.holds month r := by
  rw [Reservation.to_state]
  split
  · have hgone : ({ r with state := .released } : Reservation).active = false :=
      active_released rfl
    rw [Reservation.holds, hgone, Reservation.holds]
    split
    next h => exact absurd h.2 Bool.false_ne_true
    split
    · omega
    · omega
  · exact Int.le_refl _

theorem held_settled (hfind : db.reservations.find r.id = some r)
    (hdispatched : r.state = .dispatched) (month : String) :
    (db.set_state r.id [.dispatched] .settled).held month
      = db.held month - (if r.month = month then 1 else 0) := by
  have hbefore : Reservation.holds month r = if r.month = month then 1 else 0 := by
    rw [Reservation.holds, active_dispatched hdispatched]
    simp
  have hafter : Reservation.holds month (r.to_state [.dispatched] .settled) = 0 := by
    rw [Reservation.to_state, if_pos (List.mem_singleton.mpr hdispatched), Reservation.holds,
      active_settled rfl]
    simp
  rw [Database.held, Database.set_state, Table.sum_modify hfind, hbefore, hafter, Database.held]
  omega

theorem unexpired_eq_held {month : String} {now : ℤ} (h : db.Clean month now) :
    db.unexpired month now = db.held month := by
  rw [Database.unexpired, Database.held, Table.sum, Table.sum]
  congr 1
  apply List.map_congr_left
  intro r hmem
  rw [Reservation.holds]
  by_cases hheld : r.month = month ∧ r.active = true
  · rw [if_pos hheld, if_pos ⟨hheld.1, hheld.2, h r hmem hheld.1 hheld.2⟩]
  · rw [if_neg hheld, if_neg (fun hcounted => hheld ⟨hcounted.1, hcounted.2.1⟩)]

/-! ## Changes -/

/-- Usage is written for a reservation that is dispatched, and a call is admitted against
the limit. -/
def AgainstLimit (limit : ℤ) (_ : Database Value) : Write → Prop
  | .meter (some r) _ => r.state = .dispatched
  | .meter none _ => False
  | .grant q _ => ∀ e, q.entitlements = some e → e.action_calls_hard = limit
  | _ => True

variable {cal : Calendar} {config : PolicyConfig} {limit : ℤ}

theorem within_metered (hwithin : db.Within limit) (hfind : db.reservations.find r.id = some r)
    (hdispatched : r.state = .dispatched) (key account : String) (occurred_at : ℤ) :
    ((db.meter key account occurred_at r.month).set_state r.id [.dispatched] .settled).Within
      limit := by
  intro month
  have hused := used_meter db key account occurred_at r.month month
  have hheld : ((db.meter key account occurred_at r.month).set_state r.id [.dispatched]
      .settled).held month = db.held month - (if r.month = month then 1 else 0) := by
    rw [held_settled (by rw [meter_reservations]; exact hfind) hdispatched, Database.held,
      meter_reservations, Database.held]
  have hbound := hwithin month
  rw [hheld]
  change (db.meter key account occurred_at r.month).used month + _ ≤ _
  omega

theorem Change.within (hlimit : 0 < limit) (h : Change cal config (AgainstLimit limit) db db')
    (hwithin : db.Within limit) : db'.Within limit := by
  cases h with
  | keys db' claims reservations counters usage_events rollups =>
    intro month
    have hbound := hwithin month
    rw [Database.used, Database.held] at hbound ⊢
    rw [reservations, rollups]
    exact hbound
  | refund r db' found refunded =>
    obtain ⟨counters, -, rfl⟩ := refund_charges_eq refunded
    intro month
    have hheld := @held_modify_le _ db month r.id Reservation.refund (fun _ => rfl)
      (fun _ _ => Int.le_refl _)
    exact Int.le_trans (Int.add_le_add_left hheld _) (hwithin month)
  | release id states active =>
    intro month
    have hheld := @held_modify_le _ db month id _ (Reservation.to_state_id states .released)
      (fun r _ => holds_released month states r)
    exact Int.le_trans (Int.add_le_add_left hheld _) (hwithin month)
  | recover r found dispatched =>
    exact within_metered hwithin found dispatched _ _ _
  | settle r request_id account now found permitted =>
    exact within_metered hwithin found permitted _ _ _
  | usage request_id account now permitted => exact absurd permitted id
  | bind r request_id found unbound permitted =>
    intro month
    have hheld := @held_modify_le _ db month r.id (Reservation.bind request_id)
      (fun _ => rfl) (fun _ _ => Int.le_refl _)
    exact Int.le_trans (Int.add_le_add_left hheld _) (hwithin month)
  | dispatch r now found pending permitted =>
    intro month
    have hheld := @held_modify_le _ db month r.id (Reservation.dispatch now)
      (fun _ => rfl) (by
        -- a pending reservation holds what a dispatched one holds
        intro r' hfind
        rw [found] at hfind
        cases hfind
        rw [Reservation.holds, Reservation.holds, Reservation.active, Reservation.active, pending]
        exact Int.le_refl _)
    exact Int.le_trans (Int.add_le_add_left hheld _) (hwithin month)
  | grant q e now db' entitled room swept admitted permitted =>
    obtain ⟨n, linkedin, n', send, reservations, -, -, hinsert, rfl⟩ := grant_eq admitted
    have hhard : e.action_calls_hard = limit := permitted e entitled
    have hroom := room (by rw [hhard]; exact hlimit)
    rw [unexpired_eq_held swept, hhard] at hroom
    intro month
    have hheld : reservations.sum (Reservation.holds month)
        = db.held month + (if cal.month now = month then 1 else 0) := by
      rw [Table.sum_insert hinsert, Database.held]
      simp [Reservation.holds, Reserve.row, Reservation.active]
    change db.used month + reservations.sum (Reservation.holds month) ≤ limit
    rw [hheld]
    by_cases hmonth : cal.month now = month
    · subst hmonth
      rw [if_pos rfl]
      omega
    · rw [if_neg hmonth]
      have hbound := hwithin month
      omega

theorem Changes.within (hlimit : 0 < limit) (h : Changes cal config (AgainstLimit limit) db db')
    (hwithin : db.Within limit) : db'.Within limit := by
  induction h with
  | refl => exact hwithin
  | tail _ hlast ih => exact hlast.within hlimit ih

/-! ## Runs -/

/-- The calls against the limit: every transaction of an execute call in one step, each
reservation with the same hard limit. -/
def Op.against (limit : ℤ) : Op Value → Prop
  | .reserve _ q => ∀ e, q.entitlements = some e → e.action_calls_hard = limit
  | .read_timed_out _ _ => False
  | .close_timed_out _ _ => False
  | .reconcile _ => False
  | _ => True

theorem against_permits (s : System Value) (now : ℤ) {op : Op Value} (h : op.against limit) :
    s.Permits cal (AgainstLimit limit) now op where
  acquire := fun _ _ _ _ _ _ => ⟨trivial, fun _ _ _ _ _ => trivial⟩
  grant := by
    rintro request_id q x rfl _ _
    exact h
  bind := fun _ _ _ _ _ _ _ _ _ _ => trivial
  dispatch := fun _ _ _ _ _ _ _ _ _ _ => ⟨fun _ _ _ _ _ => trivial, fun _ _ _ _ _ => trivial⟩
  settle := fun _ _ _ _ _ _ _ hdispatched _ _ => hdispatched
  timeout := fun _ _ _ _ _ _ _ _ _ hdispatched => hdispatched
  close := by
    rintro i outcome a t rfl _
    exact absurd h id
  reconcile := by
    rintro command rfl
    exact absurd h id

theorem step_within (hlimit : 0 < limit) (s : System Value) (op : ℤ × Op Value)
    (hop : op.2.against limit) (hwithin : s.db.Within limit) :
    (s.step cal config op).db.Within limit :=
  (step_changes (against_permits s op.1 hop)).within hlimit hwithin

/-- **The hard limit is never exceeded.** With a constant hard limit, in every run of the
calls from any state within it, no month's completed usage and live reservations exceed
it. -/
theorem quota_within_hard_limit (cal : Calendar) (config : PolicyConfig) {limit : ℤ}
    (hlimit : 0 < limit) (s : System Value)
    (hstart : ∀ month, s.db.used month + s.db.held month ≤ limit) (ops : List (ℤ × Op Value))
    (hops : ∀ op ∈ ops, op.2.against limit) (month : String) :
    (Machine.run (System.step cal config) s ops).db.used month
      + (Machine.run (System.step cal config) s ops).db.held month ≤ limit := by
  have hmeets : Machine.Meets (System.step cal config)
      (fun _ (op : ℤ × Op Value) => op.2.against limit) s ops :=
    Machine.meets_of_forall (P := fun op : ℤ × Op Value => op.2.against limit) hops
  exact hmeets.keeps (fun s op hop hwithin => step_within hlimit s op hop hwithin) hstart month

/-- Two requests under a limit of one call: the first is admitted, the second is not. -/
def sample_rivals : List (ℤ × Op String) :=
  [(1, .acquire { sample_attempt "req_a" with key := "" } false),
    (2, .acquire { sample_attempt "req_b" with key := "" } false),
    (3, .reserve "req_a" (sample_reserve "q_a")), (4, .reserve "req_b" (sample_reserve "q_b"))]

example : (Machine.run (System.step sample_calendar sample_config)
    (System.at_rest Database.empty) sample_rivals).db.held "2026-07" = 1 := by
  decide

/-- The two requests hold what the limit allows. -/
theorem sample_rivals_within :
    (Machine.run (System.step sample_calendar sample_config) (System.at_rest Database.empty)
      sample_rivals).db.used "2026-07"
        + (Machine.run (System.step sample_calendar sample_config)
          (System.at_rest Database.empty) sample_rivals).db.held "2026-07" ≤ 1 := by
  refine quota_within_hard_limit sample_calendar sample_config (by decide) _ ?_ _ ?_ _
  · intro month
    change (0 : ℤ) + 0 ≤ 1
    decide
  · intro op hop
    simp only [sample_rivals, List.mem_cons, List.not_mem_nil, or_false] at hop
    rcases hop with rfl | rfl | rfl | rfl
    · trivial
    · trivial
    · rintro e ⟨⟩
      rfl
    · rintro e ⟨⟩
      rfl

end Appcall.Actions
