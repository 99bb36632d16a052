/-
Counters and the charges they count.

A counter goes up with a charge that is written beside a reservation, and goes down when
the charge is marked as refunded, in the same transaction. So every counter is the sum of
the charges that are not refunded: what a refund takes back is there, and the clamps of
the refunds at zero never change a value.
-/
import Appcall.Actions.Ledger

set_option autoImplicit false

namespace Appcall.Actions

variable {Value : Type}

/-! ## Gauges -/

/-- A stored count: the sends or the spend of a sending window, or a window of a LinkedIn
class. -/
inductive Gauge where
  | sends (account window : String)
  | spend (account window : String)
  | linkedin (account action_class : String) (kind : WindowKind) (key : String)

def Gauge.read (n : Counters) : Gauge → ℤ
  | .sends account window => n.send_caps.read (account, window) SendCap.send_count
  | .spend account window => n.send_caps.read (account, window) SendCap.spend_micros
  | .linkedin account action_class kind key =>
    n.linkedin.read (account, action_class, kind, key) LinkedInCounter.count

def Charge.counts (account : String) (c : Charge) : Gauge → ℤ
  | .sends account' window =>
    if c.kind = .send ∧ (account', window) = (account, c.window_key) then c.quantity else 0
  | .spend account' window =>
    if c.kind = .send ∧ (account', window) = (account, c.window_key) then c.spend_micros else 0
  | .linkedin account' action_class kind key =>
    if c.kind = .linkedin ∧ (account', action_class, kind, key)
        = (account, c.action_class, c.window_kind, c.window_key) then c.quantity
    else 0

/-- What a list of charges to an account counts for. -/
def charged (account : String) (charges : List Charge) (g : Gauge) : ℤ :=
  (charges.map (fun c => c.counts account g)).sum

def Reservation.charged (g : Gauge) (r : Reservation) : ℤ :=
  Actions.charged r.external_account_id r.live g

/-- Every counter is the sum of the charges that are not refunded. -/
def Database.Balanced (db : Database Value) : Prop :=
  ∀ g : Gauge, g.read db.counters = db.reservations.sum (Reservation.charged g)

@[simp] theorem charged_nil (account : String) (g : Gauge) : charged account [] g = 0 := rfl

@[simp] theorem charged_cons (account : String) (c : Charge) (charges : List Charge)
    (g : Gauge) : charged account (c :: charges) g
      = c.counts account g + charged account charges g := rfl

@[simp] theorem charged_append (account : String) (charges charges' : List Charge) (g : Gauge) :
    charged account (charges ++ charges') g
      = charged account charges g + charged account charges' g := by
  rw [charged, List.map_append, List.sum_append, charged, charged]

theorem counts_nonneg (account : String) (c : Charge) (g : Gauge) : 0 ≤ c.counts account g := by
  have hquantity := c.quantity_pos
  have hspend := c.spend_nonneg
  cases g with
  | sends account' window =>
    rw [Charge.counts]
    split
    · omega
    · omega
  | spend account' window =>
    rw [Charge.counts]
    split
    · exact hspend
    · omega
  | linkedin account' action_class kind key =>
    rw [Charge.counts]
    split
    · omega
    · omega

theorem charged_nonneg (account : String) (charges : List Charge) (g : Gauge) :
    0 ≤ charged account charges g := by
  induction charges with
  | nil => exact Int.le_refl 0
  | cons c charges ih =>
    have hc := counts_nonneg account c g
    rw [charged_cons]
    omega

/-! ## Refunds -/

variable {account : String} {n : Counters} {charges : List Charge} {db : Database Value}
  {n' : Counters} {e : Entitlements} {action_class : String} {age : ℤ} {windows : List Window}
  {now : ℤ} {q : Reserve} {n'' : Counters} {linkedin send : List Charge} {db' : Database Value}
  {caps : Gauge → ℤ}

theorem refund_send {c : Charge} (hkind : c.kind = .send)
    (h : ∀ g : Gauge, c.counts account g ≤ g.read n) :
    ∃ n', n.refund_charge greatest account c = some n' ∧
      n.refund_charge id account c = some n' ∧
      ∀ g : Gauge, g.read n' = g.read n - c.counts account g := by
  have hsends := h (.sends account c.window_key)
  have hspend := h (.spend account c.window_key)
  simp only [Charge.counts, hkind, true_and, if_true, Gauge.read] at hsends hspend
  -- the counter is positive, so the window has one
  cases hfind : n.send_caps.find (account, c.window_key) with
  | none =>
    have hquantity := c.quantity_pos
    rw [Table.read, hfind, Option.elim_none] at hsends
    omega
  | some r =>
    rw [Table.read, hfind, Option.elim_some] at hsends hspend
    refine ⟨{ n with
      send_caps := n.send_caps.modify (account, c.window_key)
        (fun r => { r with
          send_count := r.send_count - c.quantity
          spend_micros := r.spend_micros - c.spend_micros })
        (fun _ => rfl) }, ?_, ?_, ?_⟩
    · simp only [Counters.refund_charge, hkind, hfind, Option.isNone_some, Bool.false_eq_true,
        if_false, Option.some.injEq, Counters.mk.injEq, and_true]
      apply Table.modify_congr
      intro r' hr'
      rw [hfind] at hr'
      cases hr'
      rw [greatest, greatest, max_eq_left (by omega), max_eq_left (by omega)]
    · simp only [Counters.refund_charge, hkind, hfind, Option.isNone_some, Bool.false_eq_true,
        if_false, id]
    · intro g
      cases g with
      | sends account' window =>
        simp only [Gauge.read, Charge.counts, hkind, true_and]
        refine (Table.read_modify hfind _ _ (d := -c.quantity) (by simp only; omega) _).trans ?_
        split
        · omega
        · omega
      | spend account' window =>
        simp only [Gauge.read, Charge.counts, hkind, true_and]
        refine (Table.read_modify hfind _ _ (d := -c.spend_micros) (by simp only; omega) _).trans ?_
        split
        · omega
        · omega
      | linkedin account' action_class kind key => simp [Gauge.read, Charge.counts, hkind]

theorem refund_linkedin {c : Charge} (hkind : c.kind = .linkedin)
    (h : ∀ g : Gauge, c.counts account g ≤ g.read n) :
    ∃ n', n.refund_charge greatest account c = some n' ∧
      n.refund_charge id account c = some n' ∧
      ∀ g : Gauge, g.read n' = g.read n - c.counts account g := by
  have hcount := h (.linkedin account c.action_class c.window_kind c.window_key)
  simp only [Charge.counts, hkind, true_and, if_true, Gauge.read] at hcount
  cases hfind : n.linkedin.find (account, c.action_class, c.window_kind, c.window_key) with
  | none =>
    have hquantity := c.quantity_pos
    rw [Table.read, hfind, Option.elim_none] at hcount
    omega
  | some r =>
    rw [Table.read, hfind, Option.elim_some] at hcount
    refine ⟨{ n with
      linkedin := n.linkedin.modify (account, c.action_class, c.window_kind, c.window_key)
        (fun r => { r with count := r.count - c.quantity }) (fun _ => rfl) }, ?_, ?_, ?_⟩
    · simp only [Counters.refund_charge, hkind, hfind, Option.isNone_some, Bool.false_eq_true,
        if_false, Option.some.injEq, Counters.mk.injEq, true_and]
      apply Table.modify_congr
      intro r' hr'
      rw [hfind] at hr'
      cases hr'
      rw [greatest, max_eq_left (by omega)]
    · simp only [Counters.refund_charge, hkind, hfind, Option.isNone_some, Bool.false_eq_true,
        if_false, id]
    · intro g
      cases g with
      | sends account' window => simp [Gauge.read, Charge.counts, hkind]
      | spend account' window => simp [Gauge.read, Charge.counts, hkind]
      | linkedin account' action_class kind key =>
        simp only [Gauge.read, Charge.counts, hkind, true_and]
        refine (Table.read_modify hfind _ _ (d := -c.quantity) (by simp only; omega) _).trans ?_
        split
        · omega
        · omega

theorem refund_counted (h : ∀ g : Gauge, charged account charges g ≤ g.read n) :
    ∃ n', n.refund greatest account charges = some n' ∧
      n.refund id account charges = some n' ∧
      ∀ g : Gauge, g.read n' = g.read n - charged account charges g := by
  induction charges generalizing n with
  | nil =>
    refine ⟨n, rfl, rfl, fun g => ?_⟩
    rw [charged_nil]
    omega
  | cons c charges ih =>
    have hhead : ∀ g : Gauge, c.counts account g ≤ g.read n := by
      intro g
      have hg := h g
      have htail := charged_nonneg account charges g
      rw [charged_cons] at hg
      omega
    obtain ⟨n1, hclamped, hexact, hread⟩ : ∃ n', n.refund_charge greatest account c = some n' ∧
        n.refund_charge id account c = some n' ∧
        ∀ g : Gauge, g.read n' = g.read n - c.counts account g := by
      cases hkind : c.kind with
      | send => exact refund_send hkind hhead
      | linkedin => exact refund_linkedin hkind hhead
    obtain ⟨n2, hclamped', hexact', hread'⟩ := ih (n := n1) (by
      intro g
      have hg := h g
      rw [charged_cons] at hg
      rw [hread g]
      omega)
    refine ⟨n2, ?_, ?_, ?_⟩
    · rw [Counters.refund, List.foldlM_cons, hclamped]
      exact hclamped'
    · rw [Counters.refund, List.foldlM_cons, hexact]
      exact hexact'
    · intro g
      rw [hread' g, hread g, charged_cons]
      omega

theorem Database.Balanced.counted (h : db.Balanced) {r : Reservation}
    (hfind : db.reservations.find r.id = some r) (g : Gauge) :
    charged r.external_account_id r.live g ≤ g.read db.counters := by
  rw [h g]
  exact Table.le_sum (w := Reservation.charged g) hfind (fun r => charged_nonneg _ _ g)

/-! ## Charges -/

theorem claim_send_read {config : PolicyConfig} {window : String}
    (h : n.claim_send account window e config.send_cost_micros = .ok n') (g : Gauge) :
    g.read n' = g.read n + charged account [config.send_charge window] g := by
  simp only [Counters.claim_send] at h
  split at h
  · cases h
  split at h
  · cases h
    rw [charged_cons, charged_nil, Int.add_zero]
    cases g with
    | sends account' window' =>
      simp only [Gauge.read, Charge.counts, PolicyConfig.send_charge, true_and]
      exact Table.read_upsert _ _ _ _ (m := SendCap.send_count) (d := 1) rfl (fun _ => rfl) _
    | spend account' window' =>
      simp only [Gauge.read, Charge.counts, PolicyConfig.send_charge, true_and]
      exact Table.read_upsert _ _ _ _ (m := SendCap.spend_micros)
        (d := config.send_cost_micros) rfl (fun _ => rfl) _
    | linkedin account' action_class kind key =>
      simp [Gauge.read, Charge.counts, PolicyConfig.send_charge]
  split at h
  · cases h
  · cases h

theorem claim_window_read {w : Window} (h : n.claim_window account action_class age w = .ok n')
    (g : Gauge) : g.read n' = g.read n + (w.charge action_class).counts account g := by
  simp only [Counters.claim_window] at h
  split at h
  · cases h
    cases g with
    | sends account' window' => simp [Gauge.read, Charge.counts, Window.charge]
    | spend account' window' => simp [Gauge.read, Charge.counts, Window.charge]
    | linkedin account' action_class' kind key =>
      simp only [Gauge.read, Charge.counts, Window.charge, true_and]
      exact Table.read_upsert _ _ _ _ (m := LinkedInCounter.count) (d := 1) rfl (fun _ => rfl) _
  · cases h

theorem claim_windows_read
    (h : windows.foldlM (Counters.claim_window account action_class age) n = .ok n') (g : Gauge) :
    g.read n' = g.read n + charged account (windows.map (Window.charge action_class)) g := by
  induction windows generalizing n with
  | nil =>
    cases h
    rw [List.map_nil, charged_nil]
    omega
  | cons w windows ih =>
    rw [List.foldlM_cons] at h
    cases hone : n.claim_window account action_class age w with
    | error e =>
      rw [hone] at h
      cases h
    | ok n1 =>
      rw [hone] at h
      rw [ih h, claim_window_read hone g, List.map_cons, charged_cons]
      omega

theorem claim_linkedin_windows {c : Ceiling}
    (h : n.claim_linkedin account action_class c windows age now = .ok n') :
    ∃ n1, windows.foldlM (Counters.claim_window account action_class age) n = .ok n1 ∧
      ∀ g : Gauge, g.read n' = g.read n1 := by
  rw [Counters.claim_linkedin] at h
  split at h
  · cases h
  split at h
  · cases h
  next n1 hwindows =>
  cases h
  refine ⟨n1, hwindows, fun g => ?_⟩
  cases g with
  | sends account' window' => rfl
  | spend account' window' => rfl
  | linkedin account' action_class' kind key =>
    simp only [Gauge.read]
    have hread := Table.read_upsert n1.linkedin
      { external_account_id := account, action_class, window_kind := .spacing
        window_key := "-", count := 0, last_sent_at := some now }
      (fun r => { r with last_sent_at := some now }) (fun _ => rfl)
      (m := LinkedInCounter.count) (d := 0) rfl (fun r => (Int.add_zero r.count).symm)
      (account', action_class', kind, key)
    refine hread.trans ?_
    split
    · omega
    · omega

variable {cal : Calendar} {config : PolicyConfig}

theorem charge_linkedin_cases (h : q.charge_linkedin cal config now n = .ok (n', charges)) :
    n' = n ∧ charges = [] ∨
      ∃ account age, q.subaccount = some account ∧
        n.claim_linkedin q.external_account_id (linkedin_class q.action)
          (config.linkedin.ceiling (linkedin_class q.action) (account.age now))
          (q.windows cal config account now) age now = .ok n' ∧
        charges = (q.windows cal config account now).map
          (Window.charge (linkedin_class q.action)) := by
  simp only [Reserve.charge_linkedin] at h
  split at h
  · cases h
    exact .inl ⟨rfl, rfl⟩
  split at h
  · cases h
  next account haccount =>
  split at h
  · cases h
  split at h
  · cases h
  split at h
  · cases h
    exact .inl ⟨rfl, rfl⟩
  split at h
  · cases h
  next hclaim =>
  cases h
  exact .inr ⟨account, _, haccount, hclaim, rfl⟩

theorem charge_send_cases (h : q.charge_send cal config e now n = .ok (n', charges)) :
    n' = n ∧ charges = [] ∨
      n.claim_send q.external_account_id (cal.day now) e config.send_cost_micros = .ok n' ∧
        charges = [config.send_charge (cal.day now)] := by
  rw [Reserve.charge_send] at h
  split at h
  · cases h
    exact .inl ⟨rfl, rfl⟩
  split at h
  · cases h
  next hclaim =>
  cases h
  exact .inr ⟨hclaim, rfl⟩

theorem charge_linkedin_read (h : q.charge_linkedin cal config now n = .ok (n', charges))
    (g : Gauge) : g.read n' = g.read n + charged q.external_account_id charges g := by
  rcases charge_linkedin_cases h with ⟨rfl, rfl⟩ | ⟨account, age, -, hclaim, rfl⟩
  · rw [charged_nil]
    omega
  · obtain ⟨n1, hwindows, hread⟩ := claim_linkedin_windows hclaim
    rw [hread g, claim_windows_read hwindows g]

theorem charge_send_read (h : q.charge_send cal config e now n = .ok (n', charges)) (g : Gauge) :
    g.read n' = g.read n + charged q.external_account_id charges g := by
  rcases charge_send_cases h with ⟨rfl, rfl⟩ | ⟨hclaim, rfl⟩
  · rw [charged_nil]
    omega
  · exact claim_send_read hclaim g

theorem charges_live (hlinkedin : q.charge_linkedin cal config now n
      = .ok (n', linkedin)) (hsend : q.charge_send cal config e now n' = .ok (n'', send)) :
    ∀ c ∈ send ++ linkedin, c.refunded = false := by
  intro c hc
  rcases List.mem_append.mp hc with hc | hc
  · rcases charge_send_cases hsend with ⟨-, rfl⟩ | ⟨-, rfl⟩
    · cases hc
    · rw [List.mem_singleton.mp hc]
      rfl
  · rcases charge_linkedin_cases hlinkedin with ⟨-, rfl⟩ | ⟨account, age, -, -, rfl⟩
    · cases hc
    · obtain ⟨w, -, rfl⟩ := List.mem_map.mp hc
      rfl

/-! ## Changes -/

theorem live_refund (r : Reservation) : r.refund.live = [] := by
  rw [Reservation.live, Reservation.refund, List.filter_eq_nil_iff]
  intro c hc
  obtain ⟨c', -, rfl⟩ := List.mem_map.mp hc
  simp

theorem charged_modify (id : String) (f : Reservation → Reservation) (hf : ∀ r, (f r).id = r.id)
    (hcharges : ∀ r, (f r).charges = r.charges ∧
      (f r).external_account_id = r.external_account_id) (g : Gauge) :
    (db.reservations.modify id f hf).sum (Reservation.charged g)
      = db.reservations.sum (Reservation.charged g) := by
  cases hfind : db.reservations.find id with
  | none => rw [Table.sum, Table.modify_of_none hfind, Table.sum]
  | some r =>
    have hsame : Reservation.charged g (f r) = Reservation.charged g r := by
      rw [Reservation.charged, Reservation.live, (hcharges r).1, (hcharges r).2]
      rfl
    rw [Table.sum_modify hfind, hsame]
    omega

theorem to_state_charges (states : List ReservationState) (state : ReservationState)
    (r : Reservation) : (r.to_state states state).charges = r.charges ∧
      (r.to_state states state).external_account_id = r.external_account_id := by
  rw [Reservation.to_state]
  split
  · exact ⟨rfl, rfl⟩
  · exact ⟨rfl, rfl⟩

theorem meter_counters (db : Database Value) (key account : String) (occurred_at : ℤ)
    (month : String) : (db.meter key account occurred_at month).counters = db.counters := by
  rw [Database.meter]
  split <;> rfl

theorem write_usage_counters (db : Database Value) (request_id account : String)
    (reservation : Option (String × String)) (now : ℤ) :
    (db.write_usage cal request_id account reservation now).counters = db.counters :=
  meter_counters _ _ _ _ _

theorem admit_read {month : String}
    (hlinkedin : q.charge_linkedin cal config now n = .ok (n', linkedin))
    (hsend : q.charge_send cal config e now n' = .ok (n'', send)) (g : Gauge) :
    g.read n'' = g.read n + Reservation.charged g (q.row month now (send ++ linkedin)) := by
  have hlive : (q.row month now (send ++ linkedin)).live = send ++ linkedin := by
    apply List.filter_eq_self.mpr
    intro c hc
    rw [charges_live hlinkedin hsend c hc]
    rfl
  have haccount : (q.row month now (send ++ linkedin)).external_account_id
      = q.external_account_id := rfl
  rw [charge_send_read hsend g, charge_linkedin_read hlinkedin g, Reservation.charged, hlive,
    haccount, charged_append]
  omega

variable {permit : Database Value → Write → Prop}

theorem Change.balanced (h : Change cal config permit db db') (hbalanced : db.Balanced) :
    db'.Balanced := by
  cases h with
  | keys db' claims reservations counters usage_events rollups =>
    intro g
    rw [counters, reservations]
    exact hbalanced g
  | refund r db' found refunded =>
    obtain ⟨counters, hrefund, rfl⟩ := refund_charges_eq refunded
    obtain ⟨n', hn', -, hread⟩ := refund_counted (hbalanced.counted found)
    rw [hrefund] at hn'
    cases hn'
    intro g
    -- the counter and the sum lose the same charges
    have hgone : Reservation.charged g r.refund = 0 := by
      rw [Reservation.charged, live_refund, charged_nil]
    have hsum := Table.sum_modify found Reservation.refund (fun _ => rfl)
      (Reservation.charged g)
    have hg := hbalanced g
    have hreadg := hread g
    refine Eq.trans ?_ hsum.symm
    rw [hgone, ← hg, Reservation.charged]
    change g.read counters = _
    omega
  | release id states active =>
    intro g
    exact (hbalanced g).trans
      (charged_modify id _ (Reservation.to_state_id _ _) (to_state_charges _ _) g).symm
  | recover r found dispatched =>
    intro g
    rw [Database.set_state, charged_modify _ _ _ (to_state_charges _ _), meter_reservations]
    change g.read (db.meter _ _ _ _).counters = _
    rw [meter_counters]
    exact hbalanced g
  | settle r request_id account now found permitted =>
    intro g
    rw [Database.set_state, charged_modify _ _ _ (to_state_charges _ _),
      write_usage_reservations]
    change g.read (db.write_usage _ _ _ _ _).counters = _
    rw [write_usage_counters]
    exact hbalanced g
  | usage request_id account now permitted =>
    intro g
    rw [write_usage_counters, write_usage_reservations]
    exact hbalanced g
  | bind r request_id found unbound permitted =>
    intro g
    exact (hbalanced g).trans (charged_modify r.id (Reservation.bind request_id) (fun _ => rfl)
      (fun _ => ⟨rfl, rfl⟩) g).symm
  | dispatch r now found pending permitted =>
    intro g
    exact (hbalanced g).trans (charged_modify r.id (Reservation.dispatch now) (fun _ => rfl)
      (fun _ => ⟨rfl, rfl⟩) g).symm
  | grant q e now db' entitled room swept admitted permitted =>
    obtain ⟨n, linkedin, n', send, reservations, hlinkedin, hsend, hinsert, rfl⟩ :=
      grant_eq admitted
    intro g
    change g.read n' = reservations.sum (Reservation.charged g)
    rw [Table.sum_insert hinsert, admit_read hlinkedin hsend g, hbalanced g]

/-! ## Caps -/

/-- The caps of a reservation are the given ones, for the windows it charges. -/
structure Reserve.Capped (cal : Calendar) (config : PolicyConfig) (caps : Gauge → ℤ)
    (q : Reserve) (now : ℤ) : Prop where
  send : ∀ e, q.entitlements = some e →
    e.send_cap = caps (.sends q.external_account_id (cal.day now)) ∧
      e.spend_cap_micros = caps (.spend q.external_account_id (cal.day now))
  linkedin : ∀ account, q.subaccount = some account →
    ∀ w ∈ q.windows cal config account now,
      w.cap = caps (.linkedin q.external_account_id (linkedin_class q.action) w.kind w.key)

def Counters.WithinCaps (caps : Gauge → ℤ) (n : Counters) : Prop :=
  ∀ g : Gauge, 0 < caps g → g.read n ≤ caps g

theorem claim_send_capped {window : String}
    (h : n.claim_send account window e config.send_cost_micros = .ok n')
    (hsend : e.send_cap = caps (.sends account window))
    (hspend : e.spend_cap_micros = caps (.spend account window)) (hcaps : n.WithinCaps caps) :
    n'.WithinCaps caps := by
  intro g hg
  have hbefore := hcaps g hg
  rw [claim_send_read h g, charged_cons, charged_nil]
  simp only [Counters.claim_send] at h
  split at h
  · cases h
  split at h
  next hfits =>
    cases g with
    | sends account' window' =>
      simp only [Charge.counts, PolicyConfig.send_charge, true_and]
      split
      next heq =>
        cases heq
        have hsends : n.send_caps.read (account, window) SendCap.send_count + 1 ≤ e.send_cap := by
          rcases hfits.1 with hnone | hle
          · omega
          · exact hle
        rw [Gauge.read]
        omega
      · omega
    | spend account' window' =>
      simp only [Charge.counts, PolicyConfig.send_charge, true_and]
      split
      next heq =>
        cases heq
        have hspends : n.send_caps.read (account, window) SendCap.spend_micros
            + config.send_cost_micros ≤ e.spend_cap_micros := by
          rcases hfits.2 with hnone | hle
          · omega
          · exact hle
        rw [Gauge.read]
        omega
      · omega
    | linkedin account' action_class kind key =>
      simp only [Charge.counts, PolicyConfig.send_charge, reduceCtorEq, false_and, if_false]
      omega
  split at h
  · cases h
  · cases h

theorem claim_window_capped {w : Window} (h : n.claim_window account action_class age w = .ok n')
    (hcap : w.cap = caps (.linkedin account action_class w.kind w.key))
    (hcaps : n.WithinCaps caps) :
    n'.WithinCaps caps := by
  intro g hg
  have hbefore := hcaps g hg
  rw [claim_window_read h g]
  simp only [Counters.claim_window] at h
  split at h
  next hfits =>
    cases g with
    | sends account' window' =>
      simp only [Charge.counts, Window.charge, reduceCtorEq, false_and, if_false]
      omega
    | spend account' window' =>
      simp only [Charge.counts, Window.charge, reduceCtorEq, false_and, if_false]
      omega
    | linkedin account' action_class' kind key =>
      simp only [Charge.counts, Window.charge, true_and]
      split
      next heq =>
        cases heq
        rw [Gauge.read, Table.read]
        cases hfind : n.linkedin.find (account, action_class, w.kind, w.key) with
        | none =>
          rw [Option.elim_none]
          omega
        | some r =>
          have hle : r.count + 1 ≤ w.cap := by
            change (n.linkedin.find (account, action_class, w.kind, w.key)).elim _ _ = _ at hfits
            rw [hfind] at hfits
            exact of_decide_eq_true hfits
          rw [Option.elim_some]
          omega
      · omega
  · cases h

theorem admit_capped (hlinkedin : q.charge_linkedin cal config now n = .ok (n', linkedin))
    (hsend : q.charge_send cal config e now n' = .ok (n'', send))
    (hentitled : q.entitlements = some e) (hcapped : q.Capped cal config caps now)
    (hcaps : n.WithinCaps caps) : n''.WithinCaps caps := by
  have hwindows : n'.WithinCaps caps := by
    rcases charge_linkedin_cases hlinkedin with ⟨rfl, -⟩ | ⟨account, age, haccount, hclaim, -⟩
    · exact hcaps
    · obtain ⟨n1, hfold, hread⟩ := claim_linkedin_windows hclaim
      have hcap := hcapped.linkedin account haccount
      have hn1 : n1.WithinCaps caps :=
        Machine.foldlM_keeps (I := Counters.WithinCaps caps) hfold
          (fun n w n' hw hone hn => claim_window_capped hone (hcap w hw) hn) hcaps
      intro g hg
      rw [hread g]
      exact hn1 g hg
  rcases charge_send_cases hsend with ⟨rfl, -⟩ | ⟨hclaim, -⟩
  · exact hwindows
  · obtain ⟨hsends, hspend⟩ := hcapped.send e hentitled
    exact claim_send_capped hclaim hsends hspend hwindows

/-- Calls are admitted with the given caps. -/
def WithCaps (cal : Calendar) (config : PolicyConfig) (caps : Gauge → ℤ)
    (_ : Database Value) : Write → Prop
  | .grant q now => q.Capped cal config caps now
  | _ => True

theorem Change.within_caps (h : Change cal config (WithCaps cal config caps) db db')
    (hbalanced : db.Balanced) (hcaps : db.counters.WithinCaps caps) :
    db'.counters.WithinCaps caps := by
  cases h with
  | keys db' claims reservations counters usage_events rollups =>
    rw [counters]
    exact hcaps
  | refund r db' found refunded =>
    obtain ⟨counters, hrefund, rfl⟩ := refund_charges_eq refunded
    obtain ⟨n', hn', -, hread⟩ := refund_counted (hbalanced.counted found)
    rw [hrefund] at hn'
    cases hn'
    intro g hg
    have hbefore := hcaps g hg
    have hless := charged_nonneg r.external_account_id r.live g
    have hafter := hread g
    change g.read counters ≤ caps g
    omega
  | release id states active => exact hcaps
  | recover r found dispatched =>
    change (db.meter _ _ _ _).counters.WithinCaps caps
    rw [meter_counters]
    exact hcaps
  | settle r request_id account now found permitted =>
    change (db.write_usage _ _ _ _ _).counters.WithinCaps caps
    rw [write_usage_counters]
    exact hcaps
  | usage request_id account now permitted =>
    rw [write_usage_counters]
    exact hcaps
  | bind r request_id found unbound permitted => exact hcaps
  | dispatch r now found pending permitted => exact hcaps
  | grant q e now db' entitled room swept admitted permitted =>
    obtain ⟨n, linkedin, n', send, reservations, hlinkedin, hsend, hinsert, rfl⟩ :=
      grant_eq admitted
    exact admit_capped hlinkedin hsend entitled permitted hcaps

/-! ## Runs -/

/-- The refund of any reservation takes back what it is charged for, window by window,
and no clamp changes a value. -/
def Database.Refundable (db : Database Value) : Prop :=
  ∀ r, db.reservations.find r.id = some r →
    ∃ n, db.counters.refund greatest r.external_account_id r.live = some n ∧
      db.counters.refund id r.external_account_id r.live = some n ∧
      ∀ g : Gauge, g.read n = g.read db.counters - Reservation.charged g r

/-- A change of a ledger whose refunds are exact. -/
def Exact (cal : Calendar) (config : PolicyConfig) (db db' : Database Value) : Prop :=
  Change cal config (fun _ _ => True) db db' ∧ db.Refundable

theorem Changes.balanced (h : Changes cal config permit db db') (hbalanced : db.Balanced) :
    db'.Balanced := by
  induction h with
  | refl => exact hbalanced
  | tail _ hlast ih => exact hlast.balanced ih

theorem Changes.within_caps (h : Changes cal config (WithCaps cal config caps) db db')
    (hbalanced : db.Balanced) (hcaps : db.counters.WithinCaps caps) :
    db'.counters.WithinCaps caps := by
  induction h with
  | refl => exact hcaps
  | tail hpath hlast ih => exact hlast.within_caps (Changes.balanced hpath hbalanced) ih

theorem Changes.exact (h : Changes cal config (fun _ _ => True) db db') (hbalanced : db.Balanced) :
    Relation.ReflTransGen (Exact cal config) db db' := by
  induction h with
  | refl => exact .refl
  | tail hpath hlast ih =>
    refine ih.tail ⟨hlast, ?_⟩
    intro r hfind
    exact refund_counted ((Changes.balanced hpath hbalanced).counted hfind)

/-- The reservations of a step are made with the given caps. -/
def System.Capped (cal : Calendar) (config : PolicyConfig) (caps : Gauge → ℤ) (s : System Value)
    (op : ℤ × Op Value) : Prop :=
  ∀ request_id q x, op.2 = .reserve request_id q → s.executes.find request_id = some x →
    (q.of x.attempt).Capped cal config caps op.1

theorem capped_permits {s : System Value} (hread : s.Read) {op : Op Value}
    (h : s.Capped cal config caps (now, op)) : s.Permits cal (WithCaps cal config caps) now op := by
  refine permits_of_admit hread ?_ (fun request_id q x hop hfind _ => h request_id q x hop hfind)
  intro db w hw
  cases w with
  | claim c => trivial
  | bind r request_id => trivial
  | dispatch r => trivial
  | meter r request_id => trivial
  | grant q now => exact absurd rfl (hw q now)

/-- What every reached state keeps: its readings are there, and its ledger is balanced. -/
structure System.Counted (s : System Value) : Prop where
  read : s.Read
  balanced : s.db.Balanced

theorem step_counted {s : System Value} (op : ℤ × Op Value) (h : s.Counted) :
    (s.step cal config op).Counted := by
  have hpath := @step_changes _ cal config _ _ _ _ (free_permits h.read op.1 op.2)
  exact ⟨step_read hpath h.read, hpath.balanced h.balanced⟩

theorem empty_counted : (System.at_rest (@Database.empty Value)).Counted where
  read := fun _ _ hmem => absurd hmem List.not_mem_nil
  balanced := by
    intro g
    cases g with
    | sends account window => rfl
    | spend account window => rfl
    | linkedin account action_class kind key => rfl

/-- **The counters are their live charges**, in every run from empty tables. In each
state reached, every counter is the sum of the charges that are not refunded. Each step is
a path of changes in which a refund takes back exactly that, clamped or not; a charge stays
what it was and is marked as refunded at most once; and under constant caps no counter
exceeds its cap. -/
theorem counters_count_live_charges (cal : Calendar) (config : PolicyConfig)
    (ops : List (ℤ × Op Value)) :
    let s := Machine.run (System.step cal config) (System.at_rest Database.empty) ops
    (∀ g : Gauge, g.read s.db.counters = s.db.reservations.sum (Reservation.charged g)) ∧
      (∀ op, Relation.ReflTransGen (Exact cal config) s.db (s.step cal config op).db) ∧
      (∀ op id r, s.db.reservations.find id = some r →
        ∃ r', (s.step cal config op).db.reservations.find id = some r' ∧
          r'.external_account_id = r.external_account_id ∧
          List.Forall₂ Charge.Later r.charges r'.charges) ∧
      ∀ caps, Machine.Meets (System.step cal config) (System.Capped cal config caps)
        (System.at_rest Database.empty) ops → s.db.counters.WithinCaps caps := by
  intro s
  have hcounted : s.Counted :=
    Machine.run_keeps (fun s op h => step_counted op h) empty_counted ops
  have hpath : ∀ op : ℤ × Op Value,
      Changes cal config (fun _ _ => True) s.db (s.step cal config op).db :=
    fun op => step_changes (free_permits hcounted.read op.1 op.2)
  refine ⟨hcounted.balanced, fun op => (hpath op).exact hcounted.balanced, ?_, ?_⟩
  · intro op id r hfind
    obtain ⟨r', hfind', hlater⟩ := (hpath op).later hfind
    exact ⟨r', hfind', hlater.external_account_id, hlater.charges⟩
  · intro caps hmeets
    have hkeeps : s.Counted ∧ s.db.counters.WithinCaps caps := by
      refine hmeets.keeps (I := fun s => s.Counted ∧ s.db.counters.WithinCaps caps) ?_
        ⟨empty_counted, ?_⟩
      · rintro s op hcapped ⟨hcounted, hcaps⟩
        exact ⟨step_counted op hcounted,
          (step_changes (capped_permits hcounted.read hcapped)).within_caps hcounted.balanced
            hcaps⟩
      · intro g hg
        cases g with
        | sends account window => exact Int.le_of_lt hg
        | spend account window => exact Int.le_of_lt hg
        | linkedin account action_class kind key => exact Int.le_of_lt hg
    exact hkeeps.2

def sample_caps : Gauge → ℤ
  | .sends _ _ => 1
  | .spend _ _ => 500
  | .linkedin _ _ .hour _ => 10
  | .linkedin _ _ .day _ => 20
  | .linkedin _ _ .week _ => 80
  | .linkedin _ _ _ _ => 0

/-- An invitation that is reserved, and released as not dispatched. -/
def sample_invitation : List (ℤ × Op String) :=
  [(1, .acquire (sample_attempt "req_a") false), (2, .reserve "req_a" (sample_reserve "q_a")),
    (3, .release_not_dispatched "req_a")]

/-- The counters of that run stay within the caps. -/
theorem sample_invitation_within :
    (Machine.run (System.step sample_calendar sample_config) (System.at_rest Database.empty)
      sample_invitation).db.counters.WithinCaps sample_caps := by
  refine (counters_count_live_charges sample_calendar sample_config
    sample_invitation).2.2.2 sample_caps ⟨?_, ?_, ?_, trivial⟩
  · intro request_id q x hop
    cases hop
  · intro request_id q x hop hfind
    cases hop
    -- the call of the request is the one that has acquired
    have hx : some ({ attempt := sample_attempt "req_a", quota := none, bound := false } : Execute)
        = some x := hfind
    cases hx
    refine ⟨?_, ?_⟩
    · intro e he
      cases he
      exact ⟨rfl, rfl⟩
    · intro account haccount
      cases haccount
      decide
  · intro request_id q x hop
    cases hop

end Appcall.Actions
