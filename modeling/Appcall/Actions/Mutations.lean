/-
The order in which the mutations of a key run.

A call is marked while it holds the claim of the key and nobody has dispatched it. The
claim of a marked call goes in few ways: the call gives it up without evidence of a
dispatch, an operator has proven that there was none, or a record of its output takes its
place, and no claim is made over a record. So a call is marked after every call marked
before it has given up its claim, whatever the calls that were cancelled or crashed leave
behind.
-/
import Appcall.Actions.Idempotency

set_option autoImplicit false

namespace Appcall.Actions

variable {Value : Type} [DecidableEq Value] {cal : Calendar} {config : PolicyConfig}
  {key : String}

/-! ## Phases -/

def Phase.early : Phase Value → Prop
  | .acquired | .denied | .reserved | .bound => True
  | _ => False

/-- The call is marked, and is not done. -/
def Phase.sent : Phase Value → Prop
  | .dispatched | .running | .answered _ => True
  | _ => False

/-- The call may have entered the runner. -/
def Phase.late : Phase Value → Prop
  | .running | .answered _ | .ended => True
  | _ => False

/-- The call does not enter the runner any more, and has not. -/
def Phase.left : Phase Value → Prop
  | .refused | .ended => True
  | _ => False

variable {p : Phase Value} {op : Op Value} {told : Told} {s : System Value} {request_id : String}
  {f : Flow Value} {now : ℤ} {p' : Phase Value} {a : Attempt} {db : Database Value} {id x : String}
  {current : Option Connection} {revision : Connection}

theorem allows_cases (h : p.allows op = true) :
    (∃ id, op = .release_pending id ∧ (p = .acquired ∨ p = .denied ∨ p = .refused)) ∨
    (∃ id q, op = .reserve id q ∧ p = .acquired) ∨
    (∃ id, op = .bind id ∧ p = .reserved) ∨
    (∃ id current revision, op = .mark id current revision ∧ p = .bound) ∨
    (∃ id, op = .release_not_dispatched id ∧ p = .refused) ∨
    ∃ answer, p = .answered answer ∧ ((∃ id o failed, op = .finish id o failed) ∨
      (∃ id, op = .finish_not_dispatched id) ∨ ∃ id, op = .release_quota id) := by
  rw [Phase.allows.eq_def] at h
  split at h
  next id => exact .inl ⟨id, rfl, .inl rfl⟩
  next id q => exact .inr (.inl ⟨id, q, rfl, rfl⟩)
  next id => exact .inl ⟨id, rfl, .inr (.inl rfl)⟩
  next id => exact .inr (.inr (.inl ⟨id, rfl, rfl⟩))
  next id current revision => exact .inr (.inr (.inr (.inl ⟨id, current, revision, rfl, rfl⟩)))
  next id => exact .inr (.inr (.inr (.inr (.inl ⟨id, rfl, rfl⟩))))
  next id => exact .inl ⟨id, rfl, .inr (.inr rfl)⟩
  next output id o failed =>
    exact .inr (.inr (.inr (.inr (.inr ⟨_, rfl, .inl ⟨id, o, failed, rfl⟩⟩))))
  next id o failed =>
    exact .inr (.inr (.inr (.inr (.inr ⟨_, rfl, .inl ⟨id, o, failed, rfl⟩⟩))))
  next id => exact .inr (.inr (.inr (.inr (.inr ⟨_, rfl, .inr (.inl ⟨id, rfl⟩)⟩))))
  next id => exact .inr (.inr (.inr (.inr (.inr ⟨_, rfl, .inr (.inr ⟨id, rfl⟩)⟩))))
  next id o failed =>
    exact .inr (.inr (.inr (.inr (.inr ⟨_, rfl, .inl ⟨id, o, failed, rfl⟩⟩))))
  next id o failed =>
    exact .inr (.inr (.inr (.inr (.inr ⟨_, rfl, .inl ⟨id, o, failed, rfl⟩⟩))))
  · cases h

/-- The transactions of a mutation, without those of a read. -/
def Op.mutation : Op Value → Bool
  | .release_pending _ | .reserve _ _ | .bind _ | .mark _ _ _ | .release_quota _ => true
  | .release_not_dispatched _ | .finish_not_dispatched _ | .finish _ _ _ => true
  | _ => false

theorem allows_mutation (h : p.allows op = true) : op.mutation = true := by
  rcases allows_cases h with ⟨id, rfl, -⟩ | ⟨id, q, rfl, -⟩ | ⟨id, rfl, -⟩ |
    ⟨id, current, revision, rfl, -⟩ | ⟨id, rfl, -⟩ |
    ⟨answer, -, ⟨id, o, failed, rfl⟩ | ⟨id, rfl⟩ | ⟨id, rfl⟩⟩
  all_goals rfl

theorem early_of_next {ok : Bool} (hallows : p.allows op = true) (h : (p.next told ok op).early) :
    p.early ∧ ∀ id current revision, op ≠ .mark id current revision := by
  rw [Phase.next.eq_def] at h
  split at h
  · exact h.elim
  rcases allows_cases hallows with ⟨id, rfl, -⟩ | ⟨id, q, rfl, rfl⟩ | ⟨id, rfl, rfl⟩ |
    ⟨id, current, revision, rfl, rfl⟩ | ⟨id, rfl, rfl⟩ |
    ⟨answer, rfl, ⟨id, o, failed, rfl⟩ | ⟨id, rfl⟩ | ⟨id, rfl⟩⟩
  · exact h.elim
  · exact ⟨trivial, fun _ _ _ heq => by cases heq⟩
  · exact ⟨trivial, fun _ _ _ heq => by cases heq⟩
  · simp only at h
    split at h
    · exact h.elim
    · exact h.elim
  · exact h.elim
  · exact h.elim
  · exact h.elim
  · exact h.elim

theorem sent_of_next {ok : Bool} (hallows : p.allows op = true) (h : (p.next told ok op).sent) :
    p.sent ∨ ok = true ∧ ∃ id current revision, op = .mark id current revision := by
  rw [Phase.next.eq_def] at h
  split at h
  · exact h.elim
  rcases allows_cases hallows with ⟨id, rfl, -⟩ | ⟨id, q, rfl, rfl⟩ | ⟨id, rfl, rfl⟩ |
    ⟨id, current, revision, rfl, rfl⟩ | ⟨id, rfl, rfl⟩ |
    ⟨answer, rfl, ⟨id, o, failed, rfl⟩ | ⟨id, rfl⟩ | ⟨id, rfl⟩⟩
  · exact h.elim
  · simp only at h
    split at h
    · exact h.elim
    · exact h.elim
  · simp only at h
    split at h
    · exact h.elim
    · exact h.elim
  · simp only at h
    split at h
    next hok =>
      rw [Bool.and_eq_true] at hok
      exact .inr ⟨hok.1, id, current, revision, rfl⟩
    · exact h.elim
  · exact h.elim
  · exact h.elim
  · exact h.elim
  · exact .inl trivial

theorem late_next (told : Told) (ok : Bool) (hallows : p.allows op = true) (h : p.late) :
    (p.next told ok op).late := by
  rw [Phase.next.eq_def]
  split
  · trivial
  rcases allows_cases hallows with ⟨id, rfl, rfl | rfl | rfl⟩ | ⟨id, q, rfl, rfl⟩ |
    ⟨id, rfl, rfl⟩ | ⟨id, current, revision, rfl, rfl⟩ | ⟨id, rfl, rfl⟩ |
    ⟨answer, rfl, ⟨id, o, failed, rfl⟩ | ⟨id, rfl⟩ | ⟨id, rfl⟩⟩
  · exact h.elim
  · exact h.elim
  · exact h.elim
  · exact h.elim
  · exact h.elim
  · exact h.elim
  · exact h.elim
  · trivial
  · trivial
  · trivial

theorem left_next (told : Told) (ok : Bool) (hallows : p.allows op = true) (h : p.left) :
    (p.next told ok op).left := by
  rw [Phase.next.eq_def]
  split
  · trivial
  rcases allows_cases hallows with ⟨id, rfl, rfl | rfl | rfl⟩ | ⟨id, q, rfl, rfl⟩ |
    ⟨id, rfl, rfl⟩ | ⟨id, current, revision, rfl, rfl⟩ | ⟨id, rfl, rfl⟩ |
    ⟨answer, rfl, ⟨id, o, failed, rfl⟩ | ⟨id, rfl⟩ | ⟨id, rfl⟩⟩
  · exact h.elim
  · exact h.elim
  · trivial
  · exact h.elim
  · exact h.elim
  · exact h.elim
  · trivial
  · exact h.elim
  · exact h.elim
  · exact h.elim

/-! ## Transactions -/

omit [DecidableEq Value] in
theorem keyed_iff : s.keyed key request_id = true ↔ s.Keyed key request_id := by
  rw [System.keyed, Option.any_eq_true_iff_get]
  constructor
  · rintro ⟨hsome, hkey⟩
    exact ⟨_, (Option.some_get hsome).symm, of_decide_eq_true hkey⟩
  · rintro ⟨x, hx, hkey⟩
    refine ⟨by rw [hx]; rfl, decide_eq_true ?_⟩
    rw [Option.get_of_eq_some _ hx]
    exact hkey

theorem permits_keyed (h : f.permits key op = true) (hid : op.request_id = some request_id)
    (hacquire : ∀ a disabled, op ≠ .acquire a disabled) (hkeyed : f.system.Keyed key request_id) :
    ∃ p, f.phases request_id = some p ∧ p.allows op = true := by
  obtain ⟨x, hx, hkey⟩ := hkeyed
  have hrequest : x.request_id = request_id := (Table.find_eq_some.mp hx).2
  rw [Flow.permits.eq_def] at h
  split at h
  next a disabled => exact absurd rfl (hacquire a disabled)
  · rw [hid, Option.bind_some, hx, Option.all_some, Bool.or_eq_true, decide_eq_true_eq,
      hrequest] at h
    rcases h with hother | hany
    · exact absurd hkey hother
    · obtain ⟨p, hp, hallows⟩ := (Option.any_eq_true _ _).mp hany
      exact ⟨p, hp, hallows⟩

omit [DecidableEq Value] in
theorem phases_after_call (f : Flow Value) (now : ℤ) (told : Told)
    (hacquire : ∀ a disabled, op ≠ .acquire a disabled) :
    f.phases_after cal config key (now, op) told =
      match op.request_id with
      | none => f.phases
      | some request_id =>
        match f.phases request_id with
        | none => f.phases
        | some p =>
          f.to_phase request_id (p.next told (f.system.succeeds cal config (now, op)) op) := by
  cases op with
  | acquire a disabled => exact absurd rfl (hacquire a disabled)
  | _ => rfl

omit [DecidableEq Value] in
/-- The phases after a transaction: a call acquires, the call that makes it moves, and the
others stay. -/
theorem phases_after_cases (h : f.phases_after cal config key (now, op) told request_id = some p') :
    (f.phases request_id = some p' ∧ (op.request_id = some request_id →
        ∃ a disabled, op = .acquire a disabled)) ∨
    (∃ a disabled, op = .acquire a disabled ∧ a.key = key ∧ a.request_id = request_id ∧
        f.system.succeeds cal config (now, op) = true ∧ (p' = .acquired ∨ p' = .ended)) ∨
    ∃ p, f.phases request_id = some p ∧ op.request_id = some request_id ∧
        (∀ a disabled, op ≠ .acquire a disabled) ∧
        p' = p.next told (f.system.succeeds cal config (now, op)) op := by
  by_cases hacquire : ∃ a disabled, op = .acquire a disabled
  · obtain ⟨a, disabled, rfl⟩ := hacquire
    simp only [Flow.phases_after] at h
    split at h
    next hsame =>
      rw [Flow.to_phase] at h
      split at h
      next hid =>
        refine .inr (.inl ⟨a, disabled, rfl, hsame.1, hid.symm, hsame.2, ?_⟩)
        split at h
        · cases h
          exact .inl rfl
        · cases h
          exact .inr rfl
      · exact .inl ⟨h, fun _ => ⟨a, disabled, rfl⟩⟩
    · exact .inl ⟨h, fun _ => ⟨a, disabled, rfl⟩⟩
  · have hnot : ∀ a disabled, op ≠ .acquire a disabled :=
      fun a disabled heq => hacquire ⟨a, disabled, heq⟩
    rw [phases_after_call f now told hnot] at h
    cases hid : op.request_id with
    | none =>
      rw [hid] at h
      exact .inl ⟨h, fun hid' => by cases hid'⟩
    | some request_id' =>
      rw [hid] at h
      simp only at h
      by_cases hsame : request_id = request_id'
      · subst hsame
        cases hp : f.phases request_id with
        | none =>
          rw [hp] at h
          exact absurd (hp.symm.trans h) (by simp)
        | some p =>
          rw [hp] at h
          simp only [Flow.to_phase, if_true] at h
          cases h
          exact .inr (.inr ⟨p, rfl, rfl, hnot, rfl⟩)
      · refine .inl ⟨?_, fun hid' => absurd (Option.some.inj hid').symm hsame⟩
        cases hp : f.phases request_id' with
        | none =>
          rw [hp] at h
          exact h
        | some p =>
          rw [hp] at h
          simp only [Flow.to_phase, if_neg hsame] at h
          exact h

omit [DecidableEq Value] in
theorem phases_after_some (told : Told) (hp : f.phases request_id = some p)
    (hfound : (f.system.executes.find request_id).isSome = true) :
    f.phases_after cal config key (now, op) told request_id = some p ∨
      op.request_id = some request_id ∧ (∀ a disabled, op ≠ .acquire a disabled) ∧
      f.phases_after cal config key (now, op) told request_id
        = some (p.next told (f.system.succeeds cal config (now, op)) op) := by
  by_cases hacquire : ∃ a disabled, op = .acquire a disabled
  · obtain ⟨a, disabled, rfl⟩ := hacquire
    left
    simp only [Flow.phases_after]
    split
    next hsame =>
      rw [Flow.to_phase]
      split
      next hid =>
        -- a call that has acquired does not acquire again
        have hsucceeds := hsame.2
        rw [System.succeeds, Bool.and_eq_true, Option.isNone_iff_eq_none, ← hid] at hsucceeds
        rw [hsucceeds.1] at hfound
        cases hfound
      · exact hp
    · exact hp
  · have hnot : ∀ a disabled, op ≠ .acquire a disabled :=
      fun a disabled heq => hacquire ⟨a, disabled, heq⟩
    rw [phases_after_call f now told hnot]
    cases hid : op.request_id with
    | none => exact .inl hp
    | some request_id' =>
      simp only
      by_cases hsame : request_id = request_id'
      · subst hsame
        refine .inr ⟨rfl, hnot, ?_⟩
        rw [hp]
        exact if_pos rfl
      · left
        cases f.phases request_id' with
        | none => exact hp
        | some p' =>
          simp only [Flow.to_phase, if_neg hsame]
          exact hp

omit [DecidableEq Value] in
theorem events_cases (cal : Calendar) (config : PolicyConfig) (key : String) (f : Flow Value)
    (now : ℤ) (op : Op Value) :
    f.events cal config key (now, op) = [] ∨
    (∃ id current revision, op = .mark id current revision ∧ f.system.Keyed key id ∧
      f.system.succeeds cal config (now, op) = true ∧
      f.events cal config key (now, op) = [.marked id]) ∨
    (∃ id, op = .release_not_dispatched id ∧ f.system.Keyed key id ∧
      f.events cal config key (now, op) = [.released id]) ∨
    (∃ id, op = .finish_not_dispatched id ∧ f.system.Keyed key id ∧
      f.events cal config key (now, op) = [.not_dispatched id]) ∨
    ∃ command, op = .reconcile command ∧
      f.events cal config key (now, op) = [.reconciled command.expected_request_id] := by
  rw [Flow.events.eq_def]
  split
  next id current revision hop =>
    cases hop
    split
    next hboth =>
      rw [Bool.and_eq_true, keyed_iff] at hboth
      exact .inr (.inl ⟨id, current, revision, rfl, hboth.1, hboth.2, rfl⟩)
    · exact .inl rfl
  next id hop =>
    cases hop
    split
    next hkeyed => exact .inr (.inr (.inl ⟨id, rfl, keyed_iff.mp hkeyed, rfl⟩))
    · exact .inl rfl
  next id hop =>
    cases hop
    split
    next hkeyed => exact .inr (.inr (.inr (.inl ⟨id, rfl, keyed_iff.mp hkeyed, rfl⟩)))
    · exact .inl rfl
  next command hop =>
    cases hop
    split
    · exact .inr (.inr (.inr (.inr ⟨command, rfl, rfl⟩)))
    · exact .inl rfl
  · exact .inl rfl

/-! ## The calls and their reservations -/

/-- The calls of the key are calls of the system, none of them has a deadline of its own,
and a call that is not marked has not dispatched its reservation. -/
structure Flow.Calls (key : String) (f : Flow Value) : Prop where
  tracked : ∀ id p, f.phases id = some p →
    ∃ x, f.system.executes.find id = some x ∧ x.attempt.key = key
  read : f.system.Read
  reads : ∀ a t, (a, t) ∈ f.system.reads → a.key ≠ key
  quotas : f.system.Quotas
  fresh : ∀ id p x quota month r, f.phases id = some p → p.early →
    f.system.executes.find id = some x → x.quota = some (quota, month) →
    f.system.db.reservations.find quota = some r → r.state ≠ .dispatched

theorem step_transact (h : f.permits key op = true) (now : ℤ) (told : Told) :
    f.step cal config key (now, .transact op told) =
      { system := f.system.step cal config (now, op)
        phases := f.phases_after cal config key (now, op) told
        log := f.log ++ f.events cal config key (now, op) } :=
  if_pos h

omit [DecidableEq Value] in
theorem acquired_execute {disabled : Bool} (hnew : s.executes.find a.request_id = none)
    (hacquire : s.db.acquire a disabled now = .ok (.Acquired, db)) :
    (s.step cal config (now, .acquire a disabled)).executes.find a.request_id
      = some { attempt := a, quota := none, bound := false } := by
  simp only [System.step]
  cases hinsert : s.executes.insert { attempt := a, quota := none, bound := false } with
  | none =>
    obtain ⟨x, hx⟩ := Table.insert_eq_none hinsert
    exact absurd (hnew.symm.trans hx) (by simp)
  | some executes =>
    rw [hacquire]
    exact (Table.find_insert hinsert a.request_id).trans (if_pos rfl)

omit [DecidableEq Value] in
theorem succeeds_acquire {disabled : Bool}
    (h : s.succeeds cal config (now, .acquire a disabled) = true) :
    s.executes.find a.request_id = none ∧
      ∃ db, s.db.acquire a disabled now = .ok (.Acquired, db) := by
  rw [System.succeeds, Bool.and_eq_true, Option.isNone_iff_eq_none] at h
  obtain ⟨hnew, hacquire⟩ := h
  split at hacquire
  next db hok => exact ⟨hnew, db, hok⟩
  · cases hacquire

omit [DecidableEq Value] in
/-- The reservation a step dispatches: that of the call it marks. -/
def System.dispatches (s : System Value) : Op Value → Option String
  | .mark request_id _ _ => (s.executes.find request_id).bind (fun x => x.quota.map (·.1))
  | _ => none

omit [DecidableEq Value] in
theorem step_dispatches (hread : s.Read) (now : ℤ) (op : Op Value) :
    Changes cal config (Dispatches (s.dispatches op)) s.db (s.step cal config (now, op)).db := by
  refine step_changes (dispatch_permits hread ?_)
  rintro request_id current revision x id month rfl hx hquota
  rw [System.dispatches, hx, Option.bind_some, hquota, Option.map_some]

omit [DecidableEq Value] in
theorem transact_tracked (h : f.Calls key)
    (hp : f.phases_after cal config key (now, op) told id = some p) :
    ∃ x, (f.system.step cal config (now, op)).executes.find id = some x ∧
      x.attempt.key = key := by
  rcases phases_after_cases hp with ⟨hbefore, -⟩ | ⟨a, disabled, rfl, hkey, rfl, hok, -⟩ |
    ⟨p, hbefore, -, -, -⟩
  · obtain ⟨x, hx, hkey⟩ := h.tracked id _ hbefore
    obtain ⟨x', hx', hlater⟩ := @step_executes _ cal config _ _ _ hx (now, op)
    exact ⟨x', hx', by rw [hlater.attempt]; exact hkey⟩
  · obtain ⟨hnew, db, hacquire⟩ := succeeds_acquire hok
    exact ⟨_, acquired_execute hnew hacquire, hkey⟩
  · obtain ⟨x, hx, hkey⟩ := h.tracked id _ hbefore
    obtain ⟨x', hx', hlater⟩ := @step_executes _ cal config _ _ _ hx (now, op)
    exact ⟨x', hx', by rw [hlater.attempt]; exact hkey⟩

theorem transact_reads (h : f.Calls key) (hpermits : f.permits key op = true)
    {t : Option TimeoutRead} (hmem : (a, t) ∈ (f.system.step cal config (now, op)).reads) :
    a.key ≠ key := by
  rcases @step_reads _ cal config f.system now op with hsame |
    ⟨request_id, id, x, rfl, hx, -, hstep⟩
  · rw [hsame] at hmem
    exact h.reads a t hmem
  · rw [hstep] at hmem
    rcases List.mem_append.mp hmem with hold | hnew
    · exact h.reads a t hold
    · obtain ⟨rfl, -⟩ := Prod.mk.inj (List.mem_singleton.mp hnew)
      intro hkey
      obtain ⟨p, -, hallows⟩ := permits_keyed hpermits rfl
        (fun _ _ heq => by cases heq) ⟨x, hx, hkey⟩
      cases allows_mutation hallows

theorem transact_fresh (h : f.Calls key) (hpermits : f.permits key op = true) {x : Execute}
    {quota month : String} {r : Reservation}
    (hp : f.phases_after cal config key (now, op) told id = some p) (hearly : p.early)
    (hx : (f.system.step cal config (now, op)).executes.find id = some x)
    (hquota : x.quota = some (quota, month))
    (hr : (f.system.step cal config (now, op)).db.reservations.find quota = some r) :
    r.state ≠ .dispatched := by
  rcases @step_quota _ cal config _ (now, op) _ _ _ _ hx hquota with
    ⟨x0, hx0, hquota0⟩ | ⟨-, ⟨r', hr', hpending⟩, -⟩
  · intro hdispatched
    -- the call was there, not marked, and it is not the one that is marked
    obtain ⟨p0, hp0, hearly0, hnot⟩ : ∃ p0, f.phases id = some p0 ∧ p0.early ∧
        ∀ current revision, op ≠ .mark id current revision := by
      rcases phases_after_cases hp with ⟨hbefore, hother⟩ | ⟨a, disabled, rfl, -, rfl, hok, -⟩ |
        ⟨p0, hp0, hid, hacquire, rfl⟩
      · refine ⟨p, hbefore, hearly, ?_⟩
        rintro current revision rfl
        obtain ⟨a, disabled, heq⟩ := hother rfl
        cases heq
      · have hnew := (succeeds_acquire hok).1
        exact absurd (hnew.symm.trans hx0) (by simp)
      · obtain ⟨p1, hp1, hallows⟩ := permits_keyed hpermits hid hacquire (h.tracked id p0 hp0)
        rw [hp0] at hp1
        cases hp1
        obtain ⟨hearly0, hnot⟩ := early_of_next hallows hearly
        exact ⟨p0, hp0, hearly0, fun current revision => hnot id current revision⟩
    rcases (step_dispatches h.read now op).dispatched hr hdispatched with hdispatches |
      ⟨r0, hr0, hstate⟩
    · -- the reservation of another call is another one
      cases op with
      | mark request_id current revision =>
        obtain ⟨x1, hx1, hmap⟩ := Option.bind_eq_some_iff.mp hdispatches
        obtain ⟨⟨quota1, month1⟩, hquota1, rfl⟩ := Option.map_eq_some_iff.mp hmap
        have hsame := h.quotas.own id request_id x0 x1 _ month month1 hx0 hx1 hquota0 hquota1
        exact hnot current revision (by rw [hsame])
      | _ => cases hdispatches
    · exact h.fresh id p0 x0 quota month r0 hp0 hearly0 hx0 hquota0 hr0 hstate
  · rw [hr'] at hr
    cases hr
    rw [hpending]
    exact fun heq => by cases heq

theorem transact_calls (h : f.Calls key) (hpermits : f.permits key op = true) (now : ℤ)
    (told : Told) : (f.step cal config key (now, .transact op told)).Calls key := by
  rw [step_transact hpermits]
  refine ⟨?_, ?_, ?_, ?_, ?_⟩
  · exact fun id p hp => transact_tracked h hp
  · exact step_read (step_changes (free_permits h.read now op))
      h.read
  · exact fun a t hmem => transact_reads h hpermits hmem
  · exact step_quotas h.read h.quotas (now, op)
  · exact fun id p x quota month r hp hearly hx hquota hr =>
      transact_fresh h hpermits hp hearly hx hquota hr

/-! ## The claim of the key -/

/-- A key with a record has no claim, a key that is closed has no claim that waits, and a
claim is that of a call with its identity. -/
structure System.Guarded (key : String) (s : System Value) : Prop where
  recorded : ∀ r, (s.db.view key).record = some r → (s.db.view key).claim = none
  closed : ∀ c, (s.db.view key).claim = some c → (s.db.view key).audits ≠ [] →
    c.dispatched_at.isSome = true
  held : ∀ c, (s.db.view key).claim = some c → ∃ x,
    s.executes.find c.request_id = some x ∧ x.attempt.key = key ∧
      x.attempt.matches_claim c = true

omit [DecidableEq Value] in
theorem matches_claim_self (a : Attempt) (now : ℤ) : a.matches_claim (a.claim now) = true := by
  simp [Attempt.matches_claim, Attempt.claim]

omit [DecidableEq Value] in
theorem System.Guarded.later (h : s.Guarded key) (op : ℤ × Op Value) {c c' : Claim}
    (hc : (s.db.view key).claim = some c) (hid : c'.request_id = c.request_id)
    (hsame : ∀ a : Attempt, a.matches_claim c' = a.matches_claim c) :
    ∃ x, (s.step cal config op).executes.find c'.request_id = some x ∧ x.attempt.key = key ∧
      x.attempt.matches_claim c' = true := by
  obtain ⟨x, hx, hkey, hmatches⟩ := h.held c hc
  obtain ⟨x', hx', hlater⟩ := @step_executes _ cal config _ _ _ hx op
  refine ⟨x', by rw [hid]; exact hx', by rw [hlater.attempt]; exact hkey, ?_⟩
  rw [hsame, hlater.attempt]
  exact hmatches

omit [DecidableEq Value] in
theorem claimed_execute {s : System Value} {op : ℤ × Op Value} {m : Move Value} {a : Attempt}
    {now : ℤ} (hmakes : s.Makes cal key op m) (hm : m = .claim a now ∨ m = .take_over a now) :
    a.key = key ∧ (s.step cal config op).executes.find a.request_id
      = some { attempt := a, quota := none, bound := false } := by
  obtain ⟨now', op⟩ := op
  cases op with
  | acquire a' disabled =>
    have hmakes' : a'.key = key ∧ s.executes.find a'.request_id = none ∧
        (∃ db, s.db.acquire a' disabled now' = .ok (.Acquired, db)) ∧
        (m = .claim a' now' ∨ m = .take_over a' now') := by
      rcases hm with rfl | rfl
      · exact hmakes
      · exact hmakes
    obtain ⟨hkey, hnew, ⟨db, hacquire⟩, hm'⟩ := hmakes'
    have hsame : a' = a := by
      rcases hm with rfl | rfl
      · rcases hm' with heq | heq
        · cases heq
          rfl
        · cases heq
      · rcases hm' with heq | heq
        · cases heq
        · cases heq
          rfl
    subst hsame
    exact ⟨hkey, acquired_execute hnew hacquire⟩
  | release_pending_with_reservation request_id =>
    rcases hm with rfl | rfl
    · rcases hmakes.2 with heq | heq <;> cases heq
    · rcases hmakes.2 with heq | heq <;> cases heq
  | release_not_dispatched request_id =>
    rcases hm with rfl | rfl
    · rcases hmakes.2 with heq | heq <;> cases heq
    · rcases hmakes.2 with heq | heq <;> cases heq
  | finish request_id output failed =>
    rcases hm with rfl | rfl
    · obtain ⟨x, o, -, -, -, heq⟩ := hmakes
      cases heq
    · obtain ⟨x, o, -, -, -, heq⟩ := hmakes
      cases heq
  | close_timed_out i outcome =>
    rcases hm with rfl | rfl
    · obtain ⟨a', t, -, -, heq⟩ := hmakes
      cases heq
    · obtain ⟨a', t, -, -, heq⟩ := hmakes
      cases heq
  | reconcile command =>
    rcases hm with rfl | rfl
    · rcases hmakes.2.2 with ⟨-, heq⟩ | ⟨u, heq⟩ <;> cases heq
    · rcases hmakes.2.2 with ⟨-, heq⟩ | ⟨u, heq⟩ <;> cases heq
  | reserve request_id q => rcases hm with rfl | rfl <;> exact hmakes.elim
  | bind request_id => rcases hm with rfl | rfl <;> exact hmakes.elim
  | read_timed_out request_id id => rcases hm with rfl | rfl <;> exact hmakes.elim
  | release_pending request_id => rcases hm with rfl | rfl <;> cases hmakes.2
  | mark request_id current revision => rcases hm with rfl | rfl <;> cases hmakes.2
  | release_quota request_id => rcases hm with rfl | rfl <;> cases hmakes.2
  | finish_not_dispatched request_id => rcases hm with rfl | rfl <;> cases hmakes.2
  | finish_read_failure request_id => rcases hm with rfl | rfl <;> cases hmakes.2
  | finish_read_timeout request_id id outcome => rcases hm with rfl | rfl <;> cases hmakes.2

omit [DecidableEq Value] in
theorem filter_some {c : Claim} {claim : Option Claim} {p : Claim → Bool}
    (h : claim.filter p = some c) : claim = some c :=
  (Option.filter_eq_some_iff.mp h).1

omit [DecidableEq Value] in
/-- No operation breaks the guard of a key. -/
theorem step_guarded (h : s.Guarded key) (hkey : key ≠ "") (op : ℤ × Op Value) :
    (s.step cal config op).Guarded key := by
  obtain ⟨m, hmoves, hmakes⟩ := step_moves cal config s op hkey
  -- what is left of a claim when some are dropped
  have hdrop : ∀ {p : Claim → Bool}, (s.step cal config op).db.view key
      = { s.db.view key with claim := (s.db.view key).claim.filter p } →
      (s.step cal config op).Guarded key := by
    intro p hview
    refine ⟨?_, ?_, ?_⟩
    · intro r hr
      rw [hview] at hr ⊢
      have hnone := h.recorded r hr
      change (s.db.view key).claim.filter p = none
      rw [hnone]
      rfl
    · intro c hc haudits
      rw [hview] at hc haudits
      exact h.closed c (filter_some hc) haudits
    · intro c hc
      rw [hview] at hc
      exact h.later op (filter_some hc) rfl (fun _ => rfl)
  generalize hview : (s.step cal config op).db.view key = v at hmoves
  cases hmoves with
  | stay =>
    refine ⟨?_, ?_, ?_⟩
    · rw [hview]
      exact h.recorded
    · rw [hview]
      exact h.closed
    · rw [hview]
      exact fun c hc => h.later op hc rfl (fun _ => rfl)
  | claim a now free unclaimed =>
    obtain ⟨hsame, hx⟩ := @claimed_execute _ _ config _ _ _ _ _ _ hmakes (.inl rfl)
    refine ⟨?_, ?_, ?_⟩
    · rw [hview]
      exact fun r hr => absurd (free.1.symm.trans hr) (by simp)
    · rw [hview]
      exact fun c hc haudits => absurd free.2 haudits
    · rw [hview]
      rintro c ⟨⟩
      exact ⟨_, hx, hsame, matches_claim_self a now⟩
  | take_over a now c free held same pending =>
    obtain ⟨hsame, hx⟩ := @claimed_execute _ _ config _ _ _ _ _ _ hmakes (.inr rfl)
    refine ⟨?_, ?_, ?_⟩
    · rw [hview]
      exact fun r hr => absurd (free.1.symm.trans hr) (by simp)
    · rw [hview]
      exact fun c hc haudits => absurd free.2 haudits
    · rw [hview]
      rintro c' ⟨⟩
      exact ⟨_, hx, hsame, same⟩
  | drop request_id => exact hdrop hview
  | give_up request_id => exact hdrop hview
  | mark request_id now c held own pending =>
    refine ⟨?_, ?_, ?_⟩
    · rw [hview]
      intro r hr
      have hnone := h.recorded r hr
      rw [held] at hnone
      cases hnone
    · rw [hview]
      rintro c' ⟨⟩ -
      rfl
    · rw [hview]
      rintro c' ⟨⟩
      exact h.later op held rfl (fun _ => rfl)
  | finish a output c held own dispatched =>
    refine ⟨?_, ?_, ?_⟩
    · rw [hview]
      exact fun r hr => rfl
    · rw [hview]
      rintro c' ⟨⟩
    · rw [hview]
      rintro c' ⟨⟩
  | close u c held own dispatched terminal =>
    refine ⟨?_, ?_, ?_⟩
    · rw [hview]
      exact h.recorded
    · rw [hview]
      intro c' hc' _
      have hsame : some c = some c' := held.symm.trans hc'
      cases hsame
      exact dispatched
    · rw [hview]
      exact fun c hc => h.later op hc rfl (fun _ => rfl)

/-! ## The log -/

/-- The claim of a marked call is no longer its own: the runner has told that nothing was
dispatched, the call was refused and left, or an operator has proven it. -/
def GivenUp (log : List Event) (x : String) : Prop :=
  .not_dispatched x ∈ log ∨ .released x ∈ log ∨ .reconciled x ∈ log

/-- A call is marked after those marked before it have given up, and enters once, after
its mark. -/
def InTurn (log : List Event) : Event → Prop
  | .marked y => ∀ x, .marked x ∈ log → x ≠ y ∧ GivenUp log x
  | .entered y => .marked y ∈ log ∧ .entered y ∉ log
  | _ => True

theorem GivenUp.mono {log log' : List Event} (h : GivenUp log x) (hsub : log ⊆ log') :
    GivenUp log' x :=
  h.imp (fun h => hsub h) (Or.imp (fun h => hsub h) (fun h => hsub h))

/-- The log, the phases and the claim of the key agree. -/
structure Flow.Ordered (key : String) (f : Flow Value) : Prop where
  marked : ∀ id, .marked id ∈ f.log → ∃ p, f.phases id = some p ∧ ¬ p.early
  entered : ∀ id, .entered id ∈ f.log → ∃ p, f.phases id = some p ∧ p.late
  released : ∀ id, .released id ∈ f.log → ∃ p, f.phases id = some p ∧ p.left
  sent : ∀ id p, f.phases id = some p → p.sent → .marked id ∈ f.log
  exclusive : ∀ id, .entered id ∈ f.log → .released id ∉ f.log
  /-- A marked call has given up, holds the dispatched claim, or some call has finished. -/
  fenced : ∀ id, .marked id ∈ f.log → GivenUp f.log id ∨
    (∃ c, (f.system.db.view key).claim = some c ∧ c.request_id = id ∧
      c.dispatched_at.isSome = true) ∨ ∃ r, (f.system.db.view key).record = some r
  in_turn : Machine.Logged InTurn f.log

structure Flow.Inv (key : String) (f : Flow Value) : Prop where
  calls : f.Calls key
  guarded : f.system.Guarded key
  ordered : f.Ordered key

/-- A call of the key that is marked: it holds the claim of the key, with its identity, the
claim waits, and the key is free. -/
def System.MarksOwn (s : System Value) (key request_id : String) : Prop :=
  (s.db.view key).Free ∧ ∃ x c, s.executes.find request_id = some x ∧ x.attempt.key = key ∧
    (s.db.view key).claim = some c ∧ c.request_id = request_id ∧ c.dispatched_at = none ∧
    x.attempt.matches_claim c = true

/-- A mark that succeeds is that of the call whose claim it is. -/
theorem mark_own {f : Flow Value} (h : f.Inv key) (hkey : key ≠ "") {now : ℤ} {id : String}
    {current : Option Connection} {revision : Connection}
    (hpermits : f.permits key (.mark id current revision) = true)
    (hkeyed : f.system.Keyed key id)
    (hok : f.system.succeeds cal config (now, .mark id current revision) = true) :
    f.system.MarksOwn key id ∧ ∃ c,
      ((f.system.step cal config (now, .mark id current revision)).db.view key).claim = some c ∧
      c.request_id = id ∧ c.dispatched_at.isSome = true := by
  obtain ⟨p, hp, hallows⟩ := permits_keyed hpermits rfl (fun _ _ heq => by cases heq) hkeyed
  have hearly : p.early := by
    rcases allows_cases hallows with ⟨_, heq, -⟩ | ⟨_, _, heq, -⟩ | ⟨_, heq, -⟩ |
      ⟨_, _, _, -, rfl⟩ | ⟨_, heq, -⟩ | ⟨_, -, ⟨_, _, _, heq⟩ | ⟨_, heq⟩ | ⟨_, heq⟩⟩
    · cases heq
    · cases heq
    · cases heq
    · trivial
    · cases heq
    · cases heq
    · cases heq
    · cases heq
  rw [System.succeeds, Option.any_eq_true] at hok
  obtain ⟨⟨x, quota, month⟩, hreserved, hmark⟩ := hok
  rw [Bool.and_eq_true] at hmark
  obtain ⟨hbound, hmark⟩ := hmark
  obtain ⟨hx, hquota⟩ := reserved_eq_some hreserved
  have hrequest : x.attempt.request_id = id := (Table.find_eq_some.mp hx).2
  have hxkey : x.attempt.key = key := by
    obtain ⟨x', hx', hkey'⟩ := hkeyed
    rw [hx] at hx'
    cases hx'
    exact hkey'
  cases hdb : f.system.db.mark_dispatched_checked_with_reservation x.attempt current revision
      (some (quota, month)) now with
  | error e =>
    simp only [hdb] at hmark
    cases hmark
  | ok db =>
    have hstep : (f.system.step cal config (now, .mark id current revision)).db = db := by
      simp only [System.step, System.mark, hreserved]
      rw [if_neg (fun hnot => by rw [hbound] at hnot; cases hnot.2), hdb]
      rfl
    rw [hstep]
    obtain ⟨m, hmoves, -, hwhich⟩ := mark_moves hdb hkey
    have hm : m = .mark id now := by
      rcases hwhich with ⟨r, hr, hdispatched⟩ | hother | hm
      · exact absurd hdispatched (h.calls.fresh id p x quota month r hp hearly hx hquota hr)
      · exact absurd hxkey hother
      · rw [hm, hrequest]
    subst hm
    generalize hview : db.view key = v at hmoves
    cases hmoves with
    | mark _ _ c held own pending =>
      refine ⟨⟨⟨?_, ?_⟩, x, c, hx, hxkey, held, own, pending, ?_⟩, _, rfl, own, rfl⟩
      · -- a key with a record has no claim
        cases hrecord : (f.system.db.view key).record with
        | none => rfl
        | some r => exact absurd ((h.guarded.recorded r hrecord).symm.trans held) (by simp)
      · by_contra haudits
        have hsome := h.guarded.closed c held haudits
        rw [pending] at hsome
        cases hsome
      · obtain ⟨x', hx', -, hmatches⟩ := h.guarded.held c held
        rw [own, hx] at hx'
        cases hx'
        exact hmatches

/-- A claim of a call of the key that a transaction deletes whatever it is: the log says
why. -/
theorem gives_up (h : f.Inv key) (hpermits : f.permits key op = true)
    (hmakes : f.system.Makes cal key (now, op) (.give_up id)) :
    GivenUp (f.log ++ f.events cal config key (now, op)) id := by
  have hnew : ∀ {e}, f.events cal config key (now, op) = [e] →
      e ∈ f.log ++ f.events cal config key (now, op) := by
    intro e he
    rw [he]
    exact List.mem_append_right _ (List.mem_singleton_self e)
  -- a read finishes, and a mutation does not
  have hmutation : ∀ request_id, op.request_id = some request_id →
      (∀ a disabled, op ≠ .acquire a disabled) → f.system.Keyed key request_id →
      op.mutation = true := by
    intro request_id hid hacquire hkeyed
    obtain ⟨p, -, hallows⟩ := permits_keyed hpermits hid hacquire hkeyed
    exact allows_mutation hallows
  cases op with
  | acquire a disabled => rcases hmakes.2.2.2 with heq | heq <;> cases heq
  | release_pending request_id => cases hmakes.2
  | reserve request_id q => exact hmakes.elim
  | bind request_id => exact hmakes.elim
  | mark request_id current revision => cases hmakes.2
  | release_pending_with_reservation request_id =>
    cases hmutation request_id rfl (fun _ _ heq => by cases heq) hmakes.1
  | release_quota request_id => cases hmakes.2
  | release_not_dispatched request_id =>
    rcases hmakes.2 with heq | heq
    · cases heq
    · cases heq
      exact .inr (.inl (hnew (if_pos (keyed_iff.mpr hmakes.1))))
  | finish_not_dispatched request_id =>
    cases hmakes.2
    exact .inl (hnew (if_pos (keyed_iff.mpr hmakes.1)))
  | finish request_id output failed =>
    obtain ⟨x, o, -, -, -, heq⟩ := hmakes
    cases heq
  | finish_read_failure request_id =>
    cases hmutation request_id rfl (fun _ _ heq => by cases heq) hmakes.1
  | finish_read_timeout request_id quota outcome =>
    cases hmutation request_id rfl (fun _ _ heq => by cases heq) hmakes.1
  | read_timed_out request_id quota => exact hmakes.elim
  | close_timed_out i outcome =>
    obtain ⟨a, t, hget, hsame, -⟩ := hmakes
    exact absurd hsame (h.calls.reads a t (List.mem_of_getElem? hget))
  | reconcile command =>
    obtain ⟨hsame, ⟨db, hdb⟩, ⟨hresolution, heq⟩ | ⟨u, heq⟩⟩ := hmakes
    · cases heq
      refine .inr (.inr (hnew (if_pos ?_)))
      rw [Bool.and_eq_true, Bool.and_eq_true]
      exact ⟨⟨decide_eq_true hsame, decide_eq_true hresolution⟩, by rw [hdb]; rfl⟩
    · cases heq

theorem transact_fenced (h : f.Inv key) (hkey : key ≠ "") (hpermits : f.permits key op = true)
    (hid : .marked id ∈ f.log) : GivenUp (f.log ++ f.events cal config key (now, op)) id ∨
      (∃ c, ((f.system.step cal config (now, op)).db.view key).claim = some c ∧
        c.request_id = id ∧ c.dispatched_at.isSome = true) ∨
      ∃ r, ((f.system.step cal config (now, op)).db.view key).record = some r := by
  obtain ⟨m, hmoves, hmakes⟩ := step_moves cal config f.system (now, op) hkey
  generalize (f.system.step cal config (now, op)).db.view key = v at hmoves
  rcases h.ordered.fenced id hid with hgiven | ⟨c, hc, hown, hdispatched⟩ | ⟨r, hr⟩
  · exact .inl (hgiven.mono (List.subset_append_left _ _))
  · -- the call holds the claim, and it is dispatched
    have hpending : ∀ {c'}, (f.system.db.view key).claim = some c' → c'.dispatched_at ≠ none := by
      intro c' hc' hnone
      rw [hc] at hc'
      cases hc'
      rw [hnone] at hdispatched
      cases hdispatched
    cases hmoves with
    | stay => exact .inr (.inl ⟨c, hc, hown, hdispatched⟩)
    | claim a now free unclaimed => exact absurd (unclaimed.symm.trans hc) (by simp)
    | take_over a now c' free held same pending => exact absurd pending (hpending held)
    | drop request_id =>
      refine .inr (.inl ⟨c, ?_, hown, hdispatched⟩)
      refine Option.filter_eq_some_iff.mpr ⟨hc, ?_⟩
      rw [Bool.not_eq_true', Bool.and_eq_false_iff]
      exact .inr (Option.isNone_eq_false_iff.mpr hdispatched)
    | give_up request_id =>
      by_cases hsame : request_id = id
      · subst hsame
        exact .inl (gives_up h hpermits hmakes)
      · refine .inr (.inl ⟨c, Option.filter_eq_some_iff.mpr ⟨hc, ?_⟩, hown, hdispatched⟩)
        rw [Bool.not_eq_true', decide_eq_false_iff_not]
        exact fun heq => hsame (heq.symm.trans hown)
    | mark request_id now c' held own pending => exact absurd pending (hpending held)
    | finish a output c' held own dispatched => exact .inr (.inr ⟨_, rfl⟩)
    | close u c' held own dispatched terminal => exact .inr (.inl ⟨c, hc, hown, hdispatched⟩)
  · -- a record stays
    right
    right
    cases hmoves with
    | finish a output c' held own dispatched => exact ⟨_, rfl⟩
    | _ => exact ⟨r, hr⟩

theorem phase_after {f : Flow Value} (h : f.Inv key) {now : ℤ} {op : Op Value} (told : Told)
    (hpermits : f.permits key op = true) {id : String} {p : Phase Value}
    (hp : f.phases id = some p) :
    f.phases_after cal config key (now, op) told id = some p ∨
      op.request_id = some id ∧ p.allows op = true ∧
      f.phases_after cal config key (now, op) told id
        = some (p.next told (f.system.succeeds cal config (now, op)) op) := by
  obtain ⟨x, hx, hkey⟩ := h.calls.tracked id p hp
  rcases phases_after_some told hp (by rw [hx]; rfl) with hsame | ⟨hid, hacquire, hnext⟩
  · exact .inl hsame
  · obtain ⟨p', hp', hallows⟩ := permits_keyed hpermits hid hacquire ⟨x, hx, hkey⟩
    rw [hp] at hp'
    cases hp'
    exact .inr ⟨hid, hallows, hnext⟩

theorem phase_moved {f : Flow Value} {now : ℤ} {op : Op Value} (told : Told)
    (hpermits : f.permits key op = true) {id : String} (hid : op.request_id = some id)
    (hacquire : ∀ a disabled, op ≠ .acquire a disabled) (hkeyed : f.system.Keyed key id) :
    ∃ p, f.phases id = some p ∧ p.allows op = true ∧
      f.phases_after cal config key (now, op) told id
        = some (p.next told (f.system.succeeds cal config (now, op)) op) := by
  obtain ⟨p, hp, hallows⟩ := permits_keyed hpermits hid hacquire hkeyed
  refine ⟨p, hp, hallows, ?_⟩
  rw [phases_after_call f now told hacquire, hid]
  simp only [hp]
  exact if_pos rfl

theorem allows_mark (h : p.allows (.mark id current revision) = true) : p = .bound := by
  cases p with
  | bound => rfl
  | answered answer => exact absurd (allows_cases h) (by simp)
  | _ => cases h

theorem allows_release (h : p.allows (.release_not_dispatched id) = true) : p = .refused := by
  cases p with
  | refused => rfl
  | answered answer => exact absurd (allows_cases h) (by simp)
  | _ => cases h

omit [DecidableEq Value] in
theorem logged_cases {event : Event} : event ∈ f.log ++ f.events cal config key (now, op) →
    event ∈ f.log ∨
      match event with
      | .entered _ => False
      | .marked id => ∃ current revision, op = .mark id current revision ∧
          f.system.Keyed key id ∧ f.system.succeeds cal config (now, op) = true
      | .released id => op = .release_not_dispatched id ∧ f.system.Keyed key id
      | .not_dispatched _ | .reconciled _ => True := by
  intro h
  rcases List.mem_append.mp h with hold | hnew
  · exact .inl hold
  rcases events_cases cal config key f now op with he | ⟨_, _, _, hop, hkeyed, hok, he⟩ |
    ⟨_, hop, hkeyed, he⟩ | ⟨_, -, -, he⟩ | ⟨_, -, he⟩ <;> rw [he] at hnew
  · cases hnew
  all_goals cases List.mem_singleton.mp hnew
  · exact .inr ⟨_, _, hop, hkeyed, hok⟩
  · exact .inr ⟨hop, hkeyed⟩
  · exact .inr trivial
  · exact .inr trivial

theorem mark_in_turn (h : f.Inv key) (hkey : key ≠ "") {y : String}
    (hpermits : f.permits key (.mark y current revision) = true) (hkeyed : f.system.Keyed key y)
    (hok : f.system.succeeds cal config (now, .mark y current revision) = true) :
    InTurn f.log (.marked y) := by
  intro x hx
  obtain ⟨⟨hfree, x', c, -, -, hc, hown, hpending, -⟩, -⟩ :=
    @mark_own _ _ cal _ _ _ h hkey _ _ _ _ hpermits hkeyed hok
  refine ⟨?_, ?_⟩
  · -- the call that is marked was not marked before
    rintro rfl
    obtain ⟨p, hp, hnot⟩ := h.ordered.marked x hx
    obtain ⟨p', hp', hallows⟩ := permits_keyed hpermits rfl (fun _ _ heq => by cases heq) hkeyed
    rw [hp] at hp'
    cases hp'
    rw [allows_mark hallows] at hnot
    exact hnot trivial
  · rcases h.ordered.fenced x hx with hgiven | ⟨c', hc', -, hdispatched⟩ | ⟨r, hr⟩
    · exact hgiven
    · rw [hc] at hc'
      cases hc'
      rw [hpending] at hdispatched
      cases hdispatched
    · rw [hfree.1] at hr
      cases hr

theorem transact_in_turn (h : f.Inv key) (hkey : key ≠ "") (hpermits : f.permits key op = true) :
    Machine.Logged InTurn (f.log ++ f.events cal config key (now, op)) := by
  rcases events_cases cal config key f now op with he |
    ⟨y, current, revision, rfl, hkeyed, hok, he⟩ |
    ⟨_, -, -, he⟩ | ⟨_, -, -, he⟩ | ⟨_, -, he⟩
  · rw [he, List.append_nil]
    exact h.ordered.in_turn
  · rw [he]
    exact Machine.logged_append_singleton h.ordered.in_turn
      (mark_in_turn h hkey hpermits hkeyed hok)
  · rw [he]
    exact Machine.logged_append_singleton h.ordered.in_turn trivial
  · rw [he]
    exact Machine.logged_append_singleton h.ordered.in_turn trivial
  · rw [he]
    exact Machine.logged_append_singleton h.ordered.in_turn trivial

/-- A transaction of a permitted call keeps the order. -/
theorem transact_ordered (h : f.Inv key) (hkey : key ≠ "") (hpermits : f.permits key op = true)
    (now : ℤ) (told : Told) : (f.step cal config key (now, .transact op told)).Ordered key := by
  rw [step_transact hpermits]
  refine ⟨?_, ?_, ?_, ?_, ?_, ?_, transact_in_turn h hkey hpermits⟩
  · intro id hid
    rcases logged_cases hid with hold | ⟨current, revision, rfl, hkeyed, -⟩
    · obtain ⟨p, hp, hnot⟩ := h.ordered.marked id hold
      rcases @phase_after _ _ cal config _ _ h now _ told hpermits _ _ hp with
        hsame | ⟨-, hallows, hnext⟩
      · exact ⟨p, hsame, hnot⟩
      · exact ⟨_, hnext, fun hearly => hnot (early_of_next hallows hearly).1⟩
    · obtain ⟨p, hp, hallows, hnext⟩ := @phase_moved _ _ cal config _ _ now _
        told hpermits _ rfl (fun _ _ heq => by cases heq) hkeyed
      exact ⟨_, hnext, fun hearly => (early_of_next hallows hearly).2 id current revision rfl⟩
  · intro id hid
    obtain ⟨p, hp, hlate⟩ := h.ordered.entered id ((logged_cases hid).resolve_right fun hno => hno)
    rcases @phase_after _ _ cal config _ _ h now _ told hpermits _ _ hp with
      hsame | ⟨-, hallows, hnext⟩
    · exact ⟨p, hsame, hlate⟩
    · exact ⟨_, hnext, late_next told _ hallows hlate⟩
  · intro id hid
    rcases logged_cases hid with hold | ⟨rfl, hkeyed⟩
    · obtain ⟨p, hp, hleft⟩ := h.ordered.released id hold
      rcases @phase_after _ _ cal config _ _ h now _ told hpermits _ _ hp with
        hsame | ⟨-, hallows, hnext⟩
      · exact ⟨p, hsame, hleft⟩
      · exact ⟨_, hnext, left_next told _ hallows hleft⟩
    · obtain ⟨p, hp, hallows, hnext⟩ := @phase_moved _ _ cal config _ _ now _
        told hpermits _ rfl (fun _ _ heq => by cases heq) hkeyed
      refine ⟨_, hnext, left_next told _ hallows ?_⟩
      rw [allows_release hallows]
      trivial
  · intro id p hp hsent
    rcases phases_after_cases hp with ⟨hbefore, -⟩ | ⟨a, disabled, -, -, -, -, rfl | rfl⟩ |
      ⟨p0, hp0, hid, hacquire, rfl⟩
    · exact List.mem_append_left _ (h.ordered.sent id p hbefore hsent)
    · exact hsent.elim
    · exact hsent.elim
    · have hkeyed := h.calls.tracked id p0 hp0
      obtain ⟨p1, hp1, hallows⟩ := permits_keyed hpermits hid hacquire hkeyed
      rw [hp0] at hp1
      cases hp1
      rcases sent_of_next hallows hsent with hbefore | ⟨hok, id', current, revision, rfl⟩
      · exact List.mem_append_left _ (h.ordered.sent id p0 hp0 hbefore)
      · cases hid
        refine List.mem_append_right _ ?_
        have hevents : f.events cal config key (now, .mark id current revision)
            = [.marked id] :=
          if_pos (Bool.and_eq_true_iff.mpr ⟨keyed_iff.mpr hkeyed, hok⟩)
        rw [hevents]
        exact List.mem_singleton_self _
  · intro id hentered hreleased
    have hold := (logged_cases hentered).resolve_right fun hno => hno
    rcases logged_cases hreleased with hbefore | ⟨rfl, hkeyed⟩
    · exact h.ordered.exclusive id hold hbefore
    · -- a call that is released has not entered
      obtain ⟨p, hp, hlate⟩ := h.ordered.entered id hold
      obtain ⟨p', hp', hallows⟩ := permits_keyed hpermits rfl (fun _ _ heq => by cases heq) hkeyed
      rw [hp] at hp'
      cases hp'
      rw [allows_release hallows] at hlate
      exact hlate.elim
  · intro id hid
    rcases logged_cases hid with hold | ⟨current, revision, rfl, hkeyed, hok⟩
    · exact transact_fenced h hkey hpermits hold
    · exact .inr (.inl (mark_own h hkey hpermits hkeyed hok).2)

/-! ## The runner -/

omit [DecidableEq Value] in
theorem to_phase_cases {id' : String} (h : f.to_phase id' p id = some p') :
    id = id' ∧ p' = p ∨ id ≠ id' ∧ f.phases id = some p' := by
  rw [Flow.to_phase] at h
  split at h
  next heq =>
    cases h
    exact .inl ⟨heq, rfl⟩
  next hne => exact .inr ⟨hne, h⟩

omit [DecidableEq Value] in
theorem to_phase_keeps {id' : String} {P : Phase Value → Prop} (h : ∃ p, f.phases id = some p ∧ P p)
    (hp : id = id' → P p) : ∃ p', f.to_phase id' p id = some p' ∧ P p' := by
  obtain ⟨p0, hp0, hP⟩ := h
  by_cases hsame : id = id'
  · exact ⟨p, if_pos hsame, hp hsame⟩
  · exact ⟨p0, (if_neg hsame).trans hp0, hP⟩

omit [DecidableEq Value] in
theorem to_phase_calls (h : f.Calls key) (hp : f.phases id = some p) (hlate : ¬ p'.early)
    (log : List Event) : ({ f with phases := f.to_phase id p', log } : Flow Value).Calls key := by
  refine ⟨?_, h.read, h.reads, h.quotas, ?_⟩
  · intro id' p0 hp0
    rcases to_phase_cases hp0 with ⟨rfl, -⟩ | ⟨-, hbefore⟩
    · exact h.tracked id' p hp
    · exact h.tracked id' p0 hbefore
  · intro id' p0 x quota month r hp0 hearly hx hquota hr
    rcases to_phase_cases hp0 with ⟨-, rfl⟩ | ⟨-, hbefore⟩
    · exact absurd hearly hlate
    · exact h.fresh id' p0 x quota month r hbefore hearly hx hquota hr

omit [DecidableEq Value] in
theorem enter_ordered (h : f.Ordered key) (hp : f.phases id = some .dispatched) :
    ({ f with phases := f.to_phase id .running, log := f.log ++ [.entered id] } :
      Flow Value).Ordered key := by
  have hother : ∀ {e}, e ∈ f.log ++ [.entered id] → (∀ x, e ≠ .entered x) → e ∈ f.log := by
    intro e he hne
    rcases List.mem_append.mp he with hold | hnew
    · exact hold
    · exact absurd (List.mem_singleton.mp hnew) (hne id)
  have hnever : .entered id ∉ f.log := by
    intro hentered
    obtain ⟨p, hp', hlate⟩ := h.entered id hentered
    rw [hp] at hp'
    cases hp'
    exact hlate
  refine ⟨?_, ?_, ?_, ?_, ?_, ?_, ?_⟩
  · intro x hx
    exact to_phase_keeps (h.marked x (hother hx (fun _ heq => by cases heq)))
      (fun _ hearly => hearly)
  · intro x hx
    rcases List.mem_append.mp hx with hold | hnew
    · exact to_phase_keeps (h.entered x hold) (fun _ => trivial)
    · cases List.mem_singleton.mp hnew
      exact ⟨.running, if_pos rfl, trivial⟩
  · intro x hx
    have hold := h.released x (hother hx (fun _ heq => by cases heq))
    refine to_phase_keeps hold ?_
    rintro rfl
    -- a call that is released is not dispatched
    obtain ⟨p, hp', hleft⟩ := hold
    rw [hp] at hp'
    cases hp'
    exact hleft
  · intro x p hx hsent
    refine List.mem_append_left _ ?_
    rcases to_phase_cases hx with ⟨rfl, -⟩ | ⟨-, hbefore⟩
    · exact h.sent x .dispatched hp trivial
    · exact h.sent x p hbefore hsent
  · intro x hx hreleased
    have hold := hother hreleased (fun _ heq => by cases heq)
    rcases List.mem_append.mp hx with hbefore | hnew
    · exact h.exclusive x hbefore hold
    · cases List.mem_singleton.mp hnew
      obtain ⟨p, hp', hleft⟩ := h.released id hold
      rw [hp] at hp'
      cases hp'
      exact hleft
  · intro x hx
    exact (h.fenced x (hother hx (fun _ heq => by cases heq))).imp_left
      (fun hgiven => hgiven.mono (List.subset_append_left _ _))
  · exact Machine.logged_append_singleton h.in_turn ⟨h.sent id .dispatched hp trivial, hnever⟩

omit [DecidableEq Value] in
theorem answer_ordered (h : f.Ordered key) (hp : f.phases id = some .running)
    (answer : RunnerAnswer Value) :
    ({ f with phases := f.to_phase id (.answered answer) } : Flow Value).Ordered key := by
  refine ⟨?_, ?_, ?_, ?_, h.exclusive, h.fenced, h.in_turn⟩
  · exact fun x hx => to_phase_keeps (h.marked x hx) (fun _ hearly => hearly)
  · exact fun x hx => to_phase_keeps (h.entered x hx) (fun _ => trivial)
  · intro x hx
    have hold := h.released x hx
    refine to_phase_keeps hold ?_
    rintro rfl
    obtain ⟨p, hp', hleft⟩ := hold
    rw [hp] at hp'
    cases hp'
    exact hleft
  · intro x p hx hsent
    rcases to_phase_cases hx with ⟨rfl, -⟩ | ⟨-, hbefore⟩
    · exact h.sent x .running hp trivial
    · exact h.sent x p hbefore hsent

/-- **Every step of the flow keeps the invariant.** -/
theorem step_inv (hkey : key ≠ "") (act : ℤ × Act Value) (h : f.Inv key) :
    (f.step cal config key act).Inv key := by
  obtain ⟨now, act⟩ := act
  cases act with
  | transact op told =>
    by_cases hpermits : f.permits key op = true
    · refine ⟨transact_calls h.calls hpermits now told, ?_,
      transact_ordered h hkey hpermits now told⟩
      rw [step_transact hpermits]
      exact step_guarded h.guarded hkey (now, op)
    · rw [Flow.step, if_neg hpermits]
      exact h
  | enter id =>
    rw [Flow.step]
    split
    next hp =>
      have hnot : ¬(Phase.running : Phase Value).early := not_false
      exact ⟨to_phase_calls h.calls hp hnot _, h.guarded, enter_ordered h.ordered hp⟩
    · exact h
  | answer id answer =>
    rw [Flow.step]
    split
    next hp =>
      have hnot : ¬(Phase.answered answer : Phase Value).early := not_false
      exact ⟨to_phase_calls h.calls hp hnot _, h.guarded, answer_ordered h.ordered hp answer⟩
    · exact h

omit [DecidableEq Value] in
theorem start_inv (h : db.claims.find key = none) : (Flow.start db).Inv key where
  calls :=
    { tracked := fun _ _ hp => by cases hp
      read := fun _ _ hmem => by cases hmem
      reads := fun _ _ hmem => by cases hmem
      quotas := ⟨(fun _ _ _ _ hx => by cases hx), (fun _ _ _ _ _ _ _ hx => by cases hx)⟩
      fresh := fun _ _ _ _ _ _ hp => by cases hp }
  guarded :=
    { recorded := fun _ _ => h
      closed := fun _ hc => absurd (h.symm.trans hc) (by simp)
      held := fun _ hc => absurd (h.symm.trans hc) (by simp) }
  ordered :=
    { marked := fun _ hid => by cases hid
      entered := fun _ hid => by cases hid
      released := fun _ hid => by cases hid
      sent := fun _ _ hp => by cases hp
      exclusive := fun _ hid => by cases hid
      fenced := fun _ hid => by cases hid
      in_turn := Machine.logged_nil }

theorem run_inv (hkey : key ≠ "") {db : Database Value} (h : db.claims.find key = none)
    (acts : List (ℤ × Act Value)) :
    (Machine.run (Flow.step cal config key) (Flow.start db) acts).Inv key :=
  Machine.run_keeps (fun _ act => step_inv hkey act) (start_inv h) acts

/-! ## Once -/

theorem before_or_after {ε : Type} {l : List ε} {a b : ε} (hne : a ≠ b) (ha : a ∈ l)
    (hb : b ∈ l) :
    (∃ pre post, l = pre ++ b :: post ∧ a ∈ pre) ∨ ∃ pre post, l = pre ++ a :: post ∧ b ∈ pre := by
  obtain ⟨pre, post, rfl⟩ := List.append_of_mem hb
  rcases List.mem_append.mp ha with hpre | hpost
  · exact .inl ⟨pre, post, rfl, hpre⟩
  · rcases List.mem_cons.mp hpost with heq | hlater
    · exact absurd heq hne
    · obtain ⟨mid, last, rfl⟩ := List.append_of_mem hlater
      refine .inr ⟨pre ++ b :: mid, last, by simp, ?_⟩
      exact List.mem_append_right _ List.mem_cons_self

/-- Before the one call is marked, the other has been told that nothing was dispatched, or
an operator has proven it. -/
def EndedBefore (log : List Event) (x y : String) : Prop :=
  ∃ pre post, log = pre ++ .marked y :: post ∧ .marked x ∈ pre ∧
    (.not_dispatched x ∈ pre ∨ .reconciled x ∈ pre)

/-- What holds of the mutations of a key. -/
structure Flow.RunsOnce (cal : Calendar) (config : PolicyConfig) (key : String)
    (f : Flow Value) : Prop where
  /-- A call enters the runner once, after its mark. -/
  once : ∀ id pre post, f.log = pre ++ .entered id :: post →
    .marked id ∈ pre ∧ .entered id ∉ pre
  /-- Of two calls that enter, one has ended before the other is marked. -/
  in_turn : ∀ x y, x ≠ y → .entered x ∈ f.log → .entered y ∈ f.log →
    EndedBefore f.log x y ∨ EndedBefore f.log y x
  /-- A call is marked while it holds the claim, and the key is free. -/
  own : ∀ now op told id, .marked id ∉ f.log →
    .marked id ∈ (f.step cal config key (now, .transact op told)).log → f.system.MarksOwn key id
  /-- A finish with an output leaves a record of its identity. -/
  finished : ∀ now id x quota output failed db, f.system.executes.find id = some x →
    x.attempt.key = key → f.system.db.finish_with_reservation cal x.attempt (some quota)
      (some output) failed now = .ok db →
    ∃ r, db.records.find key = some r ∧ x.attempt.completed_by r = true ∧
      (r.output = output ∨ f.system.db.records.find key = some r)
  /-- A record stays, and answers every later call of the key. -/
  answered : ∀ r, f.system.db.records.find key = some r → ∀ acts,
    let db := (Machine.run (Flow.step cal config key) f acts).system.db
    db.records.find key = some r ∧ ∀ a now, a.key = key → db.acquire a false now =
      if a.completed_by r then .ok (.Cached r.output, db) else .error .IDEMPOTENCY_CONFLICT

omit [DecidableEq Value] in
theorem ended_before (h : f.Ordered key) {y : String} (hx : .entered x ∈ f.log)
    {pre post : List Event} (hsplit : f.log = pre ++ .marked y :: post)
    (hmarked : .marked x ∈ pre) :
    EndedBefore f.log x y := by
  refine ⟨pre, post, hsplit, hmarked, ?_⟩
  rcases (h.in_turn pre (.marked y) post hsplit x hmarked).2 with hnot | hreleased | hreconciled
  · exact .inl hnot
  · -- a call that has entered was not released
    refine absurd ?_ (h.exclusive x hx)
    rw [hsplit]
    exact List.mem_append_left _ hreleased
  · exact .inr hreconciled

omit [DecidableEq Value] in
theorem entered_marked (h : f.Ordered key) (hx : .entered x ∈ f.log) : .marked x ∈ f.log := by
  obtain ⟨pre, post, hsplit⟩ := List.append_of_mem hx
  rw [hsplit]
  exact List.mem_append_left _ (h.in_turn pre _ post hsplit).1

omit [DecidableEq Value] in
theorem finish_records (h : s.Guarded key) (hkey : key ≠ "") (hsame : a.key = key)
    {quota : String × String} {output : Value} {failed : Bool}
    (hfinish : s.db.finish_with_reservation cal a (some quota) (some output) failed now = .ok db) :
    ∃ r, db.records.find key = some r ∧ a.completed_by r = true ∧
      (r.output = output ∨ s.db.records.find key = some r) := by
  obtain ⟨quota_id, month⟩ := quota
  subst hsame
  simp only [Database.finish_with_reservation] at hfinish
  split at hfinish
  · cases hfinish
  next r hfind =>
  split at hfinish
  · cases hfinish
  next hreleased =>
  split at hfinish
  next hsettled =>
    -- the same call, or another one of its identity, has finished before
    cases hfinish
    obtain ⟨record, hrecord, hcompleted⟩ := (Option.any_eq_true _ _).mp hsettled.2.2.2
    exact ⟨record, hrecord, hcompleted, .inr hrecord⟩
  split at hfinish
  · cases hfinish
  next hheld =>
  have hclaim : s.db.dispatched_claim a = true := by
    by_contra hnot
    rw [Bool.not_eq_true] at hnot
    exact hheld ⟨hkey, hnot, fun hboth => hreleased ⟨rfl, hboth.1⟩⟩
  -- a key with a dispatched claim has no record yet
  have hnone : s.db.records.find a.key = none := by
    cases hrecord : s.db.records.find a.key with
    | none => rfl
    | some record =>
      have hempty : s.db.claims.find a.key = none := h.recorded record hrecord
      rw [Database.dispatched_claim, hempty] at hclaim
      cases hclaim
  have hstored : ∀ db1, (s.db.record a output).Frame db1 →
      (db1.delete_claim a).records.find a.key = some (a.record output) := by
    intro db1 hframe
    rw [Database.delete_claim, if_neg hkey]
    change db1.records.find a.key = some (a.record output)
    rw [hframe.records, Database.record, if_neg hkey]
    have hself := Table.find_upsert_self s.db.records (a.record output) id (fun _ => rfl)
    refine Eq.trans hself ?_
    change some ((s.db.records.find a.key).elim (a.record output) id) = _
    rw [hnone]
    rfl
  refine ⟨a.record output, ?_, by simp [Attempt.completed_by, Attempt.record], .inl rfl⟩
  split at hfinish
  · cases hfinish
    exact hstored _ (settle_frame cal (s.db.record a output) a quota_id month now)
  split at hfinish
  · cases hfinish
  · cases hfinish
    exact hstored _ (.refl _)

omit [DecidableEq Value] in
theorem moves_record {v v' : KeyView Value} {m : Move Value} (h : v.Moves m v') {r : Record Value}
    (hr : v.record = some r) : v'.record = some r := by
  cases h with
  | finish a output c held own dispatched =>
    rw [hr]
    rfl
  | _ => exact hr

theorem step_records (hkey : key ≠ "") (act : ℤ × Act Value) {r : Record Value}
    (h : f.system.db.records.find key = some r) :
    (f.step cal config key act).system.db.records.find key = some r := by
  obtain ⟨now, act⟩ := act
  cases act with
  | transact op told =>
    by_cases hpermits : f.permits key op = true
    · rw [step_transact hpermits]
      obtain ⟨m, hmoves, -⟩ := step_moves cal config f.system (now, op) hkey
      exact moves_record hmoves h
    · rw [Flow.step, if_neg hpermits]
      exact h
  | enter id =>
    rw [Flow.step]
    split
    · exact h
    · exact h
  | answer id answer =>
    rw [Flow.step]
    split
    · exact h
    · exact h

/-- **Mutations run at most once.** In every run of the calls of a key, of the calls of
other keys, of the sweeps and of the operators: a call enters the runner once; of two calls
that enter, one was told that nothing was dispatched, or an operator has proven it, before
the other was marked; a call is marked while it holds the claim of the key, with no record
and no outcome known; and a finish with an output answers every later call. -/
theorem mutations_run_at_most_once (cal : Calendar) (config : PolicyConfig) {key : String}
    (hkey : key ≠ "") {db : Database Value} (h : db.claims.find key = none)
    (acts : List (ℤ × Act Value)) :
    (Machine.run (Flow.step cal config key) (Flow.start db) acts).RunsOnce cal config key := by
  have hinv := @run_inv _ _ cal config _ hkey _ h acts
  generalize Machine.run (Flow.step cal config key) (Flow.start db) acts = f at hinv
  refine ⟨?_, ?_, ?_, ?_, ?_⟩
  · intro id pre post hsplit
    exact hinv.ordered.in_turn pre (.entered id) post hsplit
  · intro x y hne hx hy
    rcases before_or_after (fun heq => hne (Event.marked.inj heq))
      (entered_marked hinv.ordered hx) (entered_marked hinv.ordered hy) with
      ⟨pre, post, hsplit, hmarked⟩ | ⟨pre, post, hsplit, hmarked⟩
    · exact .inl (ended_before hinv.ordered hx hsplit hmarked)
    · exact .inr (ended_before hinv.ordered hy hsplit hmarked)
  · intro now op told id hnew hmarked
    by_cases hpermits : f.permits key op = true
    · rw [step_transact hpermits] at hmarked
      rcases logged_cases hmarked with hold | ⟨current, revision, rfl, hkeyed, hok⟩
      · exact absurd hold hnew
      · exact (mark_own hinv hkey hpermits hkeyed hok).1
    · rw [Flow.step, if_neg hpermits] at hmarked
      exact absurd hmarked hnew
  · intro now id x quota output failed db' _ hsame hfinish
    exact finish_records hinv.guarded hkey hsame hfinish
  · intro r hr acts'
    have hstays : (Machine.run (Flow.step cal config key) f acts').system.db.records.find key
        = some r :=
      Machine.run_keeps (I := fun f : Flow Value => f.system.db.records.find key = some r)
        (fun f act (hr : f.system.db.records.find key = some r) => step_records hkey act hr) hr
        acts'
    refine ⟨hstays, ?_⟩
    rintro a now rfl
    rw [Database.acquire, if_neg (by decide), if_neg hkey, hstays]

/-! ## Two calls of a key -/

/-- The transactions of a mutation up to its mark. -/
def sample_dispatch (request_id quota_id : String) (now : ℤ) : List (ℤ × Act String) :=
  [(now, .transact (.acquire (sample_attempt request_id) false) .result),
    (now + 1, .transact (.reserve request_id (sample_reserve quota_id)) .result),
    (now + 2, .transact (.bind request_id) .result),
    (now + 3, .transact (.mark request_id (some sample_connection) sample_connection) .result)]

/-- An operator finds that the call has sent nothing. -/
def sample_unsent (request_id : String) : Op String :=
  .reconcile
    { external_account_id := "acct", idempotency_key := "invite-7"
      expected_request_id := request_id, actor_id := "ops", evidence_ref := "ticket-1"
      resolution := .ProvenNotDispatched }

/-- A call is marked and stalls until its lease is over; an operator finds that it has sent
nothing; another call of the key is marked and enters the runner, and then the first one
does. -/
def sample_stall : List (ℤ × Act String) :=
  sample_dispatch "req_a" "q_a" 1
    ++ [(200000000, .transact (sample_unsent "req_a") .nothing)]
    ++ sample_dispatch "req_b" "q_b" 200000001
    ++ [(200000005, .enter "req_b"), (200000006, .enter "req_a")]

/-- The call that entered first was neither told that nothing was dispatched, nor was its
claim reconciled: the other one had been marked before it. -/
theorem stalled_call_enters_second :
    let log := (Machine.run (Flow.step sample_calendar sample_config "invite-7")
      (Flow.start Database.empty) sample_stall).log
    log = [.marked "req_a", .reconciled "req_a", .marked "req_b", .entered "req_b",
        .entered "req_a"] ∧
      Event.not_dispatched "req_b" ∉ log ∧ Event.reconciled "req_b" ∉ log := by
  decide

/-- It holds of the run with the stalled call as well. -/
theorem sample_stall_runs_once :
    (Machine.run (Flow.step sample_calendar sample_config "invite-7") (Flow.start Database.empty)
      sample_stall).RunsOnce sample_calendar sample_config "invite-7" :=
  mutations_run_at_most_once sample_calendar sample_config (by decide) rfl sample_stall

end Appcall.Actions
