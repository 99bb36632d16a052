/-
Dispatch capacity.

An engine hands out at most `dispatch_limit` attempts at a time and keeps them in a table
until the host reports them. A run that has a task ready while the table is full is parked,
and is made due again when a slot is given back.

The table is in memory and the tasks are in the database, so the two can part. They do not
as long as a result is written before its slot is given back (`Slotted`): an attempt whose
result the engine would take has its slot. A run that is over takes no results any more;
its attempts keep their slots until they are reported, and then give them back although
their tasks stay as they are.
-/
import Appcall.Engine.States
import Appcall.Engine.Recovery

set_option autoImplicit false

namespace Appcall.Durable

open Appcall.Refine

/-! ## The attempts whose results would be taken -/

/-- The run takes the result of an attempt: it is not over, or only out of retries. -/
def RunRecord.accepts (r : RunRecord) : Prop :=
  r.state.terminal = true → r.retry_exhausted = true

/-- An executor has the attempt of this owner, and the run takes its result. -/
def Awaited (m : Machine) (a : ActivityAttempt) : Prop :=
  ∃ (id : String) (i : ℕ) (r : RunRecord) (c : Option ℤ) (t : ActivityTask),
    m.runs id = some ⟨r, c⟩ ∧ r.accepts ∧ r.tasks[i]? = some t ∧ t.attempt = a
      ∧ t.state.held = true ∧ a.owner_epoch = m.epoch

variable {r : RunRecord} {m : Machine} {l : Label} {children : List RunRecord} {id : String}
  {m' : Machine} {a : ActivityAttempt} {ls : List Label}

theorem RunRecord.not_accepts (h : ¬ r.accepts) :
    r.state.terminal = true ∧ r.retry_exhausted = false := by
  unfold RunRecord.accepts at h
  rw [Classical.not_imp] at h
  exact ⟨h.1, Bool.eq_false_iff.mpr h.2⟩

theorem Change.accepts_back {r' : RunRecord} (h : Change m l r r' children) (hr' : r'.accepts) :
    r.accepts := by
  by_contra hover
  obtain ⟨hterm, hretry⟩ := RunRecord.not_accepts hover
  rcases h.cancels hterm hretry with ⟨-, hs⟩ | ⟨-, hs⟩ <;>
  · have hx := hr' (by rw [hs]; rfl)
    rw [RunRecord.retry_exhausted, hs] at hx
    cases hx

theorem TaskMove.held_back {t t' : ActivityTask} (h : TaskMove m id l t t')
    (ht' : t'.state.held = true) :
    (t.state.held = true ∧ t'.attempt = t.attempt) ∨ l = .dispatch id t'.attempt := by
  cases h with
  | kept ha hs =>
    rw [hs] at ht'
    exact .inl ⟨ht', ha⟩
  | rejected _ _ hs | missing _ _ hs | completed _ _ _ hs | retried _ _ _ hs =>
    rw [hs] at ht'
    cases ht'
  | invoked hs ha =>
    refine .inl ⟨?_, ha⟩
    rw [hs]
    rfl
  | failed _ _ _ hs =>
    rcases hs with ⟨-, hs | ⟨retry, hs⟩⟩ | hs <;> rw [hs] at ht' <;> cases ht'
  | interrupted _ _ hs =>
    rw [hs] at ht'
    split at ht' <;> cases ht'
  | @resolved _ _ observed _ _ hs =>
    rw [hs] at ht'
    cases observed <;> cases ht'
  | dispatched => exact .inr rfl

/-- **Where an awaited attempt comes from**: it was awaited before the move, or the move
dispatched it. -/
theorem Trans.awaited_back (h : Trans m l m')
    (hown : ∀ id en, m.runs id = some en → Stamped m.epoch en.record) (ha : Awaited m' a) :
    Awaited m a ∨ ∃ id, l = .dispatch id a := by
  obtain ⟨id, i, r', c', t', hr', hacc, hi, rfl, hheld, hepoch⟩ := ha
  have hsame : m'.epoch = m.epoch := by
    cases h with
    | restart failed =>
      -- no attempt is from an epoch that has just begun
      obtain ⟨c, hr⟩ := reopened_iff.mp ⟨c', hr'⟩
      have hle := hown id _ hr t' (List.mem_of_getElem? hi)
      have hnew : t'.attempt.owner_epoch = m.epoch + failed + 1 := hepoch
      omega
    | _ => rfl
  rw [hsame] at hepoch
  rcases h.backward hr' with ⟨c, hr⟩ | ⟨r, c, run, children, hr, hid, hc, rfl⟩ | ⟨-, hn, -⟩
  · exact .inl ⟨id, i, r', c, t', hr, hacc, hi, rfl, hheld, hepoch⟩
  · obtain ⟨base, hgrown, hmoves⟩ := hc.tasks
    obtain ⟨t, ht, hmove⟩ := (forall₂_getElem? hmoves).2 t' hi
    rcases hmove.held_back hheld with ⟨hb, hatt⟩ | hdisp
    · left
      rw [hatt] at hepoch ⊢
      refine ⟨id, i, r, c, t, hr, hc.accepts_back hacc, ?_, rfl, hb, hepoch⟩
      rcases hgrown with rfl | ⟨index, name, version, input, policy, -, rfl⟩
      · exact ht
      · -- a task that is new is not with an executor
        by_cases hlt : i < r.tasks.length
        · rw [List.getElem?_append_left hlt] at ht
          exact ht
        · rw [List.getElem?_append_right (by omega)] at ht
          have hnew := List.mem_singleton.mp (List.mem_of_getElem? ht)
          rw [hnew] at hb
          cases hb
    · exact .inr ⟨_, hdisp⟩
  · rw [hn.tasks] at hi
    cases hi

/-! ## The table -/

/-- What holds of the table of dispatches and of the parked runs, whatever the store does. -/
structure Capacity (m : Machine) : Prop where
  within : m.dispatched.entries.length ≤ m.dispatch_limit
  positive : 0 < m.dispatch_limit
  /-- A run waits for a slot only while one is taken. -/
  parked : m.parked ≠ [] → m.dispatched.entries ≠ []
  stored : ∀ id ∈ m.parked, ∃ en, m.runs id = some en
  keyed : ∀ k a, m.dispatched.lookup k = some a → k = dispatch_key a

theorem Trans.stored_kept (h : Trans m l m') (hs : ∃ en, m.runs id = some en) :
    ∃ en, m'.runs id = some en := by
  obtain ⟨⟨r, c⟩, hr⟩ := hs
  rcases h.forward hr with ⟨c', hr'⟩ | ⟨run, children, -, -, -, -, c', hr'⟩
  · exact ⟨_, hr'⟩
  · exact ⟨_, hr'⟩

theorem length_insert_le {α β : Type} [DecidableEq α] (t : AList (fun _ : α => β)) (k : α)
    (b : β) : (t.insert k b).entries.length ≤ t.entries.length + 1 := by
  rw [AList.entries_insert, List.length_cons]
  exact Nat.succ_le_succ (List.kerase_sublist _ _).length_le

theorem Trans.capacity (h : Trans m l m') (hm : Capacity m)
    (hroom : ∀ a, l = .hand_out a → m.dispatched.entries.length < m.dispatch_limit) :
    Capacity m' := by
  have hstored : ∀ id ∈ m.parked, ∃ en, m'.runs id = some en :=
    fun id hid => h.stored_kept (hm.stored id hid)
  cases h with
  | change | start | idle | register_workflow =>
    exact ⟨hm.within, hm.positive, hm.parked, hstored, hm.keyed⟩
  | park hs hfull =>
    refine ⟨hm.within, hm.positive, fun _ => ?_, fun id hid => ?_, hm.keyed⟩
    · have hpos := hm.positive
      refine List.ne_nil_of_length_pos ?_
      show 0 < m.dispatched.entries.length
      omega
    · rcases List.mem_insert_iff.mp hid with rfl | hid
      · exact hs
      · exact hm.stored id hid
  | unpark =>
    refine ⟨hm.within, hm.positive, fun hne => hm.parked ?_, fun id hid => ?_, hm.keyed⟩
    · rintro hnil
      exact hne (by rw [hnil]; rfl)
    · exact hm.stored id (List.mem_of_mem_erase hid)
  | @hand_out a =>
    have hlt := hroom a rfl
    refine ⟨(length_insert_le _ _ _).trans hlt, hm.positive, fun _ => ?_, hm.stored, ?_⟩
    · rw [AList.entries_insert]
      exact List.cons_ne_nil _ _
    · intro k b hk
      by_cases hka : k = dispatch_key a
      · subst hka
        rw [AList.lookup_insert] at hk
        cases hk
        rfl
      · rw [AList.lookup_insert_ne hka] at hk
        exact hm.keyed k b hk
  | @release a _ hnil =>
    refine ⟨?_, hm.positive, fun hne => absurd hnil hne, hm.stored, ?_⟩
    · exact (List.kerase_sublist _ _).length_le.trans hm.within
    · intro k b hk
      by_cases hka : k = dispatch_key a
      · subst hka
        rw [AList.lookup_erase] at hk
        cases hk
      · rw [AList.lookup_erase_ne hka] at hk
        exact hm.keyed k b hk
  | configure activities limit policy hlimit hpolicy =>
    rcases hlimit with rfl | ⟨hpos, hle⟩
    · exact ⟨hm.within, hm.positive, hm.parked, hm.stored, hm.keyed⟩
    · exact ⟨hle, hpos, hm.parked, hm.stored, hm.keyed⟩
  | restart failed =>
    refine ⟨Nat.zero_le _, Nat.succ_pos 7, fun hne => absurd rfl hne, by simp, fun k a hk => ?_⟩
    cases hk

def Slotted (m : Machine) : Prop :=
  ∀ a, Awaited m a → m.dispatched.lookup (dispatch_key a) = some a

theorem Trans.slotted (h : Trans m l m') (hl : l.calm)
    (hown : ∀ id en, m.runs id = some en → Stamped m.epoch en.record) (hm : Slotted m) :
    Slotted m' := by
  intro a ha
  have hbefore : Awaited m a := by
    rcases h.awaited_back hown ha with hb | ⟨id, rfl⟩
    · exact hb
    · exact hl.elim
  have hslot := hm a hbefore
  obtain ⟨-, -, -, -, -, -, -, -, -, -, hepoch⟩ := hbefore
  obtain ⟨-, -, -, -, -, -, -, -, -, -, hepoch'⟩ := ha
  cases h with
  | restart failed =>
    have hnew : a.owner_epoch = m.epoch + failed + 1 := hepoch'
    omega
  | hand_out | release => exact hl.elim
  | _ => exact hslot

theorem Trans.slotted_release (h : Trans m (.release a) m') (hfree : ¬ Awaited m a)
    (hm : Slotted m) :
    Slotted m' := by
  cases h with
  | change _ hc => cases hc
  | release hlk hnil =>
    intro b hb
    have hb : Awaited m b := hb
    have hslot := hm b hb
    have hne : dispatch_key b ≠ dispatch_key a := by
      intro hkey
      rw [hkey, hlk] at hslot
      cases hslot
      exact hfree hb
    show (m.dispatched.erase (dispatch_key a)).lookup (dispatch_key b) = some b
    rw [AList.lookup_erase_ne hne]
    exact hslot

theorem Trans.slotted_hand_out {m1 m2 : Machine} (h : Trans m (.dispatch id a) m1)
    (h' : Trans m1 (.hand_out a) m2) (htasks : Tasked m)
    (hown : ∀ id en, m.runs id = some en → Stamped m.epoch en.record) (hm : Slotted m) :
    Slotted m2 ∧ m1.dispatched.entries.length < m1.dispatch_limit := by
  obtain ⟨i, t, hspot, hatt, -, -, -⟩ := h.dispatch_spot
  have htasks1 := h.tasked htasks
  have hback := fun b hb => h.awaited_back hown (a := b) hb
  have hsame : m1.dispatched = m.dispatched
      ∧ m.dispatched.entries.length < m.dispatch_limit ∧ m1.dispatch_limit = m.dispatch_limit := by
    cases h with
    | change hs hc =>
      cases hc with
      | dispatch _ _ _ hroom => exact ⟨rfl, hroom, rfl⟩
  obtain ⟨hd, hroom, hlimit⟩ := hsame
  refine ⟨?_, by rw [hd, hlimit]; exact hroom⟩
  cases h' with
  | change _ hc => cases hc
  | hand_out =>
    intro b hb
    have hb : Awaited m1 b := hb
    show (m1.dispatched.insert (dispatch_key a) a).lookup (dispatch_key b) = some b
    by_cases hkey : dispatch_key b = dispatch_key a
    · -- one effect, one task, one attempt
      obtain ⟨id', i', r', c', t', hr', -, hi', hatt', -⟩ := hb
      have heff : t.attempt.effect_id = t'.attempt.effect_id := by
        rw [hatt, hatt']
        exact (congrArg Prod.fst hkey).symm
      obtain ⟨-, -, rfl⟩ := htasks1.unique hspot ⟨r', c', hr', hi'⟩ heff
      have hab : b = a := hatt'.symm.trans hatt
      subst hab
      exact AList.lookup_insert _
    · rw [AList.lookup_insert_ne hkey, hd]
      rcases hback b hb with hbefore | ⟨id', hl⟩
      · exact hm b hbefore
      · cases hl
        exact absurd rfl hkey

/-! ## Attempts that are not awaited -/

/-- The moves after which the executor of the attempt is done with it. -/
def Label.ends (a : ActivityAttempt) : Label → Prop
  | .complete b _ | .fail b _ _ | .reject_dispatch b _ | .missing_payload b => b = a
  | _ => False

theorem Change.ends {r' : RunRecord} (h : Change m l r r' children) (hl : l.ends a) :
    ∃ (i : ℕ) (t : ActivityTask), r'.tasks[i]? = some t ∧ t.attempt = a
      ∧ t.state.held = false := by
  have hset : ∀ {i : ℕ} {task task' : ActivityTask}, r.tasks[i]? = some task →
      (r.tasks.set i task')[i]? = some task' := by
    intro i task task' hi
    exact List.getElem?_set_self (List.getElem?_eq_some_iff.mp hi).1
  cases h with
  | @reject_dispatch _ b reason i task _ ho _ =>
    cases hl
    obtain ⟨hi, hatt, -⟩ := owned_task_ok ho
    exact ⟨i, _, hset hi, hatt, rfl⟩
  | @missing_payload _ b i task ho _ =>
    cases hl
    obtain ⟨hi, hatt, -⟩ := owned_attempt_ok ho
    exact ⟨i, _, hset hi, hatt, rfl⟩
  | @complete _ b output i task execution ho _ =>
    cases hl
    obtain ⟨hi, hatt, -⟩ := owned_attempt_ok ho
    rw [completed_run_frame]
    exact ⟨i, _, hset hi, hatt, rfl⟩
  | @fail _ b i task task' _ _ _ ho _ htask =>
    cases hl
    obtain ⟨hi, hatt, -⟩ := owned_attempt_ok ho
    obtain ⟨hsame, hstate⟩ := failed_task_ok htask
    rw [failed_run_frame]
    refine ⟨i, task', hset hi, hsame.trans hatt, ?_⟩
    rcases hstate with ⟨-, hs | ⟨retry, hs⟩⟩ | hs <;> rw [hs] <;> rfl
  | _ => exact hl.elim

theorem Tasked.not_awaited (hm : Tasked m) {i : ℕ} {t : ActivityTask} (hs : Spot m id i t)
    (hheld : t.state.held = false) : ¬ Awaited m t.attempt := by
  rintro ⟨id', i', r', c', t', hr', -, hi', hatt, hheld', -⟩
  obtain ⟨-, -, rfl⟩ := hm.unique hs ⟨r', c', hr', hi'⟩ (by rw [hatt])
  rw [hheld] at hheld'
  cases hheld'

theorem Trans.ends (h : Trans m l m') (hl : l.ends a) (hm : Tasked m) : ¬ Awaited m' a := by
  have hm' := h.tasked hm
  cases h with
  | @change _ r run c children hs hc hf =>
    obtain ⟨i, t, hi, rfl, hheld⟩ := hc.ends hl
    rw [← hc.frame.id] at hf
    exact hm'.not_awaited ⟨run.saved, _, Machine.commit_self hf, hi⟩ hheld
  | _ => exact hl.elim

/-- The run is there, and takes no results. -/
def Shut (m : Machine) (id : String) : Prop :=
  ∃ r c, m.runs id = some ⟨r, c⟩ ∧ ¬ r.accepts

theorem Trans.shut (h : Trans m l m') (hs : Shut m id) : Shut m' id := by
  obtain ⟨r, c, hr, hover⟩ := hs
  rcases h.forward hr with ⟨c', hr'⟩ | ⟨run, children, -, hc, -, -, c', hr'⟩
  · exact ⟨r, c', hr', hover⟩
  · exact ⟨run.saved, c', hr', fun hacc => hover (hc.accepts_back hacc)⟩

theorem Shut.not_awaited (hs : Shut m a.run_id) (hm : Tasked m) : ¬ Awaited m a := by
  rintro ⟨id, i, r, c, t, hr, hacc, hi, rfl, -⟩
  obtain ⟨hid, hok⟩ := hm id _ hr
  obtain ⟨r', c', hr', hover⟩ := hs
  rw [(hok.owner t (List.mem_of_getElem? hi)).1, hid, hr] at hr'
  cases hr'
  exact hover hacc

theorem Trans.abort_shut (h : Trans m (.abort id) m') : Shut m' id := by
  cases h with
  | @change _ r run c children hs hc hf =>
    cases hc with
    | abort hd =>
      refine ⟨_, _, @Machine.commit_self m
        { r with state := .Failed, failure_reason := some .InvalidCommand, wakeup := none } []
        trivial, fun hacc => ?_⟩
      have hx := RunRecord.retry_exhausted_iff.mp (hacc rfl)
      cases hx.2

/-! ## The table along the moves of an operation -/

/-- The table, and what the moves of an operation keep with it. -/
structure Slots (m : Machine) : Prop where
  tasked : Tasked m
  stamped : ∀ id en, m.runs id = some en → Stamped m.epoch en.record
  capacity : Capacity m
  slotted : Slotted m

theorem Trans.slots (h : Trans m l m') (hm : Slots m)
    (hroom : ∀ a, l = .hand_out a → m.dispatched.entries.length < m.dispatch_limit)
    (hslotted : Slotted m') : Slots m' :=
  ⟨h.tasked hm.tasked, fun _ _ hen => h.stamped hm.stamped hen, h.capacity hm.capacity hroom,
    hslotted⟩

theorem Trans.slots_calm (h : Trans m l m') (hl : l.calm) (hm : Slots m) : Slots m' :=
  h.slots hm (fun a ha => by rw [ha] at hl; exact hl.elim) (h.slotted hl hm.stamped hm.slotted)

theorem Path.slots_calm (hp : Path Trans m ls m') (hl : ∀ l ∈ ls, l.calm) (hm : Slots m) :
    Slots m' :=
  Path.keeps hp (fun l hmem _ _ h hx => h.slots_calm (hl l hmem) hx) hm

theorem Path.slots_releases (hp : Path Trans m ls m') (hl : ∀ l ∈ ls, l.releases a)
    (hfree : ¬ Awaited m a) (hm : Slots m) : Slots m' := by
  have hboth : Slots m' ∧ ¬ Awaited m' a := by
    refine Path.keeps (I := fun x => Slots x ∧ ¬ Awaited x a) hp ?_ ⟨hm, hfree⟩
    rintro l hmem x y h ⟨hx, hno⟩
    have hrel := hl l hmem
    have hno' : ¬ Awaited y a := by
      intro hy
      rcases h.awaited_back hx.stamped hy with hb | ⟨id, rfl⟩
      · exact hno hb
      · exact hrel.elim
    cases l with
    | wake | unpark => exact ⟨h.slots_calm trivial hx, hno'⟩
    | release b =>
      have hba : b = a := hrel
      subst hba
      exact ⟨h.slots hx (by simp) (h.slotted_release hno hx.slotted), hno'⟩
    | _ => exact hrel.elim
  exact hboth.1

theorem Path.slots_frees (hp : Path Trans m ls m') (hl : ∀ l ∈ ls, l.frees id) (hshut : Shut m id)
    (hm : Slots m) : Slots m' := by
  have hboth : Slots m' ∧ Shut m' id := by
    refine Path.keeps (I := fun x => Slots x ∧ Shut x id) hp ?_ ⟨hm, hshut⟩
    rintro l hmem x y h ⟨hx, hsx⟩
    have hfrees := hl l hmem
    refine ⟨?_, h.shut hsx⟩
    cases l with
    | wake | unpark => exact h.slots_calm trivial hx
    | release b =>
      have hrun : b.run_id = id := hfrees
      rw [← hrun] at hsx
      exact h.slots hx (by simp) (h.slotted_release (hsx.not_awaited hx.tasked) hx.slotted)
    | _ => exact hfrees.elim
  exact hboth.1

/-- **A drive** takes a slot for the attempt it dispatches, or gives back those of a run it
has aborted, or leaves the table alone. -/
theorem Occupancy.slots (ho : Occupancy id ls) (hp : Path Trans m ls m') (hm : Slots m) :
    Slots m' := by
  cases ho with
  | calm hl => exact Path.slots_calm hp hl hm
  | @handed ls a hl =>
    obtain ⟨m0, hp0, hp1⟩ := hp.split
    have hm0 := Path.slots_calm hp0 hl hm
    cases hp1 with
    | cons hdispatch hrest =>
      cases hrest with
      | cons hhand hnil =>
        cases hnil
        obtain ⟨hslotted, hroom⟩ :=
          hdispatch.slotted_hand_out hhand hm0.tasked hm0.stamped hm0.slotted
        have htasked := hdispatch.tasked hm0.tasked
        refine ⟨hhand.tasked htasked, fun _ _ hen => ?_, ?_, hslotted⟩
        · exact hhand.stamped (fun _ _ h => hdispatch.stamped hm0.stamped h) hen
        · exact hhand.capacity (hdispatch.capacity hm0.capacity (by simp)) (fun _ _ => hroom)
  | @aborted ls ls' hl hl' =>
    obtain ⟨m0, hp0, hp1⟩ := hp.split
    have hm0 := Path.slots_calm hp0 hl hm
    cases hp1 with
    | cons habort hrest =>
      exact Path.slots_frees hrest hl' habort.abort_shut (habort.slots_calm trivial hm0)

end Appcall.Durable
