/-
The retry budget of an effect over whole runs of the engine.

`Ledger.lean` keeps the books of every effect over the moves of the engine; here
they are read at the steps of the host. What the host sees is counted along the
run: the dispatches it was handed, the invocations it got, the dispatches that were
refused, and the restarts that lost one. `Step.budgeted` relates each count to the
counter in the books, and the two results about the budget follow: invocations never
exceed it, and dispatches that nobody started do not either as long as no restart
loses a second one.
-/
import Appcall.Lib.Machine
import Appcall.Engine.AtMostOnce
import Appcall.Engine.Ledger

set_option autoImplicit false

namespace Appcall.Durable

open Appcall.Refine

/-! ## Steps -/

def Step.hands_out (step : Step) (e : Engine) (effect_id : String) : Bool :=
  match (step.exec e).1 with
  | .ok (.drive (.Activity a)) => decide (a.effect_id = effect_id)
  | _ => false

/-- The step is a `prepare_registered_at` for the effect that returns an invocation. -/
def Step.prepares (step : Step) (e : Engine) (effect_id : String) : Bool :=
  match step.op, (step.exec e).1 with
  | .prepare_registered_at a _ _, .ok (.prepared (some _)) => decide (a.effect_id = effect_id)
  | _, _ => false

/-- The step refuses a dispatch of the effect as unexecuted. -/
def Refuses (e : Engine) (step : Step) (effect_id : String) : Prop :=
  ∃ a, a.effect_id = effect_id ∧ Rejects e step a

def Stored (e : Engine) (t : ActivityTask) : Prop :=
  ∃ id r, e.store.load id = .ok r ∧ t ∈ r.tasks

/-- The step is a restart that finds a dispatch of the effect, not the first one,
handed out under the epoch that ends and not started. -/
def Loses (e : Engine) (step : Step) (effect_id : String) : Prop :=
  (∃ failed, step.op = .restart failed) ∧ ∃ t, Stored e t ∧ t.attempt.effect_id = effect_id
    ∧ t.state = .InFlight ∧ t.attempt.owner_epoch = e.store.epoch ∧ t.attempt.attempt ≠ 1

variable {e : Engine} {t : ActivityTask} {effect_id : String} {m m' : Machine} {ls : List Label}
  {c : String → Counts} {l : Label} {a : ActivityAttempt} {id : String} {i : ℕ} (codec : Codec)
  (sha256_hex : String → String) {steps : List Step} {n : ℕ}

theorem task_stored_iff (hw : WellFormed e.store) : Stored e t ↔ ∃ id i, Spot e.machine id i t := by
  constructor
  · rintro ⟨id, r, hr, hmem⟩
    obtain ⟨c, hc⟩ := (load_iff hw).mp hr
    obtain ⟨i, hi⟩ := List.getElem?_of_mem hmem
    exact ⟨id, i, r, c, hc, hi⟩
  · rintro ⟨id, i, hspot⟩
    obtain ⟨r, hr, hmem⟩ := hspot.load hw
    exact ⟨id, r, hr, hmem⟩

theorem loses_iff {e : Engine} (hw : WellFormed e.store) {step : Step} {effect_id : String} :
    Loses e step effect_id
      ↔ (∃ failed, step.op = .restart failed) ∧ Orphaned e.machine effect_id := by
  unfold Loses Orphaned
  refine and_congr_right (fun _ => ⟨?_, ?_⟩)
  · rintro ⟨t, hstored, h⟩
    obtain ⟨id, i, hspot⟩ := (task_stored_iff hw).mp hstored
    exact ⟨id, i, t, hspot, h⟩
  · rintro ⟨id, i, t, hspot, h⟩
    exact ⟨t, (task_stored_iff hw).mpr ⟨id, i, hspot⟩, h⟩

def post_all (ls : List Label) (c : String → Counts) : String → Counts :=
  ls.foldl (fun c l => l.post c) c

theorem Path.budgeted (hp : Path Trans m ls m') (hls : .restart ∉ ls) (hb : Budgeted c m) :
    Budgeted (post_all ls c) m' := by
  induction hp generalizing c with
  | nil => exact hb
  | cons htrans _ ih =>
    rw [List.mem_cons, not_or] at hls
    exact ih hls.2 (htrans.budgeted (Ne.symm hls.1) hb)

theorem post_all_free {ls : List Label} {c : String → Counts} (h : ∀ l ∈ ls, l.charges = none) :
    post_all ls c = c := by
  induction ls generalizing c with
  | nil => rfl
  | cons l ls ih =>
    obtain ⟨hl, hls⟩ := List.forall_mem_cons.mp h
    have hpost : l.post c = c := by
      funext effect_id
      unfold Label.post
      rw [if_neg (by rw [hl]; simp)]
    show post_all ls (l.post c) = c
    rw [hpost, ih hls]

def Label.refunds : Label → Prop
  | .reject_dispatch _ _ | .missing_payload _ => True
  | _ => False

theorem post_all_dispatching {ls : List Label} {c : String → Counts} {effect_id : String}
    (h : ∀ l ∈ ls, ¬ l.refunds) :
    (c effect_id).dispatched ≤ (post_all ls c effect_id).dispatched
      ∧ (c effect_id).invoked ≤ (post_all ls c effect_id).invoked
      ∧ (post_all ls c effect_id).refused = (c effect_id).refused
      ∧ (post_all ls c effect_id).lost = (c effect_id).lost := by
  induction ls generalizing c with
  | nil => exact ⟨le_rfl, le_rfl, rfl, rfl⟩
  | cons l ls ih =>
    obtain ⟨hl, hls⟩ := List.forall_mem_cons.mp h
    obtain ⟨h1, h2, h3, h4⟩ := ih (c := l.post c) hls
    have hone : (c effect_id).dispatched ≤ (l.post c effect_id).dispatched
        ∧ (c effect_id).invoked ≤ (l.post c effect_id).invoked
        ∧ (l.post c effect_id).refused = (c effect_id).refused
        ∧ (l.post c effect_id).lost = (c effect_id).lost := by
      unfold Label.post
      split
      · cases l with
        | reject_dispatch | missing_payload => exact absurd trivial hl
        | dispatch => exact ⟨Nat.le_succ _, le_rfl, rfl, rfl⟩
        | invoke => exact ⟨le_rfl, Nat.le_succ _, rfl, rfl⟩
        | _ => exact ⟨le_rfl, le_rfl, rfl, rfl⟩
      · exact ⟨le_rfl, le_rfl, rfl, rfl⟩
    exact ⟨le_trans hone.1 h1, le_trans hone.2.1 h2, h3.trans hone.2.2.1,
      h4.trans hone.2.2.2⟩

theorem Trans.releases_spot (h : Trans m l m') (hl : l.releases a) (hs : Spot m' id i t) :
    Spot m id i t := by
  obtain ⟨r', c', hr', hi'⟩ := hs
  rcases h.backward hr' with ⟨c, hr⟩ | ⟨r, c, run, children, hr, -, hc, rfl⟩ | ⟨-, hn, -⟩
  · exact ⟨r', c, hr, hi'⟩
  · cases hc with
    | wake => exact ⟨r, c, hr, hi'⟩
    | _ => exact hl.elim
  · rw [hn.tasks] at hi'
    cases hi'

theorem Path.releases_spot (hp : Path Trans m ls m') (hls : ∀ l ∈ ls, l.releases a)
    (hs : Spot m' id i t) : Spot m id i t := by
  induction hp with
  | nil => exact hs
  | cons htrans _ ih =>
    obtain ⟨hl, hls'⟩ := List.forall_mem_cons.mp hls
    exact htrans.releases_spot hl (ih hls' hs)

theorem Outcome.not_refunds (he : Reachable e) {step : Step}
    (hp : Path Trans e.machine ls (step.exec e).2.machine) (hw' : WellFormed (step.exec e).2.store)
    (hout : Outcome e.machine step.op (step.exec e).1 ls) (hls : ∀ l ∈ ls, ¬ l.refunds) :
    ¬ Refuses e step effect_id := by
  rintro ⟨a, -, hop, ⟨r, t, hr, hmem, hatt, hin⟩, r', t', hr', hmem', hatt', hready⟩
  have hreleases : ∀ l ∈ ls, l.releases a := by
    have htells := hout.tells
    rcases hop with ⟨reason, hop⟩ | ⟨resolver, started_at_ms, hop, hnone, -⟩
    · rw [hop] at htells
      have hemits := hout.emits
      intro l hl
      have hemit := hemits l hl
      rw [hop] at hemit
      rcases hemit with rfl | hrel
      · exact absurd trivial (hls _ hl)
      · exact hrel
    · rw [hop] at htells
      obtain ⟨out, -, hprep⟩ := htells
      cases hprep with
      | invoked _ hbytes =>
        rw [hnone] at hbytes
        cases hbytes
      | missing => exact absurd trivial (hls _ List.mem_cons_self)
      | refused => simp
  -- the task was ready before as well
  obtain ⟨id, i, hspot⟩ := (task_stored_iff he.wellFormed).mp ⟨_, r, hr, hmem⟩
  obtain ⟨id', i', hspot'⟩ := (task_stored_iff hw').mp ⟨_, r', hr', hmem'⟩
  have hback := Path.releases_spot hp hreleases hspot'
  obtain ⟨-, -, rfl⟩ := he.tasked.unique hspot hback (by rw [hatt, hatt'])
  rw [hin] at hready
  cases hready

theorem Rejects.same {step : Step} {b : ActivityAttempt} (ha : Rejects e step a)
    (hb : Rejects e step b) : a = b := by
  obtain ⟨ha, -⟩ := ha
  obtain ⟨hb, -⟩ := hb
  rcases ha with ⟨reason, ha⟩ | ⟨resolver, started_at_ms, ha, -⟩
  · rcases hb with ⟨reason', hb⟩ | ⟨resolver', started_at_ms', hb, -⟩
    · rw [ha] at hb
      cases hb
      rfl
    · rw [ha] at hb
      cases hb
  · rcases hb with ⟨reason', hb⟩ | ⟨resolver', started_at_ms', hb, -⟩
    · rw [ha] at hb
      cases hb
    · rw [ha] at hb
      cases hb
      rfl

theorem Step.prepares_iff {step : Step} :
    step.prepares e effect_id = true ↔ ∃ a resolver started_at_ms invocation,
      step.op = .prepare_registered_at a resolver started_at_ms
        ∧ (step.exec e).1 = .ok (.prepared (some invocation)) ∧ a.effect_id = effect_id := by
  unfold Step.prepares
  split
  · rename_i a resolver started_at_ms invocation hop hres
    rw [decide_eq_true_iff]
    constructor
    · intro heff
      exact ⟨a, resolver, started_at_ms, invocation, hop, hres, heff⟩
    · rintro ⟨a', resolver', started_at_ms', invocation', hop', -, heff⟩
      rw [hop] at hop'
      cases hop'
      exact heff
  · rename_i hnone
    constructor
    · intro h
      cases h
    · rintro ⟨a, resolver, started_at_ms, invocation, hop, hres, -⟩
      exact absurd hres (hnone a resolver started_at_ms invocation hop)

theorem Outcome.prepares {step : Step} (hout : Outcome e.machine step.op (step.exec e).1 ls)
    (h : step.prepares e effect_id = true) : ∃ a, ls = [.invoke a] ∧ a.effect_id = effect_id := by
  obtain ⟨a, resolver, started_at_ms, invocation, hop, hres, heff⟩ := Step.prepares_iff.mp h
  have htells := hout.tells
  rw [hop, hres] at htells
  obtain ⟨out, heq, hprep⟩ := htells
  refine ⟨a, ?_, heff⟩
  cases hprep with
  | invoked => rfl
  | missing _ _ hout' =>
    rcases hout' with rfl | ⟨error, rfl⟩ <;> cases heq
  | refused => cases heq

theorem Step.hands_out_iff {step : Step} : step.hands_out e effect_id = true
      ↔ ∃ a, (step.exec e).1 = .ok (.drive (.Activity a)) ∧ a.effect_id = effect_id := by
  unfold Step.hands_out
  split
  · rename_i a hres
    rw [decide_eq_true_iff]
    constructor
    · intro heff
      exact ⟨a, hres, heff⟩
    · rintro ⟨a', hres', heff⟩
      rw [hres] at hres'
      cases hres'
      exact heff
  · rename_i hnone
    constructor
    · intro h
      cases h
    · rintro ⟨a, hres, -⟩
      exact absurd hres (hnone a)

theorem Outcome.hands_out {step : Step} (hout : Outcome e.machine step.op (step.exec e).1 ls)
    (h : step.hands_out e effect_id = true) :
    ∃ id now a ls0, ls = ls0 ++ [.dispatch id a, .hand_out a] ∧ a.effect_id = effect_id
      ∧ ∀ l ∈ ls, l.drives id now := by
  obtain ⟨a, hres, heff⟩ := Step.hands_out_iff.mp h
  obtain ⟨id, now, resolver, hop⟩ := perform_drive hres
  have htells := hout.tells
  rw [hop, hres] at htells
  obtain ⟨out, heq, hdrove⟩ := htells
  have hok : out = .ok (.Activity a) := by
    cases out with
    | error error => cases heq
    | ok o =>
      cases heq
      rfl
  obtain ⟨ls0, hls⟩ := hdrove.activity a hok
  exact ⟨id, now, a, ls0, hls, heff, hdrove.drives⟩

open Classical in
/-- What one step adds to the counters of an effect. -/
structure Booked (e : Engine) (step : Step) (effect_id : String) (c c' : Counts) : Prop where
  dispatched : c.dispatched + (if step.hands_out e effect_id = true then 1 else 0) ≤ c'.dispatched
  invoked : c.invoked + (if step.prepares e effect_id = true then 1 else 0) ≤ c'.invoked
  refused : c'.refused = c.refused + (if Refuses e step effect_id then 1 else 0)
  lost : c'.lost = c.lost + (if Loses e step effect_id then 1 else 0)

theorem Step.restart_booked (hw : WellFormed e.store) {step : Step} {failed : ℕ}
    (hop : step.op = .restart failed) (c : String → Counts) (effect_id : String) :
    Booked e step effect_id (c effect_id) (after_restart e.machine c effect_id) := by
  constructor
  · rw [if_neg]
    · exact le_rfl
    · intro hhands
      obtain ⟨a, hres, -⟩ := Step.hands_out_iff.mp hhands
      obtain ⟨id, now, resolver, hop'⟩ := perform_drive hres
      rw [hop] at hop'
      cases hop'
  · rw [if_neg]
    · exact le_rfl
    · intro hprep
      obtain ⟨a, resolver, started_at_ms, -, hop', -⟩ := Step.prepares_iff.mp hprep
      rw [hop] at hop'
      cases hop'
  · rw [if_neg]
    · rfl
    · rintro ⟨a, -, hrejected, -⟩
      rw [hop] at hrejected
      rcases hrejected with ⟨reason, hop'⟩ | ⟨resolver, started_at_ms, hop', -⟩ <;> cases hop'
  · have hiff := @loses_iff e hw step effect_id
    unfold after_restart
    by_cases ho : Orphaned e.machine effect_id
    · rw [if_pos ho, if_pos (hiff.mpr ⟨⟨failed, hop⟩, ho⟩)]
    · rw [if_neg ho, if_neg (fun hl => ho (hiff.mp hl).2)]

theorem Label.refunds_attempt (h : l.refunds) :
    ∃ a, ((∃ reason, l = .reject_dispatch a reason) ∨ l = .missing_payload a)
      ∧ l.charges = some a.effect_id ∧ ∀ c, l.bump c = { c with refused := c.refused + 1 } := by
  cases l with
  | reject_dispatch a reason => exact ⟨a, .inl ⟨reason, rfl⟩, rfl, fun _ => rfl⟩
  | missing_payload a => exact ⟨a, .inr rfl, rfl, fun _ => rfl⟩
  | _ => exact h.elim

theorem Outcome.refuses_booked (he : Reachable e) {step : Step}
    (hp : Path Trans e.machine ls (step.exec e).2.machine) (hw' : WellFormed (step.exec e).2.store)
    (hout : Outcome e.machine step.op (step.exec e).1 ls)
    (hnot : ¬ ∃ failed, step.op = .restart failed) (hmem : l ∈ ls) (hl : l.refunds)
    (c : String → Counts) (effect_id : String) :
    Booked e step effect_id (c effect_id) (post_all ls c effect_id) := by
  obtain ⟨a, hlabel, hcharges, hbump⟩ := Label.refunds_attempt hl
  obtain ⟨hrejects, ls', rfl, hrel⟩ := hout.rejects he hp hw' hmem hlabel
  have hrest : post_all (l :: ls') c = l.post c := by
    show post_all ls' (l.post c) = l.post c
    refine post_all_free (fun l' hl' => ?_)
    have hrel' := hrel l' hl'
    cases l' with
    | wake | unpark | release => rfl
    | _ => exact hrel'.elim
  have hhands : ¬ step.hands_out e effect_id = true := by
    intro hhands
    obtain ⟨id, now, b, ls0, -, -, hdrives⟩ := hout.hands_out hhands
    have hdrive := hdrives l hmem
    rcases hlabel with ⟨reason, rfl⟩ | rfl <;> exact hdrive
  have hprep : ¬ step.prepares e effect_id = true := by
    intro hprep
    obtain ⟨b, hls, -⟩ := hout.prepares hprep
    rw [List.cons.injEq] at hls
    rw [hls.1] at hl
    exact hl
  rw [hrest]
  unfold Label.post
  by_cases heff : a.effect_id = effect_id
  · have hyes : Refuses e step effect_id := ⟨a, heff, hrejects⟩
    rw [if_pos (by rw [hcharges, heff]), hbump]
    constructor
    · rw [if_neg hhands]
      exact le_rfl
    · rw [if_neg hprep]
      exact le_rfl
    · rw [if_pos hyes]
    · rw [if_neg (fun hloses => hnot hloses.1)]
      rfl
  · have hno : ¬ Refuses e step effect_id := by
      rintro ⟨b, hb, hrejects'⟩
      rw [hrejects'.same hrejects] at hb
      exact heff hb
    rw [if_neg (by rw [hcharges]; simpa using heff)]
    constructor
    · rw [if_neg hhands]
      exact le_rfl
    · rw [if_neg hprep]
      exact le_rfl
    · rw [if_neg hno]
      rfl
    · rw [if_neg (fun hloses => hnot hloses.1)]
      rfl

theorem post_all_append (ls ls' : List Label) (c : String → Counts) :
    post_all (ls ++ ls') c = post_all ls' (post_all ls c) := List.foldl_append

theorem Outcome.free_booked (he : Reachable e) {step : Step}
    (hp : Path Trans e.machine ls (step.exec e).2.machine) (hw' : WellFormed (step.exec e).2.store)
    (hout : Outcome e.machine step.op (step.exec e).1 ls)
    (hnot : ¬ ∃ failed, step.op = .restart failed) (hfree : ∀ l ∈ ls, ¬ l.refunds)
    (c : String → Counts) (effect_id : String) :
    Booked e step effect_id (c effect_id) (post_all ls c effect_id) := by
  obtain ⟨h1, h2, h3, h4⟩ := @post_all_dispatching _ c effect_id hfree
  constructor
  · by_cases hhands : step.hands_out e effect_id = true
    · obtain ⟨id, now, a, ls0, rfl, heff, -⟩ := hout.hands_out hhands
      rw [if_pos hhands, post_all_append]
      have hbefore : ∀ l ∈ ls0, ¬ l.refunds := fun l hl => hfree l (List.mem_append_left _ hl)
      have hmono := (@post_all_dispatching _ c effect_id hbefore).1
      have hcharges : (Label.dispatch id a).charges = some effect_id := congrArg some heff
      have hfree' : (Label.hand_out a).post ((Label.dispatch id a).post (post_all ls0 c))
          = (Label.dispatch id a).post (post_all ls0 c) :=
        @post_all_free [.hand_out a] _ (List.forall_mem_singleton.mpr rfl)
      show _ ≤ ((Label.hand_out a).post ((Label.dispatch id a).post (post_all ls0 c))
        effect_id).dispatched
      rw [hfree']
      unfold Label.post
      rw [if_pos hcharges]
      exact Nat.succ_le_succ hmono
    · rw [if_neg hhands]
      exact h1
  · by_cases hprep : step.prepares e effect_id = true
    · obtain ⟨a, rfl, heff⟩ := hout.prepares hprep
      rw [if_pos hprep]
      show _ ≤ ((Label.invoke a).post c effect_id).invoked
      have hcharges : (Label.invoke a).charges = some effect_id := congrArg some heff
      unfold Label.post
      rw [if_pos hcharges]
      exact le_rfl
    · rw [if_neg hprep]
      exact h2
  · rw [if_neg (hout.not_refunds he hp hw' hfree)]
    exact h3
  · rw [if_neg (fun hloses => hnot hloses.1)]
    exact h4

/-- **One step of the engine**, in the books. -/
theorem Step.budgeted (he : Reachable e) (step : Step) (hb : Budgeted c e.machine) :
    ∃ c', Budgeted c' (step.exec e).2.machine
      ∧ ∀ effect_id, Booked e step effect_id (c effect_id) (c' effect_id) := by
  have hw := he.wellFormed
  by_cases hrestart : ∃ failed, step.op = .restart failed
  · obtain ⟨failed, hop⟩ := hrestart
    exact ⟨after_restart e.machine c, (Step.restarted hw hop).restart_budgeted hb,
      Step.restart_booked hw hop c⟩
  · obtain ⟨ls, hp, hw', hout⟩ := step.path hw
    have hno : Label.restart ∉ ls := fun hmem => hrestart (hout.restarted hmem)
    refine ⟨post_all ls c, Path.budgeted hp hno hb, fun effect_id => ?_⟩
    by_cases href : ∃ l ∈ ls, l.refunds
    · obtain ⟨l, hmem, hl⟩ := href
      exact hout.refuses_booked he hp hw' hrestart hmem hl c effect_id
    · push Not at href
      exact hout.free_booked he hp hw' hrestart href c effect_id

/-! ## Runs -/

/-- How often a run got an invocation of the effect. -/
def prepared_times (e : Engine) (steps : List Step) (effect_id : String) : ℕ :=
  Appcall.Machine.tally (fun e step => (step.exec e).2)
    (fun e step => step.prepares e effect_id = true) e steps

/-- How often a run was handed the effect. -/
def handed_out_times (e : Engine) (steps : List Step) (effect_id : String) : ℕ :=
  Appcall.Machine.tally (fun e step => (step.exec e).2)
    (fun e step => step.hands_out e effect_id = true) e steps

open Classical in
/-- How often a dispatch of the effect was refused as unexecuted. -/
noncomputable def refused_times (e : Engine) (steps : List Step) (effect_id : String) : ℕ :=
  Appcall.Machine.tally (fun e step => (step.exec e).2)
    (fun e step => Refuses e step effect_id) e steps

open Classical in
/-- How often a restart lost a dispatch of the effect that was not the first. -/
noncomputable def lost_times (e : Engine) (steps : List Step) (effect_id : String) : ℕ :=
  Appcall.Machine.tally (fun e step => (step.exec e).2)
    (fun e step => Loses e step effect_id) e steps

theorem budgeted_init : Budgeted (fun _ => Counts.zero) (Engine.init codec sha256_hex).machine := by
  have hnone := init_runs codec sha256_hex
  refine ⟨fun id en hen => ?_, fun id i t hspot => ?_, fun _ _ => rfl⟩
  · rw [hnone id] at hen
    cases hen
  · obtain ⟨r, c, hr, -⟩ := hspot
    rw [hnone id] at hr
    cases hr

structure Balanced (e : Engine) (steps : List Step) (effect_id : String) (c : Counts) : Prop where
  dispatched : handed_out_times e steps effect_id ≤ c.dispatched
  invoked : prepared_times e steps effect_id ≤ c.invoked
  refused : c.refused = refused_times e steps effect_id
  lost : c.lost = lost_times e steps effect_id

open Classical in
theorem Balanced.step {step : Step} {c c' : Counts} (h : Balanced e steps effect_id c)
    (hb : Booked (after e steps) step effect_id c c') :
    Balanced e (steps ++ [step]) effect_id c' := by
  have h1 := hb.dispatched
  have h2 := hb.invoked
  have h3 := hb.refused
  have h4 := hb.lost
  have h1' := h.dispatched
  have h2' := h.invoked
  have h3' := h.refused
  have h4' := h.lost
  constructor
  · unfold handed_out_times at h1' ⊢
    rw [Appcall.Machine.tally_append_singleton]
    exact le_trans (Nat.add_le_add_right h1' _) h1
  · unfold prepared_times at h2' ⊢
    rw [Appcall.Machine.tally_append_singleton]
    exact le_trans (Nat.add_le_add_right h2' _) h2
  · unfold refused_times at h3' ⊢
    rw [Appcall.Machine.tally_append_singleton, h3, h3']
    rfl
  · unfold lost_times at h4' ⊢
    rw [Appcall.Machine.tally_append_singleton, h4, h4']
    rfl

/-- **The books of a whole run.** -/
theorem run_budgeted (steps : List Step) :
    ∃ c, Budgeted c (after (Engine.init codec sha256_hex) steps).machine
      ∧ ∀ effect_id, Balanced (Engine.init codec sha256_hex) steps effect_id (c effect_id) := by
  induction steps using List.reverseRecOn with
  | nil => exact ⟨_, budgeted_init codec sha256_hex, fun _ => ⟨le_rfl, le_rfl, rfl, rfl⟩⟩
  | append_singleton steps step ih =>
    obtain ⟨c, hb, hc⟩ := ih
    obtain ⟨c', hb', hc'⟩ := Step.budgeted ⟨codec, sha256_hex, steps, rfl⟩ step hb
    rw [after_append_singleton]
    exact ⟨c', hb', fun effect_id => (hc effect_id).step (hc' effect_id)⟩

theorem Trans.budgets (h : Trans m l m') (hb : ∃ c, Budgeted c m) : ∃ c, Budgeted c m' := by
  obtain ⟨c, hb⟩ := hb
  by_cases hl : l = .restart
  · subst hl
    exact ⟨_, h.restart_budgeted hb⟩
  · exact ⟨_, h.budgeted hl hb⟩

theorem Reachable.budgets (he : Reachable e) : ∃ c, Budgeted c e.machine := by
  obtain ⟨codec, sha256_hex, steps, rfl⟩ := he
  obtain ⟨c, hb, -⟩ := run_budgeted codec sha256_hex steps
  exact ⟨c, hb⟩

/-- The effect of the attempt was dispatched, under its policies. -/
def Fixed (m : Machine) (a : ActivityAttempt) : Prop :=
  ∃ id i t, Spot m id i t ∧ t.attempt.effect_id = a.effect_id ∧ t.attempt.attempt ≠ 0
    ∧ t.attempt.policy = a.policy ∧ t.attempt.retry_policy = a.retry_policy

theorem Trans.fixed (h : Trans m l m') (hb : ∃ c, Budgeted c m) (hf : Fixed m a) : Fixed m' a := by
  obtain ⟨c, hb⟩ := hb
  obtain ⟨id, i, t, hspot, heff, hne, hpolicy, hretry⟩ := hf
  obtain ⟨t', hspot', hmove⟩ := h.spot hspot
  have hle := hmove.effect.attempt
  obtain ⟨t0, hentering, heff0, hcharge⟩ := h.charged hb.tasked hspot'
  have hsame : t0 = t := by
    have heq : t0.attempt.effect_id = t.attempt.effect_id := by
      rw [← heff0, hmove.effect.effect_id]
    rcases hentering with hold | ⟨huntracked, -⟩
    · exact (hb.tasked.unique hold hspot heq).2.2
    · exact absurd ⟨id, i, t, hspot, heq.symm⟩ huntracked
  subst hsame
  have hcharge' : Charge m id l t0 t' := by
    rcases hcharge with hc | ⟨-, hc⟩
    · exact .charged hc
    · exact hc
  exact ⟨id, i, t', hspot', heff0.trans heff, by omega, hmove.effect.policy.trans hpolicy,
    (hcharge'.policy (hb.ledger id i t0 hspot) hne).trans hretry⟩

theorem Step.fixed (he : Reachable e) (step : Step) (hf : Fixed e.machine a) :
    Fixed (step.exec e).2.machine a := by
  obtain ⟨ls, hp, -, -⟩ := step.path he.wellFormed
  have hkeeps := Path.keeps (I := fun m => (∃ c, Budgeted c m) ∧ Fixed m a) hp
    (fun l _ m m' htrans hI => ⟨htrans.budgets hI.1, htrans.fixed hI.1 hI.2⟩)
    ⟨he.budgets, hf⟩
  exact hkeeps.2

theorem dispatch_fixed (steps : List Step) (hin : i < n)
    (h : reply_at (Engine.init codec sha256_hex) steps i = some (.ok (.drive (.Activity a)))) :
    Fixed (after (Engine.init codec sha256_hex) (steps.take n)).machine a := by
  obtain ⟨step, hget, hres⟩ := Option.map_eq_some_iff.mp h
  have hreach : Reachable (after (Engine.init codec sha256_hex) (steps.take i)) :=
    ⟨codec, sha256_hex, steps.take i, rfl⟩
  refine after_induction (P := fun e => Fixed e.machine a)
    (Nat.succ_le_of_lt hin) ?_ (fun k step' _ _ _ hr hf => Step.fixed hr step' hf)
  rw [after_take_succ _ steps hget]
  obtain ⟨id, -, -, -, -, -, ⟨p, t, hspot, rfl, hin', -⟩, -⟩ := Step.dispatched hreach hres
  obtain ⟨c, hb⟩ := (hreach.step step).budgets
  have hheld : t.state.held = true := by rw [hin']; rfl
  exact ⟨id, p, t, hspot, rfl, (hb.ledger id p t hspot).held hheld, rfl, rfl⟩

theorem Step.refuses_attempts (he : Reachable e) {step : Step} (h : Refuses e step effect_id)
    {t' : ActivityTask} (hs : Spot (step.exec e).2.machine id i t')
    (heff : t'.attempt.effect_id = effect_id) :
    ∃ t, Spot e.machine id i t ∧ t.attempt.effect_id = effect_id
      ∧ t'.execution.execution_attempts = t.execution.execution_attempts := by
  obtain ⟨ls, hp, hw', hout⟩ := step.path he.wellFormed
  have href : ∃ l ∈ ls, l.refunds := by
    by_contra hno
    push Not at hno
    exact hout.not_refunds he hp hw' hno h
  obtain ⟨l, hmem, hl⟩ := href
  obtain ⟨a, hlabel, hnames, -⟩ := Label.refunds_attempt hl
  obtain ⟨hrejects, ls', rfl, hrel⟩ := hout.rejects he hp hw' hmem hlabel
  obtain ⟨b, hb, hrejects'⟩ := h
  rw [hrejects'.same hrejects] at hb
  generalize (step.exec e).2.machine = m' at hp hs
  cases hp with
  | cons htrans hrest =>
    have hspot := Path.releases_spot hrest hrel hs
    obtain ⟨t, hentering, heff', hcharge⟩ := htrans.charged he.tasked hspot
    have hcharges : l.charges = some t.attempt.effect_id := by rw [hnames, hb, ← heff, heff']
    rcases hcharge with hcharged | ⟨hne, -⟩
    · cases hcharged with
      | refused _ hin _ =>
        rcases hentering with hold | ⟨-, r, index, name, version, input, policy, rfl⟩
        · exact ⟨t, hold, heff, rfl⟩
        · cases hin
      | invoked => exact hl.elim
      | dispatched => exact hl.elim
    · exact absurd hcharges hne

/-- **Native retry budget.** Of every effect, in every run: invocations are handed
out at most `max_attempts` times, for the policy of its first dispatch (which all
its dispatches carry); a refusal leaves the count of executions as it is; and the
refused dispatches are never counted later either. -/
theorem native_retry_budget (codec : Codec) (sha256_hex : String → String) (steps : List Step)
    (effect_id : String) :
    (∀ i a, reply_at (Engine.init codec sha256_hex) steps i
          = some (.ok (.drive (.Activity a))) → a.effect_id = effect_id →
        ∃ policy, a.retry_policy = some policy
          ∧ prepared_times (Engine.init codec sha256_hex) steps effect_id ≤ policy.max_attempts)
    ∧ (prepared_times (Engine.init codec sha256_hex) steps effect_id ≠ 0 →
        ∃ t policy, Stored (after (Engine.init codec sha256_hex) steps) t
          ∧ t.attempt.effect_id = effect_id ∧ t.attempt.retry_policy = some policy
          ∧ prepared_times (Engine.init codec sha256_hex) steps effect_id ≤ policy.max_attempts)
    ∧ (∀ k step t t', steps[k]? = some step →
        Refuses (after (Engine.init codec sha256_hex) (steps.take k)) step effect_id →
        Stored (after (Engine.init codec sha256_hex) (steps.take k)) t →
        Stored (after (Engine.init codec sha256_hex) (steps.take (k + 1))) t' →
        t.attempt.effect_id = effect_id → t'.attempt.effect_id = effect_id →
        t'.execution.execution_attempts = t.execution.execution_attempts)
    ∧ ∀ t, Stored (after (Engine.init codec sha256_hex) steps) t →
        t.attempt.effect_id = effect_id → t.execution.execution_attempts
          + refused_times (Engine.init codec sha256_hex) steps effect_id ≤ t.attempt.attempt := by
  have hreach : ∀ n, Reachable (after (Engine.init codec sha256_hex) (steps.take n)) :=
    fun n => ⟨codec, sha256_hex, steps.take n, rfl⟩
  have hlast : Reachable (after (Engine.init codec sha256_hex) steps) :=
    ⟨codec, sha256_hex, steps, rfl⟩
  obtain ⟨c, hb, hc⟩ := run_budgeted codec sha256_hex steps
  have hprepared := (hc effect_id).invoked
  have hrefused := (hc effect_id).refused
  -- a dispatched task stays within the policy it carries
  have hwithin : ∀ id i t, Spot (after (Engine.init codec sha256_hex) steps).machine id i t →
      t.attempt.effect_id = effect_id → t.attempt.attempt ≠ 0 →
      ∃ policy, t.attempt.retry_policy = some policy
        ∧ prepared_times (Engine.init codec sha256_hex) steps effect_id ≤ policy.max_attempts := by
    intro id i t hspot heff hne
    have hledger := hb.ledger id i t hspot
    rw [heff] at hledger
    obtain ⟨policy, hpolicy, hle, -⟩ := hledger.budget hne
    have hinvoked := hledger.invoked
    exact ⟨policy, hpolicy, by omega⟩
  refine ⟨fun i a hreply heff => ?_, fun hne => ?_, fun k step t t' hget href hs hs' ht ht' => ?_,
    fun t hs heff => ?_⟩
  · have hlt : i < steps.length := by
      obtain ⟨step, hget, -⟩ := Option.map_eq_some_iff.mp hreply
      exact (List.getElem?_eq_some_iff.mp hget).1
    have hfixed := dispatch_fixed codec sha256_hex steps hlt hreply
    rw [List.take_length] at hfixed
    obtain ⟨id, p, t, hspot, heff', hne, -, hretry⟩ := hfixed
    rw [← hretry]
    exact hwithin id p t hspot (heff'.trans heff) hne
  · have htracked : Tracked (after (Engine.init codec sha256_hex) steps).machine effect_id := by
      by_contra hnot
      rw [hb.untracked effect_id hnot] at hprepared
      exact hne (Nat.le_zero.mp hprepared)
    obtain ⟨id, i, t, hspot, heff⟩ := htracked
    have hledger := hb.ledger id i t hspot
    rw [heff] at hledger
    have hinvoked := hledger.invoked
    have hroom := hledger.room
    obtain ⟨policy, hpolicy, hle⟩ := hwithin id i t hspot heff (by omega)
    exact ⟨t, policy, (task_stored_iff hlast.wellFormed).mpr ⟨id, i, hspot⟩, heff, hpolicy, hle⟩
  · rw [after_take_succ _ steps hget] at hs'
    obtain ⟨id, i, hspot⟩ := (task_stored_iff (hreach k).wellFormed).mp hs
    obtain ⟨id', i', hspot'⟩ := (task_stored_iff ((hreach k).step step).wellFormed).mp hs'
    obtain ⟨t0, hspot0, heff0, hattempts⟩ := Step.refuses_attempts (hreach k) href hspot' ht'
    obtain ⟨-, -, rfl⟩ := (hreach k).tasked.unique hspot0 hspot (heff0.trans ht.symm)
    exact hattempts
  · obtain ⟨id, i, hspot⟩ := (task_stored_iff hlast.wellFormed).mp hs
    have hledger := hb.ledger id i t hspot
    rw [heff] at hledger
    have hroom := hledger.room
    rw [hrefused] at hroom
    omega

/-! ## Dispatches that nobody started -/

theorem take_succ_eq {step : Step} (h : steps[n]? = some step) :
    steps.take (n + 1) = steps.take n ++ [step] := by
  rw [List.take_add_one, h, Option.toList_some]

open Classical in
theorem refused_times_succ (e : Engine) {step : Step} (h : steps[n]? = some step)
    (effect_id : String) :
    refused_times e (steps.take (n + 1)) effect_id = refused_times e (steps.take n) effect_id
      + if Refuses (after e (steps.take n)) step effect_id then 1 else 0 := by
  unfold refused_times
  rw [take_succ_eq h, Appcall.Machine.tally_append_singleton]
  rfl

open Classical in
theorem lost_times_succ (e : Engine) {step : Step} (h : steps[n]? = some step)
    (effect_id : String) :
    lost_times e (steps.take (n + 1)) effect_id = lost_times e (steps.take n) effect_id
      + if Loses (after e (steps.take n)) step effect_id then 1 else 0 := by
  unfold lost_times
  rw [take_succ_eq h, Appcall.Machine.tally_append_singleton]
  rfl

theorem handed_out_times_succ (e : Engine) {step : Step} (h : steps[n]? = some step)
    (effect_id : String) : handed_out_times e (steps.take (n + 1)) effect_id
      = handed_out_times e (steps.take n) effect_id
        + if step.hands_out (after e (steps.take n)) effect_id = true then 1 else 0 := by
  unfold handed_out_times
  rw [take_succ_eq h, Appcall.Machine.tally_append_singleton]
  rfl

theorem lost_times_eq_zero (e : Engine) (hn : n ≤ steps.length) :
    lost_times e (steps.take n) effect_id = 0
      ↔ ∀ k step, k < n → steps[k]? = some step →
          ¬ Loses (after e (steps.take k)) step effect_id := by
  induction n with
  | zero =>
    constructor
    · intro _ k step hk
      omega
    · intro _
      rfl
  | succ n ih =>
    have hget : steps[n]? = some steps[n] := List.getElem?_eq_getElem (by omega)
    rw [lost_times_succ e hget, Nat.add_eq_zero_iff, ih (by omega)]
    constructor
    · rintro ⟨hbefore, hlast⟩ k step hk hstep
      by_cases hkn : k < n
      · exact hbefore k step hkn hstep
      · have heq : k = n := by omega
        subst heq
        rw [hget] at hstep
        cases hstep
        intro hloses
        rw [if_pos hloses] at hlast
        cases hlast
    · intro hall
      refine ⟨fun k step hk hstep => hall k step (by omega) hstep, ?_⟩
      rw [if_neg (hall n steps[n] (by omega) hget)]

/-- **The balance at a dispatch**: all dispatches before it are charged, refused or
lost, and the one that is out still fits the budget. -/
theorem dispatch_balance (steps : List Step)
    (h : reply_at (Engine.init codec sha256_hex) steps i = some (.ok (.drive (.Activity a)))) :
    ∃ id p t policy,
      Spot (after (Engine.init codec sha256_hex) (steps.take (i + 1))).machine id p t
      ∧ t.attempt = a ∧ a.retry_policy = some policy
      ∧ t.execution.execution_attempts < policy.max_attempts
      ∧ handed_out_times (Engine.init codec sha256_hex) (steps.take (i + 1)) a.effect_id ≤ a.attempt
      ∧ refused_times (Engine.init codec sha256_hex) (steps.take (i + 1)) a.effect_id
        = refused_times (Engine.init codec sha256_hex) (steps.take i) a.effect_id
      ∧ (a.policy.safe = true → a.attempt = t.execution.execution_attempts
          + refused_times (Engine.init codec sha256_hex) (steps.take i) a.effect_id
          + lost_times (Engine.init codec sha256_hex) (steps.take i) a.effect_id + 1) := by
  obtain ⟨step, hget, hres⟩ := Option.map_eq_some_iff.mp h
  have hreach : Reachable (after (Engine.init codec sha256_hex) (steps.take i)) :=
    ⟨codec, sha256_hex, steps.take i, rfl⟩
  obtain ⟨id, -, -, -, -, -, ⟨p, t, hspot, rfl, hin, hepoch⟩, -⟩ := Step.dispatched hreach hres
  rw [← after_take_succ _ steps hget] at hspot hepoch
  obtain ⟨c, hb, hc⟩ := run_budgeted codec sha256_hex (steps.take (i + 1))
  have hledger := hb.ledger id p t hspot
  have hbal := hc t.attempt.effect_id
  have hheld : t.state.held = true := by rw [hin]; rfl
  obtain ⟨policy, hpolicy, hle, -⟩ := hledger.budget (hledger.held hheld)
  obtain ⟨hone, -, -⟩ := hledger.in_flight hin
  have hdispatched := hbal.dispatched
  have hnumber := hledger.number
  -- a drive refuses nothing, and is no restart
  obtain ⟨run_id, now, resolver, hop⟩ := perform_drive hres
  have hrefused : refused_times (Engine.init codec sha256_hex) (steps.take (i + 1))
      t.attempt.effect_id
        = refused_times (Engine.init codec sha256_hex) (steps.take i) t.attempt.effect_id := by
    rw [refused_times_succ _ hget, if_neg]
    · rfl
    · rintro ⟨b, -, hrejected, -⟩
      rw [hop] at hrejected
      rcases hrejected with ⟨reason, hop'⟩ | ⟨resolver', started_at_ms, hop', -⟩ <;> cases hop'
  have hlost : lost_times (Engine.init codec sha256_hex) (steps.take (i + 1)) t.attempt.effect_id
      = lost_times (Engine.init codec sha256_hex) (steps.take i) t.attempt.effect_id := by
    rw [lost_times_succ _ hget, if_neg]
    · rfl
    · rintro ⟨⟨failed, hop'⟩, -⟩
      rw [hop] at hop'
      cases hop'
  refine ⟨id, p, t, policy, hspot, rfl, hpolicy, by omega, by omega, hrefused, fun hsafe => ?_⟩
  have hbalance := hledger.balance hsafe
  rw [hledger.chargeable_of_flight hin hepoch, hbal.refused, hbal.lost, hrefused, hlost]
    at hbalance
  exact hbalance

/-- Every dispatch of the effect that was not refused is in the count of executions
by the time the next one is out, and there are never more of them than the budget
of the effect allows. -/
def Debited (e : Engine) (steps : List Step) (effect_id : String) : Prop :=
  ∀ i a, reply_at e steps i = some (.ok (.drive (.Activity a))) → a.effect_id = effect_id →
    a.policy = .Read ∨ a.policy = .Idempotent →
    (∀ t, Stored (after e (steps.take (i + 1))) t → t.attempt = a →
      a.attempt ≤ t.execution.execution_attempts + refused_times e (steps.take i) effect_id + 1)
    ∧ ∃ policy, a.retry_policy = some policy ∧ ∀ n, i < n →
        handed_out_times e (steps.take n) effect_id
          ≤ policy.max_attempts + refused_times e (steps.take n) effect_id

/-- **Lost dispatches.** The dispatches of an effect that is safe to repeat are all
in its count of executions, refused ones apart, and stay within its budget, if and
only if none but the first was lost: no restart that comes before a later dispatch
finds one of them handed out and not started. -/
theorem crash_lost_dispatch_debited_iff (codec : Codec) (sha256_hex : String → String)
    (steps : List Step) (effect_id : String) :
    Debited (Engine.init codec sha256_hex) steps effect_id
      ↔ ∀ i a, reply_at (Engine.init codec sha256_hex) steps i
            = some (.ok (.drive (.Activity a))) → a.effect_id = effect_id →
          a.policy = .Read ∨ a.policy = .Idempotent →
          ∀ k step, k < i → steps[k]? = some step →
            ¬ Loses (after (Engine.init codec sha256_hex) (steps.take k)) step effect_id := by
  have hreach : ∀ n, Reachable (after (Engine.init codec sha256_hex) (steps.take n)) :=
    fun n => ⟨codec, sha256_hex, steps.take n, rfl⟩
  have hsafe : ∀ a : ActivityAttempt, a.policy = .Read ∨ a.policy = .Idempotent →
      a.policy.safe = true := by
    intro a ha
    rcases ha with ha | ha <;> rw [ha] <;> rfl
  have hlen : ∀ {i a}, reply_at (Engine.init codec sha256_hex) steps i
      = some (.ok (.drive (.Activity a))) → i < steps.length := by
    intro i a hreply
    obtain ⟨step, hget, -⟩ := Option.map_eq_some_iff.mp hreply
    exact (List.getElem?_eq_some_iff.mp hget).1
  constructor
  · intro hdebited i a hreply heff hpolicy
    have hlt := hlen hreply
    obtain ⟨hcounted, -⟩ := hdebited i a hreply heff hpolicy
    obtain ⟨id, p, t, policy, hspot, hatt, -, -, -, -, hbalance⟩ :=
      dispatch_balance codec sha256_hex steps hreply
    have hle := hcounted t ((task_stored_iff (hreach (i + 1)).wellFormed).mpr ⟨id, p, hspot⟩) hatt
    have heq := hbalance (hsafe a hpolicy)
    rw [heff] at heq
    exact (lost_times_eq_zero _ (le_of_lt hlt)).mp (by omega)
  · intro hnone i a hreply heff hpolicy
    have hlt := hlen hreply
    -- the number of every dispatch of the effect is covered by its books
    have hcovered : ∀ j b, reply_at (Engine.init codec sha256_hex) steps j
          = some (.ok (.drive (.Activity b))) → b.effect_id = effect_id →
        b.policy = .Read ∨ b.policy = .Idempotent → ∃ id p t policy,
          Spot (after (Engine.init codec sha256_hex) (steps.take (j + 1))).machine id p t
          ∧ t.attempt = b ∧ b.retry_policy = some policy
          ∧ b.attempt = t.execution.execution_attempts
            + refused_times (Engine.init codec sha256_hex) (steps.take j) effect_id + 1
          ∧ handed_out_times (Engine.init codec sha256_hex) (steps.take (j + 1)) effect_id
            ≤ policy.max_attempts
              + refused_times (Engine.init codec sha256_hex) (steps.take (j + 1)) effect_id := by
      intro j b hreply' heff' hpolicy'
      obtain ⟨id, p, t, policy, hspot, hatt, hretry, hroom, hhanded, hrefused, hbalance⟩ :=
        dispatch_balance codec sha256_hex steps hreply'
      have heq := hbalance (hsafe b hpolicy')
      have hzero := (lost_times_eq_zero (Engine.init codec sha256_hex)
        (le_of_lt (hlen hreply'))).mpr (hnone j b hreply' heff' hpolicy')
      rw [heff'] at heq hhanded hrefused
      exact ⟨id, p, t, policy, hspot, hatt, hretry, by omega, by omega⟩
    obtain ⟨id, p, t, policy, hspot, hatt, hretry, hnumber, hfirst⟩ :=
      hcovered i a hreply heff hpolicy
    refine ⟨fun t' hs' hatt' => ?_, policy, hretry, fun n hn => ?_⟩
    · obtain ⟨id', p', hspot'⟩ := (task_stored_iff (hreach (i + 1)).wellFormed).mp hs'
      obtain ⟨-, -, rfl⟩ := (hreach (i + 1)).tasked.unique hspot hspot' (by rw [hatt, hatt'])
      omega
    · -- over the rest of the run, by what its steps hand out
      induction n, hn using Nat.le_induction with
      | base => exact hfirst
      | succ n hle ih =>
        cases hget : steps[n]? with
        | none =>
          have hend : steps.length ≤ n := List.getElem?_eq_none_iff.mp hget
          rw [List.take_of_length_le hend] at ih
          rw [List.take_of_length_le (by omega)]
          exact ih
        | some step =>
          by_cases hhands : step.hands_out
              (after (Engine.init codec sha256_hex) (steps.take n)) effect_id = true
          · obtain ⟨b, hres, heff'⟩ := Step.hands_out_iff.mp hhands
            have hreply' : reply_at (Engine.init codec sha256_hex) steps n
                = some (.ok (.drive (.Activity b))) := by
              unfold reply_at
              rw [hget, Option.map_some, hres]
            -- the later dispatch carries the policies of the first
            obtain ⟨id1, p1, t1, hspot1, heff1, -, hpolicy1, hretry1⟩ :=
              dispatch_fixed codec sha256_hex steps (show i < n + 1 by omega) hreply
            obtain ⟨id2, p2, t2, policy2, hspot2, hatt2, hretry2, -⟩ :=
              dispatch_balance codec sha256_hex steps hreply'
            obtain ⟨-, -, rfl⟩ := (hreach (n + 1)).tasked.unique hspot1 hspot2
              (by rw [heff1, hatt2, heff, heff'])
            rw [hatt2] at hpolicy1 hretry1
            obtain ⟨-, -, -, policy3, -, -, hretry3, -, hbound⟩ :=
              hcovered n b hreply' heff' (by rw [hpolicy1]; exact hpolicy)
            rw [hretry1, hretry] at hretry3
            cases hretry3
            exact hbound
          · rw [handed_out_times_succ _ hget, if_neg hhands, refused_times_succ _ hget]
            omega

def Operation.may_refuse : Operation → Bool
  | .reject_dispatch _ _ | .prepare_registered_at _ _ _ => true
  | _ => false

open Classical in
theorem refused_times_eq_zero (h : steps.all (fun step => !step.op.may_refuse) = true) (e : Engine)
    (effect_id : String) : refused_times e steps effect_id = 0 := by
  unfold refused_times
  refine Appcall.Machine.tally_eq_zero ?_
  induction steps generalizing e with
  | nil => trivial
  | cons step steps ih =>
    rw [List.all_cons, Bool.and_eq_true] at h
    refine ⟨?_, ih h.2 _⟩
    rintro ⟨a, -, hrejected, -⟩
    have hnot := h.1
    rcases hrejected with ⟨reason, hop⟩ | ⟨resolver, started_at_ms, hop, -⟩ <;>
      (rw [hop] at hnot; cases hnot)

def Sample.twice : RetryPolicy :=
  { max_attempts := 2, max_elapsed_ms := 60000, base_delay_ms := 1000, max_delay_ms := 30000 }

/-- The process dies, and the next one drives the run. -/
def Sample.crash : List Step :=
  [Sample.call (.restart 0), Sample.call (.register_workflow "w" "1" (Sample.pair .Read .Read)),
    Sample.call (.register_activity "a" "1" true), Sample.drive "run" 0]

/-- A read is handed out, and twice the process dies before it was started. -/
def Sample.crashes : List Step :=
  Sample.call (.set_retry_policy Sample.twice) :: Sample.start (Sample.pair .Read .Read)
    ++ [Sample.drive "run" 0] ++ Sample.crash ++ Sample.crash

/-- The second lost dispatch is free: the third one is handed out over a budget of
two. -/
theorem second_lost_dispatch_free :
    ¬ ∀ (codec : Codec) (sha256_hex : String → String) (steps : List Step) (effect_id : String),
      Debited (Engine.init codec sha256_hex) steps effect_id := by
  intro hall
  have hdebited := hall Sample.codec id Sample.crashes (effect_id_at "run" 0)
  have hthird : reply_at (Engine.init Sample.codec id) Sample.crashes 12
      = some (.ok (.drive (.Activity { Sample.attempt 0 3 3 .Read with
          retry_policy := some Sample.twice }))) := by decide +kernel
  obtain ⟨-, policy, hpolicy, hbound⟩ := hdebited 12 _ hthird rfl (.inl rfl)
  cases hpolicy
  have htimes : handed_out_times (Engine.init Sample.codec id) (Sample.crashes.take 13)
      (effect_id_at "run" 0) = 3 := by decide +kernel
  have hle := hbound 13 (by decide)
  rw [htimes, refused_times_eq_zero (by decide)] at hle
  exact absurd hle (by decide)

end Appcall.Durable
