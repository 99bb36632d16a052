/-
Every operation of the engine is a path of the transition system.

This is the connection between the code and `Trans`. The proofs follow the code
line by line: one rule for each call on the store, and then one statement for
each method of the engine that says which moves it makes, whatever it answers.
An operation that fails half way has made the moves up to there, which is what
a caller of a `Result` in Rust has to live with and what the statements say.
-/
import Appcall.Lib.Refine
import Appcall.Engine.Frames
import Appcall.Engine.Steps

set_option autoImplicit false

namespace Appcall.Durable

open Appcall.Refine

/-- A method of the engine against the transition system. -/
def Refines {α : Type} (p : EngineM α) (t : Machine)
    (Q : Except Error α → List Label → Machine → Prop) : Prop :=
  Spec (fun e : Engine => WellFormed e.store) Engine.machine Trans p t Q

/-! ## The rules for calls on the store -/

section Rules

variable {α : Type} {t : Machine} {Q : Except Error α → List Label → Machine → Prop}

theorem Refines.weaken {p : EngineM α} {P : Except Error α → List Label → Machine → Prop}
    (h : Refines p t P) (hq : ∀ r ls t', P r ls t' → Q r ls t') : Refines p t Q :=
  Spec.weaken h hq

theorem Refines.bind {β : Type} {p : EngineM β} {f : β → EngineM α}
    (h : Refines p t (fun r ls t' =>
      match r with
      | .ok a => Refines (f a) t' (fun r' ls' t'' => Q r' (ls ++ ls') t'')
      | .error e => Q (.error e) ls t')) : Refines (p >>= f) t Q := by
  refine Spec.bind (Spec.weaken h (fun r ls t' hr => ?_))
  cases r with
  | ok a => exact hr
  | error e => exact hr

theorem Refines.pure {a : α} (h : Q (.ok a) [] t) : Refines (Pure.pure a) t Q := Spec.pure h

theorem Refines.throw {e : Error} (h : Q (.error e) [] t) :
    Refines (MonadExcept.throw e) t Q := Spec.throw h

theorem Refines.result {β : Type} {x : Except Error β} {f : β → EngineM α}
    (hok : ∀ b, x = .ok b → Refines (f b) t Q) (herr : ∀ e, x = .error e → Q (.error e) [] t) :
    Refines (Durable.result x >>= f) t Q := by
  refine Refines.bind ?_
  cases x with
  | ok b => exact Refines.pure (hok b rfl)
  | error e => exact Refines.throw (herr e rfl)

theorem Refines.get {f : Engine → EngineM α}
    (h : ∀ e : Engine, WellFormed e.store → e.machine = t → Refines (f e) t Q) :
    Refines (MonadState.get >>= f) t Q := Spec.get h

variable {l : Label} {f : RunRecord → EngineM α} {run : RunRecord} {children : List RunRecord}
  {r : RunRecord} {c : Option ℤ}

theorem Refines.set {e : Engine} {f : PUnit → EngineM α} (hs : Trans t l e.machine)
    (hw : WellFormed e.store) (h : Refines (f ⟨⟩) e.machine (fun res ls t' => Q res (l :: ls) t')) :
    Refines (MonadStateOf.set e >>= f) t Q :=
  Refines.bind (Spec.set hs hw h)

theorem Refines.modify {g : Engine → Engine} {u : Machine} {f : PUnit → EngineM α}
    (hs : Trans t l u) (hg : ∀ e : Engine, WellFormed e.store → e.machine = t →
      (g e).machine = u ∧ WellFormed (g e).store)
    (h : Refines (f ⟨⟩) u (fun res ls t' => Q res (l :: ls) t')) :
    Refines ((modifyGet (fun e => (⟨⟩, g e)) : EngineM PUnit) >>= f) t Q := by
  refine Refines.bind (Spec.modify (l := l) (fun e hw ht => ?_))
  obtain ⟨hm, hw'⟩ := hg e hw ht
  rw [hm]
  exact ⟨hs, hw', h⟩

theorem wellFormed_outages {s : SqliteStore} (hw : WellFormed s)
    (outages : List (Option String)) : WellFormed { s with outages } :=
  ⟨hw.key, hw.revision, hw.column, hw.flag, hw.sealed_resolved, hw.tail, hw.cap, hw.orphan⟩

theorem store_call_refines :
    Refines store_call t (fun _ ls t' => ls = [] ∧ t' = t) := by
  intro e hw ht
  unfold store_call
  cases ho : e.store.outages with
  | nil =>
    refine ⟨[], ?_, ?_, rfl, ?_⟩ <;>
      simp only [exec_bind, exec_get, ho, exec_pure] <;> subst ht
    · exact .nil _
    · exact hw
    · rfl
  | cons answer rest =>
    have hw' : WellFormed { e.store with outages := rest } := wellFormed_outages hw rest
    cases answer with
    | none =>
      refine ⟨[], ?_, ?_, rfl, ?_⟩ <;>
        simp only [exec_bind, exec_get, ho, exec_set] <;> subst ht
      · exact .nil _
      · exact hw'
      · rfl
    | some message =>
      refine ⟨[], ?_, ?_, rfl, ?_⟩ <;>
        simp only [exec_bind, exec_get, ho, exec_set, exec_throw] <;> subst ht
      · exact .nil _
      · exact hw'
      · rfl

theorem Refines.store_call {f : Unit → EngineM α} (hok : Refines (f ()) t Q)
    (herr : ∀ e, Q (.error e) [] t) : Refines (Durable.store_call >>= f) t Q := by
  refine Refines.bind (store_call_refines.weaken ?_)
  rintro r ls t' ⟨rfl, rfl⟩
  cases r with
  | ok u => exact hok
  | error e => exact herr e

theorem Refines.load {id : String}
    (hok : ∀ (r : RunRecord) (c : Option ℤ), t.runs r.id = some ⟨r, c⟩ → r.id = id →
      OneOpen r.history → Refines (f r) t Q) (herr : ∀ e, Q (.error e) [] t) :
    Refines (Durable.load id >>= f) t Q := by
  unfold Durable.load
  rw [bind_assoc]
  refine Refines.store_call ?_ herr
  rw [bind_assoc]
  refine Refines.get (fun e hw ht => ?_)
  refine Refines.result (fun r hr => ?_) (fun e' _ => herr e')
  rw [hw.load_eq] at hr
  cases hv : e.store.view id with
  | none => rw [hv] at hr; cases hr
  | some en =>
    rw [hv] at hr
    cases hr
    have hid : en.record.id = id := hw.view_id hv
    refine hok en.record en.wakeup ?_ hid (hw.one_open hv)
    rw [hid, ← ht]
    exact hv

theorem run_exists_refines (id : String) :
    Refines (run_exists id) t (fun r ls t' => ls = [] ∧ t' = t
      ∧ ∀ b, r = .ok b → if b then ∃ en, t.runs id = some en else t.runs id = none) := by
  unfold run_exists
  refine Refines.store_call ?_ (fun e => ⟨rfl, rfl, by rintro b ⟨⟩⟩)
  refine Refines.get (fun e hw ht => ?_)
  rw [hw.load_eq]
  subst ht
  cases hv : e.store.view id with
  | none => exact Refines.pure ⟨rfl, rfl, by rintro b ⟨⟩; exact hv⟩
  | some en => exact Refines.pure ⟨rfl, rfl, by rintro b ⟨⟩; exact ⟨en, hv⟩⟩

theorem checked_succ_ok {n n' : ℕ} (h : checked_succ n = .ok n') : n' = n + 1 := by
  unfold checked_succ at h
  split at h
  · exact (Except.ok.inj h).symm
  · cases h

/-- `self.save(&mut r, children)?` when the commit is known for whatever record
the revision lets through. -/
theorem Refines.save_if (ho : OneOpen run.history) (hh : ∀ x ∈ children, x.history = [])
    (hc : ∀ r c, t.runs run.id = some ⟨r, c⟩ → r.revision = run.revision →
      Change t l r run children)
    (hok : ∀ r c, t.runs run.id = some ⟨r, c⟩ → r.revision = run.revision →
      Fresh (Function.update t.runs run.id (some ⟨run.saved, run.saved.wakeup⟩)) children →
      Refines (f run.saved) (t.commit run children) (fun res ls t' => Q res (l :: ls) t'))
    (herr : ∀ e, Q (.error e) [] t) : Refines (save run children >>= f) t Q := by
  unfold save
  rw [bind_assoc]
  refine Refines.result (fun revision hrev => ?_) (fun e _ => herr e)
  rw [bind_assoc]
  refine Refines.store_call ?_ herr
  rw [bind_assoc]
  refine Refines.get (fun e hw ht => ?_)
  rw [bind_assoc]
  refine Refines.result (fun store hstore => ?_) (fun e _ => herr e)
  have hsaved : { run with revision } = run.saved := by
    rw [checked_succ_ok hrev]
    rfl
  rw [hsaved] at hstore ⊢
  have hview : e.store.view = t.runs := by
    rw [← ht]
    rfl
  obtain ⟨hw', hv', ⟨en, hen, hrv⟩, hfresh, hep, -⟩ := commit_ok hw hstore
    (fun en hen hrv => by
      rw [hview] at hen
      exact ((hc en.record en.wakeup hen hrv).extends (hw.one_open (hview ▸ hen))).1)
    ho hh
  rw [hview] at hen hfresh
  have hid : en.record.id = run.id := hw.view_id (hview ▸ hen)
  have hchange := hc en.record en.wakeup hen hrv
  have hmachine : ({ e with store } : Engine).machine = t.commit run children := by
    rw [← ht]
    unfold Engine.machine Machine.commit
    simp only
    rw [hv', hep]
  have htrans : Trans t l (t.commit run children) := by
    refine Trans.change (r := en.record) (c := en.wakeup) ?_ hchange ?_
    · rw [hid]
      exact hen
    · rw [hid]
      exact hfresh
  rw [bind_assoc]
  refine Refines.set (l := l) ?_ hw' ?_
  · rw [hmachine]
    exact htrans
  · rw [hmachine, pure_bind]
    exact hok en.record en.wakeup hen hrv hfresh

theorem Refines.save_new (hs : t.runs r.id = some ⟨r, c⟩) (ho : OneOpen r.history)
    (hc : Change t l r run children)
    (hok : Fresh (Function.update t.runs run.id (some ⟨run.saved, run.saved.wakeup⟩)) children →
      Refines (f run.saved) (t.commit run children) (fun res ls t' => Q res (l :: ls) t'))
    (herr : ∀ e, Q (.error e) [] t) : Refines (Durable.save run children >>= f) t Q := by
  refine Refines.save_if (hc.extends ho).2 (fun x hx => (hc.new_children x hx).history) ?_
    (fun _ _ _ _ hf => hok hf) herr
  intro r' c' hr' _
  rw [hc.frame.id, hs] at hr'
  cases hr'
  exact hc

theorem Refines.save (hs : t.runs r.id = some ⟨r, c⟩) (ho : OneOpen r.history)
    (hc : Change t l r run children)
    (hok : Refines (f run.saved) (t.commit run children) (fun res ls t' => Q res (l :: ls) t'))
    (herr : ∀ e, Q (.error e) [] t) : Refines (Durable.save run children >>= f) t Q :=
  Refines.save_new hs ho hc (fun _ => hok) herr

theorem Refines.save_last {Q : Except Error RunRecord → List Label → Machine → Prop}
    (hs : t.runs r.id = some ⟨r, c⟩) (ho : OneOpen r.history) (hc : Change t l r run children)
    (hok : Q (.ok run.saved) [l] (t.commit run children)) (herr : ∀ e, Q (.error e) [] t) :
    Refines (Durable.save run children) t Q := by
  rw [← bind_pure (Durable.save run children)]
  exact Refines.save hs ho hc (Refines.pure hok) herr

end Rules

/-! ## Which moves an operation makes -/

/-- The moves of `release_dispatch`. -/
def Label.releases (a : ActivityAttempt) : Label → Prop
  | .wake _ | .unpark _ => True
  | .release a' => a' = a
  | _ => False

/-- The moves of `cancel`. -/
def Label.cancels : Label → Prop
  | .cancel_request _ | .cancel_done _ => True
  | _ => False

/-- The moves of `drive_with_resolver`. -/
def Label.drives (id : String) (now : ℤ) : Label → Prop
  | .recover id' | .suspend id' | .retry_exhausted id' | .retry_ready id' | .retry_wait id'
  | .nondeterminism id' | .finish id' | .resolve id' | .stop id' | .unimplemented id'
  | .dispatch_exhausted id' | .dispatch id' _ | .progressed id' | .park id' | .abort id' =>
    id' = id
  | .hold id' now' | .wait id' now' | .idle id' now' => id' = id ∧ now' = now
  | .hand_out _ | .cancel_request _ | .cancel_done _ | .wake _ | .unpark _ | .release _ => True
  | _ => False

def Operation.emits : Operation → Label → Prop
  | .register_workflow name version workflow, l => l = .register_workflow name version workflow
  | .register_activity _ _ _, l | .set_dispatch_limit _, l | .set_retry_policy _, l =>
    l = .configure
  | .start id _ _ _, l => l = .start id
  | .drive_with_resolver id now _, l => l.drives id now
  | .prepare_registered_at a resolver _, l =>
    l = .invoke a ∨ (l = .missing_payload a ∧ resolver a.input = .ok none) ∨ l.releases a
  | .complete a output, l => l = .complete a output ∨ l.releases a
  | .fail_at a failure failed_at_ms, l => l = .fail a failure failed_at_ms ∨ l.releases a
  | .reject_dispatch a reason, l => l = .reject_dispatch a reason ∨ l.releases a
  | .reject_run id reason, l => l = .reject_run id reason
  | .resume id, l => l = .resume id ∨ l = .recover id
  | .signal id name value, l => l = .signal id name value
  | .cancel _, l => l.cancels
  | .reconcile id effect_id observed _, l | .reconcile_fenced id effect_id _ _ _ observed _, l =>
    l = .recover id ∨ l = .reconcile id effect_id observed
  | .restart _, l => l = .restart

/-! ## Dispatch capacity -/

theorem wake_parked_refines (ids : List String) (t : Machine) (hp : t.parked = ids)
    (a : ActivityAttempt) :
    Refines (wake_parked ids) t (fun res ls t' =>
      (∀ l ∈ ls, l.releases a) ∧ t'.dispatched = t.dispatched
        ∧ (res = .ok () → t'.parked = [])) := by
  induction ids generalizing t with
  | nil => exact Refines.pure ⟨by simp, rfl, fun _ => hp⟩
  | cons id ids ih =>
    unfold wake_parked
    refine Refines.load (fun r c hs hid ho => ?_) (fun e => ⟨by simp, rfl, by simp⟩)
    -- the state after this run was saved, or left as it is
    have hrest : ∀ t1 : Machine, t1.parked = t.parked → t1.dispatched = t.dispatched →
        (∀ en, t1.runs id = some en → en.record.state = .Running →
          en.record.wakeup = some 0 ∧ en.wakeup = some 0) →
        Refines (do
            modify (fun e : Engine => { e with parked := e.parked.erase id })
            wake_parked ids) t1 (fun res ls t' =>
          (∀ l ∈ ls, l.releases a) ∧ t'.dispatched = t.dispatched
            ∧ (res = .ok () → t'.parked = [])) := by
      intro t1 hp1 hd1 hun
      refine Refines.modify (l := .unpark id) (u := { t1 with parked := t1.parked.erase id })
        (.unpark hun) ?_ ?_
      · rintro e hw rfl
        exact ⟨rfl, hw⟩
      · refine (ih _ ?_).weaken ?_
        · simp only [hp1, hp, List.erase_cons_head]
        · rintro res ls t' ⟨hl, hd, hnil⟩
          exact ⟨List.forall_mem_cons.mpr ⟨trivial, hl⟩, hd.trans hd1, hnil⟩
    by_cases hrun : r.state = .Running
    · rw [if_pos hrun]
      have hmem : r.id ∈ t.parked := by
        rw [hp, hid]
        exact List.mem_cons_self
      refine Refines.save hs ho (.wake hrun hmem) ?_ (fun e => ⟨by simp, rfl, by simp⟩)
      refine (hrest (t.commit { r with wakeup := some 0 } []) rfl rfl ?_).weaken ?_
      · intro en hen _
        rw [← hid] at hen
        have hself := @Machine.commit_self t { r with wakeup := some 0 } [] trivial
        rw [hself] at hen
        cases hen
        refine ⟨rfl, ?_⟩
        simp [notified, hrun, RunState.ends]
      · rintro res ls t' ⟨hl, hd, hnil⟩
        exact ⟨List.forall_mem_cons.mpr ⟨trivial, hl⟩, hd, hnil⟩
    · rw [if_neg hrun]
      refine hrest t rfl rfl ?_
      intro en hen hrun'
      rw [← hid, hs] at hen
      cases hen
      exact absurd hrun' hrun

variable (a : ActivityAttempt) {l : Label} {ls : List Label} {r : RunRecord} (id : String)
  (output : PayloadRef) (failure : ActivityFailure) {t' : Machine} {t : Machine}

theorem release_dispatch_refines (t : Machine) :
    Refines (release_dispatch a) t (fun res ls t' => (∀ l ∈ ls, l.releases a)
      ∧ (res = .ok () → t.dispatched.lookup (dispatch_key a) = some a →
        t'.dispatched = t.dispatched.erase (dispatch_key a) ∧ t'.parked = [])) := by
  unfold release_dispatch
  refine Refines.get (fun e hw ht => ?_)
  by_cases hlk : e.dispatched.lookup (dispatch_key a) = some a
  · rw [if_neg (not_not_intro hlk)]
    refine Refines.bind ((wake_parked_refines e.parked t (by rw [← ht]; rfl) a).weaken ?_)
    rintro res ls t1 ⟨hl, hd, hnil⟩
    cases res with
    | error err => exact ⟨hl, by simp⟩
    | ok u =>
      have hlk' : t1.dispatched.lookup (dispatch_key a) = some a := by
        rw [hd, ← ht]
        exact hlk
      have hempty := hnil rfl
      refine Refines.weaken (Spec.modify (l := .release a) (fun e1 hw1 ht1 => ?_))
        (P := fun _ ls' t' => ls' = [.release a]
          ∧ t'.dispatched = t1.dispatched.erase (dispatch_key a) ∧ t'.parked = []) ?_
      · rw [← ht1] at hlk' hempty ⊢
        exact ⟨.release hlk' hempty, hw1, rfl, rfl, hempty⟩
      · rintro _ ls' t' ⟨rfl, hd', hp'⟩
        rw [hd] at hd'
        exact ⟨List.forall_mem_append.mpr ⟨hl, List.forall_mem_singleton.mpr rfl⟩,
          fun _ _ => ⟨hd', hp'⟩⟩
  · rw [if_pos hlk]
    refine Refines.pure ⟨by simp, fun _ hlk' => absurd ?_ hlk⟩
    rw [← ht] at hlk'
    exact hlk'

/-! ## Operations of one commit -/

/-- The operation answers and has made one move, or fails and has made none. -/
def Commits {α : Type} (l : Label) (res : Except Error α) (ls : List Label) : Prop :=
  (∃ a, res = .ok a) ∧ ls = [l] ∨ (∃ e, res = .error e) ∧ ls = []

theorem Commits.failed {α : Type} (e : Error) :
    Commits l (.error e : Except Error α) [] := .inr ⟨⟨e, rfl⟩, rfl⟩

theorem Commits.done {α : Type} {l : Label} (a : α) :
    Commits l (.ok a : Except Error α) [l] := .inl ⟨⟨a, rfl⟩, rfl⟩

theorem Commits.mem {α : Type} {res : Except Error α} (h : Commits l res ls) :
    ∀ l' ∈ ls, l' = l := by
  rcases h with ⟨-, rfl⟩ | ⟨-, rfl⟩
  · exact List.forall_mem_singleton.mpr rfl
  · simp

theorem Refines.commit {α : Type} {run : RunRecord} {c : Option ℤ} {children : List RunRecord}
    {a : RunRecord → α} (hs : t.runs r.id = some ⟨r, c⟩) (ho : OneOpen r.history)
    (hc : Change t l r run children) :
    Refines (Durable.save run children >>= fun saved => Pure.pure (a saved)) t
      (fun res ls _ => Commits l res ls) :=
  Refines.save hs ho hc (Refines.pure (.done _)) .failed

theorem start_refines (name version : String) (input : PayloadRef) (t : Machine) :
    Refines (start id name version input) t (fun res ls _ => Commits (.start id) res ls) := by
  unfold start
  refine Refines.result (fun run hrun => ?_) (fun e _ => .failed e)
  refine Refines.store_call ?_ .failed
  refine Refines.get (fun e hw ht => ?_)
  refine Refines.result (fun store hstore => ?_) (fun e _ => .failed e)
  obtain ⟨hnew, hid, -⟩ := new_run_ok hrun
  obtain ⟨hw', hnone, hv, hep, -, -⟩ := insert_run_ok hw hstore hnew.history
  rw [hid] at hnone hv
  have hview : e.store.view = t.runs := by
    rw [← ht]
    rfl
  have hmachine : ({ e with store } : Engine).machine
      = { t with runs := Function.update t.runs id (some ⟨run, run.wakeup⟩) } := by
    rw [← ht]
    unfold Engine.machine
    simp only
    rw [hv, hep]
  refine Spec.set (l := .start id) ?_ hw' (.done _)
  rw [hmachine]
  refine .start hrun ?_
  rw [← hview]
  exact hnone

theorem ensure_active_ok {u : Unit} (h : ensure_active r = .ok u) : r.state.terminal = false := by
  unfold ensure_active at h
  by_cases ht : r.state.terminal = true
  · rw [if_pos ht] at h
    cases h
  · exact Bool.eq_false_iff.mpr ht

theorem reject_run_refines {id : String} {reason : RunFailure} {l : Label}
    (hl : ∀ r c, t.runs r.id = some ⟨r, c⟩ → r.id = id → r.state.terminal = false →
      Change t l r { r with
        state := failure_state reason, failure_reason := some reason, wakeup := none } []) :
    Refines (reject_run id reason) t (fun res ls _ => Commits l res ls) := by
  unfold reject_run
  refine Refines.load (fun r c hs hid ho => ?_) .failed
  refine Refines.result (fun _ hact => ?_) (fun e _ => .failed e)
  have hterm := ensure_active_ok hact
  exact Refines.commit hs ho (hl r c hs hid hterm)

theorem signal_refines (name : String) (value : PayloadRef) (t : Machine) :
    Refines (signal id name value) t
      (fun res ls _ => Commits (.signal id name value) res ls) := by
  unfold signal
  refine Refines.result (fun _ _ => ?_) (fun e _ => .failed e)
  refine Refines.load (fun r c hs hid ho => ?_) .failed
  refine Refines.result (fun _ hact => ?_) (fun e _ => .failed e)
  have hterm := ensure_active_ok hact
  by_cases hfull : r.signals.length ≥ 256
  · rw [if_pos hfull]
    exact Refines.throw (.failed _)
  · rw [if_neg hfull]
    subst hid
    exact Refines.commit hs ho (.signal hterm)

/-! ## Results of activities -/

/-- One commit on the run of an attempt, then the release of its dispatch. When
the commit was refused, so is the operation; its dispatch may be released all
the same. -/
inductive Settles {α : Type} (l : Label) (a : ActivityAttempt) :
    Except Error α → List Label → Prop where
  | done {res : Except Error α} {ls : List Label} :
      (∀ l' ∈ ls, l'.releases a) → Settles l a res (l :: ls)
  | refused {e : Error} {ls : List Label} :
      (∀ l' ∈ ls, l'.releases a) → Settles l a (.error e) ls

theorem Settles.emits {α : Type} {a : ActivityAttempt} {res : Except Error α}
    (h : Settles l a res ls) : ∀ l' ∈ ls, l' = l ∨ l'.releases a := by
  cases h with
  | done hls => exact List.forall_mem_cons.mpr ⟨.inl rfl, fun l' hl' => .inr (hls l' hl')⟩
  | refused hls => exact fun l' hl' => .inr (hls l' hl')

/-- The refusal of an attempt by its host, and the release of its dispatch, or nothing. -/
inductive Turned {α : Type} (a : ActivityAttempt) (reason : RunFailure) :
    Except Error α → List Label → Prop where
  | done {res : Except Error α} {ls : List Label} :
      (∀ l ∈ ls, l.releases a) → Turned a reason res (.reject_dispatch a reason :: ls)
  | failed (e : Error) : Turned a reason (.error e) []

theorem Turned.emits {α : Type} {a : ActivityAttempt} {reason : RunFailure} {res : Except Error α}
    (h : Turned a reason res ls) : ∀ l ∈ ls, l = .reject_dispatch a reason ∨ l.releases a := by
  cases h with
  | done hls => exact List.forall_mem_cons.mpr ⟨.inl rfl, fun l hl => .inr (hls l hl)⟩
  | failed => simp

theorem reject_dispatch_refines (reason : RunFailure) (t : Machine) :
    Refines (reject_dispatch a reason) t (fun res ls _ => Turned a reason res ls) := by
  unfold reject_dispatch
  refine Refines.load (fun r c hs hid ho => ?_) .failed
  refine Refines.result (fun _ hact => ?_) (fun e _ => .failed e)
  refine Refines.get (fun e hw ht => ?_)
  refine Refines.result (fun found hfound => ?_) (fun e _ => .failed e)
  obtain ⟨i, task⟩ := found
  have hepoch : e.store.epoch = t.epoch := by
    rw [← ht]
    rfl
  rw [hepoch] at hfound
  by_cases hin : task.state = .InFlight
  · simp only [ne_eq, hin, not_true_eq_false, if_false]
    refine Refines.save hs ho (.reject_dispatch reason (ensure_active_ok hact) hfound hin) ?_
      .failed
    exact (release_dispatch_refines a _).weaken (fun _ _ _ h => .done h.1)
  · simp only [ne_eq, hin, not_false_eq_true, if_true]
    exact Refines.throw (.failed _)

theorem exec_then_release (inner : EngineM Unit) (a : ActivityAttempt) (e : Engine) :
    (exec (then_release inner a) e).2 = (exec (release_dispatch a) (exec inner e).2).2 := by
  show (then_release inner a e).2 = (release_dispatch a (inner e).2).2
  unfold then_release
  cases inner e with
  | mk outcome e' => cases outcome <;> rfl

theorem then_release_refines {a : ActivityAttempt} {inner : EngineM Unit}
    (h : Refines inner t (fun res ls _ => Commits l res ls)) :
    Refines (then_release inner a) t (fun res ls _ => Settles l a res ls) := by
  intro e hw ht
  obtain ⟨ls, hp, hw', hc⟩ := h e hw ht
  obtain ⟨ls', hp', hw'', hrel, -⟩ := release_dispatch_refines a _ (exec inner e).2 hw' rfl
  have hout := exec_then_release inner a e
  have hres : ∀ error, (exec inner e).1 = .error error →
      (exec (then_release inner a) e).1 = .error error := by
    intro error herr
    show (then_release inner a e).1 = _
    change (inner e).1 = _ at herr
    unfold then_release
    cases hinner : inner e with
    | mk outcome e' =>
      rw [hinner] at herr
      cases herr
      rfl
  rw [hout]
  refine ⟨ls ++ ls', hp.append hp', hw'', ?_⟩
  rcases hc with ⟨-, rfl⟩ | ⟨⟨error, herr⟩, rfl⟩
  · exact .done hrel
  · rw [List.nil_append, hres error herr]
    exact .refused hrel

theorem complete_inner_refines (t : Machine) :
    Refines (complete_inner a output) t (fun res ls _ => Commits (.complete a output) res ls) := by
  unfold complete_inner
  refine Refines.load (fun r c hs hid ho => ?_) .failed
  refine Refines.get (fun e hw ht => ?_)
  refine Refines.result (fun found hfound => ?_) (fun e _ => .failed e)
  obtain ⟨i, task⟩ := found
  have hepoch : e.store.epoch = t.epoch := by
    rw [← ht]
    rfl
  rw [hepoch] at hfound
  refine Refines.result (fun execution hex => ?_) (fun e _ => .failed e)
  exact Refines.commit hs ho (.complete hfound hex)

theorem complete_refines (t : Machine) :
    Refines (complete a output) t (fun res ls _ => Settles (.complete a output) a res ls) :=
  then_release_refines (complete_inner_refines a output t)

theorem fail_inner_refines (failed_at_ms : ℤ) (t : Machine) :
    Refines (fail_inner a failure failed_at_ms) t
      (fun res ls _ => Commits (.fail a failure failed_at_ms) res ls) := by
  unfold fail_inner
  refine Refines.load (fun r c hs hid ho => ?_) .failed
  refine Refines.get (fun e hw ht => ?_)
  refine Refines.result (fun found hfound => ?_) (fun e _ => .failed e)
  obtain ⟨i, task⟩ := found
  have hepoch : e.store.epoch = t.epoch := by
    rw [← ht]
    rfl
  have hpolicy : e.retry_policy = t.retry_policy := by
    rw [← ht]
    rfl
  rw [hepoch] at hfound
  refine Refines.result (fun execution hex => ?_) (fun e _ => .failed e)
  refine Refines.result (fun task' htask => ?_) (fun e _ => .failed e)
  rw [hpolicy] at htask
  exact Refines.commit hs ho (.fail hfound hex htask)

theorem fail_at_refines (failed_at_ms : ℤ) (t : Machine) :
    Refines (fail_at a failure failed_at_ms) t
      (fun res ls _ => Settles (.fail a failure failed_at_ms) a res ls) :=
  then_release_refines (fail_inner_refines a failure failed_at_ms t)

/-- The moves of `prepare_registered_at`: it starts the attempt, or finds its
input gone and releases it, or is refused. -/
inductive Prepared (t : Machine) (a : ActivityAttempt) (resolver : PayloadResolver) :
    Except Error (Option NativeInvocation) → List Label → Prop where
  | invoked {bytes : List UInt8} (invocation : NativeInvocation) :
      resolver a.input = .ok (some bytes) → Prepared t a resolver (.ok (some invocation))
        [.invoke a]
  | missing {res : Except Error (Option NativeInvocation)} {ls : List Label} :
      resolver a.input = .ok none → t.activities.lookup (a.name, a.version) = some true →
      (res = .ok none ∨ ∃ e, res = .error e) → (∀ l ∈ ls, l.releases a) →
      Prepared t a resolver res (.missing_payload a :: ls)
  | refused (e : Error) : Prepared t a resolver (.error e) []

theorem Prepared.emits {a : ActivityAttempt} {resolver : PayloadResolver}
    {res : Except Error (Option NativeInvocation)} (h : Prepared t a resolver res ls) :
    ∀ l ∈ ls, l = .invoke a
      ∨ (l = .missing_payload a ∧ resolver a.input = .ok none) ∨ l.releases a := by
  cases h with
  | invoked => exact List.forall_mem_singleton.mpr (.inl rfl)
  | missing hnone _ _ hls =>
    exact List.forall_mem_cons.mpr ⟨.inr (.inl ⟨rfl, hnone⟩), fun l hl => .inr (.inr (hls l hl))⟩
  | refused => simp

theorem prepare_registered_at_refines (resolver : PayloadResolver) (started_at_ms : ℤ)
    (t : Machine) :
    Refines (prepare_registered_at a resolver started_at_ms) t
      (fun res ls _ => Prepared t a resolver res ls) := by
  unfold prepare_registered_at
  refine Refines.load (fun r c hs hid ho => ?_) .refused
  refine Refines.get (fun e hw ht => ?_)
  refine Refines.result (fun found hfound => ?_) (fun e _ => .refused e)
  obtain ⟨i, task⟩ := found
  have hepoch : e.store.epoch = t.epoch := by
    rw [← ht]
    rfl
  rw [hepoch] at hfound
  by_cases hin : task.state = .InFlight
  swap
  · simp only [ne_eq, hin, not_false_eq_true, if_true]
    exact Refines.throw (.refused _)
  simp only [ne_eq, hin, not_true_eq_false, if_false]
  by_cases hnative : e.activities.lookup (a.name, a.version) = some true
  swap
  · rw [if_pos hnative]
    exact Refines.throw (.refused _)
  rw [if_neg (not_not_intro hnative)]
  refine Refines.result (fun bytes hbytes => ?_) (fun e _ => .refused e)
  cases bytes with
  | none =>
    simp only [suspend, bind_assoc]
    refine Refines.save hs ho (.missing_payload hfound hin) ?_ .refused
    simp only [pure_bind]
    refine Refines.bind ((release_dispatch_refines a _).weaken (fun res ls t' hrel' => ?_))
    have hrel := hrel'.1
    have hnative' : t.activities.lookup (a.name, a.version) = some true := by
      rw [← ht]
      exact hnative
    cases res with
    | ok u =>
      refine Refines.pure ?_
      simp only [List.append_nil]
      exact .missing hbytes hnative' (.inl rfl) hrel
    | error e => exact .missing hbytes hnative' (.inr ⟨e, rfl⟩) hrel
  | some bytes =>
    simp only
    by_cases hlong : bytes.length > 1024 * 1024
    · rw [if_pos hlong]
      exact Refines.throw (.refused _)
    rw [if_neg hlong]
    refine Refines.result (fun execution hex => ?_) (fun e _ => .refused e)
    refine Refines.save hs ho (.invoke hfound hin hex) (Refines.pure ?_) .refused
    exact .invoked _ hbytes

/-! ## Recovery -/

@[simp] theorem normalize_legacy_attempt_idem (x : ExecutionAccounting) :
    normalize_legacy_attempt a (normalize_legacy_attempt a x) = normalize_legacy_attempt a x := by
  unfold normalize_legacy_attempt
  by_cases h : x.execution_attempts ≠ U64_MAX
  · rw [if_pos h, if_pos h]
  · rw [if_neg h]
    by_cases h' : a.attempt ≠ U64_MAX
    · rw [if_pos h']
    · rw [if_neg h']

@[simp] theorem normalize_task_idem (task : ActivityTask) :
    normalize_task (normalize_task task) = normalize_task task := by
  unfold normalize_task
  simp

@[simp] theorem normalize_recover_task (epoch : ℕ) (x : Bool) (task : ActivityTask) :
    normalize_task (recover_task epoch x task) = recover_task epoch x task := by
  unfold normalize_task recover_task
  simp

theorem recover_task_of_not_interrupted {epoch : ℕ} {x : Bool} {task : ActivityTask}
    (h : task.interrupted epoch x = false) : recover_task epoch x task = normalize_task task := by
  unfold recover_task normalize_task
  simp [h]

theorem recovered_of_quiet {epoch : ℕ}
    (h : r.tasks.any (fun t => t.interrupted epoch r.retry_exhausted) = false) :
    recovered epoch r = r.normalized := by
  rw [List.any_eq_false] at h
  have htasks : r.tasks.map (recover_task epoch r.retry_exhausted) = r.tasks.map normalize_task :=
    List.map_congr_left (fun task ht =>
      recover_task_of_not_interrupted (Bool.eq_false_iff.mpr (h task ht)))
  have hany : r.tasks.any
      (fun t => t.interrupted epoch r.retry_exhausted && !t.attempt.policy.safe) = false := by
    rw [List.any_eq_false]
    intro task ht
    simp [Bool.eq_false_iff.mpr (h task ht)]
  unfold recovered RunRecord.normalized
  rw [htasks, hany]
  rfl

theorem recovered_normalized (epoch : ℕ) (r : RunRecord) :
    (recovered epoch r).normalized = recovered epoch r := by
  unfold RunRecord.normalized recovered
  simp [List.map_map, Function.comp_def]

/-- The states `recover` returns on at once. -/
def RunRecord.unrecoverable (r : RunRecord) : Bool :=
  r.state.settled || (decide (r.state = .Failed) && !r.retry_exhausted)

/-- What `recover` leaves: the record in memory `r'` is the stored one up to its
normalization, and its tasks are the recovered ones. -/
structure Recovered (t : Machine) (r : RunRecord) (t' : Machine) (r' : RunRecord) : Prop where
  epoch : t'.epoch = t.epoch
  tasks : r'.tasks = (recovered t.epoch r).tasks
  reason : r'.failure_reason = r.failure_reason
  audit : r'.reconciliation_audit = r.reconciliation_audit
  state : r'.state = (recovered t.epoch r).state
  stored : ∃ r0 c, t'.runs r0.id = some ⟨r0, c⟩ ∧ r0.id = r.id ∧ OneOpen r0.history
    ∧ r' = r0.normalized ∧ r0.state = r'.state

theorem Recovered.of_commit (w : Option ℤ) (ho : OneOpen r.history) :
    Recovered t r (t.commit { recovered t.epoch r with wakeup := w } [])
      ({ recovered t.epoch r with wakeup := w } : RunRecord).saved := by
  refine ⟨rfl, rfl, rfl, rfl, rfl, ({ recovered t.epoch r with wakeup := w } : RunRecord).saved, _,
    Machine.commit_self trivial, rfl, ho, ?_, rfl⟩
  have htasks : (recovered t.epoch r).tasks.map normalize_task = (recovered t.epoch r).tasks :=
    congrArg RunRecord.tasks (recovered_normalized t.epoch r)
  unfold RunRecord.normalized RunRecord.saved
  simp only [htasks]

/-- The three ways out of `recover`: refused by the store, a run it leaves alone,
or a recovered record, saved if a task was taken back. -/
inductive Recovers (t : Machine) (r : RunRecord) :
    Except Error RunRecord → List Label → Machine → Prop where
  | failed (e : Error) : Recovers t r (.error e) [] t
  | left : r.unrecoverable = true → Recovers t r (.ok r) [] t
  | quiet {r' : RunRecord} : r.unrecoverable = false →
      r.tasks.any (fun task => task.interrupted t.epoch r.retry_exhausted) = false →
      Recovered t r t r' → Recovers t r (.ok r') [] t
  | saved {r' : RunRecord} {t' : Machine} : r.unrecoverable = false →
      r.tasks.any (fun task => task.interrupted t.epoch r.retry_exhausted) = true →
      Recovered t r t' r' → Recovers t r (.ok r') [.recover r.id] t'

theorem recover_refines {c : Option ℤ} (hs : t.runs r.id = some ⟨r, c⟩) (ho : OneOpen r.history) :
    Refines (recover r) t (Recovers t r) := by
  unfold recover
  by_cases hset : r.unrecoverable = true
  · have hset' := hset
    unfold RunRecord.unrecoverable at hset'
    rw [if_pos hset']
    exact Refines.pure (.left hset)
  have hun : r.unrecoverable = false := Bool.eq_false_iff.mpr hset
  unfold RunRecord.unrecoverable at hset
  rw [if_neg hset]
  refine Refines.get (fun e hw ht => ?_)
  have hepoch : e.store.epoch = t.epoch := by
    rw [← ht]
    rfl
  rw [hepoch]
  simp only [Bool.or_eq_true, Bool.and_eq_true, decide_eq_true_eq, Bool.not_eq_true',
    not_or, not_and, Bool.not_eq_false, Bool.not_eq_true] at hset
  obtain ⟨hsettled, hexh⟩ := hset
  by_cases hch : r.tasks.any (fun t' => t'.interrupted t.epoch r.retry_exhausted) = true
  · rw [if_pos hch]
    exact Refines.save_last hs ho (.recover hsettled hexh hch)
      (.saved hun hch (.of_commit _ ho)) .failed
  · rw [if_neg hch]
    have hquiet := Bool.eq_false_iff.mpr hch
    refine Refines.pure (.quiet hun hquiet ?_)
    have hq := recovered_of_quiet hquiet
    refine ⟨rfl, rfl, rfl, rfl, rfl, r, c, hs, rfl, ho, hq, ?_⟩
    rw [hq]
    rfl

theorem resume_refines (t : Machine) :
    Refines (resume id) t (fun _ ls _ => ∀ l ∈ ls, l = .resume id ∨ l = .recover id) := by
  unfold resume
  refine Refines.load (fun r c hs hid ho => ?_) (fun _ => by simp)
  subst hid
  have hcommit : ∀ h : r.state = .NeedsInput ∨ r.state = .NeedsImplementation,
      Refines (save { r with state := .Running, wakeup := some 0 } [] >>= fun _ => pure ()) t
        (fun _ ls _ => ∀ l ∈ ls, l = .resume r.id ∨ l = .recover r.id) := by
    intro h
    refine (Refines.commit hs ho (.resume h)).weaken (fun res ls _ hc l hl => ?_)
    exact .inl (hc.mem l hl)
  cases hst : r.state with
  | NeedsInput => exact hcommit (.inl hst)
  | NeedsImplementation => exact hcommit (.inr hst)
  | Running =>
    refine Refines.bind ((recover_refines hs ho).weaken (fun res ls t' hrec => ?_))
    have hls : ∀ l ∈ ls, l = .resume r.id ∨ l = .recover r.id := by
      cases hrec with
      | failed | left | quiet => simp
      | saved => exact List.forall_mem_singleton.mpr (.inr rfl)
    cases res with
    | error e => exact hls
    | ok r' =>
      simp only
      split
      · exact Refines.throw (by simpa using hls)
      · exact Refines.pure (by simpa using hls)
  | OutcomeUnknown | CancelRequested | Cancelled | Completed | ContinuedAsNew | Nondeterminism
  | Failed => exact Refines.throw (by simp)

/-! ## Reconciliation -/

theorem find_task_some {tasks : List ActivityTask} {p : ActivityTask → Bool} {i : ℕ}
    {task : ActivityTask} (h : find_task tasks p = some (i, task)) :
    tasks[i]? = some task ∧ p task = true ∧ ∀ j < i, ∀ t, tasks[j]? = some t → p t = false := by
  unfold find_task at h
  cases hi : tasks.findIdx? p with
  | none => rw [hi] at h; cases h
  | some j =>
    rw [hi] at h
    simp only [Option.bind_some, Option.map_eq_some_iff, Prod.mk.injEq] at h
    obtain ⟨task', hget, rfl, rfl⟩ := h
    rw [List.findIdx?_eq_some_iff_getElem] at hi
    obtain ⟨hlt, hp, hbefore⟩ := hi
    obtain ⟨_, hget'⟩ := List.getElem?_eq_some_iff.mp hget
    refine ⟨hget, hget' ▸ hp, fun k hk t ht => ?_⟩
    obtain ⟨hk', rfl⟩ := List.getElem?_eq_some_iff.mp ht
    exact Bool.eq_false_iff.mpr (hbefore k hk)

/-- The record of a reconciliation, from the one `recover` left in memory. -/
def reconciled_run (r : RunRecord) (i : ℕ) (task : ActivityTask) (observed : Option PayloadRef)
    (audit : ReconciliationAudit) : RunRecord :=
  let resolved := { r with tasks := r.tasks.set i { task with state := resolved_state observed } }
  { resolved with
    state := reconciled_state resolved
    wakeup := if reconciled_state resolved = .Failed then none else some 0
    reconciliation_audit := r.reconciliation_audit ++ [audit] }

/-- The uncertain task of an effect, as `reconcile_inner` looks for it. -/
def uncertain_task (r : RunRecord) (effect_id : String) : Option (ℕ × ActivityTask) :=
  find_task r.tasks (fun t =>
    decide (t.attempt.effect_id = effect_id) && decide (t.state = .Uncertain))

/-- The stored run after a successful reconciliation. -/
structure Wrote (t : Machine) (id effect_id : String) (observed : Option PayloadRef)
    (audit : ReconciliationAudit) (t' : Machine) : Prop where
  epoch : t'.epoch = t.epoch
  record : ∃ r c r' i task c', t.runs id = some ⟨r, c⟩ ∧ r.state = .OutcomeUnknown
    ∧ r'.tasks = (recovered t.epoch r).tasks ∧ r'.failure_reason = r.failure_reason
    ∧ uncertain_task r' effect_id = some (i, task)
    ∧ t'.runs id = some ⟨(reconciled_run r' i task observed audit).saved, c'⟩

/-- The moves of a reconciliation. When it takes effect, the run was waiting for
one and the effect is uncertain, as `recover` finds it. -/
structure Reconciled (t : Machine) (id effect_id : String) (observed : Option PayloadRef)
    (res : Except Error ReconciliationAudit) (ls : List Label) : Prop where
  emits : ∀ l ∈ ls, l = .recover id ∨ l = .reconcile id effect_id observed
  uncertain : .reconcile id effect_id observed ∈ ls → (∃ audit, res = .ok audit)
    ∧ ∃ r c, t.runs id = some ⟨r, c⟩ ∧ r.state = .OutcomeUnknown
      ∧ ∃ task ∈ (recovered t.epoch r).tasks,
          task.attempt.effect_id = effect_id ∧ task.state = .Uncertain

theorem Reconciled.refused {id effect_id : String} {observed : Option PayloadRef} (e : Error) :
    Reconciled t id effect_id observed (.error e) [] := ⟨by simp, by simp⟩

/-- A reconciliation, with any of its optional checks. -/
theorem reconcile_inner_refines (effect_id : String) (attempt epoch : Option ℕ)
    (observed : Option PayloadRef) (evidence_ref : String) (recorded_at_ms : ℤ) (t : Machine) :
    Refines (reconcile_inner id effect_id attempt epoch observed evidence_ref recorded_at_ms) t
      (fun res ls t' => Reconciled t id effect_id observed res ls
        ∧ ∀ audit, res = .ok audit → Wrote t id effect_id observed audit t') := by
  have hrefused : ∀ {id : String} (e : Error), Reconciled t id effect_id observed (.error e) []
      ∧ ∀ audit, (.error e : Except Error ReconciliationAudit) = .ok audit →
        Wrote t id effect_id observed audit t := fun e => ⟨.refused e, by simp⟩
  unfold reconcile_inner
  refine Refines.result (fun _ _ => ?_) (fun e _ => hrefused e)
  refine Refines.result (fun _ _ => ?_) (fun e _ => hrefused e)
  by_cases hob : observed.any (fun payload => payload.ephemeral) = true
  · rw [if_pos hob]
    exact Refines.throw (hrefused _)
  rw [if_neg hob]
  refine Refines.load (fun r c hs hid ho => ?_) hrefused
  subst hid
  by_cases hst : r.state = .OutcomeUnknown
  swap
  · rw [if_pos hst]
    exact Refines.throw (hrefused _)
  rw [if_neg (not_not_intro hst)]
  by_cases hfull : r.reconciliation_audit.length ≥ 256
  · rw [if_pos hfull]
    exact Refines.throw (hrefused _)
  rw [if_neg hfull]
  have hun : r.unrecoverable = false := by
    unfold RunRecord.unrecoverable
    rw [hst]
    rfl
  refine Refines.bind ((recover_refines hs ho).weaken (fun res ls t' hrec => ?_))
  have hls : ∀ l ∈ ls, l = .recover r.id ∨ l = .reconcile r.id effect_id observed := by
    cases hrec with
    | failed | left | quiet => simp
    | saved => exact List.forall_mem_singleton.mpr (.inl rfl)
  have hno : Label.reconcile r.id effect_id observed ∉ ls := by
    cases hrec <;> simp
  have hfail : ∀ e t'', Reconciled t r.id effect_id observed (.error e) ls
      ∧ ∀ audit, (.error e : Except Error ReconciliationAudit) = .ok audit →
        Wrote t r.id effect_id observed audit t'' :=
    fun e _ => ⟨⟨hls, fun h => absurd h hno⟩, by simp⟩
  cases res with
  | error e => exact hfail e _
  | ok r' =>
    have hr' : Recovered t r t' r' := by
      cases hrec with
      | left h => rw [hun] at h; cases h
      | quiet _ _ h => exact h
      | saved _ _ h => exact h
    obtain ⟨r0, c0, hs0, hid0, ho0, rfl, hst0⟩ := hr'.stored
    have hst0' : r0.state = .OutcomeUnknown := by
      rw [hst0, hr'.state]
      unfold recovered
      simp [hst]
    dsimp only
    cases hf : find_task r0.normalized.tasks (fun task =>
        decide (task.attempt.effect_id = effect_id) && decide (task.state = .Uncertain)) with
    | none =>
      refine Refines.throw ?_
      rw [List.append_nil]
      exact hfail _ _
    | some found =>
      obtain ⟨i, task⟩ := found
      simp only
      split
      · refine Refines.throw ?_
        rw [List.append_nil]
        exact hfail _ _
      obtain ⟨hget, hp, -⟩ := find_task_some hf
      simp only [Bool.and_eq_true, decide_eq_true_eq] at hp
      have hchange := @Change.reconcile t' r0 effect_id observed i task
        { effect_id, attempt := task.attempt.attempt, owner_epoch := task.attempt.owner_epoch,
          evidence_ref, recorded_at_ms, observed := observed.isSome } hst0' hf
      rw [hid0] at hchange
      dsimp only [reconciled_state] at hchange
      have hdone : ∀ audit, Reconciled t r.id effect_id observed (.ok audit)
          (ls ++ [.reconcile r.id effect_id observed]) := by
        refine fun audit => ⟨List.forall_mem_append.mpr
          ⟨hls, List.forall_mem_singleton.mpr (.inr rfl)⟩, fun _ => ⟨⟨audit, rfl⟩, r, c, hs, hst,
          task, ?_, hp.1, hp.2⟩⟩
        rw [← hr'.tasks]
        exact List.mem_of_getElem? hget
      -- the record of the commit, under the name it has here
      have hwrote : ∀ audit, Wrote t r.id effect_id observed audit
          (t'.commit (reconciled_run r0.normalized i task observed audit) []) := by
        intro audit
        have hself := @Machine.commit_self t' (reconciled_run r0.normalized i task observed audit)
          [] trivial
        rw [show (reconciled_run r0.normalized i task observed audit).id = r.id from hid0] at hself
        exact ⟨hr'.epoch, r, c, r0.normalized, i, task, _, hs, hst, hr'.tasks, hr'.reason, hf,
          hself⟩
      cases observed with
      | none =>
        refine Refines.save hs0 ho0 hchange (Refines.pure ⟨hdone _, ?_⟩) (fun e => ?_)
        · rintro audit ⟨⟩
          exact hwrote _
        · rw [List.append_nil]
          exact hfail e _
      | some payload =>
        refine Refines.save hs0 ho0 hchange (Refines.pure ⟨hdone _, ?_⟩) (fun e => ?_)
        · rintro audit ⟨⟩
          exact hwrote _
        · rw [List.append_nil]
          exact hfail e _

/-! ## Cancellation -/

/-- Runs stay, and a run whose revision is the same is the same run. -/
def Grows (t t' : Machine) : Prop :=
  ∀ id r c, t.runs id = some ⟨r, c⟩ → ∃ r' c', t'.runs id = some ⟨r', c'⟩
    ∧ r.revision ≤ r'.revision ∧ (r'.revision = r.revision → r' = r)

theorem Grows.refl (t : Machine) : Grows t t :=
  fun _ r c h => ⟨r, c, h, le_refl _, fun _ => rfl⟩

theorem Grows.trans {t'' : Machine} (h : Grows t t') (h' : Grows t' t'') : Grows t t'' := by
  intro id r c hr
  obtain ⟨r', c', hr', hle, heq⟩ := h id r c hr
  obtain ⟨r'', c'', hr'', hle', heq'⟩ := h' id r' c' hr'
  refine ⟨r'', c'', hr'', le_trans hle hle', fun hsame => ?_⟩
  have h1 : r'.revision = r.revision := by omega
  have h2 : r''.revision = r'.revision := by omega
  rw [heq' h2, heq h1]

theorem Trans.grows (h : Trans t l t') : Grows t t' := by
  intro id r c hr
  rcases h.forward hr with ⟨c', hr'⟩ | ⟨run, children, -, hc, -, -, c', hr'⟩
  · exact ⟨r, c', hr', le_refl _, fun _ => rfl⟩
  · have hrev := hc.frame.revision
    refine ⟨run.saved, c', hr', ?_, fun h => ?_⟩
    · show r.revision ≤ run.revision + 1
      omega
    · have h' : run.revision + 1 = r.revision := h
      omega

theorem Path.grows (h : Path Trans t ls t') : Grows t t' :=
  h.relates .refl (fun _ _ _ _ _ hg ht => hg.trans ht.grows)

/-- The moves of a cancellation. One that succeeds has asked its run to stop. -/
structure Cancelling (t : Machine) (id : String) (res : Except Error Unit) (ls : List Label) :
    Prop where
  cancels : ∀ l ∈ ls, l.cancels
  requested : res = .ok () → .cancel_request id ∈ ls
    ∨ ∃ r c, t.runs id = some ⟨r, c⟩ ∧ r.state.uncancellable = true

theorem Cancelling.refused {id : String} (e : Error) : Cancelling t id (.error e) [] :=
  ⟨by simp, by simp⟩

theorem forM_refines {f : String → EngineM Unit} {P : Label → Prop}
    (h : ∀ id t, Refines (f id) t (fun _ ls _ => ∀ l ∈ ls, P l)) (ids : List String) :
    Refines (ids.forM f) t (fun _ ls _ => ∀ l ∈ ls, P l) := by
  induction ids generalizing t with
  | nil => exact Refines.pure (by simp)
  | cons id ids ih =>
    rw [List.forM_eq_forM, List.forM_cons]
    refine Refines.bind ((h id t).weaken (fun res ls t' hls => ?_))
    cases res with
    | error e => exact hls
    | ok u => exact ih.weaken (fun _ ls' _ hls' => List.forall_mem_append.mpr ⟨hls, hls'⟩)

theorem cancel_walk_refines (fuel : ℕ) (id : String) (t : Machine) :
    Refines (cancel_walk fuel id) t (fun res ls _ => Cancelling t id res ls) := by
  induction fuel generalizing id t with
  | zero => exact Refines.throw (.refused _)
  | succ fuel ih =>
    have hall : ∀ id t, Refines (cancel_walk fuel id) t (fun _ ls _ => ∀ l ∈ ls, l.cancels) :=
      fun id t => (ih id t).weaken (fun _ _ _ h => h.cancels)
    unfold cancel_walk
    refine Refines.load (fun r c hs hid ho => ?_) .refused
    subst hid
    by_cases hun : r.state.uncancellable = true
    · rw [if_pos hun]
      exact Refines.pure ⟨by simp, fun _ => .inr ⟨r, c, hs, hun⟩⟩
    rw [if_neg hun]
    have hreq : Change t (.cancel_request r.id) r
        { r with state := .CancelRequested, wakeup := some 0 } [] :=
      .cancel_request (Bool.eq_false_iff.mpr hun)
    refine Refines.save hs ho hreq ?_ .refused
    set r1 := ({ r with state := .CancelRequested, wakeup := some 0 } : RunRecord).saved with hr1
    set t1 := t.commit { r with state := .CancelRequested, wakeup := some 0 } [] with ht1
    have hs1 : ∃ c1, t1.runs r1.id = some ⟨r1, c1⟩ := ⟨_, Machine.commit_self trivial⟩
    obtain ⟨c1, hs1⟩ := hs1
    have hdone : ∀ ls res, (∀ l ∈ ls, l.cancels) →
        Cancelling t r.id res (.cancel_request r.id :: ls) := fun ls res hls =>
      ⟨List.forall_mem_cons.mpr ⟨trivial, hls⟩, fun _ => .inl List.mem_cons_self⟩
    -- the last save compares the revision of the first one
    have hlast : ∀ t2 ls, Path Trans t1 ls t2 → (∀ l ∈ ls, l.cancels) →
        Refines (save { r1 with state := .Cancelled } [] >>= fun _ => pure ()) t2
          (fun res ls' _ => Cancelling t r.id res (.cancel_request r.id :: (ls ++ ls'))) := by
      intro t2 ls hp hls
      refine Refines.save_if (l := .cancel_done r.id) ho (by simp) ?_
        (fun _ _ _ _ _ => Refines.pure ?_) ?_
      · intro r2 c2 hr2 hrev
        obtain ⟨r', c', hr', -, hsame⟩ := Path.grows hp _ _ _ hs1
        have hr2' : t2.runs r1.id = some ⟨r2, c2⟩ := hr2
        rw [hr2'] at hr'
        cases hr'
        rw [hsame hrev]
        exact @Change.cancel_done t2 r1 rfl
      · exact hdone _ _ (List.forall_mem_append.mpr ⟨hls, List.forall_mem_singleton.mpr trivial⟩)
      · intro e
        rw [List.append_nil]
        exact hdone _ _ hls
    refine Refines.bind (Refines.weaken (Spec.path (forM_refines hall r1.children)) ?_)
    rintro res ls t2 ⟨hp, hls⟩
    cases res with
    | error e => exact hdone _ _ hls
    | ok u =>
      dsimp only
      split
      · rename_i successor _
        refine Refines.bind (Refines.weaken (Spec.path (hall successor t2)) ?_)
        rintro res ls' t3 ⟨hp', hls'⟩
        have hboth := List.forall_mem_append.mpr ⟨hls, hls'⟩
        cases res with
        | error e => exact hdone _ _ hboth
        | ok u =>
          refine (hlast t3 (ls ++ ls') (hp.append hp') hboth).weaken (fun res ls'' _ h => ?_)
          rw [List.append_assoc] at h
          exact h
      · exact hlast t2 ls hp hls

theorem cancel_refines (t : Machine) :
    Refines (cancel id) t (fun res ls _ => Cancelling t id res ls) := by
  unfold cancel
  exact Refines.get (fun e _ _ => cancel_walk_refines _ id t)

end Appcall.Durable
