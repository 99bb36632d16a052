/-
Whole runs of the engine.

`perform_refines` puts the operations together: each is a path of the transition
system, and `Outcome` says what its answer tells about the path. From there a
run of the engine, restarts included, is one long path, and two rules are all
that later files use: an invariant of the transition system holds in every
reachable state, and a property that every move of a stretch of the run keeps
holds at its end.
-/
import Appcall.Engine.Driving

set_option autoImplicit false

namespace Appcall.Durable

open Appcall.Refine

/-! ## Operations -/

/-- What the answer of an operation tells about the moves it made. -/
def Operation.tells (t : Machine) (res : Except Error Reply) (ls : List Label) :
    Operation → Prop
  | .start id _ _ _ => Commits (.start id) res ls
  | .drive_with_resolver id now _ =>
    ∃ out : Except Error DriveOutcome, res = out.map .drive ∧ Drove t id now out ls
  | .prepare_registered_at a resolver _ =>
    ∃ out : Except Error (Option NativeInvocation), res = out.map .prepared
      ∧ Prepared t a resolver out ls
  | .complete a output => Settles (.complete a output) a res ls
  | .fail_at a failure failed_at_ms => Settles (.fail a failure failed_at_ms) a res ls
  | .reject_dispatch a reason => Turned a reason res ls
  | .reject_run id reason => Commits (.reject_run id reason) res ls
  | .signal id name value => Commits (.signal id name value) res ls
  | .reconcile id effect_id observed _ | .reconcile_fenced id effect_id _ _ _ observed _ =>
    ∃ out : Except Error ReconciliationAudit, res = out.map .audit
      ∧ Reconciled t id effect_id observed out ls
  | _ => True

/-- The moves of an operation and its answer. -/
structure Outcome (t : Machine) (op : Operation) (res : Except Error Reply) (ls : List Label) :
    Prop where
  emits : ∀ l ∈ ls, op.emits l
  tells : op.tells t res ls

variable {α β : Type} {f : α → β} {l : Label} {out : Except Error α} {id : String} {e : Engine}
  (codec : Codec) (sha256_hex : String → String)

theorem Refines.map {t : Machine} {p : EngineM α} {Q : Except Error α → List Label → Machine → Prop}
    (h : Refines p t Q) : Refines (p >>= fun a => Pure.pure (f a)) t
      (fun res ls t' => ∃ out : Except Error α, res = out.map f ∧ Q out ls t') := by
  refine Refines.bind (h.weaken (fun res ls t' hQ => ?_))
  cases res with
  | error e => exact ⟨.error e, rfl, hQ⟩
  | ok a =>
    refine Refines.pure ⟨.ok a, rfl, ?_⟩
    rw [List.append_nil]
    exact hQ

theorem Commits.map {ls : List Label} (h : Commits l out ls) : Commits l (out.map f) ls := by
  rcases h with ⟨⟨a, rfl⟩, rfl⟩ | ⟨⟨e, rfl⟩, rfl⟩
  · exact .done _
  · exact .failed e

theorem Settles.map {a : ActivityAttempt} {ls : List Label} (h : Settles l a out ls) :
    Settles l a (out.map f) ls := by
  cases h with
  | done hls => exact .done hls
  | refused hls => exact .refused hls

theorem Turned.map {a : ActivityAttempt} {reason : RunFailure} {ls : List Label}
    (h : Turned a reason out ls) : Turned a reason (out.map f) ls := by
  cases h with
  | done hls => exact .done hls
  | failed e => exact .failed e

theorem configure_refines {t : Machine} {p : EngineM Unit}
    (h : Refines p t (fun _ ls _ => ∀ l ∈ ls, l = .configure)) {op : Operation}
    (hop : ∀ l, op.emits l ↔ l = .configure) (htells : ∀ res ls, op.tells t res ls) :
    Refines (p >>= fun _ => pure Reply.unit) t (fun res ls _ => Outcome t op res ls) := by
  refine h.map.weaken ?_
  rintro res ls _ ⟨out, -, hls⟩
  exact ⟨fun l hl => (hop l).mpr (hls l hl), htells res ls⟩

theorem add_activity_refines (name version : String) (native : Bool) (t : Machine) :
    Refines (add_activity name version native) t (fun _ ls _ => ∀ l ∈ ls, l = .configure) := by
  unfold add_activity
  refine Refines.result (fun _ _ => ?_) (fun _ _ => by simp)
  refine Refines.result (fun _ _ => ?_) (fun _ _ => by simp)
  refine Refines.get (fun e hw ht => ?_)
  split
  · exact Refines.throw (by simp)
  · subst ht
    exact Spec.set (l := .configure) (.configure _ _ _ (.inl rfl) (.inl rfl)) hw
      (List.forall_mem_singleton.mpr rfl)

theorem set_dispatch_limit_refines (limit : ℕ) (t : Machine) :
    Refines (set_dispatch_limit limit) t (fun _ ls _ => ∀ l ∈ ls, l = .configure) := by
  unfold set_dispatch_limit
  refine Refines.get (fun e hw ht => ?_)
  split
  · exact Refines.throw (by simp)
  · rename_i hlimit
    subst ht
    have hroom : 0 < limit ∧ e.dispatched.entries.length ≤ limit := by omega
    exact Spec.set (l := .configure) (.configure _ _ _ (.inr hroom) (.inl rfl)) hw
      (List.forall_mem_singleton.mpr rfl)

theorem set_retry_policy_refines (policy : RetryPolicy) (t : Machine) :
    Refines (set_retry_policy policy) t (fun _ ls _ => ∀ l ∈ ls, l = .configure) := by
  unfold set_retry_policy
  refine Refines.result (fun _ hvalid => ?_) (fun _ _ => by simp)
  refine Spec.modify (l := .configure) (fun e hw ht => ?_)
  subst ht
  exact ⟨.configure _ _ _ (.inl rfl) (.inr hvalid), hw, List.forall_mem_singleton.mpr rfl⟩

theorem register_workflow_refines (name version : String) (workflow : Workflow) (t : Machine) :
    Refines (register_workflow name version workflow) t
      (fun _ ls _ => ∀ l ∈ ls, l = .register_workflow name version workflow) := by
  unfold register_workflow
  refine Refines.result (fun _ _ => ?_) (fun _ _ => by simp)
  refine Refines.result (fun _ _ => ?_) (fun _ _ => by simp)
  refine Refines.get (fun e hw ht => ?_)
  split
  · exact Refines.throw (by simp)
  · rename_i hfull
    rw [not_or] at hfull
    subst ht
    exact Spec.set (l := .register_workflow name version workflow) (.register_workflow hfull.2) hw
      (List.forall_mem_singleton.mpr rfl)

theorem restart_refines (failed : ℕ) (t : Machine) :
    Refines (modify (fun e : Engine => Engine.with_store (e.store.reopen failed) e.sha256_hex)) t
      (fun _ ls _ => ls = [.restart]) := by
  refine Spec.modify (l := .restart) (fun e hw ht => ?_)
  obtain ⟨hw', hep, hv⟩ := hw.reopen failed
  subst ht
  refine ⟨?_, hw', rfl⟩
  have hm : (Engine.with_store (e.store.reopen failed) e.sha256_hex).machine
      = { runs := fun id => (e.machine.runs id).map reopened
          epoch := e.machine.epoch + failed + 1
          workflows := ∅, activities := ∅, dispatch_limit := 8
          retry_policy := RetryPolicy.default, dispatched := ∅, parked := []
          sha256_hex := e.machine.sha256_hex } := by
    unfold Engine.machine Engine.with_store
    simp only
    rw [hv, hep]
  rw [hm]
  exact .restart failed

/-- **Every operation of the engine is a path of the transition system.** -/
theorem perform_refines (op : Operation) (t : Machine) :
    Refines (perform op) t (fun res ls _ => Outcome t op res ls) := by
  cases op with
  | register_workflow name version workflow =>
    refine (register_workflow_refines name version workflow t).map.weaken ?_
    rintro res ls _ ⟨out, -, hls⟩
    exact ⟨hls, trivial⟩
  | register_activity name version native =>
    exact configure_refines (add_activity_refines name version native t) (fun _ => .rfl)
      (fun _ _ => trivial)
  | set_dispatch_limit limit =>
    exact configure_refines (set_dispatch_limit_refines limit t) (fun _ => .rfl)
      (fun _ _ => trivial)
  | set_retry_policy policy =>
    exact configure_refines (set_retry_policy_refines policy t) (fun _ => .rfl)
      (fun _ _ => trivial)
  | start id name version input =>
    refine (start_refines id name version input t).map.weaken ?_
    rintro res ls _ ⟨out, rfl, hc⟩
    exact ⟨hc.mem, hc.map⟩
  | drive_with_resolver id now resolver =>
    refine (drive_with_resolver_refines id now resolver t).map.weaken ?_
    rintro res ls _ ⟨out, rfl, hd⟩
    exact ⟨hd.drives, out, rfl, hd⟩
  | prepare_registered_at a resolver started_at_ms =>
    refine (prepare_registered_at_refines a resolver started_at_ms t).map.weaken ?_
    rintro res ls _ ⟨out, rfl, hp⟩
    exact ⟨hp.emits, out, rfl, hp⟩
  | complete a output =>
    refine (complete_refines a output t).map.weaken ?_
    rintro res ls _ ⟨out, rfl, hs⟩
    exact ⟨hs.emits, hs.map⟩
  | fail_at a failure failed_at_ms =>
    refine (fail_at_refines a failure failed_at_ms t).map.weaken ?_
    rintro res ls _ ⟨out, rfl, hs⟩
    exact ⟨hs.emits, hs.map⟩
  | reject_dispatch a reason =>
    refine (reject_dispatch_refines a reason t).map.weaken ?_
    rintro res ls _ ⟨out, rfl, hs⟩
    exact ⟨hs.emits, hs.map⟩
  | reject_run id reason =>
    refine Refines.weaken (Refines.map (@reject_run_refines t id reason (.reject_run id reason)
      (fun r c _ hid hterm => ?_))) ?_
    · subst hid
      exact .reject_run reason hterm
    · rintro res ls _ ⟨out, rfl, hc⟩
      exact ⟨hc.mem, hc.map⟩
  | resume id =>
    refine (resume_refines id t).map.weaken ?_
    rintro res ls _ ⟨out, -, hls⟩
    exact ⟨hls, trivial⟩
  | signal id name value =>
    refine (signal_refines id name value t).map.weaken ?_
    rintro res ls _ ⟨out, rfl, hc⟩
    exact ⟨hc.mem, hc.map⟩
  | cancel id =>
    refine (cancel_refines id t).map.weaken ?_
    rintro res ls _ ⟨out, -, hc⟩
    exact ⟨hc.cancels, trivial⟩
  | reconcile id effect_id observed recorded_at_ms =>
    refine (reconcile_inner_refines id effect_id none none observed "engine" recorded_at_ms
      t).map.weaken ?_
    rintro res ls _ ⟨out, rfl, hr, -⟩
    exact ⟨hr.emits, out, rfl, hr⟩
  | reconcile_fenced id effect_id attempt epoch evidence_ref observed recorded_at_ms =>
    have hfenced : Refines (reconcile_fenced_with_evidence id effect_id attempt epoch evidence_ref
        observed recorded_at_ms) t
        (fun res ls _ => Reconciled t id effect_id observed res ls) := by
      unfold reconcile_fenced_with_evidence
      split
      · exact Refines.throw (.refused _)
      · exact (reconcile_inner_refines _ _ _ _ _ _ _ t).weaken (fun _ _ _ h => h.1)
    refine hfenced.map.weaken ?_
    rintro res ls _ ⟨out, rfl, hr⟩
    exact ⟨hr.emits, out, rfl, hr⟩
  | restart failed =>
    refine (restart_refines failed t).map.weaken ?_
    rintro res ls _ ⟨out, -, rfl⟩
    exact ⟨List.forall_mem_singleton.mpr rfl, trivial⟩

/-! ## Which operation makes a move -/

section Outcome

variable {t : Machine} {op : Operation} {res : Except Error Reply} {ls : List Label}
  {a : ActivityAttempt}

variable {reason : RunFailure}

attribute [local simp] Operation.emits Label.releases Label.drives Label.cancels

theorem Outcome.refused (h : Outcome t op res ls) (hl : .reject_dispatch a reason ∈ ls) :
    op = .reject_dispatch a reason
      ∧ ∃ ls', ls = .reject_dispatch a reason :: ls' ∧ ∀ l ∈ ls', l.releases a := by
  have hemit := h.emits _ hl
  have htells := h.tells
  cases op with
  | reject_dispatch a' reason' =>
    rcases hemit with hemit | hemit
    · cases hemit
      refine ⟨rfl, ?_⟩
      cases htells with
      | done hls => exact ⟨_, rfl, hls⟩
      | failed => cases hl
    · exact hemit.elim
  | _ => simp at hemit

theorem Outcome.missing (h : Outcome t op res ls) (hl : .missing_payload a ∈ ls) :
    (∃ resolver started_at_ms, op = .prepare_registered_at a resolver started_at_ms
        ∧ resolver a.input = .ok none ∧ t.activities.lookup (a.name, a.version) = some true
        ∧ (res = .ok (.prepared none) ∨ ∃ error, res = .error error))
      ∧ ∃ ls', ls = .missing_payload a :: ls' ∧ ∀ l ∈ ls', l.releases a := by
  have hemit := h.emits _ hl
  have htells := h.tells
  cases op with
  | prepare_registered_at a' resolver started_at_ms =>
    obtain ⟨out, rfl, hprep⟩ := htells
    cases hprep with
    | invoked => simp at hl
    | missing hnone hnative hres hls =>
      rcases List.mem_cons.mp hl with h | h
      · cases h
        refine ⟨⟨resolver, started_at_ms, rfl, hnone, hnative, ?_⟩, _, rfl, hls⟩
        rcases hres with rfl | ⟨error, rfl⟩
        · exact .inl rfl
        · exact .inr ⟨error, rfl⟩
      · exact (hls _ h).elim
    | refused => simp at hl
  | _ => simp at hemit

theorem Outcome.rejected {id : String} (h : Outcome t op res ls) (hl : .reject_run id reason ∈ ls) :
    op = .reject_run id reason ∧ ls = [.reject_run id reason] := by
  have hemit := h.emits _ hl
  have htells := h.tells
  cases op with
  | reject_run id' reason' =>
    cases hemit
    refine ⟨rfl, ?_⟩
    rcases htells with ⟨-, rfl⟩ | ⟨-, rfl⟩
    · rfl
    · cases hl
  | _ => simp at hemit

theorem Outcome.invoked (h : Outcome t op res ls) (hl : .invoke a ∈ ls) :
    (∃ resolver started_at_ms bytes, op = .prepare_registered_at a resolver started_at_ms
      ∧ resolver a.input = .ok (some bytes)) ∧ ls = [.invoke a] := by
  have hemit := h.emits _ hl
  have htells := h.tells
  cases op with
  | prepare_registered_at a' resolver started_at_ms =>
    obtain ⟨out, rfl, hprep⟩ := htells
    cases hprep with
    | invoked invocation hbytes =>
      cases List.mem_singleton.mp hl
      exact ⟨⟨resolver, started_at_ms, _, rfl, hbytes⟩, rfl⟩
    | missing _ _ _ hls =>
      rcases List.mem_cons.mp hl with h | h
      · cases h
      · exact (hls _ h).elim
    | refused => simp at hl
  | _ => simp at hemit

theorem Outcome.reported {failure : ActivityFailure} {failed_at_ms : ℤ}
    (h : Outcome t op res ls) (hl : .fail a failure failed_at_ms ∈ ls) :
    op = .fail_at a failure failed_at_ms
      ∧ ∃ ls', ls = .fail a failure failed_at_ms :: ls' ∧ ∀ l ∈ ls', l.releases a := by
  have hemit := h.emits _ hl
  have htells := h.tells
  cases op with
  | fail_at a' failure' failed_at_ms' =>
    rcases hemit with hemit | hemit
    · cases hemit
      refine ⟨rfl, ?_⟩
      cases htells with
      | done hls => exact ⟨_, rfl, hls⟩
      | refused hls => exact (hls _ hl).elim
    · exact hemit.elim
  | _ => simp at hemit

theorem Outcome.retried {id : String} (h : Outcome t op res ls) (hl : .retry_wait id ∈ ls) :
    ∃ now resolver, op = .drive_with_resolver id now resolver
      ∧ ∃ out : Except Error DriveOutcome, res = out.map .drive ∧ Drove t id now out ls := by
  have hemit := h.emits _ hl
  have htells := h.tells
  cases op with
  | drive_with_resolver id' now resolver =>
    cases hemit
    exact ⟨now, resolver, rfl, htells⟩
  | _ => simp at hemit

theorem Outcome.restarted (h : Outcome t op res ls) (hl : .restart ∈ ls) :
    ∃ failed, op = .restart failed := by
  have hemit := h.emits _ hl
  cases op with
  | restart failed => exact ⟨failed, rfl⟩
  | _ => simp at hemit

end Outcome

/-! ## Steps and runs -/

theorem Step.path (step : Step) (hw : WellFormed e.store) :
    ∃ ls, Path Trans e.machine ls (step.exec e).2.machine ∧ WellFormed (step.exec e).2.store
      ∧ Outcome e.machine step.op (step.exec e).1 ls := by
  exact perform_refines step.op e.machine (e.under step.outages)
    (wellFormed_outages hw step.outages) rfl

theorem Step.restarted (hw : WellFormed e.store) {step : Step} {failed : ℕ}
    (hop : step.op = .restart failed) : Trans e.machine .restart (step.exec e).2.machine := by
  have hw' : WellFormed (e.under step.outages).store := wellFormed_outages hw step.outages
  obtain ⟨ls, hp, -, out, -, hls⟩ :=
    (restart_refines failed e.machine).map (f := fun _ => Reply.unit) (e.under step.outages) hw' rfl
  subst hls
  have hexec : (step.exec e).2 = _ := congrArg (fun op => (perform op (e.under step.outages)).2) hop
  rw [hexec]
  cases hp with
  | cons htrans hrest =>
    cases hrest
    exact htrans

theorem init_wellFormed : WellFormed (Engine.init codec sha256_hex).store := by
  constructor
  case sealed_resolved =>
    intro id e he
    cases he
  case orphan =>
    intro id _
    rfl
  all_goals
    intro id row h
    cases h

theorem after_wellFormed (hw : WellFormed e.store) (steps : List Step) :
    WellFormed (after e steps).store := by
  unfold after
  induction steps generalizing e with
  | nil => exact hw
  | cons step steps ih =>
    obtain ⟨ls, -, hw', -⟩ := step.path hw
    exact ih hw'

theorem Reachable.wellFormed (h : Reachable e) : WellFormed e.store := by
  obtain ⟨codec, sha256_hex, steps, rfl⟩ := h
  exact after_wellFormed (init_wellFormed codec sha256_hex) steps

theorem after_take_succ (e : Engine) (steps : List Step) {n : ℕ} {step : Step}
    (h : steps[n]? = some step) :
    after e (steps.take (n + 1)) = (step.exec (after e (steps.take n))).2 := by
  unfold after
  rw [List.take_add_one, h, Option.toList_some, List.foldl_append]
  rfl

theorem after_take_le (e : Engine) (steps : List Step) {i n : ℕ} (h : i ≤ n) :
    after e (steps.take n) = after (after e (steps.take i)) ((steps.take n).drop i) := by
  have hsplit : steps.take n = steps.take i ++ (steps.take n).drop i := by
    conv_lhs => rw [← List.take_append_drop i (steps.take n), List.take_take, min_eq_left h]
  unfold after
  rw [← List.foldl_append, ← hsplit]

theorem after_path (hw : WellFormed e.store) (steps : List Step) :
    ∃ ls, Path Trans e.machine ls (after e steps).machine := by
  unfold after
  induction steps generalizing e with
  | nil => exact ⟨[], .nil _⟩
  | cons step steps ih =>
    obtain ⟨ls, hp, hw', -⟩ := step.path hw
    obtain ⟨ls', hp'⟩ := ih hw'
    exact ⟨ls ++ ls', hp.append hp'⟩

theorem Reachable.step (h : Reachable e) (step : Step) : Reachable (step.exec e).2 := by
  obtain ⟨codec, sha256_hex, steps, rfl⟩ := h
  refine ⟨codec, sha256_hex, steps ++ [step], ?_⟩
  unfold after
  rw [List.foldl_append]
  rfl

theorem reachable_after (h : Reachable e) (steps : List Step) : Reachable (after e steps) := by
  obtain ⟨codec, sha256_hex, before, rfl⟩ := h
  refine ⟨codec, sha256_hex, before ++ steps, ?_⟩
  unfold after
  rw [List.foldl_append]

theorem after_append_singleton (e : Engine) (steps : List Step) (step : Step) :
    after e (steps ++ [step]) = (step.exec (after e steps)).2 := by
  unfold after
  rw [List.foldl_append]
  rfl

theorem Reachable.init : Reachable (Engine.init codec sha256_hex) := ⟨codec, sha256_hex, [], rfl⟩

/-- **The rule for runs.** What holds at one point of a run, and is kept by every
step from there to a later point, holds at the later point. The step may use its
position. -/
theorem after_induction {codec : Codec} {sha256_hex : String → String} {steps : List Step}
    {P : Engine → Prop} {i n : ℕ} (hin : i ≤ n)
    (h0 : P (after (Engine.init codec sha256_hex) (steps.take i)))
    (hstep : ∀ k step, i ≤ k → k < n → steps[k]? = some step →
      Reachable (after (Engine.init codec sha256_hex) (steps.take k)) →
      P (after (Engine.init codec sha256_hex) (steps.take k)) →
      P (step.exec (after (Engine.init codec sha256_hex) (steps.take k))).2) :
    P (after (Engine.init codec sha256_hex) (steps.take n)) := by
  have hall : ∀ k, i ≤ k → k ≤ n → P (after (Engine.init codec sha256_hex) (steps.take k)) := by
    intro k hk
    induction k, hk using Nat.le_induction with
    | base => exact fun _ => h0
    | succ k hle ih =>
      intro hkn
      cases hget : steps[k]? with
      | none =>
        -- past the end of the run nothing changes
        have hlen : steps.length ≤ k := List.getElem?_eq_none_iff.mp hget
        have hk := ih (by omega)
        rw [List.take_of_length_le hlen] at hk
        rw [List.take_of_length_le (by omega)]
        exact hk
      | some step =>
        rw [after_take_succ _ steps hget]
        exact hstep k step hle (by omega) hget ⟨codec, sha256_hex, steps.take k, rfl⟩
          (ih (by omega))
  exact hall n hin le_rfl

theorem init_runs (id : String) : (Engine.init codec sha256_hex).machine.runs id = none := rfl

/-- **The invariant rule.** What holds of a machine without runs and is kept by
every move holds in every reachable state. -/
theorem Reachable.invariant {I : Machine → Prop}
    (h0 : ∀ m : Machine, (∀ id, m.runs id = none) → I m)
    (hstep : ∀ m l m', Trans m l m' → I m → I m') (h : Reachable e) : I e.machine := by
  obtain ⟨codec, sha256_hex, steps, rfl⟩ := h
  have hinit : I (Engine.init codec sha256_hex).machine :=
    h0 _ (init_runs codec sha256_hex)
  have hw := init_wellFormed codec sha256_hex
  generalize Engine.init codec sha256_hex = e at hinit hw
  unfold after
  induction steps generalizing e with
  | nil => exact hinit
  | cons step steps ih =>
    obtain ⟨ls, hp, hw', -⟩ := step.path hw
    exact ih _ (hp.keeps (fun l _ a b => hstep a l b) hinit) hw'

theorem load_iff (hw : WellFormed e.store) {r : RunRecord} :
    e.store.load id = .ok r ↔ ∃ c, e.machine.runs id = some ⟨r, c⟩ := by
  rw [hw.load_eq]
  show _ ↔ ∃ c, e.store.view id = some ⟨r, c⟩
  cases hv : e.store.view id with
  | none => simp
  | some en =>
    constructor
    · rintro h
      cases h
      exact ⟨en.wakeup, rfl⟩
    · rintro ⟨c, h⟩
      cases h
      rfl

end Appcall.Durable
