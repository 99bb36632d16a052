/-
Reconciling an uncertain effect.

A run in doubt waits for someone who knows what happened. This file is about what a
reconciliation needs to succeed, and about what it leads to when it says that the
effect did not happen: whether the next drive hands the effect out again.

What stands in its way is the length of a name. Run ids are at most 128 bytes long,
and so are the ids of derived runs; an effect id is a run id with an index behind it,
and nothing shortens it. `reconcile_inner` validates it as if it were one of these.
-/
import Appcall.Engine.Budget

set_option autoImplicit false

namespace Appcall.Durable

open Appcall.Refine

/-! ## Names -/

variable {id : String} {r r' : RunRecord} {children : List RunRecord} {e e' : Engine}

theorem new_run_valid {name version : String} {input : PayloadRef} {run : RunRecord}
    (h : new_run id name version input = .ok run) : valid_identifier run.id = true := by
  have hid := (new_run_ok h).2.1
  unfold new_run at h
  simp only [bind, Except.bind] at h
  rw [hid]
  unfold validate at h
  by_contra hnot
  rw [if_neg hnot] at h
  cases h

theorem Evaluates.children_valid {m : Machine} {index : ℕ} {now : ℤ} {command : Command}
    {value : Option CommandValue} (h : Evaluates m r index now command value r' children) :
    ∀ x ∈ children, valid_identifier x.id = true := by
  cases h with
  | child _ hnew =>
    have hvalid := new_run_valid hnew
    exact List.forall_mem_singleton.mpr hvalid
  | continues _ _ _ _ hnew =>
    have hvalid := new_run_valid hnew
    exact List.forall_mem_singleton.mpr hvalid
  | _ => exact fun x hx => absurd hx List.not_mem_nil

theorem Change.children_valid {m : Machine} {l : Label} (h : Change m l r r' children) :
    ∀ x ∈ children, valid_identifier x.id = true := by
  cases h with
  | resolve _ ht | stop _ ht | hold _ ht | dispatch_exhausted _ ht | dispatch _ ht | wait _ ht =>
    exact ht.evaluated.children_valid
  | _ => exact fun x hx => absurd hx List.not_mem_nil

/-- **Runs have valid ids.** -/
theorem Reachable.valid_ids (he : Reachable e) {en : Entry} (hr : e.machine.runs id = some en) :
    valid_identifier id = true := by
  have hall : ∀ id en, e.machine.runs id = some en → valid_identifier id = true := by
    refine Reachable.invariant
      (I := fun m => ∀ id en, m.runs id = some en → valid_identifier id = true) ?_ ?_ he
    · intro m hm id en hen
      rw [hm id] at hen
      cases hen
    · intro m l m' ht hI id en hen
      obtain ⟨r', c'⟩ := en
      cases ht with
      | @change _ r run c children hs hc hf =>
        rcases Machine.commit_inv hen with ⟨hid, -⟩ | ⟨x, hx, hid, -⟩ | ⟨-, c0, hr0, -⟩
        · rw [hid, hc.frame.id]
          exact hI r.id _ hs
        · rw [← hid]
          exact hc.children_valid x hx
        · exact hI id _ hr0
      | @start id0 _ _ _ run hnew hnone =>
        rcases update_some hen with ⟨rfl, -⟩ | ⟨-, hother⟩
        · have hvalid := new_run_valid hnew
          rw [(new_run_ok hnew).2.1] at hvalid
          exact hvalid
        · exact hI id _ hother
      | restart failed =>
        obtain ⟨c, hr0⟩ := reopened_iff.mp ⟨c', hen⟩
        exact hI id _ hr0
      | idle | park | unpark | hand_out | release | register_workflow | configure =>
        exact hI id _ hen
  exact hall id en hr

theorem identifier_char_toString {n : ℕ} {c : Char} (h : c ∈ (toString n).toList) :
    identifier_char c = true := by
  have hdigit : c.isDigit = true := by
    apply Nat.isDigit_of_mem_toDigits (b := 10) (n := n) (by decide) (by decide)
    simpa [toString, Nat.repr] using h
  unfold identifier_char Char.isAlphanum
  rw [hdigit]
  simp

theorem valid_effect_id {run_id : String} (h : valid_identifier run_id = true) (index : ℕ) :
    valid_identifier (effect_id_at run_id index) = true
      ↔ (effect_id_at run_id index).utf8ByteSize ≤ 128 := by
  unfold valid_identifier at h ⊢
  simp only [Bool.not_eq_true', Bool.or_eq_false_iff, decide_eq_false_iff_not, not_lt,
    Bool.not_eq_false'] at h ⊢
  obtain ⟨⟨hempty, -⟩, hall⟩ := h
  constructor
  · intro h
    exact h.1.2
  · intro hlen
    refine ⟨⟨?_, hlen⟩, ?_⟩
    · unfold effect_id_at command_id
      simp
    · unfold effect_id_at command_id
      rw [List.all_eq_true] at hall ⊢
      intro c hc
      simp only [String.toList_append, List.mem_append] at hc
      rcases hc with (((hc | hc) | hc) | hc) | hc
      · exact hall c hc
      · rw [show ":".toList = [':'] from rfl, List.mem_singleton] at hc
        rw [hc]
        rfl
      · rw [String.toList_singleton, List.mem_singleton] at hc
        rw [hc]
        rfl
      · rw [show ":".toList = [':'] from rfl, List.mem_singleton] at hc
        rw [hc]
        rfl
      · exact identifier_char_toString hc

/-! ## The store's part -/

/-- The calls of a reconciliation on the store, without its checks: the run is read,
written by `recover` if that took a task back, and written with the effect resolved. -/
def write_reconciliation (id effect_id evidence_ref : String) (observed : Option PayloadRef)
    (recorded_at_ms : ℤ) : EngineM Unit := do
  let r ← load id
  let r ← recover r
  match uncertain_task r effect_id with
  | none => pure ()
  | some (i, task) =>
    let _ ← save (reconciled_run r i task observed {
      effect_id, attempt := task.attempt.attempt, owner_epoch := task.attempt.owner_epoch,
      evidence_ref, recorded_at_ms, observed := observed.isSome }) []

theorem exec_load_ok (h : exec (load id) e = (.ok r, e')) :
    e.store.load id = .ok r ∧ e'.store.epoch = e.store.epoch := by
  have hread : ∀ outages, exec (result (({ e.store with outages } : SqliteStore).load id) :
      EngineM _)
      ({ e with store := { e.store with outages } }) = (.ok r, e') →
      e.store.load id = .ok r ∧ e'.store.epoch = e.store.epoch := by
    intro outages hr
    have hsame : ({ e.store with outages } : SqliteStore).load id = e.store.load id := rfl
    rw [hsame] at hr
    cases hl : e.store.load id with
    | error error =>
      rw [hl] at hr
      cases hr
    | ok r' =>
      rw [hl] at hr
      cases hr
      exact ⟨rfl, rfl⟩
  unfold load store_call at h
  rw [exec_bind, exec_bind, exec_get] at h
  simp only at h
  cases ho : e.store.outages with
  | nil =>
    rw [ho] at h
    refine hread e.store.outages ?_
    exact h
  | cons answer rest =>
    rw [ho] at h
    cases answer with
    | none => exact hread rest h
    | some message => cases h

theorem exec_save_ok {run run' : RunRecord} (h : exec (save run children) e = (.ok run', e')) :
    run' = run.saved := by
  unfold save at h
  rw [exec_bind] at h
  cases hrev : checked_succ run.revision with
  | error error =>
    rw [hrev] at h
    cases h
  | ok revision =>
    have hsucc := checked_succ_ok hrev
    subst hsucc
    rw [hrev] at h
    -- the answer of the database, and then that of the commit
    rw [show exec (result (.ok (run.revision + 1)) : EngineM ℕ) e = (.ok (run.revision + 1), e)
      from rfl] at h
    simp only at h
    rw [exec_bind] at h
    cases hcall : exec store_call e with
    | mk answer e1 =>
      rw [hcall] at h
      cases answer with
      | error error => cases h
      | ok _ =>
        simp only at h
        rw [exec_bind, exec_get] at h
        simp only at h
        rw [exec_bind] at h
        generalize hcommit : e1.store.commit run.revision
          { run with revision := run.revision + 1 } children = committed at h
        cases committed with
        | error error => cases h
        | ok store =>
          cases h
          rfl

theorem exec_recover_ok (hstate : r.state = .OutcomeUnknown)
    (h : exec (recover r) e = (.ok r', e')) :
    r'.tasks = (recovered e.store.epoch r).tasks
      ∧ r'.reconciliation_audit = r.reconciliation_audit := by
  have hactive : (r.state.settled || (decide (r.state = .Failed) && !r.retry_exhausted))
      = false := by
    rw [hstate]
    rfl
  unfold recover at h
  rw [hactive, if_neg Bool.false_ne_true, exec_bind, exec_get] at h
  simp only at h
  split at h
  · rw [exec_save_ok h]
    exact ⟨rfl, rfl⟩
  · cases h
    exact ⟨rfl, rfl⟩

/-- It succeeds, if its checks pass and the store takes what it writes. -/
theorem reconcile_inner_ok {effect_id evidence_ref : String} {observed : Option PayloadRef}
    {recorded_at_ms : ℤ} {number epoch : ℕ} (heff : validate effect_id = .ok ())
    (hev : validate evidence_ref = .ok ()) (hob : ∀ p, observed = some p → p.ephemeral = false)
    (hload : e.store.load id = .ok r) (hstate : r.state = .OutcomeUnknown)
    (haudit : r.reconciliation_audit.length < 256)
    (hfind : ∀ r', r'.tasks = (recovered e.store.epoch r).tasks → ∃ i task,
      uncertain_task r' effect_id = some (i, task)
        ∧ task.attempt.attempt = number ∧ task.attempt.owner_epoch = epoch)
    (haccept : (exec (write_reconciliation id effect_id evidence_ref observed recorded_at_ms) e).1
      = .ok ()) :
    ∃ audit, (exec (reconcile_inner id effect_id (some number) (some epoch) observed evidence_ref
      recorded_at_ms) e).1 = .ok audit := by
  have hdurable : observed.any (fun payload => payload.ephemeral) = false := by
    cases observed with
    | none => rfl
    | some p => exact hob p rfl
  unfold write_reconciliation at haccept
  unfold reconcile_inner
  rw [heff, hev, hdurable]
  -- both programs read the same run
  rw [exec_bind] at haccept
  show ∃ audit, (exec (load id >>= _) e).1 = .ok audit
  rw [exec_bind]
  cases hl : exec (load id) e with
  | mk answer e1 =>
    rw [hl] at haccept
    cases answer with
    | error error => cases haccept
    | ok r1 =>
      obtain ⟨hload1, hepoch⟩ := exec_load_ok hl
      rw [hload] at hload1
      cases hload1
      simp only at haccept ⊢
      rw [if_neg (not_not.mpr hstate), if_neg (by omega)]
      -- and recover it alike
      rw [exec_bind] at haccept
      show ∃ audit, (exec (recover r >>= _) e1).1 = .ok audit
      rw [exec_bind]
      cases hrec : exec (recover r) e1 with
      | mk answer e2 =>
        rw [hrec] at haccept
        cases answer with
        | error error => cases haccept
        | ok r2 =>
          obtain ⟨htasks, haudits⟩ := exec_recover_ok hstate hrec
          rw [hepoch] at htasks
          obtain ⟨i, task, htask, hnumber, howner⟩ := hfind r2 htasks
          simp only at haccept ⊢
          have htask' := htask
          unfold uncertain_task at htask'
          rw [htask] at haccept
          rw [htask']
          simp only at haccept ⊢
          rw [if_neg (by simp [hnumber, howner])]
          rw [exec_bind] at haccept
          cases hsave : exec (save (reconciled_run r2 i task observed {
              effect_id, attempt := task.attempt.attempt, owner_epoch := task.attempt.owner_epoch,
              evidence_ref, recorded_at_ms, observed := observed.isSome }) []) e2 with
          | mk answer e3 =>
            rw [hsave] at haccept
            cases answer with
            | error error => cases haccept
            | ok saved =>
              refine ⟨{
                effect_id, attempt := task.attempt.attempt, owner_epoch := task.attempt.owner_epoch,
                evidence_ref, recorded_at_ms, observed := observed.isSome }, ?_⟩
              have hwrite : ∀ run, run = reconciled_run r2 i task observed {
                    effect_id, attempt := task.attempt.attempt
                    owner_epoch := task.attempt.owner_epoch
                    evidence_ref, recorded_at_ms, observed := observed.isSome } →
                  ∀ audit : ReconciliationAudit,
                    (exec (save run [] >>= fun _ => (pure audit : EngineM _)) e2).1
                      = .ok audit := by
                rintro run rfl audit
                rw [exec_bind, hsave]
                rfl
              refine hwrite _ ?_ _
              cases observed <;> rfl

theorem recovered_uncertain {epoch : ℕ} (hok : TasksOk r)
    (htasks : r'.tasks = (recovered epoch r).tasks) {t : ActivityTask} (ht : t ∈ r.tasks)
    (hu : t.state = .Uncertain) : ∃ i task,
      uncertain_task r' t.attempt.effect_id = some (i, task) ∧ task.attempt = t.attempt := by
  have hmap : r'.tasks = r.tasks.map (recover_task epoch r.retry_exhausted) := htasks
  have hkept : (recover_task epoch r.retry_exhausted t).state = .Uncertain := by
    have hquiet : t.interrupted epoch r.retry_exhausted = false := by
      unfold ActivityTask.interrupted
      rw [hu]
      rfl
    rw [recover_task_of_not_interrupted hquiet]
    exact hu
  cases hfind : uncertain_task r' t.attempt.effect_id with
  | none =>
    unfold uncertain_task at hfind
    have hnone := List.any_eq_false.mp (find_task_none hfind)
    have hmem : recover_task epoch r.retry_exhausted t ∈ r'.tasks := by
      rw [hmap]
      exact List.mem_map_of_mem ht
    have hfalse := hnone _ hmem
    rw [hkept] at hfalse
    simp [recover_task] at hfalse
  | some found =>
    obtain ⟨i, task⟩ := found
    refine ⟨i, task, rfl, ?_⟩
    obtain ⟨hget, hp, -⟩ := find_task_some hfind
    simp only [Bool.and_eq_true, decide_eq_true_eq] at hp
    rw [hmap, List.getElem?_map] at hget
    obtain ⟨u, hu', rfl⟩ := Option.map_eq_some_iff.mp hget
    -- the effect has one task
    obtain ⟨j, hj⟩ := List.getElem?_of_mem ht
    have hlt := (List.getElem?_eq_some_iff.mp hu').1
    have hidx : i = j := by
      refine (List.getElem?_inj (by simpa using hlt) hok.distinct).mp ?_
      rw [List.getElem?_map, List.getElem?_map, hu', hj, Option.map_some, Option.map_some]
      exact congrArg some hp.1
    subst hidx
    rw [hj] at hu'
    cases hu'
    rfl

/-- **An uncertain effect can be reconciled if and only if its id is at most 128
bytes long**, in every state of the engine in which the run waits for it and has room
for one more audit entry, with a valid reference and a durable observation or none,
and a store that takes the writes. -/
theorem reconciles_iff_effect_id_fits {e : Engine} (he : Reachable e) {id : String} {r : RunRecord}
    (hr : e.store.load id = .ok r) (hstate : r.state = .OutcomeUnknown)
    (haudit : r.reconciliation_audit.length < 256) {t : ActivityTask} (ht : t ∈ r.tasks)
    (hu : t.state = .Uncertain) {evidence_ref : String} (hev : validate evidence_ref = .ok ())
    {observed : Option PayloadRef} (hob : ∀ p, observed = some p → p.ephemeral = false)
    (recorded_at_ms : ℤ) (outages : List (Option String))
    (haccept : (exec (write_reconciliation id t.attempt.effect_id evidence_ref observed
      recorded_at_ms) (e.under outages)).1 = .ok ()) :
    (∃ audit, (Step.exec ⟨.reconcile_fenced id t.attempt.effect_id t.attempt.attempt
        t.attempt.owner_epoch evidence_ref observed recorded_at_ms, outages⟩ e).1
          = .ok (.audit audit))
      ↔ t.attempt.effect_id.utf8ByteSize ≤ 128 := by
  obtain ⟨c, hrun⟩ := (load_iff he.wellFormed).mp hr
  obtain ⟨hid, hok⟩ := he.tasked id _ hrun
  obtain ⟨-, k, heffect⟩ := hok.owner t ht
  have hvalid : validate t.attempt.effect_id = .ok () ↔ t.attempt.effect_id.utf8ByteSize ≤ 128 := by
    have hname : valid_identifier r.id = true := by
      rw [hid]
      exact he.valid_ids hrun
    rw [heffect, ← valid_effect_id hname k]
    unfold validate
    split <;> simp_all
  -- an uncertain effect was dispatched
  have hnumber : t.attempt.attempt ≠ 0 := by
    obtain ⟨books, hb⟩ := he.budgets
    obtain ⟨i, hi⟩ := List.getElem?_of_mem ht
    have hledger := hb.ledger id i t ⟨r, c, hrun, hi⟩
    exact hledger.started (by rw [hu]; simp)
  have hperform : (Step.exec ⟨.reconcile_fenced id t.attempt.effect_id t.attempt.attempt
        t.attempt.owner_epoch evidence_ref observed recorded_at_ms, outages⟩ e).1
      = (exec (reconcile_inner id t.attempt.effect_id (some t.attempt.attempt)
          (some t.attempt.owner_epoch) observed evidence_ref recorded_at_ms)
          (e.under outages)).1.map .audit := by
    have hfenced : reconcile_fenced_with_evidence id t.attempt.effect_id t.attempt.attempt
        t.attempt.owner_epoch evidence_ref observed recorded_at_ms
          = reconcile_inner id t.attempt.effect_id (some t.attempt.attempt)
            (some t.attempt.owner_epoch) observed evidence_ref recorded_at_ms := by
      unfold reconcile_fenced_with_evidence
      rw [if_neg hnumber]
    rw [← hfenced]
    exact exec_map _ _ _
  rw [hperform]
  constructor
  · rintro ⟨audit, haudit'⟩
    rw [← hvalid]
    by_contra hnot
    unfold reconcile_inner validate at haudit'
    unfold validate at hnot
    by_cases hid' : valid_identifier t.attempt.effect_id = true
    · exact hnot (if_pos hid')
    · rw [if_neg hid'] at haudit'
      cases haudit'
  · intro hlen
    have hr' : (e.under outages).store.load id = .ok r := hr
    obtain ⟨audit, hok'⟩ := reconcile_inner_ok (hvalid.mpr hlen) hev hob hr' hstate haudit
      (fun r' htasks => by
        obtain ⟨i, task, hfind, hatt⟩ := recovered_uncertain hok htasks ht hu
        exact ⟨i, task, hfind, by rw [hatt], by rw [hatt]⟩) haccept
    rw [hok']
    exact ⟨audit, rfl⟩

def Sample.first_attempt (run_id : String) : ActivityAttempt :=
  { Sample.attempt 0 1 1 .Unknown with run_id, effect_id := effect_id_at run_id 0 }

/-- A run of this id hands out an activity, whose outcome is reported as unknown. -/
def Sample.doubted (run_id : String) : List Step :=
  [Sample.call (.register_workflow "w" "1" (Sample.pair .Unknown .Unknown)),
    Sample.call (.register_activity "a" "1" true),
    Sample.call (.start run_id "w" "1" Sample.payload), Sample.drive run_id 0,
    Sample.call (.fail_at (Sample.first_attempt run_id) .OutcomeUnknown 0)]

def Sample.in_doubt_about (r : RunRecord) (a : ActivityAttempt) : Bool :=
  decide (r.state = .OutcomeUnknown) && decide (r.reconciliation_audit.length < 256)
    && r.tasks.any (fun t => decide (t.attempt = a) && decide (t.state = .Uncertain))

theorem Sample.in_doubt_about_iff {a : ActivityAttempt} :
    Sample.in_doubt_about r a = true ↔ r.state = .OutcomeUnknown
      ∧ r.reconciliation_audit.length < 256 ∧ ∃ t ∈ r.tasks, t.attempt = a
        ∧ t.state = .Uncertain := by
  unfold Sample.in_doubt_about
  simp only [Bool.and_eq_true, decide_eq_true_eq, List.any_eq_true, and_assoc]

/-- A reconciliation that succeeds. -/
theorem doubted_run_reconciles : ∃ audit,
    ((Sample.call (.reconcile_fenced "run" (effect_id_at "run" 0) 1 1 "e" none 0)).exec
      (Sample.host (Sample.doubted "run"))).1 = .ok (.audit audit) := by
  have hdoubt : ((Sample.host (Sample.doubted "run")).store.load "run").map
      (fun r => Sample.in_doubt_about r (Sample.first_attempt "run"))
        = .ok true := by decide +kernel
  cases hr : (Sample.host (Sample.doubted "run")).store.load "run" with
  | error e =>
    rw [hr] at hdoubt
    cases hdoubt
  | ok r =>
    rw [hr] at hdoubt
    obtain ⟨hstate, haudit, t, ht, hatt, hu⟩ := Sample.in_doubt_about_iff.mp (Except.ok.inj hdoubt)
    have hiff := reconciles_iff_effect_id_fits (Sample.host_reachable (Sample.doubted "run")) hr
      hstate haudit ht hu (show validate "e" = .ok () by decide)
      (show ∀ p, (none : Option PayloadRef) = some p → p.ephemeral = false by simp) 0 []
      (by rw [hatt]; decide +kernel)
    rw [hatt] at hiff
    exact hiff.mpr (by decide)

/-- An id that `start` accepts. -/
def Sample.long_id : String := String.ofList (List.replicate 126 'r')

/-- The effect of a run with a long id cannot be reconciled: the store would take the
writes, and the id of the effect is refused as invalid. -/
theorem long_effect_id_refused :
    ¬ ∀ (e : Engine), Reachable e → ∀ (id : String) (r : RunRecord), e.store.load id = .ok r →
      r.state = .OutcomeUnknown → r.reconciliation_audit.length < 256 → ∀ t ∈ r.tasks,
      t.state = .Uncertain → ∀ evidence_ref, validate evidence_ref = .ok () →
      ∀ observed : Option PayloadRef, (∀ p, observed = some p → p.ephemeral = false) →
      ∀ (recorded_at_ms : ℤ) (outages : List (Option String)),
      (exec (write_reconciliation id t.attempt.effect_id evidence_ref observed recorded_at_ms)
        (e.under outages)).1 = .ok () →
      ∃ audit, (Step.exec ⟨.reconcile_fenced id t.attempt.effect_id t.attempt.attempt
        t.attempt.owner_epoch evidence_ref observed recorded_at_ms, outages⟩ e).1
          = .ok (.audit audit) := by
  intro hall
  obtain ⟨hdoubt, hinvalid, hwritten⟩ :
      ((Sample.host (Sample.doubted Sample.long_id)).store.load Sample.long_id).map
        (fun r => Sample.in_doubt_about r (Sample.first_attempt Sample.long_id)) = .ok true
      ∧ (Step.exec ⟨.reconcile_fenced Sample.long_id
        (Sample.first_attempt Sample.long_id).effect_id 1 1 "e" none 0, []⟩
          (Sample.host (Sample.doubted Sample.long_id))).1
        = .error (.Invalid "invalid opaque identifier")
      ∧ (exec (write_reconciliation Sample.long_id (Sample.first_attempt Sample.long_id).effect_id
        "e" none 0) ((Sample.host (Sample.doubted Sample.long_id)).under [])).1 = .ok () := by
    decide +kernel
  cases hr : (Sample.host (Sample.doubted Sample.long_id)).store.load Sample.long_id with
  | error e =>
    rw [hr] at hdoubt
    cases hdoubt
  | ok r =>
    rw [hr] at hdoubt
    obtain ⟨hstate, haudit, t, ht, hatt, hu⟩ := Sample.in_doubt_about_iff.mp (Except.ok.inj hdoubt)
    have hok := hall _ (Sample.host_reachable (Sample.doubted Sample.long_id)) _ r hr hstate haudit
      t ht hu "e" (by decide) none (by simp) 0 [] (by rw [hatt]; exact hwritten)
    rw [hatt] at hok
    obtain ⟨audit, hok⟩ := hok
    have hsame := hinvalid.symm.trans hok
    cases hsame

end Appcall.Durable
