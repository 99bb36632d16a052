/-
Parents, children and successors.

A parent finds its children by their ids, and follows each from successor to
successor to the run that is the latest. The other direction is a column: a run
that ends sets the wakeup of its `parent`. For the two to meet, every run on the
way has to name the same parent (`Families`), and the latest run of a child may
only become one that is over by a commit of that very run (`Trans.latest_back`).
-/
import Appcall.Engine.Wakeups

set_option autoImplicit false

namespace Appcall.Durable

open Appcall.Refine

/-! ## What a commit adds to a family -/

/-- A commit may attach one child, or a successor where there is none, and inserts
the run with it. -/
structure Attached (m : Machine) (r r' : RunRecord) (children : List RunRecord) : Prop where
  child : r'.children = r.children
    ∨ ∃ x ∈ children, x.parent = some r.id ∧ r'.children = r.children ++ [x.id]
  successor : r'.continued_as = r.continued_as
    ∨ ∃ x ∈ children, x.parent = r.parent ∧ r'.continued_as = some x.id
      ∧ ∀ s, r.continued_as = some s → m.runs s = none

/-- How a commit attaches a run: not at all, or one that is not stored yet, in one of the
two ways. -/
inductive Attaches (m : Machine) (r r' : RunRecord) : List RunRecord → Prop where
  | nothing : r'.children = r.children → r'.continued_as = r.continued_as → Attaches m r r' []
  | child {x : RunRecord} : x.parent = some r.id → m.runs x.id = none →
      r'.children = r.children ++ [x.id] → r'.continued_as = r.continued_as →
      Attaches m r r' [x]
  | successor {x : RunRecord} : x.parent = r.parent → m.runs x.id = none →
      r'.children = r.children → r'.continued_as = some x.id →
      (∀ s, r.continued_as = some s → m.runs s = none) → Attaches m r r' [x]

variable {m : Machine} {r r' : RunRecord} {children : List RunRecord} {value : Option CommandValue}
  {l : Label} {m' : Machine} {id : String} {run : RunRecord}

theorem Attaches.attached (h : Attaches m r r' children) : Attached m r r' children := by
  cases h with
  | nothing hc hs => exact ⟨.inl hc, .inl hs⟩
  | @child x hp _ hc hs => exact ⟨.inr ⟨x, List.mem_singleton_self _, hp, hc⟩, .inl hs⟩
  | @successor x hp _ hc hs hgone =>
    exact ⟨.inl hc, .inr ⟨x, List.mem_singleton_self _, hp, hs, hgone⟩⟩

theorem Evaluates.attaches {index : ℕ} {now : ℤ} {c : Command}
    (h : Evaluates m r index now c value r' children) : Attaches m r r' children := by
  cases h with
  | spawned | activity_done | activity_later =>
    unfold with_task
    split <;> exact .nothing rfl rfl
  | timer_fired | timer_later | signal_taken | signal_later | continue_too_early | continued =>
    exact .nothing rfl rfl
  | select _ hsel => exact .nothing hsel.frame.2.2.2.1 hsel.frame.2.2.2.2.2.1
  | child hnone hnew =>
    obtain ⟨-, hid, -⟩ := new_run_ok hnew
    rw [← hid] at hnone ⊢
    exact .child rfl hnone rfl rfl
  | continues _ _ hgone hnone hnew =>
    obtain ⟨-, hid, -⟩ := new_run_ok hnew
    rw [← hid] at hnone ⊢
    exact .successor rfl hnone rfl rfl hgone

theorem Turn.attaches {now : ℤ} {r1 : RunRecord} {pending : Option Command} {event : HistoryEvent}
    (h : Turn m now (begun r) pending event value r1 children) (hc : r'.children = r1.children)
    (hs : r'.continued_as = r1.continued_as) : Attaches m r r' children := by
  cases h.evaluated.attaches with
  | nothing hc' hs' => exact .nothing (hc.trans hc') (hs.trans hs')
  | child hp hnone hc' hs' => exact .child hp hnone (hc.trans hc') (hs.trans hs')
  | successor hp hnone hc' hs' hgone =>
    exact .successor hp hnone (hc.trans hc') (hs.trans hs') hgone

theorem Change.attaches (h : Change m l r r' children) : Attaches m r r' children := by
  cases h with
  | complete =>
    rw [completed_run_frame]
    exact .nothing rfl rfl
  | fail =>
    rw [failed_run_frame]
    exact .nothing rfl rfl
  | resolve _ ht | stop _ ht | hold _ ht | wait _ ht | dispatch_exhausted _ ht =>
    rw [merge_retry_wakeup_frame]
    exact ht.attaches rfl rfl
  | dispatch _ ht =>
    rw [still_ready_frame, merge_retry_wakeup_frame]
    exact ht.attaches rfl rfl
  | unimplemented _ ht hrun =>
    -- a turn that goes on to dispatch has inserted nothing
    have hnil := (ht.waits hrun).2.2.2.2.1
    rw [merge_retry_wakeup_frame, ← hnil]
    exact ht.attaches rfl rfl
  | _ => exact .nothing rfl rfl

theorem Change.attached (h : Change m l r r' children) :
    Attached m r r' children := h.attaches.attached

/-! ## Families -/

/-- Children and successors are stored, and name the parent they have. -/
structure Families (m : Machine) : Prop where
  child : ∀ id r c, m.runs id = some ⟨r, c⟩ → ∀ k ∈ r.children,
    ∃ rk ck, m.runs k = some ⟨rk, ck⟩ ∧ rk.parent = some r.id
  successor : ∀ id r c, m.runs id = some ⟨r, c⟩ → ∀ s, r.continued_as = some s →
    ∃ rs cs, m.runs s = some ⟨rs, cs⟩ ∧ rs.parent = r.parent

theorem Trans.parent_kept (h : Trans m l m') {p : Option String}
    (hr : ∃ r c, m.runs id = some ⟨r, c⟩ ∧ r.parent = p) :
    ∃ r c, m'.runs id = some ⟨r, c⟩ ∧ r.parent = p := by
  obtain ⟨r, c, hr, hp⟩ := hr
  rcases h.forward hr with ⟨c', hr'⟩ | ⟨run, children, -, hc, -, -, c', hr'⟩
  · exact ⟨r, c', hr', hp⟩
  · exact ⟨run.saved, c', hr', hc.frame.parent.trans hp⟩

theorem Trans.families (h : Trans m l m') (hm : Families m) : Families m' := by
  have hrecord : ∀ id r' c', m'.runs id = some ⟨r', c'⟩ →
      (∀ k ∈ r'.children, ∃ rk ck, m'.runs k = some ⟨rk, ck⟩ ∧ rk.parent = some r'.id)
        ∧ ∀ s, r'.continued_as = some s →
          ∃ rs cs, m'.runs s = some ⟨rs, cs⟩ ∧ rs.parent = r'.parent := by
    intro id r' c' hr'
    cases hold : m.runs id with
    | none =>
      rcases h.backward hr' with ⟨c, hr⟩ | ⟨r, c, run, children, hr, -⟩ | ⟨-, hn, -⟩
      · rw [hold] at hr
        cases hr
      · rw [hold] at hr
        cases hr
      · refine ⟨fun k hk => ?_, fun s hs => ?_⟩
        · rw [hn.children] at hk
          cases hk
        · rw [hn.continued_as] at hs
          cases hs
    | some en =>
      obtain ⟨r, c⟩ := en
      have hchild := hm.child id r c hold
      have hsucc := hm.successor id r c hold
      rcases h.forward hold with ⟨c'', hr''⟩ | ⟨run, children, hid, hc, rfl, hf, c'', hr''⟩
      · rw [hr'] at hr''
        cases hr''
        exact ⟨fun k hk => h.parent_kept (hchild k hk), fun s hs => h.parent_kept (hsucc s hs)⟩
      · rw [hr'] at hr''
        cases hr''
        have hatt := hc.attached
        refine ⟨fun k hk => ?_, fun s hs => ?_⟩
        · have hrun : run.saved.id = r.id := hc.frame.id
          rw [hrun]
          rcases hatt.child with hsame | ⟨x, hx, hp, hadd⟩
          · exact h.parent_kept (hchild k (hsame ▸ hk))
          · rcases List.mem_append.mp (hadd ▸ hk) with hk | hk
            · exact h.parent_kept (hchild k hk)
            · rw [List.mem_singleton.mp hk]
              exact ⟨x, _, Machine.commit_new hf hx, hp⟩
        · have hparent : run.saved.parent = r.parent := hc.frame.parent
          rw [hparent]
          rcases hatt.successor with hsame | ⟨x, hx, hp, hnew, -⟩
          · exact h.parent_kept (hsucc s (hsame ▸ hs))
          · have hs' : some x.id = some s := hnew ▸ hs
            cases hs'
            exact ⟨x, _, Machine.commit_new hf hx, hp⟩
  exact ⟨fun id r c hr => (hrecord id r c hr).1, fun id r c hr => (hrecord id r c hr).2⟩

theorem Reachable.families {e : Engine} (h : Reachable e) : Families e.machine := by
  refine Reachable.invariant ?_ (fun m l m' ht hm => ht.families hm) h
  intro m hm
  refine ⟨fun id r c hr => ?_, fun id r c hr => ?_⟩ <;> rw [hm id] at hr <;> cases hr

theorem Families.follow (hm : Families m) (hops : ℕ) {x : RunRecord} {c : Option ℤ}
    (hx : m.runs id = some ⟨x, c⟩) (h : follow_view m.runs hops x = some run) :
    run.parent = x.parent := by
  induction hops generalizing id x c with
  | zero =>
    unfold follow_view at h
    cases hs : x.continued_as with
    | none =>
      rw [hs] at h
      cases h
      rfl
    | some s =>
      rw [hs] at h
      cases h
  | succ hops ih =>
    unfold follow_view at h
    cases hs : x.continued_as with
    | none =>
      rw [hs] at h
      cases h
      rfl
    | some s =>
      obtain ⟨rs, cs, hrs, hp⟩ := hm.successor id x c hx s hs
      rw [hs] at h
      simp only [hrs] at h
      exact (ih hrs h).trans hp

/-- **The latest run of a child names the parent.** -/
theorem Families.latest (hm : Families m) {k : String} {c : Option ℤ} (hr : m.runs id = some ⟨r, c⟩)
    (hk : k ∈ r.children) (h : latest_view m.runs k = some run) : run.parent = some r.id := by
  obtain ⟨rk, ck, hrk, hp⟩ := hm.child id r c hr k hk
  unfold latest_view at h
  rw [hrk] at h
  exact (hm.follow 1024 hrk h).trans hp

/-! ## The latest run after a move -/

section Follow

variable {v v' : String → Option Entry} {C : RunRecord → RunRecord → Prop}

/-- A run without a successor that is not over. -/
def RunRecord.open_ended (r : RunRecord) : Prop := r.continued_as = none ∧ r.state.ends = false

theorem follow_view_none {r : RunRecord} (h : r.continued_as = none) (hops : ℕ) :
    follow_view v hops r = some r := by
  unfold follow_view
  rw [h]

/-- Walking the table `v'` against walking `v`, where every row of `v'` is a row of
`v`, was committed over one (`C`), or is new. A walk that ends at a run that is
over ends at a committed one, or at the same run in `v`. -/
theorem follow_view_back
    (hback : ∀ id r' c', v' id = some ⟨r', c'⟩ → (∃ c, v id = some ⟨r', c⟩)
      ∨ (∃ r c, v id = some ⟨r, c⟩ ∧ C r r') ∨ r'.open_ended)
    (hC : ∀ r r', C r r' → r'.continued_as = r.continued_as
      ∨ ∃ s x c, r'.continued_as = some s ∧ v' s = some ⟨x, c⟩ ∧ x.open_ended)
    (hops : ℕ) {x x' run : RunRecord} (hx : x' = x ∨ C x x')
    (h : follow_view v' hops x' = some run) (hends : run.state.ends = true) :
    follow_view v hops x = some run ∨ ∃ r, C r run := by
  induction hops generalizing x x' with
  | zero =>
    cases hs' : x'.continued_as with
    | none =>
      rw [follow_view_none hs'] at h
      cases h
      rcases hx with rfl | hx
      · exact .inl (follow_view_none hs' 0)
      · exact .inr ⟨x, hx⟩
    | some s =>
      unfold follow_view at h
      rw [hs'] at h
      cases h
  | succ hops ih =>
    cases hs' : x'.continued_as with
    | none =>
      rw [follow_view_none hs'] at h
      cases h
      rcases hx with rfl | hx
      · exact .inl (follow_view_none hs' (hops + 1))
      · exact .inr ⟨x, hx⟩
    | some s =>
      unfold follow_view at h
      rw [hs'] at h
      simp only at h
      cases hv' : v' s with
      | none =>
        rw [hv'] at h
        cases h
      | some en' =>
        obtain ⟨y', c'⟩ := en'
        rw [hv'] at h
        simp only at h
        -- a new successor is not over, so the walk does not end there
        have hopen : ¬ y'.open_ended := by
          rintro ⟨hnone, hlive⟩
          rw [follow_view_none hnone] at h
          cases h
          rw [hlive] at hends
          cases hends
        have hsame : x.continued_as = some s := by
          rcases hx with rfl | hx
          · exact hs'
          · rcases hC x x' hx with heq | ⟨s', y, c, hs'', hy, hy'⟩
            · rw [← heq]
              exact hs'
            · rw [hs'] at hs''
              cases hs''
              rw [hv'] at hy
              cases hy
              exact absurd hy' hopen
        have hnext : ∀ y c, v s = some ⟨y, c⟩ → (y' = y ∨ C y y') →
            follow_view v (hops + 1) x = some run ∨ ∃ r, C r run := by
          intro y c hy hyy
          rcases ih hyy h with hw | hw
          · left
            unfold follow_view
            rw [hsame]
            simp only [hy]
            exact hw
          · exact .inr hw
        rcases hback s y' c' hv' with ⟨c, hy⟩ | ⟨y, c, hy, hyy⟩ | hnew
        · exact hnext y' c hy (.inl rfl)
        · exact hnext y c hy (.inr hyy)
        · exact absurd hnew hopen

end Follow

/-- `r'` is the record that the move has committed. -/
def Committed (m : Machine) (l : Label) (m' : Machine) (r r' : RunRecord) : Prop :=
  ∃ c run children, m.runs r.id = some ⟨r, c⟩ ∧ Change m l r run children
    ∧ m' = m.commit run children
    ∧ Fresh (Function.update m.runs run.id (some ⟨run.saved, run.saved.wakeup⟩)) children
    ∧ r' = run.saved

theorem NewRun.open_ended (h : NewRun r) : r.open_ended :=
  ⟨h.continued_as, by rw [h.state]; rfl⟩

/-- **Where a child that is over comes from.** The latest run of a child is over
after a move only if it was before, or if the move committed it. -/
theorem Trans.latest_back (h : Trans m l m') {k : String}
    (hlatest : latest_view m'.runs k = some run) (hends : run.state.ends = true) :
    latest_view m.runs k = some run ∨ ∃ r, Committed m l m' r run := by
  have hback : ∀ id r' c', m'.runs id = some ⟨r', c'⟩ → (∃ c, m.runs id = some ⟨r', c⟩)
      ∨ (∃ r c, m.runs id = some ⟨r, c⟩ ∧ Committed m l m' r r') ∨ r'.open_ended := by
    intro id r' c' hr'
    cases hold : m.runs id with
    | none =>
      rcases h.backward hr' with ⟨c, hr⟩ | ⟨r, c, run, children, hr, -⟩ | ⟨-, hn, -⟩
      · rw [hold] at hr
        cases hr
      · rw [hold] at hr
        cases hr
      · exact .inr (.inr hn.open_ended)
    | some en =>
      obtain ⟨r, c⟩ := en
      rcases h.forward hold with ⟨c'', hr''⟩ | ⟨run, children, hid, hc, rfl, hf, c'', hr''⟩
      · rw [hr'] at hr''
        cases hr''
        exact .inl ⟨c, rfl⟩
      · rw [hr'] at hr''
        cases hr''
        subst hid
        exact .inr (.inl ⟨r, c, rfl, c, run, children, hold, hc, rfl, hf, rfl⟩)
  have hC : ∀ r r', Committed m l m' r r' → r'.continued_as = r.continued_as
      ∨ ∃ s x c, r'.continued_as = some s ∧ m'.runs s = some ⟨x, c⟩ ∧ x.open_ended := by
    rintro r r' ⟨c, run, children, hr, hc, rfl, hf, rfl⟩
    rcases hc.attached.successor with hsame | ⟨x, hx, -, hnew, -⟩
    · exact .inl hsame
    · exact .inr ⟨x.id, x, _, hnew, Machine.commit_new hf hx, (hc.new_children x hx).open_ended⟩
  unfold latest_view at hlatest ⊢
  cases hv' : m'.runs k with
  | none =>
    rw [hv'] at hlatest
    cases hlatest
  | some en' =>
    obtain ⟨x', c'⟩ := en'
    rw [hv'] at hlatest
    rcases hback k x' c' hv' with ⟨c, hx⟩ | ⟨x, c, hx, hcx⟩ | ⟨hnone, hlive⟩
    · rw [hx]
      exact follow_view_back hback hC 1024 (.inl rfl) hlatest hends
    · rw [hx]
      exact follow_view_back hback hC 1024 (.inr hcx) hlatest hends
    · have hself : follow_view m'.runs 1024 x' = some run := hlatest
      rw [follow_view_none hnone] at hself
      cases hself
      rw [hlive] at hends
      cases hends

theorem Trans.endedChild_back (h : Trans m l m') (hm : Families m) {c' : Option ℤ}
    (hr' : m'.runs id = some ⟨r, c'⟩) (hend : EndedChild m'.runs r) : EndedChild m.runs r
      ∨ ∃ r0 run, Committed m l m' r0 run ∧ run.state.ends = true ∧ run.parent = some r.id := by
  obtain ⟨event, hopen, hended⟩ := hend
  cases hcmd : event.command with
  | Select sources =>
    rw [hcmd] at hended
    obtain ⟨child, hmem, hk, run, hlatest, hends⟩ := hended
    rcases h.latest_back hlatest hends with hbefore | ⟨r0, hcommitted⟩
    · refine .inl ⟨event, hopen, ?_⟩
      rw [hcmd]
      exact ⟨child, hmem, hk, run, hbefore, hends⟩
    · exact .inr ⟨r0, run, hcommitted, hends, (h.families hm).latest hr' hk hlatest⟩
  | _ =>
    rw [hcmd] at hended
    exact hended.elim

end Appcall.Durable
