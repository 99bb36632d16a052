/-
How far a cancellation reaches.

`cancel` asks a run to stop, walks what the run lists, its children and its successor,
and then marks the run cancelled. It turns back at a run that has ended or that waits for
an operator: such a run is left as it is, and so is everything that can only be reached
through it, since an uncertain effect may yet be reconciled and its run go on. `Below` is
the part of the forest that remains.

The walk commits at every run, twice, and may be cut short between any two commits. What
it keeps at each of them is `Walking`, a relation between the runs when the cancellation
was first asked for and the runs now: a run below that is cancelled has nothing live below
itself, and every other change is a request. It says nothing of one walk in particular,
so a later walk, or the drive that finds the request, takes up where the last one stopped.
-/
import Mathlib.Logic.Relation
import Appcall.Engine.Runs

set_option autoImplicit false

namespace Appcall.Durable

open Appcall.Refine

/-! ## The forest -/

def RunRecord.lists (r : RunRecord) (id : String) : Prop :=
  id ∈ r.children ∨ r.continued_as = some id

/-- A cancellation does not turn back at the run. -/
def Live (v : String → Option Entry) (id : String) : Prop :=
  ∃ en, v id = some en ∧ en.record.state.uncancellable = false

/-- A cancellation of `a` goes on to `b`. -/
def Passes (v : String → Option Entry) (a b : String) : Prop :=
  ∃ en, v a = some en ∧ en.record.state.uncancellable = false ∧ en.record.lists b

/-- What a cancellation of a run comes to, itself included. -/
def Below (v : String → Option Entry) : String → String → Prop :=
  Relation.ReflTransGen (Passes v)

def Stopped (v : String → Option Entry) (id : String) : Prop :=
  ∃ en, v id = some en ∧ en.record.state = .Cancelled

def Asked (v : String → Option Entry) (id : String) : Prop :=
  ∃ en, v id = some en ∧ (en.record.state = .CancelRequested ∨ en.record.state = .Cancelled)

/-- Nothing that is cancelled, or asked to stop, runs again. -/
structure Onward (v v' : String → Option Entry) : Prop where
  stopped : ∀ x, Stopped v x → Stopped v' x
  asked : ∀ x, Asked v x → Asked v' x

theorem Onward.refl (v : String → Option Entry) : Onward v v := ⟨fun _ h => h, fun _ h => h⟩

variable {v v' v0 : String → Option Entry} {root : String} {t : Machine} {e : Engine}

theorem Onward.trans {v'' : String → Option Entry} (h : Onward v v') (h' : Onward v' v'') :
    Onward v v'' :=
  ⟨fun x hx => h'.stopped x (h.stopped x hx), fun x hx => h'.asked x (h.asked x hx)⟩

/-- Everything live below the run, when the cancellation was asked for, is cancelled. -/
def Cleared (v0 v : String → Option Entry) (id : String) : Prop :=
  ∀ below, Below v0 id below → Live v0 below → Stopped v below

theorem Cleared.mono {id : String} (h : Cleared v0 v id) (hmono : Onward v v') : Cleared v0 v' id :=
  fun below hb hl => hmono.stopped below (h below hb hl)

theorem Cleared.of_listed {id : String} (hself : Live v0 id → Stopped v id)
    (hlisted : ∀ next, Passes v0 id next → Cleared v0 v next) : Cleared v0 v id := by
  intro below hb hl
  rcases Relation.ReflTransGen.cases_head hb with rfl | ⟨next, hpass, hrest⟩
  · exact hself hl
  · exact hlisted next hpass below hrest hl

/-- The runs `v`, some time after the cancellation of `root` was asked for in `v0`. -/
structure Walking (root : String) (v0 v : String → Option Entry) : Prop where
  /-- No run is new. -/
  old : ∀ id en, v id = some en → ∃ en0, v0 id = some en0
  /-- Every run lists what it listed, and only those below change their state. -/
  run : ∀ id en0, v0 id = some en0 → ∃ en, v id = some en
    ∧ en.record.children = en0.record.children
    ∧ en.record.continued_as = en0.record.continued_as
    ∧ (en.record.state = en0.record.state
      ∨ (en0.record.state.uncancellable = false ∧ Below v0 root id
        ∧ (en.record.state = .CancelRequested ∨ en.record.state = .Cancelled)))
  /-- A run is cancelled after everything below it. -/
  cleared : ∀ id, Live v0 id → Stopped v id → Cleared v0 v id

theorem RunState.uncancellable_of_cancelled {s : RunState} (h : s = .Cancelled) :
    s.uncancellable = true := by
  rw [h]
  rfl

theorem Walking.start (root : String) (v0 : String → Option Entry) : Walking root v0 v0 := by
  refine ⟨fun id en h => ⟨en, h⟩, fun id en h => ⟨en, h, rfl, rfl, .inl rfl⟩, ?_⟩
  rintro id ⟨en, hen, hlive⟩ ⟨en', hen', hst⟩
  rw [hen] at hen'
  cases hen'
  rw [RunState.uncancellable_of_cancelled hst] at hlive
  cases hlive

/-- A run below the root is written, as cancelled or asked to cancel. -/
theorem Walking.commit {r : RunRecord} {c : Option ℤ} (run : RunRecord) (h : Walking root v0 t.runs)
    (hs : t.runs r.id = some ⟨r, c⟩) (hid : run.id = r.id) (hchildren : run.children = r.children)
    (hcontinued : run.continued_as = r.continued_as) (hlive : r.state.uncancellable = false)
    (hbelow : Below v0 root r.id) (hstate : run.state = .CancelRequested
      ∨ run.state = .Cancelled ∧ ∀ next, Passes v0 r.id next → Cleared v0 t.runs next) :
    Walking root v0 (t.commit run []).runs ∧ Onward t.runs (t.commit run []).runs := by
  have hself : ∃ w, (t.commit run []).runs r.id = some ⟨run.saved, w⟩ := by
    rw [← hid]
    exact ⟨_, Machine.commit_self trivial⟩
  obtain ⟨w, hself⟩ := hself
  have hother : ∀ x en, x ≠ r.id → t.runs x = some en →
      ∃ w, (t.commit run []).runs x = some ⟨en.record, w⟩ := by
    intro x en hx hen
    have hne : x ≠ run.id := by
      rw [hid]
      exact hx
    exact ⟨_, @Machine.commit_other t run [] trivial x en hne hen⟩
  have hback : ∀ x en, x ≠ r.id → (t.commit run []).runs x = some en →
      ∃ w, t.runs x = some ⟨en.record, w⟩ := by
    intro x en hx hen
    rcases Machine.commit_inv hen with ⟨hxr, -⟩ | ⟨y, hy, -⟩ | ⟨-, w, hw, -⟩
    · exact absurd (hxr.trans hid) hx
    · cases hy
    · exact ⟨w, hw⟩
  -- the run was live when the cancellation was asked for
  obtain ⟨en0, hen0⟩ := h.old r.id _ hs
  obtain ⟨en1, hen1, hch, hco, hst⟩ := h.run r.id en0 hen0
  rw [hs] at hen1
  cases hen1
  have hlive0 : en0.record.state.uncancellable = false := by
    rcases hst with hst | ⟨hlive0, -, -⟩
    · rw [← hst]
      exact hlive
    · exact hlive0
  have hmono : Onward t.runs (t.commit run []).runs := by
    constructor
    · rintro x ⟨en, hen, hst⟩
      have hx : x ≠ r.id := by
        rintro rfl
        rw [hs] at hen
        cases hen
        rw [RunState.uncancellable_of_cancelled hst] at hlive
        cases hlive
      obtain ⟨w, hw⟩ := hother x en hx hen
      exact ⟨_, hw, hst⟩
    · rintro x ⟨en, hen, hst⟩
      by_cases hx : x = r.id
      · subst hx
        exact ⟨_, hself, hstate.imp_right And.left⟩
      · obtain ⟨w, hw⟩ := hother x en hx hen
        exact ⟨_, hw, hst⟩
  refine ⟨⟨fun x en hen => ?_, fun x en hen => ?_, fun x hl hstop => ?_⟩, hmono⟩
  · by_cases hx : x = r.id
    · rw [hx]
      exact ⟨en0, hen0⟩
    · obtain ⟨w, hw⟩ := hback x en hx hen
      exact h.old x _ hw
  · by_cases hx : x = r.id
    · subst hx
      rw [hen0] at hen
      cases hen
      refine ⟨_, hself, hchildren.trans hch, hcontinued.trans hco, .inr ⟨hlive0, hbelow, ?_⟩⟩
      exact hstate.imp_right And.left
    · obtain ⟨en1, hen1, hrest⟩ := h.run x en hen
      obtain ⟨w, hw⟩ := hother x en1 hx hen1
      exact ⟨_, hw, hrest⟩
  · by_cases hx : x = r.id
    · subst hx
      rcases hstate with hreq | ⟨-, hlisted⟩
      · obtain ⟨en, hen, hst⟩ := hstop
        rw [hself] at hen
        cases hen
        have hsame : run.state = .Cancelled := hst
        rw [hreq] at hsame
        cases hsame
      · exact Cleared.of_listed (fun _ => hstop) (fun next hp => (hlisted next hp).mono hmono)
    · obtain ⟨en, hen, hst⟩ := hstop
      obtain ⟨w, hw⟩ := hback x en hx hen
      exact (h.cleared x hl ⟨_, hw, hst⟩).mono hmono

/-! ## The walk -/

/-- What a part of the walk leaves: the part that succeeds has cleared what it was for. -/
structure Walked (root : String) (v0 : String → Option Entry) (t : Machine)
    (targets : String → Prop) (res : Except Error Unit) (t' : Machine) : Prop where
  walking : Walking root v0 t'.runs
  mono : Onward t.runs t'.runs
  cleared : res = .ok () → ∀ x, targets x → Cleared v0 t'.runs x

theorem Walked.refused {root : String} {v0 : String → Option Entry} {t : Machine}
    {targets : String → Prop} (h : Walking root v0 t.runs) (e : Error) :
    Walked root v0 t targets (.error e) t :=
  ⟨h, .refl _, by simp⟩

theorem forM_walks {f : String → EngineM Unit}
    (h : ∀ id t, Walking root v0 t.runs → Below v0 root id →
      Refines (f id) t (fun res _ t' => Walked root v0 t (· = id) res t')) (ids : List String)
    (hids : ∀ id ∈ ids, Below v0 root id) (ht : Walking root v0 t.runs) :
    Refines (ids.forM f) t (fun res _ t' => Walked root v0 t (· ∈ ids) res t') := by
  induction ids generalizing t with
  | nil => exact Refines.pure ⟨ht, .refl _, fun _ x hx => absurd hx List.not_mem_nil⟩
  | cons id ids ih =>
    obtain ⟨hid, hrest⟩ := List.forall_mem_cons.mp hids
    rw [List.forM_eq_forM, List.forM_cons]
    refine Refines.bind ((h id t ht hid).weaken (fun res ls t' hw => ?_))
    cases res with
    | error e => exact ⟨hw.walking, hw.mono, by simp⟩
    | ok u =>
      refine (ih hrest hw.walking).weaken (fun res ls' t'' hw' => ?_)
      refine ⟨hw'.walking, hw.mono.trans hw'.mono, fun hres x hx => ?_⟩
      rcases List.mem_cons.mp hx with rfl | hx
      · exact (hw.cleared rfl x rfl).mono hw'.mono
      · exact hw'.cleared hres x hx

theorem Refines.cancelled {t : Machine} {r : RunRecord} (ho : OneOpen r.history)
    (hsame : ∀ r' c, t.runs r.id = some ⟨r', c⟩ → r'.revision = r.revision → r' = r)
    (hstate : r.state = .CancelRequested) :
    Refines (Durable.save { r with state := .Cancelled } []) t (fun res _ t' =>
      match res with
      | .ok _ => (∃ c, t.runs r.id = some ⟨r, c⟩) ∧ t' = t.commit { r with state := .Cancelled } []
      | .error _ => t' = t) := by
  rw [← bind_pure (Durable.save _ [])]
  refine Refines.save_if (l := .cancel_done r.id) ho (by simp) ?_ ?_ (fun _ => rfl)
  · intro r' c hr' hrev
    rw [hsame r' c hr' hrev]
    exact @Change.cancel_done t r hstate
  · intro r' c hr' hrev _
    have heq := hsame r' c hr' hrev
    subst heq
    exact Refines.pure ⟨⟨c, hr'⟩, rfl⟩

/-- **The walk** keeps `Walking`, however far it comes, and clears its run if it
succeeds. The induction is on the depth it may reach. -/
theorem cancel_walk_walks (fuel : ℕ) {id : String} (ht : Walking root v0 t.runs)
    (hid : Below v0 root id) :
    Refines (cancel_walk fuel id) t (fun res _ t' => Walked root v0 t (· = id) res t') := by
  induction fuel generalizing id t with
  | zero => exact Refines.throw (.refused ht _)
  | succ fuel ih =>
    unfold cancel_walk
    refine Refines.load (fun r c hs hrid ho => ?_) (.refused ht)
    subst hrid
    by_cases hun : r.state.uncancellable = true
    · rw [if_pos hun]
      refine Refines.pure ⟨ht, .refl _, ?_⟩
      rintro - x rfl
      -- a run that turns the walk back was stopped before, or the cancellation stopped it
      obtain ⟨en0, hen0⟩ := ht.old r.id _ hs
      obtain ⟨en1, hen1, -, -, hst⟩ := ht.run r.id en0 hen0
      rw [hs] at hen1
      cases hen1
      rcases hst with hst | ⟨hlive, -, hst | hst⟩
      · intro below hb hl
        rcases Relation.ReflTransGen.cases_head hb with rfl | ⟨next, ⟨en, hen, hlive, -⟩, -⟩
        · obtain ⟨en, hen, hlive⟩ := hl
          rw [hen0] at hen
          cases hen
          rw [← hst] at hlive
          rw [hun] at hlive
          cases hlive
        · rw [hen0] at hen
          cases hen
          rw [← hst] at hlive
          rw [hun] at hlive
          cases hlive
      · have hreq : r.state = .CancelRequested := hst
        rw [hreq] at hun
        cases hun
      · exact ht.cleared r.id ⟨en0, hen0, hlive⟩ ⟨_, hs, hst⟩
    rw [if_neg hun]
    have hlive := Bool.eq_false_iff.mpr hun
    have hreq : Change t (.cancel_request r.id) r
        { r with state := .CancelRequested, wakeup := some 0 } [] := .cancel_request hlive
    refine Refines.save hs ho hreq ?_ (.refused ht)
    obtain ⟨hw1, hmono1⟩ := ht.commit { r with state := .CancelRequested, wakeup := some 0 }
      hs rfl rfl rfl hlive hid (.inl rfl)
    set r1 := ({ r with state := .CancelRequested, wakeup := some 0 } : RunRecord).saved with hr1
    set t1 := t.commit { r with state := .CancelRequested, wakeup := some 0 } [] with ht1
    obtain ⟨c1, hs1⟩ : ∃ c1, t1.runs r1.id = some ⟨r1, c1⟩ := ⟨_, Machine.commit_self trivial⟩
    -- what the run lists was below the root when the cancellation was asked for
    obtain ⟨en0, hen0⟩ := hw1.old r1.id _ hs1
    obtain ⟨en1, hen1, hch, hco, hst0⟩ := hw1.run r1.id en0 hen0
    rw [hs1] at hen1
    cases hen1
    have hlive0 : en0.record.state.uncancellable = false := by
      rcases hst0 with hst0 | ⟨h, -, -⟩
      · rw [← hst0]
        rfl
      · exact h
    have hlists : ∀ next, r1.lists next → Below v0 root next := by
      intro next hnext
      refine hid.tail ⟨en0, hen0, hlive0, ?_⟩
      unfold RunRecord.lists at hnext ⊢
      rw [← hch, ← hco]
      exact hnext
    have hpasses : ∀ next, Passes v0 r1.id next → r1.lists next := by
      rintro next ⟨en, hen, -, hnext⟩
      rw [hen0] at hen
      cases hen
      unfold RunRecord.lists at hnext ⊢
      rw [hch, hco]
      exact hnext
    -- the last save compares the revision of the first one
    have hlast : ∀ t2 ls, Path Trans t1 ls t2 → Walking root v0 t2.runs →
        Onward t1.runs t2.runs →
        (∀ next, r1.lists next → Cleared v0 t2.runs next) →
        Refines (save { r1 with state := .Cancelled } [] >>= fun _ => pure ()) t2
          (fun res _ t' => Walked root v0 t (· = r.id) res t') := by
      intro t2 ls hp hw2 hmono2 hlisted
      have hsame : ∀ r2 c2, t2.runs r1.id = some ⟨r2, c2⟩ → r2.revision = r1.revision →
          r2 = r1 := by
        intro r2 c2 hr2 hrev
        obtain ⟨r', c', hr', -, hsame⟩ := Path.grows hp _ _ _ hs1
        rw [hr2] at hr'
        cases hr'
        exact hsame hrev
      refine Refines.bind (Refines.weaken (Spec.path (Refines.cancelled ho hsame rfl)) ?_)
      rintro res ls' t3 ⟨-, hsaved⟩
      cases res with
      | error e =>
        obtain rfl := hsaved
        exact ⟨hw2, hmono1.trans hmono2, by simp⟩
      | ok saved =>
        obtain ⟨⟨c2, hs2⟩, rfl⟩ := hsaved
        obtain ⟨hw3, hmono3⟩ := hw2.commit { r1 with state := .Cancelled } hs2 rfl rfl rfl
          rfl hid (.inr ⟨rfl, fun next hp => hlisted next (hpasses next hp)⟩)
        refine Refines.pure ⟨hw3, (hmono1.trans hmono2).trans hmono3, ?_⟩
        rintro - x rfl
        refine hw3.cleared r.id ⟨en0, hen0, hlive0⟩ ?_
        exact ⟨_, Machine.commit_self trivial, rfl⟩
    refine Refines.bind (Refines.weaken (Spec.path (forM_walks (fun id t ht hid => ih ht hid)
      r1.children (fun next hnext => hlists next (.inl hnext)) hw1)) ?_)
    rintro res ls t2 ⟨hp, hw2⟩
    cases res with
    | error e => exact ⟨hw2.walking, hmono1.trans hw2.mono, by simp⟩
    | ok u =>
      dsimp only
      split
      · rename_i successor hsucc
        refine Refines.bind (Refines.weaken (Spec.path
          (ih hw2.walking (hlists successor (.inr hsucc))))
          ?_)
        rintro res ls' t3 ⟨hp', hw3⟩
        have hmono3 := hw2.mono.trans hw3.mono
        cases res with
        | error e => exact ⟨hw3.walking, hmono1.trans hmono3, by simp⟩
        | ok u =>
          refine hlast t3 (ls ++ ls') (hp.append hp') hw3.walking hmono3 (fun next hnext => ?_)
          rcases hnext with hnext | hnext
          · exact (hw2.cleared rfl next hnext).mono hw3.mono
          · rw [hsucc] at hnext
            cases hnext
            exact hw3.cleared rfl successor rfl
      · rename_i hnone
        refine hlast t2 ls hp hw2.walking hw2.mono (fun next hnext => ?_)
        rcases hnext with hnext | hnext
        · exact hw2.cleared rfl next hnext
        · rw [hnone] at hnext
          cases hnext

/-! ## Steps of the host -/

theorem Walking.restart (h : Walking root v0 v) :
    Walking root v0 (fun id => (v id).map reopened) ∧ Onward v (fun id => (v id).map reopened) := by
  have hforth : ∀ x en, v x = some en →
      ∃ w, (v x).map reopened = some ⟨en.record, w⟩ := fun x en hen => reopened_iff.mpr ⟨_, hen⟩
  have hback : ∀ {x en}, (v x).map reopened = some en → ∃ w, v x = some ⟨en.record, w⟩ :=
    fun hen => reopened_iff.mp ⟨_, hen⟩
  have hmono : Onward v (fun id => (v id).map reopened) := by
    constructor
    · rintro x ⟨en, hen, hst⟩
      obtain ⟨w, hw⟩ := hforth x en hen
      exact ⟨_, hw, hst⟩
    · rintro x ⟨en, hen, hst⟩
      obtain ⟨w, hw⟩ := hforth x en hen
      exact ⟨_, hw, hst⟩
  refine ⟨⟨fun x en hen => ?_, fun x en0 hen0 => ?_, fun x hl hstop => ?_⟩, hmono⟩
  · obtain ⟨w, hw⟩ := hback hen
    exact h.old x _ hw
  · obtain ⟨en, hen, hrest⟩ := h.run x en0 hen0
    obtain ⟨w, hw⟩ := hforth x en hen
    exact ⟨_, hw, hrest⟩
  · obtain ⟨en, hen, hst⟩ := hstop
    obtain ⟨w, hw⟩ := hback hen
    exact (h.cleared x hl ⟨_, hw, hst⟩).mono hmono

theorem cancel_walks (ht : Walking root v0 t.runs) :
    Refines (cancel root) t (fun res _ t' => Walked root v0 t (· = root) res t') := by
  unfold cancel
  exact Refines.get (fun _ _ _ => cancel_walk_walks _ ht Relation.ReflTransGen.refl)

theorem drive_asked {root : String} {v0 : String → Option Entry} {now : ℤ}
    {resolver : PayloadResolver} {t : Machine} (ht : Walking root v0 t.runs) (hlive : Live v0 root)
    (hasked : Asked t.runs root) :
    Refines (drive_with_resolver root now resolver) t (fun res _ t' =>
      Walking root v0 t'.runs ∧ Onward t.runs t'.runs
        ∧ ((∃ o, res = .ok o) → Cleared v0 t'.runs root)) := by
  unfold drive_with_resolver
  refine Refines.load (fun r c hs hid ho => ?_) (fun _ => ⟨ht, .refl _, by simp⟩)
  subst hid
  obtain ⟨en, hen, hst⟩ := hasked
  rw [hs] at hen
  cases hen
  have hst' : r.state = .CancelRequested ∨ r.state = .Cancelled := hst
  have hleft : r.unrecoverable = true := by
    unfold RunRecord.unrecoverable
    rcases hst' with hst' | hst' <;> rw [hst'] <;> rfl
  refine Refines.bind ((recover_refines hs ho).weaken (fun res ls t' hrec => ?_))
  cases hrec with
  | failed e => exact ⟨ht, .refl _, by simp⟩
  | quiet hno | saved hno =>
    rw [hleft] at hno
    cases hno
  | left =>
    dsimp only
    rcases hst' with hst' | hst' <;> rw [hst'] <;> dsimp only
    · refine Refines.bind ((cancel_walks ht).weaken (fun res ls t' hw => ?_))
      cases res with
      | error e => exact ⟨hw.walking, hw.mono, by simp⟩
      | ok u => exact Refines.pure ⟨hw.walking, hw.mono, fun _ => hw.cleared rfl r.id rfl⟩
    · exact Refines.pure ⟨ht, .refl _, fun _ => ht.cleared r.id hlive ⟨_, hs, hst'⟩⟩

/-- The operations that take up a cancellation of the run. -/
def Operation.finishes (id : String) : Operation → Prop
  | .cancel id' | .drive_with_resolver id' _ _ => id' = id
  | _ => False

def Operation.is_restart : Operation → Prop
  | .restart _ => True
  | _ => False

theorem map_ok {α β : Type} {out : Except Error α} {f : α → β} {b : β}
    (h : out.map f = .ok b) : ∃ a, out = .ok a := by
  cases out with
  | error e => cases h
  | ok a => exact ⟨a, rfl⟩

theorem Step.cancel_walks (hw : WellFormed e.store) (ht : Walking root v0 e.machine.runs)
    {step : Step} (hop : step.op = .cancel root) :
    ∃ out, Walked root v0 e.machine (· = root) out (step.exec e).2.machine
      ∧ (step.exec e).1 = out.map (fun _ => .unit) := by
  obtain ⟨op, outages⟩ := step
  obtain rfl : op = .cancel root := hop
  obtain ⟨ls, -, -, out, hout, hwalk⟩ := (Durable.cancel_walks ht).map (f := fun _ => Reply.unit)
    (e.under outages) (wellFormed_outages hw outages) rfl
  exact ⟨out, hwalk, hout⟩

theorem Step.walks (hw : WellFormed e.store) (ht : Walking root v0 e.machine.runs)
    (hlive : Live v0 root) (hasked : Asked e.machine.runs root) {step : Step}
    (hop : step.op.finishes root ∨ step.op.is_restart) :
    Walking root v0 (step.exec e).2.machine.runs ∧ Asked (step.exec e).2.machine.runs root
      ∧ (step.op.finishes root → (∃ reply, (step.exec e).1 = .ok reply) →
        Cleared v0 (step.exec e).2.machine.runs root) := by
  cases hstep : step.op with
  | cancel id =>
    rw [hstep] at hop
    obtain rfl : id = root := hop.elim (fun h => h) False.elim
    obtain ⟨out, hwalk, hout⟩ := Step.cancel_walks hw ht hstep
    refine ⟨hwalk.walking, hwalk.mono.asked _ hasked, fun _ hok => ?_⟩
    obtain ⟨reply, hok⟩ := hok
    rw [hout] at hok
    obtain ⟨u, rfl⟩ := map_ok hok
    exact hwalk.cleared rfl id rfl
  | drive_with_resolver id now resolver =>
    rw [hstep] at hop
    obtain rfl : id = root := hop.elim (fun h => h) False.elim
    obtain ⟨op, outages⟩ := step
    obtain rfl : op = _ := hstep
    obtain ⟨ls, -, -, out, hout, hwalk, hmono, hcleared⟩ :=
      (@drive_asked id v0 now resolver _ ht hlive hasked).map (f := Reply.drive)
        (e.under outages) (wellFormed_outages hw outages) rfl
    refine ⟨hwalk, hmono.asked _ hasked, fun _ hok => hcleared ?_⟩
    obtain ⟨reply, hok⟩ := hok
    exact map_ok (hout.symm.trans hok)
  | restart failed =>
    have htrans := Step.restarted hw hstep
    obtain ⟨hwalk, hmono⟩ := ht.restart
    have hruns : (step.exec e).2.machine.runs = fun id => (e.machine.runs id).map reopened := by
      generalize (step.exec e).2.machine = m' at htrans
      cases htrans with
      | change _ hc => cases hc
      | restart => rfl
    rw [hruns]
    exact ⟨hwalk, hmono.asked _ hasked, fun h => h.elim⟩
  | _ =>
    rw [hstep] at hop
    exact absurd hop (by simp [Operation.finishes, Operation.is_restart])

/-- **A cancellation under way stays one**, over any steps that take it up again and any
restarts. The induction is on the steps. -/
theorem walks_on (hw : WellFormed e.store) (ht : Walking root v0 e.machine.runs)
    (hlive : Live v0 root) (hasked : Asked e.machine.runs root) (steps : List Step)
    (hsteps : ∀ step ∈ steps, step.op.finishes root ∨ step.op.is_restart) :
    WellFormed (after e steps).store ∧ Walking root v0 (after e steps).machine.runs
      ∧ Asked (after e steps).machine.runs root := by
  induction steps generalizing e with
  | nil => exact ⟨hw, ht, hasked⟩
  | cons step steps ih =>
    obtain ⟨hstep, hrest⟩ := List.forall_mem_cons.mp hsteps
    obtain ⟨ls, -, hw', -⟩ := step.path hw
    obtain ⟨ht', hasked', -⟩ := step.walks hw ht hlive hasked hstep
    exact ih hw' ht' hasked' hrest

/-! ## The claim -/

/-- The runs of `e'` are those of `e` after a cancellation of `root` that came to its end. -/
structure CancelledTree (e : Engine) (root : String) (e' : Engine) : Prop where
  /-- No run is new, and every run lists what it listed. -/
  old : ∀ id r', e'.store.load id = .ok r' → ∃ r, e.store.load id = .ok r
  lists : ∀ id r, e.store.load id = .ok r → ∃ r', e'.store.load id = .ok r'
    ∧ r'.children = r.children ∧ r'.continued_as = r.continued_as
  /-- What is below and did not stop is cancelled; no other run changes its state. -/
  cancelled : ∀ id r r', e.store.load id = .ok r → e'.store.load id = .ok r' →
    r.state.uncancellable = false → Below e.machine.runs root id → r'.state = .Cancelled
  kept : ∀ id r r', e.store.load id = .ok r → e'.store.load id = .ok r' →
    ¬ (r.state.uncancellable = false ∧ Below e.machine.runs root id) → r'.state = r.state
  /-- Nothing below is live. -/
  idle : ∀ id r', Below e.machine.runs root id → e'.store.load id = .ok r' →
    r'.state ≠ .Running ∧ r'.state ≠ .CancelRequested ∧ r'.state ≠ .NeedsInput
      ∧ r'.state ≠ .NeedsImplementation

theorem Walking.cancelled_tree {e' : Engine} (hw : WellFormed e.store) (hw' : WellFormed e'.store)
    (h : Walking root e.machine.runs e'.machine.runs)
    (hcleared : Cleared e.machine.runs e'.machine.runs root) : CancelledTree e root e' := by
  have hrun : ∀ id r r', e.store.load id = .ok r → e'.store.load id = .ok r' →
      r'.children = r.children ∧ r'.continued_as = r.continued_as
        ∧ (r'.state = r.state
          ∨ (r.state.uncancellable = false ∧ Below e.machine.runs root id)) := by
    intro id r r' hr hr'
    obtain ⟨c, hc⟩ := (load_iff hw).mp hr
    obtain ⟨c', hc'⟩ := (load_iff hw').mp hr'
    obtain ⟨en, hen, hch, hco, hst⟩ := h.run id _ hc
    rw [hc'] at hen
    cases hen
    exact ⟨hch, hco, hst.imp_right fun h => ⟨h.1, h.2.1⟩⟩
  have hold : ∀ id r', e'.store.load id = .ok r' → ∃ r, e.store.load id = .ok r := by
    intro id r' hr'
    obtain ⟨c', hc'⟩ := (load_iff hw').mp hr'
    obtain ⟨⟨r, c⟩, hen⟩ := h.old id _ hc'
    exact ⟨r, (load_iff hw).mpr ⟨c, hen⟩⟩
  have hcancelled : ∀ id r r', e.store.load id = .ok r → e'.store.load id = .ok r' →
      r.state.uncancellable = false → Below e.machine.runs root id → r'.state = .Cancelled := by
    intro id r r' hr hr' hlive hbelow
    obtain ⟨c, hc⟩ := (load_iff hw).mp hr
    obtain ⟨c', hc'⟩ := (load_iff hw').mp hr'
    obtain ⟨en, hen, hst⟩ := hcleared id hbelow ⟨_, hc, hlive⟩
    rw [hc'] at hen
    cases hen
    exact hst
  refine ⟨hold, fun id r hr => ?_, hcancelled, fun id r r' hr hr' hnot => ?_,
    fun id r' hbelow hr' => ?_⟩
  · obtain ⟨c, hc⟩ := (load_iff hw).mp hr
    obtain ⟨⟨r', c'⟩, hen, -⟩ := h.run id _ hc
    have hr' := (load_iff hw').mpr ⟨c', hen⟩
    obtain ⟨hch, hco, -⟩ := hrun id r r' hr hr'
    exact ⟨r', hr', hch, hco⟩
  · exact (hrun id r r' hr hr').2.2.resolve_right hnot
  · obtain ⟨r, hr⟩ := hold id r' hr'
    cases hlive : r.state.uncancellable with
    | false =>
      rw [hcancelled id r r' hr hr' hlive hbelow]
      simp
    | true =>
      have hsame := (hrun id r r' hr hr').2.2.resolve_right (fun h => by rw [hlive] at h; cases h.1)
      rw [hsame]
      refine ⟨?_, ?_, ?_, ?_⟩ <;> intro hst <;> rw [hst] at hlive <;> cases hlive

/-- **A cancellation reaches everything below its run**, and it reaches the same final
states when it is interrupted after its first commit and taken up again: by repeated
cancellations, by drives of the run, with restarts in between, themselves interrupted any
number of times. The final states are those that `CancelledTree` says, whichever way they
are reached. -/
theorem cancel_reaches_below {e : Engine} (he : Reachable e) {root : String} {r : RunRecord}
    (hr : e.store.load root = .ok r) (hlive : r.state.uncancellable = false) {first : Step}
    (hfirst : first.op = .cancel root) :
    ((∃ reply, (first.exec e).1 = .ok reply) → CancelledTree e root (first.exec e).2)
    ∧ ∀ r1, (first.exec e).2.store.load root = .ok r1 → r1.state = .CancelRequested →
      ∀ steps : List Step, (∀ step ∈ steps, step.op.finishes root ∨ step.op.is_restart) →
      ∀ last : Step, last.op.finishes root →
      (∃ reply, (last.exec (after (first.exec e).2 steps)).1 = .ok reply) →
      CancelledTree e root (last.exec (after (first.exec e).2 steps)).2 := by
  have hw := he.wellFormed
  obtain ⟨c, hrun⟩ := (load_iff hw).mp hr
  have hlive0 : Live e.machine.runs root := ⟨_, hrun, hlive⟩
  obtain ⟨ls, -, hw1, -⟩ := first.path hw
  obtain ⟨out, hwalk, hout⟩ := Step.cancel_walks hw (Walking.start root e.machine.runs) hfirst
  constructor
  · rintro ⟨reply, hok⟩
    rw [hout] at hok
    obtain ⟨u, rfl⟩ := map_ok hok
    exact hwalk.walking.cancelled_tree hw hw1 (hwalk.cleared rfl root rfl)
  · intro r1 hr1 hrequested steps hsteps last hlast hok
    obtain ⟨c1, hrun1⟩ := (load_iff hw1).mp hr1
    have hasked : Asked (first.exec e).2.machine.runs root := ⟨_, hrun1, .inl hrequested⟩
    obtain ⟨hw2, hwalk2, hasked2⟩ := walks_on hw1 hwalk.walking hlive0 hasked steps hsteps
    obtain ⟨ls, -, hw3, -⟩ := last.path hw2
    obtain ⟨hwalk3, -, hcleared⟩ := last.walks hw2 hwalk2 hlive0 hasked2 (.inl hlast)
    exact hwalk3.cancelled_tree hw hw3 (hcleared hlast hok)

/-- Two children, and a cancellation that the database cuts short at the first of them. -/
def Sample.family : Engine := Sample.host (Sample.start Sample.siblings ++ [Sample.drive "run" 0])

def Sample.cut_short : Step := ⟨.cancel "run", [none, none, none, some "disk full"]⟩

theorem load_of_state {id : String} {s : RunState}
    (h : (e.store.load id).map (fun r => r.state) = .ok s) :
    ∃ r, e.store.load id = .ok r ∧ r.state = s := by
  cases hr : e.store.load id with
  | error error =>
    rw [hr] at h
    cases h
  | ok r =>
    rw [hr] at h
    exact ⟨r, rfl, Except.ok.inj h⟩

/-- It is taken up by a drive after a restart. -/
theorem cut_short_finished_by_drive :
    CancelledTree Sample.family "run" ((Sample.drive "run" 0).exec
      (after (Sample.cut_short.exec Sample.family).2 [Sample.call (.restart 0)])).2 := by
  have hreach : Reachable Sample.family := Sample.host_reachable _
  have hstate : (Sample.family.store.load "run").map (fun r => r.state) = .ok .Running := by
    decide +kernel
  have hasked : ((Sample.cut_short.exec Sample.family).2.store.load "run").map (fun r => r.state)
      = .ok .CancelRequested := by
    decide +kernel
  have hok : ((Sample.drive "run" 0).exec
      (after (Sample.cut_short.exec Sample.family).2 [Sample.call (.restart 0)])).1
        = .ok (.drive (.Suspended .Cancelled)) := by
    decide +kernel
  obtain ⟨r, hr, hst⟩ := load_of_state hstate
  obtain ⟨r1, hr1, hst1⟩ := load_of_state hasked
  have hlive : r.state.uncancellable = false := by
    rw [hst]
    rfl
  have hfirst : Sample.cut_short.op = .cancel "run" := rfl
  exact (cancel_reaches_below hreach hr hlive hfirst).2 r1 hr1 hst1 [Sample.call (.restart 0)]
    (List.forall_mem_singleton.mpr (.inr trivial)) (Sample.drive "run" 0) rfl ⟨_, hok⟩

def Sample.doubtful_child : Engine :=
  Sample.host (Sample.start (fun input =>
      .child "leaf" "1" input (.and_then fun child => .join_child child .ret))
    ++ [Sample.call (.register_workflow "leaf" "1" (fun input =>
          .child "leaf" "1" input (.and_then fun child =>
            .activity "a" "1" input .Unknown (.and_then fun _ => .join_child child .ret)))),
        Sample.drive "run" 0, Sample.drive (derived_id id "run" 'c' 0) 0,
        Sample.call (.fail_at { Sample.attempt 1 1 1 .Unknown with
          run_id := derived_id id "run" 'c' 0
          effect_id := effect_id_at (derived_id id "run" 'c' 0) 1 } .OutcomeUnknown 0)])

def Links (e : Engine) (a b : String) : Prop := ∃ r, e.store.load a = .ok r ∧ r.lists b

/-- **A cancellation does not reach the whole tree.** The child waits for its effect to be
reconciled; it is left so that it can go on then, and its own child still runs. -/
theorem cancel_turns_back :
    ¬ ∀ (e : Engine), Reachable e → ∀ (root : String) (r : RunRecord),
      e.store.load root = .ok r → r.state.uncancellable = false →
      ∀ (outages : List (Option String)), (Step.exec ⟨.cancel root, outages⟩ e).1 = .ok .unit →
      ∀ id, Relation.ReflTransGen (Links (Step.exec ⟨.cancel root, outages⟩ e).2) root id →
      ∀ r', (Step.exec ⟨.cancel root, outages⟩ e).2.store.load id = .ok r' →
      r'.state ≠ .Running ∧ r'.state ≠ .CancelRequested ∧ r'.state ≠ .NeedsInput
        ∧ r'.state ≠ .NeedsImplementation := by
  intro hall
  obtain ⟨e, he⟩ : ∃ e, e = Sample.doubtful_child := ⟨_, rfl⟩
  obtain ⟨e', he'⟩ : ∃ e', e' = (Step.exec ⟨.cancel "run", []⟩ e).2 := ⟨_, rfl⟩
  have hreach : Reachable e := by
    rw [he]
    exact Sample.host_reachable _
  have hstate : (e.store.load "run").map (fun r => r.state) = .ok .Running := by
    rw [he]
    decide +kernel
  have hok : (Step.exec ⟨.cancel "run", []⟩ e).1 = .ok .unit := by
    rw [he]
    decide +kernel
  have hfirst : (e'.store.load "run").map (fun r => r.children)
      = .ok [derived_id id "run" 'c' 0] := by
    rw [he', he]
    decide +kernel
  have hsecond : (e'.store.load (derived_id id "run" 'c' 0)).map (fun r => r.children)
      = .ok [derived_id id (derived_id id "run" 'c' 0) 'c' 0] := by
    rw [he', he]
    decide +kernel
  have hlast : (e'.store.load (derived_id id (derived_id id "run" 'c' 0) 'c' 0)).map
      (fun r => r.state) = .ok .Running := by
    rw [he', he]
    decide +kernel
  have hlink : ∀ {a b : String}, (e'.store.load a).map (fun r => r.children) = .ok [b] →
      Links e' a b := by
    intro a b h
    cases hr : e'.store.load a with
    | error error =>
      rw [hr] at h
      cases h
    | ok r =>
      rw [hr] at h
      have hchildren : r.children = [b] := Except.ok.inj h
      exact ⟨r, hr, .inl (by rw [hchildren]; exact List.mem_singleton_self b)⟩
  obtain ⟨r, hr, hst⟩ := load_of_state hstate
  obtain ⟨r', hr', hst'⟩ := load_of_state hlast
  rw [he'] at hlink hfirst hsecond hr'
  have hlive : r.state.uncancellable = false := by
    rw [hst]
    rfl
  exact (hall e hreach "run" r hr hlive [] hok _
    ((Relation.ReflTransGen.single (hlink hfirst)).tail (hlink hsecond)) r' hr').1 hst'

end Appcall.Durable
