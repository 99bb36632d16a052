/-
What happens to a request, in order.

Each request goes a `Path`, so what happened to it can be read off where it is. `Book` has what
holds of the log as a whole: the order in which permits are given, and what comes after
draining has begun.
-/
import Appcall.Runner.Serve
import Mathlib.Data.List.Nodup

set_option autoImplicit false

namespace Appcall.Serve

/-! ## What happened to a request -/

def Event.kind_of (n : ℕ) : Event → Option Kind
  | .request m kind => if m = n then some kind else none
  | _ => none

/-- A request that held a permit is through. -/
def Event.is_completed : Event → Bool
  | .request _ .completed => true
  | _ => false

def kinds (log : List Event) (n : ℕ) : List Kind := log.filterMap (Event.kind_of n)

variable (n : ℕ) {log es : List Event}

@[simp] theorem kinds_nil : kinds [] n = [] := rfl

theorem kinds_append (log log' : List Event) (n : ℕ) :
    kinds (log ++ log') n = kinds log n ++ kinds log' n := List.filterMap_append

@[simp] theorem kinds_request (kind : Kind) (log : List Event) :
    kinds (.request n kind :: log) n = kind :: kinds log n := by
  have hkind : (Event.request n kind).kind_of n = some kind := if_pos rfl
  rw [kinds, List.filterMap_cons_some hkind]
  rfl

theorem kinds_other {m n : ℕ} (h : m ≠ n) (kind : Kind) (log : List Event) :
    kinds (.request m kind :: log) n = kinds log n := by
  have hkind : (Event.request m kind).kind_of n = none := if_neg h
  rw [kinds, List.filterMap_cons_none hkind]
  rfl

@[simp] theorem kinds_drained (log : List Event) (n : ℕ) :
    kinds (.drained :: log) n = kinds log n := rfl

@[simp] theorem kinds_recycled (log : List Event) (n : ℕ) :
    kinds (.recycled :: log) n = kinds log n := rfl

theorem mem_kinds {n : ℕ} {kind : Kind} : kind ∈ kinds log n ↔ .request n kind ∈ log := by
  rw [kinds, List.mem_filterMap]
  constructor
  · rintro ⟨e, he, h⟩
    cases e with
    | request m kind' =>
      rw [Event.kind_of] at h
      split at h
      next heq =>
        cases h
        rw [← heq]
        exact he
      next => cases h
    | drained => cases h
    | recycled => cases h
  · intro h
    exact ⟨_, h, if_pos rfl⟩

/-- The requests that came to wait, in order. -/
def arrivals (log : List Event) : List ℕ :=
  log.filterMap (fun e => match e with
    | .request n .queued => some n
    | _ => none)

theorem arrivals_append (log log' : List Event) :
    arrivals (log ++ log') = arrivals log ++ arrivals log' := List.filterMap_append

theorem mem_arrivals {n : ℕ} : n ∈ arrivals log ↔ .request n .queued ∈ log := by
  rw [arrivals, List.mem_filterMap]
  constructor
  · rintro ⟨e, he, h⟩
    split at h
    next =>
      cases h
      exact he
    next => cases h
  · intro h
    exact ⟨_, h, rfl⟩

def ended (log : List Event) (n : ℕ) : Bool :=
  decide (.request n .permitted ∈ log ∨ .request n .refused ∈ log)

/-- The request arrived when the runner was draining. -/
def Late (log : List Event) (n : ℕ) : Prop :=
  ∃ before after, log = before ++ .drained :: after ∧ .request n .arrived ∈ after

theorem late_append {log' : List Event} {n : ℕ} (h : Late (log ++ log') n) :
    Late log n ∨ (.request n .arrived ∈ log' ∧ (.drained ∈ log ∨ .drained ∈ log')) := by
  obtain ⟨before, after, heq, harrived⟩ := h
  rcases List.append_eq_append_iff.mp heq with ⟨mid, hbefore, hlog'⟩ | ⟨mid, hlog, hafter⟩
  · right
    rw [hlog']
    refine ⟨?_, .inr ?_⟩
    · exact List.mem_append_right _ (List.mem_cons_of_mem _ harrived)
    · exact List.mem_append_right _ List.mem_cons_self
  · cases mid with
    | nil =>
      right
      rw [List.nil_append] at hafter
      rw [← hafter]
      exact ⟨List.mem_cons_of_mem _ harrived, .inr List.mem_cons_self⟩
    | cons e mid =>
      rw [List.cons_append] at hafter
      injection hafter with he hafter
      subst he
      rw [hafter] at harrived
      rcases List.mem_append.mp harrived with hmid | hlog'
      · exact .inl ⟨before, mid, hlog, hmid⟩
      · refine .inr ⟨hlog', .inl ?_⟩
        rw [hlog]
        exact List.mem_append_right _ List.mem_cons_self

theorem kinds_map (m n : ℕ) (ks : List Kind) :
    kinds (ks.map (Event.request m)) n = if m = n then ks else [] := by
  induction ks with
  | nil => rw [List.map_nil, kinds_nil, ite_self]
  | cons kind ks ih =>
    rw [List.map_cons]
    by_cases h : m = n
    · subst h
      rw [kinds_request, ih, if_pos rfl, if_pos rfl]
    · rw [kinds_other h, ih, if_neg h, if_neg h]

/-! ## Events that change little -/

/-- Events that tell nothing about who waits. -/
def Aside (es : List Event) : Prop :=
  ∀ n, .request n .queued ∉ es ∧ .request n .permitted ∉ es ∧ .request n .refused ∉ es

theorem arrivals_aside (h : Aside es) : arrivals (log ++ es) = arrivals log := by
  have hnone : arrivals es = [] := by
    rw [List.eq_nil_iff_forall_not_mem]
    intro n hn
    exact (h n).1 (mem_arrivals.mp hn)
  rw [arrivals_append, hnone, List.append_nil]

theorem ended_aside (h : Aside es) (n : ℕ) : ended (log ++ es) n = ended log n := by
  have hiff : (.request n .permitted ∈ log ++ es ∨ .request n .refused ∈ log ++ es)
      ↔ (.request n .permitted ∈ log ∨ .request n .refused ∈ log) := by
    rw [List.mem_append, List.mem_append]
    refine ⟨?_, Or.imp Or.inl Or.inl⟩
    rintro ((hold | hnew) | (hold | hnew))
    · exact .inl hold
    · exact absurd hnew (h n).2.1
    · exact .inr hold
    · exact absurd hnew (h n).2.2
  exact decide_eq_decide.mpr hiff

/-- A permit is given when everyone who came to wait before has had an answer to that. -/
def Fifo (before : List Event) (e : Event) : Prop :=
  ∀ n, e = .request n .permitted →
    ∀ m ∈ (arrivals before).takeWhile (fun m => decide (m ≠ n)), ended before m = true

inductive Path : Stage → List Kind → Prop
  | waits : Path .waiting [.arrived, .queued]
  | admitted : Path (.settled true) [.arrived, .queued, .permitted]
  | refused : Path (.settled false) [.arrived, .queued, .refused]
  | reads : Path (.reading true) [.arrived, .permitted]
  | reads_admitted : Path (.reading true) [.arrived, .queued, .permitted]
  | reads_aborted : Path (.reading false) [.arrived]
  | reads_refused : Path (.reading false) [.arrived, .queued, .refused]
  | executes {ks : List Kind} (h : Path (.reading true) ks) :
      Path (.executing true) (ks ++ [.invoked])
  | ends {stage : Stage} {ks : List Kind} (h : Path stage ks)
      (hstage : stage = .reading true ∨ stage = .executing true) :
      Path .finished (ks ++ [.completed, .answered])
  | ends_without {ks : List Kind} (h : Path (.reading false) ks) :
      Path .finished (ks ++ [.answered])

/-! ## The log -/

theorem fifo_append (h : Machine.Logged Fifo log) (hes : ∀ n, .request n .permitted ∉ es) :
    Machine.Logged Fifo (log ++ es) := by
  induction es generalizing log with
  | nil =>
    rw [List.append_nil]
    exact h
  | cons e es ih =>
    rw [← List.singleton_append, ← List.append_assoc]
    apply ih
    · apply Machine.logged_append_singleton h
      rintro n rfl
      exact absurd List.mem_cons_self (hes n)
    · exact fun n hmem => hes n (List.mem_cons_of_mem _ hmem)

/-- What the log says of the queue and of the draining. -/
structure Book (s : State) : Prop where
  order : s.queue = (arrivals s.log).filter (fun n => !ended s.log n)
  drained : s.draining = true ↔ .drained ∈ s.log
  late : ∀ n, Late s.log n → .queued ∉ kinds s.log n ∧ .permitted ∉ kinds s.log n
  once : s.log.count .recycled ≤ 1
  fifo : Machine.Logged Fifo s.log

theorem Book.aside {s s' : State} (h : Book s) (hlog : s'.log = s.log ++ es)
    (hqueue : s'.queue = s.queue) (hdraining : s'.draining = s.draining) (haside : Aside es)
    (harrived : ∀ n, .request n .arrived ∉ es) (hdrained : .drained ∉ es)
    (hrecycled : .recycled ∉ es) : Book s' where
  order := by
    rw [hqueue, hlog, arrivals_aside haside, h.order]
    apply List.filter_congr
    intro n _
    rw [ended_aside haside]
  drained := by
    rw [hdraining, hlog, h.drained, List.mem_append]
    exact ⟨.inl, fun hmem => hmem.resolve_right hdrained⟩
  late := fun n hlate => by
    rw [hlog] at hlate ⊢
    rcases late_append hlate with hold | hnew
    · obtain ⟨hqueued, hpermitted⟩ := h.late n hold
      rw [kinds_append, List.mem_append, List.mem_append]
      refine ⟨?_, ?_⟩
      · rintro (hmem | hmem)
        · exact hqueued hmem
        · exact (haside n).1 (mem_kinds.mp hmem)
      · rintro (hmem | hmem)
        · exact hpermitted hmem
        · exact (haside n).2.1 (mem_kinds.mp hmem)
    · exact absurd hnew.1 (harrived n)
  once := by
    rw [hlog, List.count_append, List.count_eq_zero_of_not_mem hrecycled]
    exact h.once
  fifo := by
    rw [hlog]
    exact fifo_append h.fifo (fun n => (haside n).2.1)

end Appcall.Serve
