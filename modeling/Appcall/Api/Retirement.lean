/-
A stopped database generation does not serve again.

Whoever stops the backend of a node marks the node unavailable first, so a call of
`snapshot` that begins later is refused. The exception is `maintain`, which marks its
node available when the probe finds it healthy, whatever has become of the node while
the probe ran. The rest holds in every run: a pinned request keeps to its node, one
candidate is built or probed at a time, and after `stop` nothing is served and nothing
becomes current.
-/
import Appcall.Api.Generation

set_option autoImplicit false

namespace Appcall.Api

variable {s : Manager}

/-! ## What a step of a thread can do -/

theorem snapshot_next_cases (s : Manager) (node : ℕ) (health : Option Bool) (c : Snapshot) :
    ((c.next s node health).2 = .nothing ∧ (c.next s node health).1 ≠ .stop_backend)
    ∨ c.next s node health = (.stop_backend, .store_available node false)
    ∨ (c = .stop_backend ∧ c.next s node health = (.returned false, .stop_backend node)) := by
  cases c with
  | load_stopping =>
    rw [Snapshot.next]
    split <;> exact .inl ⟨rfl, by simp⟩
  | load_available =>
    rw [Snapshot.next]
    split <;> exact .inl ⟨rfl, by simp⟩
  | ask_health =>
    rw [Snapshot.next]
    split <;> exact .inl ⟨rfl, by simp⟩
  | store_available => exact .inr (.inl rfl)
  | stop_backend => exact .inr (.inr ⟨rfl, rfl⟩)
  | returned served =>
    rw [snapshot_next_returned]
    exact .inl ⟨rfl, fun h => by cases h⟩

theorem stop_next_cases (s : Manager) (p : Stop) :
    ((p.next s).2 = .nothing ∧ (p.next s).1 = p)
    ∨ (p = .store_stopping ∧ p.next s = (.current, .store_stopping))
    ∨ (p = .current ∧ s.locked = false
      ∧ p.next s = (.store_available s.current, .nothing))
    ∨ (∃ node, p = .store_available node
      ∧ p.next s = (.stop_backend node, .store_available node false))
    ∨ (∃ node, p = .stop_backend node ∧ p.next s = (.returned, .stop_backend node)) := by
  cases p with
  | store_stopping => exact .inr (.inl ⟨rfl, rfl⟩)
  | current =>
    by_cases hlocked : s.locked = true
    · rw [stop_next_locked hlocked]
      exact .inl ⟨rfl, rfl⟩
    · exact .inr (.inr (.inl (by simp [Stop.next, hlocked])))
  | store_available node => exact .inr (.inr (.inr (.inl ⟨node, rfl, rfl⟩)))
  | stop_backend node => exact .inr (.inr (.inr (.inr ⟨node, rfl, rfl⟩)))
  | returned => exact .inl ⟨rfl, rfl⟩

/-- An effect on neither the nodes nor what is current. -/
def Effect.quiet : Effect → Bool
  | .nothing | .lock | .unlock | .forget_retired | .drop_candidate => true
  | _ => false

/-- `maintain` marks its node available when it is healthy, and unavailable before it
stops it or when it gives up; what it has built becomes current under the lock. -/
theorem maintain_next_cases (s : Manager) (health : Option Bool) (task : Task) (m : Maintain) :
    ((m.next s health task).2.2.quiet = true
      ∧ ∀ node, (m.next s health task).1 ≠ .stop_backend node)
    ∨ (∃ node, m = .settle node .Healthy
      ∧ m.next s health task = (.returned, task, .store_available node true))
    ∨ (∃ node, m.node = some node ∧ (m.next s health task).2.2 = .store_available node false
      ∧ ∀ other, (m.next s health task).1 = .stop_backend other → other = node)
    ∨ (∃ node, m = .stop_backend node
      ∧ m.next s health task = (.load_retired, task, .stop_backend node))
    ∨ (m = .replace_current ∧ m.next s health task = (.returned, task, .replace_current)) := by
  cases m with
  | settle node found =>
    cases found with
    | Healthy => exact .inr (.inl ⟨node, rfl, rfl⟩)
    | Unavailable =>
      exact .inr (.inr (.inl ⟨node, rfl, rfl, fun other h => by simp [Maintain.next] at h⟩))
    | Missing => exact .inl ⟨rfl, by simp [Maintain.next]⟩
  | store_available node =>
    exact .inr (.inr (.inl ⟨node, rfl, rfl, fun other h => by
      simp only [Maintain.next, Maintain.stop_backend.injEq] at h
      exact h.symm⟩))
  | stop_backend node => exact .inr (.inr (.inr (.inl ⟨node, rfl, rfl⟩)))
  | replace_current => exact .inr (.inr (.inr (.inr ⟨rfl, rfl⟩)))
  | _ =>
    left
    simp only [Maintain.next]
    refine ⟨?_, fun node => ?_⟩ <;> repeat' (first | rfl | split | simp)

variable {health : Option Bool} {task : Task} {node : ℕ} {e : Effect} {s₁ : Manager} {handle : ℕ}
  {op : Op}

theorem maintain_next_node {m : Maintain} (h : (m.next s health task).1.node = some node) :
    m.node = some node ∨ node = s.current := by
  revert h
  cases m with
  | settle n found => cases found <;> simp +contextual [Maintain.next, Maintain.node]
  | _ =>
    simp only [Maintain.next]
    repeat' (first | split | simp +contextual [Maintain.node, eq_comm])

theorem maintain_next_holds {m : Maintenance} (h : Maintenance.holds
      { m with
        stage := (m.stage.next s health m.task).1
        task := (m.stage.next s health m.task).2.1 } = true) :
    m.holds = true ∨ s.maintains.rows.any Maintenance.holds = false := by
  by_cases hpermitted : m.stage.permitted = true
  · left
    rw [Maintenance.holds, hpermitted, Bool.true_or]
  · cases hstage : m.stage with
    | acquire =>
      by_cases hheld : s.maintains.rows.any Maintenance.holds = true
      · left
        simpa [hstage, Maintain.next, hheld, Maintenance.holds, Maintain.permitted] using h
      · exact .inr (by simpa using hheld)
    | load_stopping =>
      left
      cases hstopping : s.stopping <;>
        simpa [hstage, hstopping, Maintain.next, Maintenance.holds, Maintain.permitted] using h
    | returned =>
      left
      simpa [hstage, maintain_next_returned, Maintenance.holds, Maintain.permitted] using h
    | _ => rw [hstage] at hpermitted; exact absurd rfl hpermitted

theorem maintain_next_replace {m : Maintain} (h : (m.next s health task).1 = .replace_current) :
    m = .recheck_stopping ∧ s.stopping = false := by
  revert h
  cases m with
  | recheck_stopping => cases hstopping : s.stopping <;> simp [Maintain.next, hstopping]
  | settle n found => cases found <;> simp [Maintain.next]
  | _ =>
    simp only [Maintain.next]
    repeat' (first | split | simp)

theorem maintain_next_recheck {m : Maintain} (h : (m.next s health task).1 = .recheck_stopping) :
    m = .lock_state ∧ (m.next s health task).2.2 = .lock := by
  revert h
  cases m with
  | settle n found => cases found <;> simp [Maintain.next]
  | _ =>
    simp only [Maintain.next]
    repeat' (first | split | simp)

theorem maintain_next_unlock {m : Maintenance} (h : (m.stage.next s health m.task).2.2 = .unlock
      ∨ (m.stage.next s health m.task).2.2 = .replace_current) :
    m.holds = true ∧ (m.stage.next s health m.task).1 ≠ .recheck_stopping
      ∧ (m.stage.next s health m.task).1 ≠ .replace_current := by
  have hstage : m.stage = .unlock_state ∨ m.stage = .replace_current := by
    revert h
    cases m.stage with
    | settle n found => cases found <;> simp [Maintain.next]
    | _ =>
      simp only [Maintain.next]
      repeat' (first | split | simp)
  rcases hstage with hstage | hstage <;>
    simp [hstage, Maintain.next, Maintenance.holds, Maintain.permitted]

/-- What holds of every step of a run of `maintain` and of its closure. -/
structure Goes (s : Manager) (m : Maintenance) (r : Maintain × Task × Effect) : Prop where
  cases : (r.2.2.quiet = true
      ∧ ∀ node, r.1 = .stop_backend node → m.stage = .stop_backend node)
    ∨ (∃ node, m.stage = .settle node .Healthy ∧ r.1 = .returned
      ∧ r.2.2 = .store_available node true)
    ∨ (∃ node, m.stage.node = some node ∧ r.2.2 = .store_available node false
      ∧ ∀ other, r.1 = .stop_backend other → other = node)
    ∨ (∃ node, m.stage = .stop_backend node ∧ r.1 = .load_retired
      ∧ r.2.2 = .stop_backend node)
    ∨ (m.stage = .replace_current ∧ r.1 = .returned ∧ r.2.2 = .replace_current)
  node : ∀ node, r.1.node = some node → m.stage.node = some node ∨ node = s.current
  holds : Maintenance.holds { m with stage := r.1, task := r.2.1 } = true →
    m.holds = true ∨ s.maintains.rows.any Maintenance.holds = false
  replace : r.1 = .replace_current →
    m.stage = .replace_current ∨ (m.stage = .recheck_stopping ∧ s.stopping = false)
  recheck : r.1 = .recheck_stopping → m.stage = .recheck_stopping ∨ r.2.2 = .lock
  unlock : r.2.2 = .unlock ∨ r.2.2 = .replace_current →
    m.holds = true ∧ r.1 ≠ .recheck_stopping ∧ r.1 ≠ .replace_current

theorem maintain_goes (s : Manager) (m : Maintenance) (health : Option Bool) :
    Goes s m (m.stage.next s health m.task) where
  cases := by
    obtain ⟨hquiet, hstage⟩ | ⟨node, hstage, heq⟩ | h | ⟨node, hstage, heq⟩ | ⟨hstage, heq⟩ :=
      maintain_next_cases s health m.task m.stage
    · exact .inl ⟨hquiet, fun node h => absurd h (hstage node)⟩
    · exact .inr (.inl ⟨node, hstage, by rw [heq], by rw [heq]⟩)
    · exact .inr (.inr (.inl h))
    · exact .inr (.inr (.inr (.inl ⟨node, hstage, by rw [heq], by rw [heq]⟩)))
    · exact .inr (.inr (.inr (.inr ⟨hstage, by rw [heq], by rw [heq]⟩)))
  node _ h := maintain_next_node h
  holds h := maintain_next_holds h
  replace h := .inr (maintain_next_replace h)
  recheck h := .inr (maintain_next_recheck h).2
  unlock h := maintain_next_unlock h

theorem finish_quiet (m : Maintenance) (answer : Answer) :
    (m.finish answer).2.quiet = true
      ∧ (m.finish answer).2 ≠ .unlock ∧ (m.finish answer).2 ≠ .replace_current := by
  rw [Maintenance.finish]
  repeat' (first | split | exact ⟨rfl, by simp, by simp⟩)

theorem abandon_quiet (m : Maintenance) :
    m.abandon.2.2.quiet = true
      ∧ m.abandon.2.2 ≠ .unlock ∧ m.abandon.2.2 ≠ .replace_current := by
  rw [Maintenance.abandon]
  repeat' (first | split | exact ⟨rfl, by simp, by simp⟩)

theorem finish_goes (s : Manager) (m : Maintenance) (answer : Answer) :
    Goes s m (m.stage, m.finish answer) := by
  have hquiet := finish_quiet m answer
  refine ⟨.inl ⟨hquiet.1, fun _ h => h⟩, fun _ h => .inl h, fun h => .inl ?_, .inl, .inl, ?_⟩
  · rw [Maintenance.holds] at h ⊢
    rw [Maintenance.finish] at h
    cases htask : m.task with
    | running work =>
      rw [Bool.or_true]
    | _ => simpa [htask] using h
  · rintro (h | h)
    · exact absurd h hquiet.2.1
    · exact absurd h hquiet.2.2

theorem abandon_goes (s : Manager) (m : Maintenance) : Goes s m m.abandon := by
  have hquiet := abandon_quiet m
  have hstage : m.abandon.1 = m.stage ∨ m.abandon.1 = .returned := by
    rw [Maintenance.abandon]
    split <;> simp
  refine ⟨.inl ⟨hquiet.1, fun node h => ?_⟩, fun node h => ?_, fun h => .inl ?_, fun h => ?_,
    fun h => ?_, ?_⟩
  · rcases hstage with hsame | hover
    · rw [← hsame, h]
    · rw [hover] at h
      cases h
  · rcases hstage with hsame | hover
    · rw [hsame] at h
      exact .inl h
    · rw [hover] at h
      cases h
  · rw [Maintenance.holds] at h ⊢
    rw [Maintenance.abandon] at h
    cases hstage : m.stage <;> cases htask : m.task <;>
      simp_all [Maintain.permitted]
  · rcases hstage with hsame | hover
    · exact .inl (hsame ▸ h)
    · rw [hover] at h
      cases h
  · rcases hstage with hsame | hover
    · exact .inl (hsame ▸ h)
    · rw [hover] at h
      cases h
  · rintro (h | h)
    · exact absurd h hquiet.2.1
    · exact absurd h hquiet.2.2

/-! ## The invariant -/

/-- The nodes that anything in the system names. -/
def Manager.named (s : Manager) (node : ℕ) : Prop :=
  node ∈ s.stopped ∨ node = s.current ∨ (∃ h ∈ s.handles.rows, h.pinned = some node)
    ∨ (∃ c ∈ s.calls.rows, c.node = node)
    ∨ (∃ p ∈ s.stoppers.rows, p.stage.node = some node)
    ∨ ∃ m ∈ s.maintains.rows, m.stage.node = some node

/-- What holds in every run: a new node has a new name; the permit and the lock are held
once; a call is through a handle that was made; and once a call of `stop` is past its
flag, no run of `maintain` replaces the current node. -/
structure Manager.Orderly (s : Manager) : Prop where
  made : ∀ r ∈ s.nodes.rows, r.id < s.made
  numbered : ∀ node, s.named node → node < s.made
  exclusive : ∀ m ∈ s.maintains.rows, ∀ m' ∈ s.maintains.rows,
    m.holds = true → m'.holds = true → m.id = m'.id
  locked : ∀ m ∈ s.maintains.rows,
    m.stage = .recheck_stopping ∨ m.stage = .replace_current → s.locked = true
  handled : ∀ c ∈ s.calls.rows, s.handles.find c.handle ≠ none
  flagged : ∀ p ∈ s.stoppers.rows, p.stage ≠ .store_stopping → s.stopping = true
  settled : ∀ p ∈ s.stoppers.rows, p.stage ≠ .store_stopping → p.stage ≠ .current →
    ∀ m ∈ s.maintains.rows, m.stage ≠ .replace_current

/-- The thread is past marking the node unavailable and has not stopped its backend. -/
def Manager.closing (s : Manager) (node : ℕ) : Prop :=
  (∃ c ∈ s.calls.rows, c.node = node ∧ c.stage = .stop_backend)
    ∨ (∃ p ∈ s.stoppers.rows, p.stage = .stop_backend node)
    ∨ ∃ m ∈ s.maintains.rows, m.stage = .stop_backend node

/-- A node that was stopped, or is about to be, is marked unavailable. -/
def Manager.Closed (s : Manager) : Prop :=
  ∀ node, node ∈ s.stopped ∨ s.closing node → s.available node = false

theorem closing_named (h : s.closing node) : s.named node := by
  rcases h with ⟨c, hc, hnode, -⟩ | ⟨p, hp, hstage⟩ | ⟨m, hm, hstage⟩
  · exact .inr (.inr (.inr (.inl ⟨c, hc, hnode⟩)))
  · exact .inr (.inr (.inr (.inr (.inl ⟨p, hp, by rw [hstage]; rfl⟩))))
  · exact .inr (.inr (.inr (.inr (.inr ⟨m, hm, by rw [hstage]; rfl⟩))))

theorem new_orderly : Manager.new.Orderly where
  made r hr := by
    rw [List.mem_singleton.mp hr]
    exact Nat.zero_lt_one
  numbered := by
    rintro node (h | h | ⟨h, hmem, hpinned⟩ | ⟨c, hc, -⟩ | ⟨p, hp, -⟩ | ⟨m, hm, -⟩)
    · cases h
    · rw [h]
      exact Nat.zero_lt_one
    · rw [List.mem_singleton.mp hmem] at hpinned
      cases hpinned
    · cases hc
    · cases hp
    · cases hm
  exclusive _ hm := by cases hm
  locked _ hm := by cases hm
  handled _ hc := by cases hc
  flagged _ hp := by cases hp
  settled _ hp := by cases hp

theorem new_closed : Manager.new.Closed := by
  rintro node (h | ⟨c, hc, -⟩ | ⟨p, hp, -⟩ | ⟨m, hm, -⟩)
  · cases h
  · cases hc
  · cases hp
  · cases hm

/-! ## Effects -/

@[simp] theorem apply_handles (e : Effect) : (s.apply e).handles = s.handles := by
  cases e <;> rfl

@[simp] theorem apply_calls (e : Effect) : (s.apply e).calls = s.calls := by cases e <;> rfl

@[simp] theorem apply_stoppers (e : Effect) : (s.apply e).stoppers = s.stoppers := by
  cases e <;> rfl

@[simp] theorem apply_maintains (e : Effect) : (s.apply e).maintains = s.maintains := by
  cases e <;> rfl

theorem apply_current (s : Manager) (e : Effect) :
    (s.apply e).current = if e = .replace_current then s.made else s.current := by
  cases e <;> rfl

theorem apply_made_le (s : Manager) (e : Effect) : s.made ≤ (s.apply e).made := by
  cases e with
  | replace_current => exact Nat.le_succ _
  | _ => exact le_rfl

theorem apply_names (h : (s.apply e).named node) :
    s.named node ∨ e = .stop_backend node ∨ node < (s.apply e).made := by
  cases e with
  | stop_backend n =>
    rcases h with h | h
    · rcases List.mem_cons.mp h with rfl | h
      · exact .inr (.inl rfl)
      · exact .inl (.inl h)
    · exact .inl (.inr h)
  | replace_current =>
    rcases h with h | h | h
    · exact .inl (.inl h)
    · exact .inr (.inr (h ▸ Nat.lt_succ_self _))
    · exact .inl (.inr (.inr h))
  | _ => exact .inl h

theorem apply_stopped (h : node ∈ (s.apply e).stopped) :
    node ∈ s.stopped ∨ e = .stop_backend node := by
  cases e with
  | stop_backend n =>
    rcases List.mem_cons.mp h with rfl | h
    · exact .inr rfl
    · exact .inl h
  | _ => exact .inl h

theorem apply_keeps_stopped (h : node ∈ s.stopped) : node ∈ (s.apply e).stopped := by
  cases e with
  | stop_backend n => exact List.mem_cons_of_mem _ h
  | _ => exact h

theorem apply_unavailable (h : s.available node = false) (hmade : node < s.made)
    (hstore : e ≠ .store_available node true) : (s.apply e).available node = false := by
  cases e with
  | store_available n value =>
    rw [Manager.available, Manager.apply, Table.find_modify]
    split
    next heq =>
      subst heq
      cases value with
      | false => cases s.nodes.find node <;> rfl
      | true => exact absurd rfl hstore
    next => exact h
  | replace_current =>
    cases hinsert : s.nodes.insert ⟨s.made, true⟩ with
    | none =>
      rw [Manager.available, Manager.apply, hinsert]
      exact h
    | some nodes =>
      rw [Manager.available, Manager.apply, hinsert, Option.getD_some,
        Table.find_insert hinsert, if_neg (by dsimp only; omega)]
      exact h
  | _ => exact h

theorem apply_stores (s : Manager) (node : ℕ) :
    (s.apply (.store_available node false)).available node = false := by
  rw [Manager.available, Manager.apply, Table.find_modify, if_pos rfl]
  cases s.nodes.find node <;> rfl

theorem apply_closing : (s.apply e).closing node ↔ s.closing node := by
  simp only [Manager.closing, apply_calls, apply_stoppers, apply_maintains]

theorem closed_apply (h : s.Closed) (ho : s.Orderly) (hnodes : s₁.nodes = s.nodes)
    (hmade : s₁.made = s.made) (hstopped : s₁.stopped = s.stopped)
    (hclosing : ∀ node, s₁.closing node → s.closing node ∨ e = .store_available node false)
    (hstop : ∀ node, e = .stop_backend node → s.closing node)
    (hstore : ∀ node, e = .store_available node true → node ∉ s.stopped ∧ ¬s.closing node) :
    (s₁.apply e).Closed := by
  intro node hnode
  have hcases : (node ∈ s.stopped ∨ s.closing node) ∨ e = .store_available node false := by
    rcases hnode with hmem | hc
    · rcases apply_stopped hmem with hmem | he
      · exact .inl (.inl (hstopped ▸ hmem))
      · exact .inl (.inr (hstop node he))
    · exact (hclosing node (apply_closing.mp hc)).imp_left .inr
  rcases hcases with hclosed | rfl
  · have hnamed : s.named node := hclosed.elim .inl closing_named
    apply apply_unavailable
    · rw [Manager.available, hnodes]
      exact h node hclosed
    · rw [hmade]
      exact ho.numbered node hnamed
    · intro he
      obtain ⟨hout, hopen⟩ := hstore node he
      exact hclosed.elim hout hopen
  · exact apply_stores s₁ node

theorem numbered_apply (ho : s.Orderly) (hmade : s₁.made = s.made)
    (hnamed : ∀ node, s₁.named node → s.named node)
    (hstop : ∀ node, e = .stop_backend node → s.closing node) :
    ∀ node, (s₁.apply e).named node → node < (s₁.apply e).made := by
  intro node h
  have hle := apply_made_le s₁ e
  rcases apply_names h with h | h | h
  · exact (ho.numbered node (hnamed node h)).trans_le (hmade ▸ hle)
  · exact (ho.numbered node (closing_named (hstop node h))).trans_le (hmade ▸ hle)
  · exact h

theorem made_apply (ho : s.Orderly) (hnodes : s₁.nodes = s.nodes) (hmade : s₁.made = s.made) :
    ∀ r ∈ (s₁.apply e).nodes.rows, r.id < (s₁.apply e).made := by
  have hrows : ∀ r ∈ s₁.nodes.rows, r.id < s₁.made := by
    rw [hnodes, hmade]
    exact ho.made
  intro r hr
  cases e with
  | store_available node value =>
    have hmodified : r ∈ (s₁.nodes.modify node ({ · with available := value })
      (fun _ => rfl)).rows := hr
    obtain ⟨r₀, hr₀, rfl | rfl⟩ := Table.mem_modify_rows _ hmodified
    · exact hrows r hr₀
    · exact hrows r₀ hr₀
  | replace_current =>
    rcases Table.mem_insert_getD hr with hr | ⟨rfl, -⟩
    · exact (hrows r hr).trans (Nat.lt_succ_self _)
    · exact Nat.lt_succ_self _
  | _ => exact hrows r hr

/-! ## Steps keep the invariant -/

section Call

variable {call : ℕ} {c : Call}

theorem mem_set_call {stage : Snapshot} (hc : s.calls.find call = some c) {c' : Call}
    (h : c' ∈ (s.set_call call stage).calls.rows) :
    c' = { c with stage } ∨ (c' ∈ s.calls.rows ∧ c'.id ≠ call) :=
  Table.mem_modify hc (f := fun c => { c with stage }) (fun _ => rfl) h

theorem set_call_named {stage : Snapshot} (hc : s.calls.find call = some c)
    (h : (s.set_call call stage).named node) : s.named node := by
  rcases h with h | h | h | ⟨c', hc', hnode⟩ | h
  · exact .inl h
  · exact .inr (.inl h)
  · exact .inr (.inr (.inl h))
  · refine .inr (.inr (.inr (.inl ?_)))
    rcases mem_set_call hc hc' with rfl | ⟨hmem, -⟩
    · exact ⟨c, (Table.find_eq_some.mp hc).1, hnode⟩
    · exact ⟨c', hmem, hnode⟩
  · exact .inr (.inr (.inr (.inr h)))

variable {health : Option Bool}

theorem set_call_closing (hc : s.calls.find call = some c)
    (h : (s.set_call call (c.stage.next s c.node health).1).closing node) :
    s.closing node ∨ (c.stage.next s c.node health).2 = .store_available node false := by
  rcases h with ⟨c', hc', hnode, hstage⟩ | h
  · rcases mem_set_call hc hc' with rfl | ⟨hmem, -⟩
    · dsimp only at hnode hstage
      obtain ⟨-, hne⟩ | heq | ⟨-, heq⟩ := snapshot_next_cases s c.node health c.stage
      · exact absurd hstage hne
      · exact .inr (by rw [heq, hnode])
      · rw [heq] at hstage
        cases hstage
    · exact .inl (.inl ⟨c', hmem, hnode, hstage⟩)
  · exact .inl (.inr h)

theorem snapshot_next_stops (hc : s.calls.find call = some c)
    (h : (c.stage.next s c.node health).2 = .stop_backend node) : s.closing node := by
  obtain ⟨heq, -⟩ | heq | ⟨hstage, heq⟩ := snapshot_next_cases s c.node health c.stage
  · rw [heq] at h
    cases h
  · rw [heq] at h
    cases h
  · rw [heq] at h
    cases h
    exact .inl ⟨c, (Table.find_eq_some.mp hc).1, rfl, hstage⟩

theorem snapshot_next_local (s s₁ : Manager) (node : ℕ) (health : Option Bool) (c : Snapshot) :
    (s₁.apply (c.next s node health).2).locked = s₁.locked
      ∧ (s₁.apply (c.next s node health).2).stopping = s₁.stopping
      ∧ (s₁.apply (c.next s node health).2).current = s₁.current := by
  obtain ⟨heq, -⟩ | heq | ⟨-, heq⟩ := snapshot_next_cases s node health c <;>
    rw [heq] <;> exact ⟨rfl, rfl, rfl⟩

theorem call_next_orderly (hc : s.calls.find call = some c) (h : s.Orderly) :
    ((s.set_call call (c.stage.next s c.node health).1).apply
      (c.stage.next s c.node health).2).Orderly := by
  obtain ⟨hlocked, hstopping, -⟩ := snapshot_next_local s
    (s.set_call call (c.stage.next s c.node health).1) c.node health c.stage
  constructor
  · exact made_apply h rfl rfl
  · exact numbered_apply h rfl (fun _ => set_call_named hc) (fun _ => snapshot_next_stops hc)
  · rw [apply_maintains]
    exact h.exclusive
  · rw [apply_maintains, hlocked]
    exact h.locked
  · rw [apply_calls, apply_handles]
    intro c' hc'
    rcases mem_set_call hc hc' with rfl | ⟨hmem, -⟩
    · exact h.handled c (Table.find_eq_some.mp hc).1
    · exact h.handled c' hmem
  · rw [apply_stoppers, hstopping]
    exact h.flagged
  · rw [apply_stoppers, apply_maintains]
    exact h.settled

theorem call_next_closed (hc : s.calls.find call = some c) (ho : s.Orderly) (h : s.Closed) :
    ((s.set_call call (c.stage.next s c.node health).1).apply
      (c.stage.next s c.node health).2).Closed := by
  refine closed_apply h ho rfl rfl rfl (fun _ => set_call_closing hc)
    (fun _ => snapshot_next_stops hc) ?_
  intro node he
  obtain ⟨heq, -⟩ | heq | ⟨-, heq⟩ := snapshot_next_cases s c.node health c.stage <;>
    rw [heq] at he <;> cases he

end Call

section Stop

variable {stopper : ℕ} {p : Stopper}

theorem mem_set_stopper {stage : Stop} (hp : s.stoppers.find stopper = some p) {p' : Stopper}
    (h : p' ∈ (s.set_stopper stopper stage).stoppers.rows) :
    p' = { p with stage } ∨ (p' ∈ s.stoppers.rows ∧ p'.id ≠ stopper) :=
  Table.mem_modify hp (f := fun p => { p with stage }) (fun _ => rfl) h

theorem set_stopper_named (hp : s.stoppers.find stopper = some p)
    (h : (s.set_stopper stopper (p.stage.next s).1).named node) : s.named node := by
  have hmem := (Table.find_eq_some.mp hp).1
  rcases h with h | h | h | h | ⟨p', hp', hnode⟩ | h
  · exact .inl h
  · exact .inr (.inl h)
  · exact .inr (.inr (.inl h))
  · exact .inr (.inr (.inr (.inl h)))
  · rcases mem_set_stopper hp hp' with rfl | ⟨hmem', -⟩
    · obtain ⟨-, heq⟩ | ⟨-, heq⟩ | ⟨-, -, heq⟩ | ⟨n, hstage, heq⟩ | ⟨n, -, heq⟩ :=
        stop_next_cases s p.stage
      · rw [heq] at hnode
        exact .inr (.inr (.inr (.inr (.inl ⟨p, hmem, hnode⟩))))
      · rw [heq] at hnode
        cases hnode
      · rw [heq] at hnode
        cases hnode
        exact .inr (.inl rfl)
      · rw [heq] at hnode
        cases hnode
        exact .inr (.inr (.inr (.inr (.inl ⟨p, hmem, by rw [hstage]; rfl⟩))))
      · rw [heq] at hnode
        cases hnode
    · exact .inr (.inr (.inr (.inr (.inl ⟨p', hmem', hnode⟩))))
  · exact .inr (.inr (.inr (.inr (.inr h))))

theorem set_stopper_closing (hp : s.stoppers.find stopper = some p)
    (h : (s.set_stopper stopper (p.stage.next s).1).closing node) :
    s.closing node ∨ (p.stage.next s).2 = .store_available node false := by
  rcases h with h | ⟨p', hp', hstage⟩ | h
  · exact .inl (.inl h)
  · rcases mem_set_stopper hp hp' with rfl | ⟨hmem, -⟩
    · dsimp only at hstage
      obtain ⟨-, heq⟩ | ⟨-, heq⟩ | ⟨-, -, heq⟩ | ⟨n, -, heq⟩ | ⟨n, -, heq⟩ :=
        stop_next_cases s p.stage
      · rw [heq] at hstage
        exact .inl (.inr (.inl ⟨p, (Table.find_eq_some.mp hp).1, hstage⟩))
      · rw [heq] at hstage
        cases hstage
      · rw [heq] at hstage
        cases hstage
      · rw [heq] at hstage
        cases hstage
        exact .inr (by rw [heq])
      · rw [heq] at hstage
        cases hstage
    · exact .inl (.inr (.inl ⟨p', hmem, hstage⟩))
  · exact .inl (.inr (.inr h))

theorem stop_next_stops (hp : s.stoppers.find stopper = some p)
    (h : (p.stage.next s).2 = .stop_backend node) : s.closing node := by
  obtain ⟨heq, -⟩ | ⟨-, heq⟩ | ⟨-, -, heq⟩ | ⟨n, -, heq⟩ | ⟨n, hstage, heq⟩ :=
    stop_next_cases s p.stage <;> rw [heq] at h <;> cases h
  exact .inr (.inl ⟨p, (Table.find_eq_some.mp hp).1, hstage⟩)

theorem stop_next_local (s s₁ : Manager) (p : Stop) :
    (s₁.apply (p.next s).2).locked = s₁.locked
      ∧ (s₁.stopping = true → (s₁.apply (p.next s).2).stopping = true)
      ∧ (s₁.apply (p.next s).2).current = s₁.current := by
  obtain ⟨heq, -⟩ | ⟨-, heq⟩ | ⟨-, -, heq⟩ | ⟨n, -, heq⟩ | ⟨n, -, heq⟩ := stop_next_cases s p
  · rw [heq]
    exact ⟨rfl, id, rfl⟩
  · rw [heq]
    exact ⟨rfl, fun _ => rfl, rfl⟩
  · rw [heq]
    exact ⟨rfl, id, rfl⟩
  · rw [heq]
    exact ⟨rfl, id, rfl⟩
  · rw [heq]
    exact ⟨rfl, id, rfl⟩

theorem stop_next_orderly (hp : s.stoppers.find stopper = some p) (h : s.Orderly) :
    ((s.set_stopper stopper (p.stage.next s).1).apply (p.stage.next s).2).Orderly := by
  have hmem := (Table.find_eq_some.mp hp).1
  obtain ⟨hlocked, hstopping, -⟩ := stop_next_local s
    (s.set_stopper stopper (p.stage.next s).1) p.stage
  constructor
  · exact made_apply h rfl rfl
  · exact numbered_apply h rfl (fun _ => set_stopper_named hp) (fun _ => stop_next_stops hp)
  · rw [apply_maintains]
    exact h.exclusive
  · rw [apply_maintains, hlocked]
    exact h.locked
  · rw [apply_calls, apply_handles]
    exact h.handled
  · rw [apply_stoppers]
    intro p' hp' hne
    rcases mem_set_stopper hp hp' with rfl | ⟨hmem', -⟩
    · by_cases hstore : p.stage = .store_stopping
      · rw [hstore]
        rfl
      · exact hstopping (h.flagged p hmem hstore)
    · exact hstopping (h.flagged p' hmem' hne)
  · rw [apply_stoppers, apply_maintains]
    intro p' hp' hne hne' m hm
    rcases mem_set_stopper hp hp' with rfl | ⟨hmem', -⟩
    · obtain ⟨-, heq⟩ | ⟨-, heq⟩ | ⟨-, hfree, -⟩ | ⟨n, hstage, -⟩ | ⟨n, hstage, -⟩ :=
        stop_next_cases s p.stage
      · rw [heq] at hne hne'
        exact h.settled p hmem hne hne' m hm
      · exact absurd (by rw [heq]) hne'
      · -- it took the lock, so no run was in between
        intro hreplace
        rw [h.locked m hm (.inr hreplace)] at hfree
        cases hfree
      · exact h.settled p hmem (by rw [hstage]; simp) (by rw [hstage]; simp) m hm
      · exact h.settled p hmem (by rw [hstage]; simp) (by rw [hstage]; simp) m hm
    · exact h.settled p' hmem' hne hne' m hm

theorem stop_next_closed (hp : s.stoppers.find stopper = some p) (ho : s.Orderly)
    (h : s.Closed) :
    ((s.set_stopper stopper (p.stage.next s).1).apply (p.stage.next s).2).Closed := by
  refine closed_apply h ho rfl rfl rfl (fun _ => set_stopper_closing hp)
    (fun _ => stop_next_stops hp) ?_
  intro node he
  obtain ⟨heq, -⟩ | ⟨-, heq⟩ | ⟨-, -, heq⟩ | ⟨n, -, heq⟩ | ⟨n, -, heq⟩ :=
    stop_next_cases s p.stage <;> rw [heq] at he <;> cases he

end Stop

section Maintain

variable {run : ℕ} {m : Maintenance} {r : Maintain × Task × Effect}

theorem mem_set_maintain {stage : Maintain} {task : Task}
    (hm : s.maintains.find run = some m) {m' : Maintenance}
    (h : m' ∈ (s.set_maintain run stage task).maintains.rows) :
    m' = { m with stage, task } ∨ (m' ∈ s.maintains.rows ∧ m'.id ≠ run) :=
  Table.mem_modify hm (f := fun m => { m with stage, task }) (fun _ => rfl) h

theorem set_maintain_named (hm : s.maintains.find run = some m) (hr : Goes s m r)
    (h : (s.set_maintain run r.1 r.2.1).named node) : s.named node := by
  rcases h with h | h | h | h | h | ⟨m', hm', hnode⟩
  · exact .inl h
  · exact .inr (.inl h)
  · exact .inr (.inr (.inl h))
  · exact .inr (.inr (.inr (.inl h)))
  · exact .inr (.inr (.inr (.inr (.inl h))))
  · rcases mem_set_maintain hm hm' with rfl | ⟨hmem, -⟩
    · rcases hr.node node hnode with hold | hcurrent
      · exact .inr (.inr (.inr (.inr (.inr ⟨m, (Table.find_eq_some.mp hm).1, hold⟩))))
      · exact .inr (.inl hcurrent)
    · exact .inr (.inr (.inr (.inr (.inr ⟨m', hmem, hnode⟩))))

theorem set_maintain_closing (hm : s.maintains.find run = some m) (hr : Goes s m r)
    (h : (s.set_maintain run r.1 r.2.1).closing node) :
    s.closing node ∨ r.2.2 = .store_available node false := by
  rcases h with h | h | ⟨m', hm', hstage⟩
  · exact .inl (.inl h)
  · exact .inl (.inr (.inl h))
  · rcases mem_set_maintain hm hm' with rfl | ⟨hmem, -⟩
    · dsimp only at hstage
      obtain ⟨-, hsame⟩ | ⟨n, -, hover, -⟩ | ⟨n, -, heq, hnode⟩ | ⟨n, -, hover, -⟩
        | ⟨-, hover, -⟩ := hr.cases
      · exact .inl (.inr (.inr ⟨m, (Table.find_eq_some.mp hm).1, hsame node hstage⟩))
      · rw [hover] at hstage
        cases hstage
      · exact .inr (by rw [heq, hnode node hstage])
      · rw [hover] at hstage
        cases hstage
      · rw [hover] at hstage
        cases hstage
    · exact .inl (.inr (.inr ⟨m', hmem, hstage⟩))

theorem goes_stops (hm : s.maintains.find run = some m) (hr : Goes s m r)
    (h : r.2.2 = .stop_backend node) : s.closing node := by
  obtain ⟨hquiet, -⟩ | ⟨n, -, -, heq⟩ | ⟨n, -, heq, -⟩ | ⟨n, hstage, -, heq⟩ | ⟨-, -, heq⟩ :=
    hr.cases
  · rw [h] at hquiet
    cases hquiet
  · rw [heq] at h
    cases h
  · rw [heq] at h
    cases h
  · rw [heq] at h
    cases h
    exact .inr (.inr ⟨m, (Table.find_eq_some.mp hm).1, hstage⟩)
  · rw [heq] at h
    cases h

theorem apply_stopping (s : Manager) (e : Effect) (h : s.stopping = true) :
    (s.apply e).stopping = true := by
  cases e with
  | store_stopping => rfl
  | _ => exact h

theorem apply_locked {e : Effect} (h : s.locked = true) (hunlock : e ≠ .unlock)
    (hreplace : e ≠ .replace_current) : (s.apply e).locked = true := by
  cases e with
  | lock => rfl
  | unlock => exact absurd rfl hunlock
  | replace_current => exact absurd rfl hreplace
  | _ => exact h

/-- One part of a maintenance. -/
theorem maintain_next_orderly (hm : s.maintains.find run = some m) (hr : Goes s m r)
    (h : s.Orderly) : (s.maintain_next run r).Orderly := by
  obtain ⟨hmem, hid⟩ := Table.find_eq_some.mp hm
  have hfree : s.maintains.rows.any Maintenance.holds = false →
      ∀ m' ∈ s.maintains.rows, m'.holds = false := by
    intro hnone m' hm'
    simpa using List.any_eq_false.mp hnone m' hm'
  rw [Manager.maintain_next]
  constructor
  · exact made_apply h rfl rfl
  · exact numbered_apply h rfl (fun _ => set_maintain_named hm hr) (fun _ => goes_stops hm hr)
  · rw [apply_maintains]
    intro m₁ hm₁ m₂ hm₂ hholds₁ hholds₂
    rcases mem_set_maintain hm hm₁ with rfl | ⟨hm₁, -⟩ <;>
      rcases mem_set_maintain hm hm₂ with rfl | ⟨hm₂, -⟩
    · rfl
    · rcases hr.holds hholds₁ with hholds | hnone
      · exact h.exclusive m hmem m₂ hm₂ hholds hholds₂
      · rw [hfree hnone m₂ hm₂] at hholds₂
        cases hholds₂
    · rcases hr.holds hholds₂ with hholds | hnone
      · exact h.exclusive m₁ hm₁ m hmem hholds₁ hholds
      · rw [hfree hnone m₁ hm₁] at hholds₁
        cases hholds₁
    · exact h.exclusive m₁ hm₁ m₂ hm₂ hholds₁ hholds₂
  · rw [apply_maintains]
    intro m' hm' hstage
    rcases mem_set_maintain hm hm' with rfl | ⟨hm', hne⟩
    · dsimp only at hstage
      have hkept : ¬(r.2.2 = .unlock ∨ r.2.2 = .replace_current) := by
        intro hunlock
        obtain ⟨-, hrecheck, hreplace⟩ := hr.unlock hunlock
        exact hstage.elim hrecheck hreplace
      have hbefore : (m.stage = .recheck_stopping ∨ m.stage = .replace_current)
          ∨ r.2.2 = .lock := by
        rcases hstage with hstage | hstage
        · exact (hr.recheck hstage).imp_left .inl
        · exact .inl ((hr.replace hstage).elim .inr (fun h => .inl h.1))
      rcases hbefore with hbefore | hlock
      · exact apply_locked (h.locked m hmem hbefore) (fun he => hkept (.inl he))
          (fun he => hkept (.inr he))
      · rw [hlock]
        rfl
    · -- the one that releases the lock is the one that holds the permit
      have hlocked := h.locked m' hm' hstage
      have hother : ¬(r.2.2 = .unlock ∨ r.2.2 = .replace_current) := by
        intro hunlock
        have hholds : m'.holds = true := by
          rw [Maintenance.holds]
          rcases hstage with hstage | hstage <;> rw [hstage] <;> rfl
        exact hne ((h.exclusive m' hm' m hmem hholds (hr.unlock hunlock).1).trans hid)
      exact apply_locked hlocked (fun he => hother (.inl he)) (fun he => hother (.inr he))
  · rw [apply_calls, apply_handles]
    exact h.handled
  · rw [apply_stoppers]
    intro p hp hne
    exact apply_stopping _ _ (h.flagged p hp hne)
  · rw [apply_stoppers, apply_maintains]
    intro p hp hne hne' m' hm' hstage
    rcases mem_set_maintain hm hm' with rfl | ⟨hm', -⟩
    · rcases hr.replace hstage with hsame | ⟨-, hrunning⟩
      · exact h.settled p hp hne hne' m hmem hsame
      · rw [h.flagged p hp hne] at hrunning
        cases hrunning
    · exact h.settled p hp hne hne' m' hm' hstage

/-- A run of `maintain` keeps what is closed, unless it marks a closed node available. -/
theorem maintain_next_closed (hm : s.maintains.find run = some m) (hr : Goes s m r)
    (ho : s.Orderly) (h : s.Closed)
    (hstore : ∀ node, r.2.2 = .store_available node true →
      node ∉ s.stopped ∧ ¬s.closing node) :
    (s.maintain_next run r).Closed :=
  closed_apply h ho rfl rfl rfl (fun _ => set_maintain_closing hm hr)
    (fun _ => goes_stops hm hr) hstore

end Maintain

inductive Change (s : Manager) : Op → Manager → Prop
  | same (op : Op) : Change s op s
  | pin {handle pinned node : ℕ} (htarget : s.target handle = some node) :
    Change s (.pin_request handle pinned)
      { s with handles := (s.handles.insert ⟨pinned, some node⟩).getD s.handles }
  | snapshot {call handle node : ℕ} (htarget : s.target handle = some node) :
    Change s (.snapshot call handle)
      { s with calls := (s.calls.insert ⟨call, handle, node, .load_stopping⟩).getD s.calls }
  | call_next {call : ℕ} {c : Call} (hc : s.calls.find call = some c) (health : Option Bool) :
    Change s (.call_next call health)
      ((s.set_call call (c.stage.next s c.node health).1).apply
        (c.stage.next s c.node health).2)
  | call_done (call : ℕ) (finished : Call → Bool) :
    Change s (.call_done call) { s with calls := s.calls.delete finished }
  | stop (stopper : ℕ) :
    Change s (.stop stopper)
      { s with stoppers := (s.stoppers.insert ⟨stopper, .store_stopping⟩).getD s.stoppers }
  | stop_next {stopper : ℕ} {p : Stopper} (hp : s.stoppers.find stopper = some p) :
    Change s (.stop_next stopper)
      ((s.set_stopper stopper (p.stage.next s).1).apply (p.stage.next s).2)
  | maintain (run : ℕ) :
    Change s (.maintain run)
      { s with maintains := (s.maintains.insert ⟨run, .load_stopping, .idle⟩).getD s.maintains }
  | maintain_next {op : Op} {run : ℕ} {m : Maintenance} {r : Maintain × Task × Effect}
    (hm : s.maintains.find run = some m) (hr : Goes s m r)
    (hop : ∀ node, r.2.2 = .store_available node true →
      ∃ health, op = .maintain_next run health) :
    Change s op (s.maintain_next run r)
  | drop_node {node : ℕ} (hfree : s.referenced node = false) (hrow : s.nodes.find node ≠ none) :
    Change s (.drop_node node)
      { s with
        nodes := s.nodes.delete (fun r => decide (r.id = node))
        stopped := node :: s.stopped
        reaping := s.reaping + 1 }
  | reap : Change s .reap { s with reaping := s.reaping - 1 }

theorem step_change (s : Manager) (op : Op) : Change s op (step s op) := by
  cases op with
  | pin_request handle pinned =>
    rw [step]
    cases htarget : s.target handle with
    | none => exact .same _
    | some node => exact .pin htarget
  | snapshot call handle =>
    rw [step]
    cases htarget : s.target handle with
    | none => exact .same _
    | some node => exact .snapshot htarget
  | call_next call health =>
    rw [step]
    cases hc : s.calls.find call with
    | none => exact .same _
    | some c => exact .call_next hc health
  | call_done call => exact .call_done call _
  | stop stopper => exact .stop stopper
  | stop_next stopper =>
    rw [step]
    cases hp : s.stoppers.find stopper with
    | none => exact .same _
    | some p => exact .stop_next hp
  | maintain run => exact .maintain run
  | maintain_next run health =>
    rw [step]
    cases hm : s.maintains.find run with
    | none => exact .same _
    | some m => exact .maintain_next hm (maintain_goes s m health) (fun _ _ => ⟨health, rfl⟩)
  | work_done run answer =>
    rw [step]
    cases hm : s.maintains.find run with
    | none => exact .same _
    | some m =>
      refine .maintain_next hm (finish_goes s m answer) (fun node he => ?_)
      have hquiet := finish_quiet m answer
      rw [he] at hquiet
      cases hquiet.1
  | abandon run =>
    rw [step]
    cases hm : s.maintains.find run with
    | none => exact .same _
    | some m =>
      refine .maintain_next hm (abandon_goes s m) (fun node he => ?_)
      have hquiet := abandon_quiet m
      rw [he] at hquiet
      cases hquiet.1
  | drop_node node =>
    rw [step]
    cases hrow : s.nodes.find node with
    | none => exact .same _
    | some r =>
      by_cases href : s.referenced node = true
      · simp only [href, if_true]
        exact .same _
      · simp only [href]
        exact .drop_node (by simpa using href) (by rw [hrow]; simp)
  | reap => exact .reap

/-- No run of `maintain` marks a node available on which `stop` was called, or that a
thread is about to stop. -/
def Op.spares (s : Manager) : Op → Prop
  | .maintain_next run _ => ∀ m node, s.maintains.find run = some m →
    m.stage = .settle node .Healthy → node ∉ s.stopped ∧ ¬s.closing node
  | _ => True

theorem target_named (h : s.target handle = some node) : s.named node := by
  rw [Manager.target] at h
  split at h
  next => cases h
  next id n hrow =>
    cases h
    exact .inr (.inr (.inl ⟨_, (Table.find_eq_some.mp hrow).1, rfl⟩))
  next =>
    split at h
    next => cases h
    next =>
      cases h
      exact .inr (.inl rfl)

theorem target_handled (h : s.target handle = some node) : s.handles.find handle ≠ none := by
  intro hnone
  rw [Manager.target, hnone] at h
  cases h

/-- Every step keeps that order. -/
theorem step_orderly (s : Manager) (op : Op) (h : s.Orderly) : (step s op).Orderly := by
  have hchange := step_change s op
  generalize step s op = s' at hchange
  cases hchange with
  | same => exact h
  | @pin handle pinned node htarget =>
    refine ⟨h.made, ?_, h.exclusive, h.locked, ?_, h.flagged, h.settled⟩
    · rintro n (hn | hn | ⟨row, hrow, hpinned⟩ | hn)
      · exact h.numbered n (.inl hn)
      · exact h.numbered n (.inr (.inl hn))
      · rcases Table.mem_insert_getD hrow with hrow | ⟨rfl, -⟩
        · exact h.numbered n (.inr (.inr (.inl ⟨row, hrow, hpinned⟩)))
        · exact Option.some.inj hpinned ▸ h.numbered node (target_named htarget)
      · exact h.numbered n (.inr (.inr (.inr hn)))
    · intro c hc hnone
      obtain ⟨row, hrow⟩ := Option.ne_none_iff_exists'.mp (h.handled c hc)
      rw [Table.find_insert_getD hrow] at hnone
      cases hnone
  | @snapshot call handle node htarget =>
    refine ⟨h.made, ?_, h.exclusive, h.locked, ?_, h.flagged, h.settled⟩
    · rintro n (hn | hn | hn | ⟨c, hc, hnode⟩ | hn)
      · exact h.numbered n (.inl hn)
      · exact h.numbered n (.inr (.inl hn))
      · exact h.numbered n (.inr (.inr (.inl hn)))
      · rcases Table.mem_insert_getD hc with hc | ⟨rfl, -⟩
        · exact h.numbered n (.inr (.inr (.inr (.inl ⟨c, hc, hnode⟩))))
        · exact hnode ▸ h.numbered node (target_named htarget)
      · exact h.numbered n (.inr (.inr (.inr (.inr hn))))
    · intro c hc
      rcases Table.mem_insert_getD hc with hc | ⟨rfl, -⟩
      · exact h.handled c hc
      · exact target_handled htarget
  | call_next hc health => exact call_next_orderly hc h
  | call_done call finished =>
    refine ⟨h.made, ?_, h.exclusive, h.locked, ?_, h.flagged, h.settled⟩
    · rintro n (hn | hn | hn | ⟨c, hc, hnode⟩ | hn)
      · exact h.numbered n (.inl hn)
      · exact h.numbered n (.inr (.inl hn))
      · exact h.numbered n (.inr (.inr (.inl hn)))
      · exact h.numbered n
          (.inr (.inr (.inr (.inl ⟨c, List.mem_of_mem_filter hc, hnode⟩))))
      · exact h.numbered n (.inr (.inr (.inr (.inr hn))))
    · exact fun c hc => h.handled c (List.mem_of_mem_filter hc)
  | stop stopper =>
    refine ⟨h.made, ?_, h.exclusive, h.locked, h.handled, ?_, ?_⟩
    · rintro n (hn | hn | hn | hn | ⟨p, hp, hnode⟩ | hn)
      · exact h.numbered n (.inl hn)
      · exact h.numbered n (.inr (.inl hn))
      · exact h.numbered n (.inr (.inr (.inl hn)))
      · exact h.numbered n (.inr (.inr (.inr (.inl hn))))
      · rcases Table.mem_insert_getD hp with hp | ⟨rfl, -⟩
        · exact h.numbered n (.inr (.inr (.inr (.inr (.inl ⟨p, hp, hnode⟩)))))
        · cases hnode
      · exact h.numbered n (.inr (.inr (.inr (.inr (.inr hn)))))
    · intro p hp hne
      rcases Table.mem_insert_getD hp with hp | ⟨rfl, -⟩
      · exact h.flagged p hp hne
      · exact absurd rfl hne
    · intro p hp hne hne'
      rcases Table.mem_insert_getD hp with hp | ⟨rfl, -⟩
      · exact h.settled p hp hne hne'
      · exact absurd rfl hne
  | stop_next hp => exact stop_next_orderly hp h
  | maintain run =>
    refine ⟨h.made, ?_, ?_, ?_, h.handled, h.flagged, ?_⟩
    · rintro n (hn | hn | hn | hn | hn | ⟨m, hm, hnode⟩)
      · exact h.numbered n (.inl hn)
      · exact h.numbered n (.inr (.inl hn))
      · exact h.numbered n (.inr (.inr (.inl hn)))
      · exact h.numbered n (.inr (.inr (.inr (.inl hn))))
      · exact h.numbered n (.inr (.inr (.inr (.inr (.inl hn)))))
      · rcases Table.mem_insert_getD hm with hm | ⟨rfl, -⟩
        · exact h.numbered n (.inr (.inr (.inr (.inr (.inr ⟨m, hm, hnode⟩)))))
        · cases hnode
    · intro m hm m' hm' hholds hholds'
      rcases Table.mem_insert_getD hm with hm | ⟨rfl, -⟩
      · rcases Table.mem_insert_getD hm' with hm' | ⟨rfl, -⟩
        · exact h.exclusive m hm m' hm' hholds hholds'
        · cases hholds'
      · cases hholds
    · intro m hm hstage
      rcases Table.mem_insert_getD hm with hm | ⟨rfl, -⟩
      · exact h.locked m hm hstage
      · rcases hstage with hstage | hstage <;> cases hstage
    · intro p hp hne hne' m hm
      rcases Table.mem_insert_getD hm with hm | ⟨rfl, -⟩
      · exact h.settled p hp hne hne' m hm
      · exact fun hstage => by cases hstage
  | maintain_next hm hr hop => exact maintain_next_orderly hm hr h
  | @drop_node node hfree hrow =>
    refine ⟨fun r hr => h.made r (List.mem_of_mem_filter hr), ?_, h.exclusive, h.locked,
      h.handled, h.flagged, h.settled⟩
    rintro n (hn | hn)
    · rcases List.mem_cons.mp hn with rfl | hn
      · obtain ⟨r, hfind⟩ := Option.ne_none_iff_exists'.mp hrow
        obtain ⟨hr, hid⟩ := Table.find_eq_some.mp hfind
        exact hid ▸ h.made r hr
      · exact h.numbered n (.inl hn)
    · exact h.numbered n (.inr hn)
  | reap => exact ⟨h.made, h.numbered, h.exclusive, h.locked, h.handled, h.flagged, h.settled⟩

/-- The nodes stay marked, if the step spares them. -/
theorem step_closed (ho : s.Orderly) (hop : op.spares s) (h : s.Closed) : (step s op).Closed := by
  have hchange := step_change s op
  generalize step s op = s' at hchange
  cases hchange with
  | same => exact h
  | pin htarget => exact h
  | @snapshot call handle node htarget =>
    rintro n (hn | ⟨c, hc, hnode, hstage⟩ | hn)
    · exact h n (.inl hn)
    · rcases Table.mem_insert_getD hc with hc | ⟨rfl, -⟩
      · exact h n (.inr (.inl ⟨c, hc, hnode, hstage⟩))
      · cases hstage
    · exact h n (.inr (.inr hn))
  | call_next hc health => exact call_next_closed hc ho h
  | call_done call finished =>
    rintro n (hn | ⟨c, hc, hstop⟩ | hn)
    · exact h n (.inl hn)
    · exact h n (.inr (.inl ⟨c, List.mem_of_mem_filter hc, hstop⟩))
    · exact h n (.inr (.inr hn))
  | stop stopper =>
    rintro n (hn | hn | ⟨p, hp, hstage⟩ | hn)
    · exact h n (.inl hn)
    · exact h n (.inr (.inl hn))
    · rcases Table.mem_insert_getD hp with hp | ⟨rfl, -⟩
      · exact h n (.inr (.inr (.inl ⟨p, hp, hstage⟩)))
      · cases hstage
    · exact h n (.inr (.inr (.inr hn)))
  | stop_next hp => exact stop_next_closed hp ho h
  | maintain run =>
    rintro n (hn | hn | hn | ⟨m, hm, hstage⟩)
    · exact h n (.inl hn)
    · exact h n (.inr (.inl hn))
    · exact h n (.inr (.inr (.inl hn)))
    · rcases Table.mem_insert_getD hm with hm | ⟨rfl, -⟩
      · exact h n (.inr (.inr (.inr ⟨m, hm, hstage⟩)))
      · cases hstage
  | @maintain_next _ run m r hm hr hop' =>
    refine maintain_next_closed hm hr ho h ?_
    intro node he
    obtain ⟨health, rfl⟩ := hop' node he
    refine hop m node hm ?_
    obtain ⟨hquiet, -⟩ | ⟨n, hstage, -, heq⟩ | ⟨n, -, heq, -⟩ | ⟨n, -, -, heq⟩ | ⟨-, -, heq⟩ :=
      hr.cases
    · rw [he] at hquiet
      cases hquiet
    · rw [heq] at he
      cases he
      exact hstage
    · rw [heq] at he
      cases he
    · rw [heq] at he
      cases he
    · rw [heq] at he
      cases he
  | @drop_node node hfree hrow =>
    -- a node that is gone has no flag, and nobody to read it
    rintro n hn
    rw [Manager.available, Table.find_delete]
    by_cases heq : n = node
    · subst heq
      cases hfind : s.nodes.find n with
      | none => rfl
      | some r => simp [(Table.find_eq_some.mp hfind).2]
    · have hold : n ∈ s.stopped ∨ s.closing n := by
        rcases hn with hn | hn
        · exact .inl ((List.mem_cons.mp hn).resolve_left heq)
        · exact .inr hn
      have hunavailable := h n hold
      rw [Manager.available] at hunavailable
      cases hfind : s.nodes.find n with
      | none => rfl
      | some r =>
        rw [hfind] at hunavailable
        by_cases hid : r.id = node <;> simp_all
  | reap => exact h

/-! ## Runs -/

/-- The call is past the look at the flag, or was served. -/
def Snapshot.passed : Snapshot → Bool
  | .ask_health | .returned true => true
  | _ => false

/-- The call is past the look at the flag of the manager, or was served. -/
def Snapshot.begun : Snapshot → Bool
  | .load_available | .ask_health | .returned true => true
  | _ => false

theorem step_refuses {call : ℕ} (hunavailable : s.available node = false)
    (h : ∀ c ∈ s.calls.rows, c.id = call → c.node = node → c.stage.passed = false) :
    ∀ c ∈ (step s op).calls.rows, c.id = call → c.node = node → c.stage.passed = false := by
  have hchange := step_change s op
  generalize step s op = s' at hchange
  cases hchange with
  | same => exact h
  | snapshot htarget =>
    intro c hc hid hnode
    rcases Table.mem_insert_getD hc with hc | ⟨rfl, -⟩
    · exact h c hc hid hnode
    · rfl
  | @call_next _ c' hc' health =>
    rw [apply_calls]
    intro c hc hid hnode
    obtain ⟨hmem, -⟩ := Table.find_eq_some.mp hc'
    rcases mem_set_call hc' hc with rfl | ⟨hc, -⟩
    · have hbefore := h c' hmem hid hnode
      dsimp only at hnode ⊢
      subst hnode
      cases hstage : c'.stage with
      | load_stopping =>
        rw [Snapshot.next]
        dsimp only
        split <;> rfl
      | load_available =>
        rw [Snapshot.next, hunavailable]
        rfl
      | ask_health =>
        rw [hstage] at hbefore
        cases hbefore
      | store_available => rfl
      | stop_backend => rfl
      | returned served =>
        rw [hstage] at hbefore
        exact hbefore
    · exact h c hc hid hnode
  | call_done => exact fun c hc => h c (List.mem_of_mem_filter hc)
  | stop_next => rw [apply_calls]; exact h
  | maintain_next => rw [Manager.maintain_next, apply_calls]; exact h
  | _ => exact h

theorem step_silent {call : ℕ} (hstopping : s.stopping = true)
    (h : ∀ c ∈ s.calls.rows, c.id = call → c.stage.begun = false) :
    ∀ c ∈ (step s op).calls.rows, c.id = call → c.stage.begun = false := by
  have hchange := step_change s op
  generalize step s op = s' at hchange
  cases hchange with
  | same => exact h
  | snapshot htarget =>
    intro c hc hid
    rcases Table.mem_insert_getD hc with hc | ⟨rfl, -⟩
    · exact h c hc hid
    · rfl
  | @call_next _ c' hc' health =>
    rw [apply_calls]
    intro c hc hid
    obtain ⟨hmem, -⟩ := Table.find_eq_some.mp hc'
    rcases mem_set_call hc' hc with rfl | ⟨hc, -⟩
    · have hbefore := h c' hmem hid
      dsimp only
      cases hstage : c'.stage with
      | load_stopping =>
        rw [Snapshot.next, hstopping]
        rfl
      | load_available =>
        rw [hstage] at hbefore
        cases hbefore
      | ask_health =>
        rw [hstage] at hbefore
        cases hbefore
      | store_available => rfl
      | stop_backend => rfl
      | returned served =>
        rw [hstage] at hbefore
        exact hbefore
    · exact h c hc hid
  | call_done => exact fun c hc => h c (List.mem_of_mem_filter hc)
  | stop_next => rw [apply_calls]; exact h
  | maintain_next => rw [Manager.maintain_next, apply_calls]; exact h
  | _ => exact h

theorem step_keeps_stopped (h : node ∈ s.stopped) : node ∈ (step s op).stopped := by
  have hchange := step_change s op
  generalize step s op = s' at hchange
  cases hchange with
  | call_next => exact apply_keeps_stopped h
  | stop_next => exact apply_keeps_stopped h
  | maintain_next => exact apply_keeps_stopped h
  | drop_node => exact List.mem_cons_of_mem _ h
  | _ => exact h

theorem step_pinned (h : s.handles.find handle = some ⟨handle, some node⟩
      ∧ ∀ c ∈ s.calls.rows, c.handle = handle → c.node = node) :
    (step s op).handles.find handle = some ⟨handle, some node⟩
      ∧ ∀ c ∈ (step s op).calls.rows, c.handle = handle → c.node = node := by
  have hchange := step_change s op
  generalize step s op = s' at hchange
  cases hchange with
  | pin htarget => exact ⟨Table.find_insert_getD h.1, h.2⟩
  | snapshot htarget =>
    refine ⟨h.1, fun c hc hhandle => ?_⟩
    rcases Table.mem_insert_getD hc with hc | ⟨rfl, -⟩
    · exact h.2 c hc hhandle
    · dsimp only at hhandle ⊢
      rw [hhandle, Manager.target, h.1] at htarget
      exact (Option.some.inj htarget).symm
  | @call_next _ c' hc' health =>
    rw [apply_handles, apply_calls]
    refine ⟨h.1, fun c hc hhandle => ?_⟩
    rcases mem_set_call hc' hc with rfl | ⟨hc, -⟩
    · exact h.2 c' (Table.find_eq_some.mp hc').1 hhandle
    · exact h.2 c hc hhandle
  | call_done => exact ⟨h.1, fun c hc => h.2 c (List.mem_of_mem_filter hc)⟩
  | stop_next => rw [apply_handles, apply_calls]; exact h
  | maintain_next => rw [Manager.maintain_next, apply_handles, apply_calls]; exact h
  | _ => exact h

theorem step_settled (h : s.current = node ∧ s.stopping = true
      ∧ ∀ m ∈ s.maintains.rows, m.stage ≠ .replace_current) :
    (step s op).current = node ∧ (step s op).stopping = true
      ∧ ∀ m ∈ (step s op).maintains.rows, m.stage ≠ .replace_current := by
  obtain ⟨hcurrent, hstopping, hsettled⟩ := h
  have hchange := step_change s op
  generalize step s op = s' at hchange
  cases hchange with
  | @call_next call c hc health =>
    obtain ⟨-, hkept, hsame⟩ := snapshot_next_local s
      (s.set_call call (c.stage.next s c.node health).1) c.node health c.stage
    rw [apply_maintains, hkept, hsame]
    exact ⟨hcurrent, hstopping, hsettled⟩
  | @stop_next stopper p hp =>
    obtain ⟨-, hkept, hsame⟩ := stop_next_local s
      (s.set_stopper stopper (p.stage.next s).1) p.stage
    rw [apply_maintains, hsame]
    exact ⟨hcurrent, hkept hstopping, hsettled⟩
  | maintain run =>
    refine ⟨hcurrent, hstopping, fun m hm => ?_⟩
    rcases Table.mem_insert_getD hm with hm | ⟨rfl, -⟩
    · exact hsettled m hm
    · exact fun hstage => by cases hstage
  | @maintain_next _ run m r hm hr hop =>
    have hmem := (Table.find_eq_some.mp hm).1
    refine ⟨?_, apply_stopping _ _ hstopping, ?_⟩
    · rw [Manager.maintain_next, apply_current, if_neg]
      · exact hcurrent
      · intro he
        obtain ⟨hquiet, -⟩ | ⟨n, -, -, heq⟩ | ⟨n, -, heq, -⟩ | ⟨n, -, -, heq⟩
          | ⟨hstage, -, -⟩ := hr.cases
        · rw [he] at hquiet
          cases hquiet
        · rw [heq] at he
          cases he
        · rw [heq] at he
          cases he
        · rw [heq] at he
          cases he
        · exact hsettled m hmem hstage
    · rw [Manager.maintain_next, apply_maintains]
      intro m' hm' hstage
      rcases mem_set_maintain hm hm' with rfl | ⟨hm', -⟩
      · rcases hr.replace hstage with hsame | ⟨-, hrunning⟩
        · exact hsettled m hmem hsame
        · rw [hstopping] at hrunning
          cases hrunning
      · exact hsettled m' hm' hstage
  | _ => exact ⟨hcurrent, hstopping, hsettled⟩

/-- The run or its closure is building a candidate or probing it. -/
def Maintenance.candidate (m : Maintenance) : Bool :=
  (match m.stage with
    | .building | .check_stopping | .check_health | .checking | .lock_state
    | .recheck_stopping | .replace_current | .unlock_state | .drop_next => true
    | _ => false)
  || match m.task with
    | .running .factory | .running .check => true
    | _ => false

theorem candidate_holds {m : Maintenance} (h : m.candidate = true) : m.holds = true := by
  rw [Maintenance.candidate, Bool.or_eq_true] at h
  rw [Maintenance.holds, Bool.or_eq_true]
  refine h.imp (fun hstage => ?_) (fun htask => ?_)
  · cases hm : m.stage <;> rw [hm] at hstage <;> first | rfl | cases hstage
  · cases hm : m.task with
    | running work => rfl
    | _ => rw [hm] at htask; cases htask

/-- **A stopped generation does not serve.** In every run: a call of `snapshot` that
begins after `stop` was called on the backend of a node does not return the node, if no
run of `maintain` marks a node available that was stopped or that a thread is about to
stop; all calls of a pinned request are for the node that was current when it was pinned;
one candidate is built or probed at a time; and after `stop` of the manager has returned
no call that begins is served, and the current node stays what it is. -/
theorem stopped_generation_refuses (ops ops' : List Op) :
    let s := Machine.run step Manager.new ops
    let s' := Machine.run step s ops'
    (Machine.Meets step (fun s op => op.spares s) Manager.new (ops ++ ops') →
      ∀ node ∈ s.stopped, ∀ c ∈ s'.calls.rows, s.calls.find c.id = none →
        c.stage = .returned true → c.node ≠ node)
    ∧ (∀ handle pinned node, s.target handle = some node → s.handles.find pinned = none →
      (s.handles.find handle = some ⟨handle, none⟩ → node = s.current)
      ∧ ∀ c ∈ (Machine.run step (step s (.pin_request handle pinned)) ops').calls.rows,
        c.handle = pinned → c.node = node)
    ∧ (∀ m ∈ s.maintains.rows, ∀ m' ∈ s.maintains.rows,
      m.candidate = true → m'.candidate = true → m.id = m'.id)
    ∧ ((∃ p ∈ s.stoppers.rows, p.stage = .returned) →
      s'.current = s.current
        ∧ ∀ c ∈ s'.calls.rows, s.calls.find c.id = none → c.stage ≠ .returned true) := by
  intro s s'
  have ho : s.Orderly := Machine.run_keeps step_orderly new_orderly ops
  have hfresh : ∀ {id : ℕ}, s.calls.find id = none → ∀ c ∈ s.calls.rows, c.id ≠ id := by
    rintro id hnone c hc rfl
    exact Table.find_none_iff.mp hnone (List.mem_map_of_mem hc)
  refine ⟨?_, ?_, ?_, ?_⟩
  · intro hops node hnode c hc hnew hserved heq
    obtain ⟨hbefore, hafter⟩ := Machine.meets_append.mp hops
    have hstart : s.Orderly ∧ s.Closed := hbefore.keeps
        (I := fun s : Manager => s.Orderly ∧ s.Closed)
      (fun s op hop h => ⟨step_orderly s op h.1, step_closed h.1 hop h.2⟩)
      ⟨new_orderly, new_closed⟩
    obtain ⟨-, -, -, hrefused⟩ := hafter.keeps
      (I := fun t : Manager => t.Orderly ∧ t.Closed ∧ node ∈ t.stopped
        ∧ ∀ c' ∈ t.calls.rows, c'.id = c.id → c'.node = node → c'.stage.passed = false)
      (fun t op hop h => ⟨step_orderly t op h.1, step_closed h.1 hop h.2.1,
        step_keeps_stopped h.2.2.1, step_refuses (h.2.1 node (.inl h.2.2.1)) h.2.2.2⟩)
      ⟨hstart.1, hstart.2, hnode, fun c' hc' hid => absurd hid (hfresh hnew c' hc')⟩
    have hpassed := hrefused c hc rfl heq
    rw [hserved] at hpassed
    cases hpassed
  · intro handle pinned node htarget hnew
    refine ⟨fun hfree => ?_, ?_⟩
    · rw [Manager.target, hfree] at htarget
      dsimp only at htarget
      split at htarget
      next => cases htarget
      next => exact (Option.some.inj htarget).symm
    · refine (Machine.run_keeps (I := fun t : Manager => t.handles.find pinned
          = some ⟨pinned, some node⟩
        ∧ ∀ c ∈ t.calls.rows, c.handle = pinned → c.node = node)
        (fun _ _ h => step_pinned h) ⟨?_, ?_⟩ ops').2
      · rw [step, htarget]
        cases hinsert : s.handles.insert ⟨pinned, some node⟩ with
        | none =>
          obtain ⟨row, hrow⟩ := Table.insert_eq_none hinsert
          rw [hnew] at hrow
          cases hrow
        | some handles =>
          dsimp only
          rw [hinsert, Option.getD_some, Table.find_insert hinsert, if_pos rfl]
      · rw [step, htarget]
        intro c hc hhandle
        exact absurd (hhandle ▸ hnew) (ho.handled c hc)
  · intro m hm m' hm' hcandidate hcandidate'
    exact ho.exclusive m hm m' hm' (candidate_holds hcandidate) (candidate_holds hcandidate')
  · rintro ⟨p, hp, hover⟩
    have hstart : s.current = s.current ∧ s.stopping = true
        ∧ ∀ m ∈ s.maintains.rows, m.stage ≠ .replace_current :=
      ⟨rfl, ho.flagged p hp (by rw [hover]; simp),
        ho.settled p hp (by rw [hover]; simp) (by rw [hover]; simp)⟩
    refine ⟨(Machine.run_keeps (I := fun t : Manager => t.current = s.current ∧ t.stopping = true
      ∧ ∀ m ∈ t.maintains.rows, m.stage ≠ .replace_current)
      (fun _ _ h => step_settled h) hstart ops').1, ?_⟩
    intro c hc hnew hserved
    obtain ⟨-, hsilent⟩ := Machine.run_keeps
      (I := fun t : Manager => (t.current = s.current ∧ t.stopping = true
          ∧ ∀ m ∈ t.maintains.rows, m.stage ≠ .replace_current)
        ∧ ∀ c' ∈ t.calls.rows, c'.id = c.id → c'.stage.begun = false)
      (fun _ _ h => ⟨step_settled h.1, step_silent h.1.2.1 h.2⟩)
      ⟨hstart, fun c' hc' hid => absurd hid (hfresh hnew c' hc')⟩ ops'
    have hbegun := hsilent c hc rfl
    rw [hserved] at hbegun
    cases hbegun

theorem spares_of_stage {run : ℕ} (h : (s.maintains.find run).all (fun m => match m.stage with
      | .settle _ .Healthy => false
      | _ => true) = true) : (Op.maintain_next run health).spares s := by
  intro m node hm hstage
  rw [hm, Option.all_some, hstage] at h
  cases h

namespace Sample

def healthy : Answer := ⟨false, .Healthy, none, false⟩

/-- While the probe of a run of `maintain` is on its way, a call finds the database gone
and stops the node. -/
def failure : List Op :=
  [.maintain 1, .maintain_next 1 none, .maintain_next 1 none, .maintain_next 1 none,
   .maintain_next 1 none, .work_done 1 healthy,
   .snapshot 1 0, .call_next 1 none, .call_next 1 none, .call_next 1 (some false),
   .call_next 1 none, .call_next 1 none]

/-- A call that begins afterwards, while the owners of the database are busy. -/
def retry : List Op :=
  [.snapshot 2 0, .call_next 2 none, .call_next 2 none, .call_next 2 none]

/-- The run of `maintain` takes the answer of its probe. -/
def recovery : List Op := [.maintain_next 1 none, .maintain_next 1 none]

end Sample

/-- The node is stopped, the run of `maintain` marks it available again, and a call that
begins afterwards is served by it. -/
theorem revived_node_serves :
    let s := Machine.run step Manager.new Sample.failure
    let s' := Machine.run step s (Sample.recovery ++ Sample.retry)
    ¬∀ node ∈ s.stopped, ∀ c ∈ s'.calls.rows, s.calls.find c.id = none →
      c.stage = .returned true → c.node ≠ node := by
  decide

/-- A call that begins before the run of `maintain` goes on is refused. -/
theorem stopped_node_refuses :
    let s := Machine.run step Manager.new Sample.failure
    let s' := Machine.run step s Sample.retry
    s.stopped = [0] ∧ s'.calls.find 2 = some ⟨2, 0, 0, .returned false⟩
      ∧ ∀ c ∈ s'.calls.rows, s.calls.find c.id = none → c.stage = .returned true →
        c.node ≠ 0 := by
  refine ⟨by decide, by decide, ?_⟩
  refine (stopped_generation_refuses Sample.failure Sample.retry).1 ?_ 0 (by decide)
  refine ⟨trivial, spares_of_stage ?_, spares_of_stage ?_, spares_of_stage ?_,
    spares_of_stage ?_, trivial, trivial, trivial, trivial, trivial, trivial, trivial, trivial,
    trivial, trivial, trivial, trivial⟩
  · decide
  · decide
  · decide
  · decide

end Appcall.Api
