/-
The registry holds a call no longer than it runs, when no step strands it.

An entry whose execution has begun leaves the registry through `complete`,
`finish_execution` or `abort_execution` only. A task that is dropped before its first
poll has no guard yet, and a call without a durable context has none at all, so nobody
is left to call one of them, and the entry stays for good (`Call.Stranded`). Those are
the steps that `strands` names; a run without them leaves nothing behind
(`in_flight_released`).
-/
import Appcall.Mcp.Moves

set_option autoImplicit false

namespace Appcall.Mcp

variable {ν ρ : Type} {s : InFlight ν ρ} {c : Call ν ρ} {t : Turn ν ρ} {b : Bool}

/-! ## What a step of a call leaves -/

theorem Moves.id_eq (h : Moves c b t) : t.call.id = c.id := by cases h <;> rfl

theorem Moves.key_eq (h : Moves c b t) : t.call.key = c.key := by cases h <;> rfl

theorem Moves.origin_eq (h : Moves c b t) :
    t.call.scope = c.scope ∧ t.call.context = c.context := by cases h <;> exact ⟨rfl, rfl⟩

theorem Call.Staged.unbegun (hs : c.Staged) (h : c.handler.early = true) :
    c.entry.lifecycle.unfinished = false := by
  by_contra hne
  have := hs.early h
  rw [begun_of_unfinished (Bool.eq_true_of_not_eq_false hne)] at this
  cases this

theorem Call.Staged.not_live (hs : c.Staged) (h : c.handler.early = true) :
    c.task.live = false := by
  by_contra hne
  have hrunning : c.running = true := by
    rw [Call.running, Bool.eq_true_of_not_eq_false hne, Bool.or_true]
  have := hs.running hrunning
  rw [hs.unbegun h] at this
  cases this

theorem Handler.not_early {handler : Handler ν ρ} (h : handler.direct = true) :
    handler.early = false := by
  cases handler <;> first | rfl | cases h

theorem Task.live_of_unpolled {task : Task ν ρ} (h : task.unpolled = true) :
    task.live = true := by
  cases task <;> first | rfl | cases h

theorem kept_of_unfinished {e : InFlightEntry} (h : e.lifecycle.unfinished = true) :
    e.can_cleanup_on_drop = false := by
  obtain ⟨lifecycle, connection_id⟩ := e
  cases lifecycle with
  | Cancelled phase => cases phase <;> first | rfl | cases h
  | _ => first | rfl | cases h

theorem cleanup_of_unbegun {e : InFlightEntry} (h : e.lifecycle.begun = false) :
    e.can_cleanup_on_drop = true := by
  obtain ⟨lifecycle, connection_id⟩ := e
  cases lifecycle with
  | Cancelled phase => cases phase <;> first | rfl | cases h
  | _ => first | rfl | cases h

/-- The call has to be in the registry: it is to be dispatched, or is executed. -/
def Call.pending (c : Call ν ρ) : Bool := c.handler.early || c.entry.lifecycle.unfinished

theorem Moves.pending (h : Moves c b t) (hs : c.Staged) (ht : t.call.pending = true) :
    c.pending = true ∧ t.removed = false := by
  rw [Call.pending, Bool.or_eq_true] at ht ⊢
  cases h with
  | stay => exact ⟨ht, rfl⟩
  | answer payload hopen hphase hne =>
    rcases ht with ht | ht
    · cases ht
    · exact ⟨.inr ht, kept_of_unfinished ht⟩
  | select connection h => exact ⟨.inl (by rw [h]; rfl), rfl⟩
  | connect connection_id request h hpending => exact ⟨.inl h, rfl⟩
  | spawn connection_id request h hpending hd => exact ⟨.inl h, rfl⟩
  | execute connection_id request h hpending hd => exact ⟨.inl h, rfl⟩
  | invoke request h => exact ⟨.inr (hs.running (by rw [Call.running, h]; rfl)), rfl⟩
  | complete result h hdispatched =>
    rcases ht with ht | ht <;> cases ht
  | poll_task request h => exact ⟨ht, rfl⟩
  | finish task h hpolled hended hunfinished =>
    rcases ht with ht | ht
    · rw [hs.not_live ht] at h
      cases h
    · cases ht
  | finish_early task removed h hfinished =>
    have := hs.running (by rw [Call.running, h, Bool.or_true])
    rw [hfinished] at this
    cases this
  | drop_task h =>
    rcases ht with ht | ht
    · have hlive := Task.live_of_unpolled h
      rw [hs.not_live ht] at hlive
      cases hlive
    · exact ⟨.inr ht, kept_of_unfinished ht⟩
  | drop_handler aborted hopen =>
    rcases ht with ht | ht
    · cases ht
    · exact ⟨.inr ht, kept_of_unfinished ht⟩
  | cancel_before hpending =>
    rcases ht with ht | ht
    · exact ⟨.inl ht, rfl⟩
    · cases ht
  | cancel_after hdispatched => exact ⟨.inr (by rw [hdispatched]; rfl), rfl⟩
  | cancel_again phase hcancelled => exact ⟨ht, rfl⟩

/-! ## Somebody ends what runs -/

/-- Somebody is there who will take the entry out of the registry: the handler, which
has not dispatched yet, or whoever executes the call. Without a task that is the handler
too, and it can as long as it is not cancelled. -/
def Call.Attended (c : Call ν ρ) : Prop :=
  c.handler.early = true ∨ (c.running = true ∧
    (c.context.durable_cancellation = false → c.entry.lifecycle = .Dispatched))

/-- What is not removed is attended after a move as well. -/
theorem Moves.attended (h : Moves c false t) (hs : c.Staged) (hc : c.Attended)
    (hkept : t.removed = false) : t.call.Attended := by
  -- who can clean up has not dispatched, and is attended by the handler only
  have hexecuting : c.entry.can_cleanup_on_drop = false →
      c.running = true
        ∧ (c.context.durable_cancellation = false → c.entry.lifecycle = .Dispatched) := by
    intro hno
    rcases hc with hearly | hrunning
    · rw [cleanup_of_unbegun (hs.early hearly)] at hno
      cases hno
    · exact hrunning
  have hnondurable : c.handler.direct = true → c.context.durable_cancellation = false := by
    intro hdirect
    by_contra hd
    rw [hs.durable (Bool.eq_true_of_not_eq_false hd)] at hdirect
    cases hdirect
  generalize hb : false = b at h
  cases h with
  | stay => exact hc
  | answer payload hopen hphase hne =>
    obtain ⟨hrunning, hdispatched⟩ := hexecuting hkept
    have hdirect : c.handler.direct = false := by
      by_contra hdirect
      replace hdirect := Bool.eq_true_of_not_eq_false hdirect
      exact hne hdirect (hdispatched (hnondurable hdirect))
    rw [Call.running, hdirect] at hrunning
    exact .inr ⟨hrunning, hdispatched⟩
  | select connection h => exact .inl rfl
  | connect connection_id request h hpending => exact .inl rfl
  | spawn connection_id request h hpending hd =>
    refine .inr ⟨rfl, fun hno => ?_⟩
    rw [show c.context.durable_cancellation = false from hno] at hd
    cases hd
  | execute connection_id request h hpending hd => exact .inr ⟨rfl, fun _ => rfl⟩
  | invoke request h =>
    rcases hc with hearly | ⟨-, hdispatched⟩
    · rw [Handler.not_early h] at hearly
      cases hearly
    · exact .inr ⟨rfl, hdispatched⟩
  | complete result h hdispatched => cases hkept
  | poll_task request h =>
    rcases hc with hearly | ⟨-, hdispatched⟩
    · exact .inl hearly
    · exact .inr ⟨by simp [Call.running, Task.live], hdispatched⟩
  | finish task h hpolled hended hunfinished => cases hkept
  | finish_early task removed h hfinished =>
    have := hs.running (by rw [Call.running, h, Bool.or_true])
    rw [hfinished] at this
    cases this
  | drop_task h => cases hb
  | drop_handler aborted hopen =>
    obtain ⟨hrunning, hdispatched⟩ := hexecuting hkept
    rw [Call.running, ← hb] at hrunning
    exact .inr ⟨hrunning, hdispatched⟩
  | cancel_before hpending =>
    rcases hc with hearly | ⟨hrunning, -⟩
    · exact .inl hearly
    · have := hs.running hrunning
      rw [hpending] at this
      cases this
  | cancel_after hdispatched =>
    rcases hc with hearly | ⟨hrunning, -⟩
    · exact .inl hearly
    · refine .inr ⟨hrunning, fun hno => ?_⟩
      rw [show c.context.durable_cancellation = false from hno] at hb
      cases hb
  | cancel_again phase hcancelled => exact hc

/-- The execution has begun, and nobody is left who could tell the entry that it ended. -/
structure Call.Stranded (c : Call ν ρ) : Prop where
  unfinished : c.entry.lifecycle.unfinished = true
  idle : c.task.live = false
  refused : c.handler.direct = true → c.entry.lifecycle ≠ .Dispatched

theorem Moves.strands (h : Moves c true t) (hs : c.Staged) : t.call.Stranded := by
  generalize hb : true = b at h
  cases h with
  | drop_task h =>
    have hlive := Task.live_of_unpolled h
    refine ⟨hs.running (by rw [Call.running, hlive, Bool.or_true]), rfl, fun hdirect => ?_⟩
    have hd : c.context.durable_cancellation = true := by
      by_contra hd
      rw [hs.direct (Bool.eq_false_of_not_eq_true hd)] at hlive
      cases hlive
    rw [hs.durable hd] at hdirect
    cases hdirect
  | drop_handler aborted hopen =>
    have hd : c.context.durable_cancellation = false := by
      by_contra hd
      rw [hs.durable (Bool.eq_true_of_not_eq_false hd)] at hb
      cases hb
    exact ⟨hs.running (by rw [Call.running, ← hb]; rfl), hs.direct hd, by simp [Handler.direct]⟩
  | cancel_after hdispatched =>
    have hd : c.context.durable_cancellation = false := by simpa using hb.symm
    exact ⟨rfl, hs.direct hd, by simp⟩
  | _ => cases hb

theorem Moves.stranded (h : Moves c b t) (hs : c.Staged) (hc : c.Stranded) :
    t.call.Stranded ∧ t.removed = false := by
  have hearly : c.handler.early = true → False := by
    intro hearly
    have := hs.unbegun hearly
    rw [hc.unfinished] at this
    cases this
  have hidle : c.task.live = true → False := by
    intro hlive
    rw [hc.idle] at hlive
    cases hlive
  have hkept := kept_of_unfinished hc.unfinished
  cases h with
  | stay => exact ⟨hc, rfl⟩
  | answer payload hopen hphase hne =>
    exact ⟨⟨hc.unfinished, hc.idle, by simp [Call.answer, Handler.direct]⟩, hkept⟩
  | select connection h => exact (hearly (by rw [h]; rfl)).elim
  | connect connection_id request h hpending => exact (hearly h).elim
  | spawn connection_id request h hpending hd => exact (hearly h).elim
  | execute connection_id request h hpending hd => exact (hearly h).elim
  | invoke request h => exact ⟨⟨hc.unfinished, hc.idle, fun _ => hc.refused h⟩, rfl⟩
  | complete result h hdispatched => exact (hc.refused h hdispatched).elim
  | poll_task request h => exact (hidle (by rw [h]; rfl)).elim
  | finish task h hpolled hended hunfinished => exact (hidle h).elim
  | finish_early task removed h hfinished => exact (hidle h).elim
  | drop_task h => exact ⟨⟨hc.unfinished, rfl, hc.refused⟩, hkept⟩
  | drop_handler aborted hopen =>
    exact ⟨⟨hc.unfinished, hc.idle, by simp [Handler.direct]⟩, hkept⟩
  | cancel_before hpending =>
    have := hc.unfinished
    rw [hpending] at this
    cases this
  | cancel_after hdispatched => exact ⟨⟨rfl, hc.idle, by simp⟩, rfl⟩
  | cancel_again phase hcancelled => exact ⟨⟨hc.unfinished, hc.idle, hc.refused⟩, rfl⟩

/-! ## The server -/

def strands (config : Config ν) (s : InFlight ν ρ) : Op ν ρ → Bool
  | .call _ _ => false
  | .move id m => (s.calls.find id).any (fun c => c.strands m)
  | .cancel scope context request_id connection_id =>
    (s.registered (config.key scope context request_id)).any
      (fun c => c.cancel_strands connection_id)

def InFlight.holds (s : InFlight ν ρ) (c : Call ν ρ) : Bool := s.registry.holds c.id

structure InFlight.Sound (s : InFlight ν ρ) : Prop where
  rooted : ∀ row ∈ s.registry.entries.rows, ∃ c ∈ s.calls.rows, c.id = row.2 ∧ c.key = row.1
  staged : ∀ c ∈ s.calls.rows, c.Staged
  told : ∀ c ∈ s.calls.rows, c.Told
  pending : ∀ c ∈ s.calls.rows, c.pending = true → s.holds c = true
  bounded : s.registry.len ≤ s.registry.capacity

theorem step_cases (config : Config ν) (s : InFlight ν ρ) (op : Op ν ρ) :
    (step config s op = s ∧ strands config s op = false)
    ∨ (∃ id q tool registry, op = .call id q ∧ s.calls.find id = none
      ∧ strands config s op = false
      ∧ s.registry.register (config.key q.scope q.context q.request_id) id = .ok registry
      ∧ step config s op = ⟨registry, (s.calls.insert (config.new_call id q tool)).getD s.calls⟩)
    ∨ (∃ c ∈ s.calls.rows, ∃ t, (∀ id q, op ≠ .call id q) ∧ Moves c (strands config s op) t
      ∧ step config s op = s.take t) := by
  cases op with
  | call id q =>
    rw [step]
    split
    next => exact .inl ⟨rfl, rfl⟩
    next hfresh =>
      split
      next => exact .inl ⟨rfl, rfl⟩
      next s' hcall =>
        rw [InFlight.call] at hcall
        split at hcall
        next => cases hcall
        next tool _ =>
          dsimp only at hcall
          split at hcall
          next => cases hcall
          next => cases hcall
          next registry hregister =>
            cases hcall
            exact .inr (.inl ⟨id, q, tool, registry, rfl, hfresh, rfl, hregister, rfl⟩)
  | move id m =>
    rw [step]
    split
    next hnone => exact .inl ⟨rfl, by rw [strands, hnone]; rfl⟩
    next c hfind =>
      refine .inr (.inr ⟨c, (Table.find_eq_some.mp hfind).1, _, by simp, ?_, rfl⟩)
      rw [strands, hfind]
      exact turn_moves c m
  | cancel scope context request_id connection_id =>
    rw [step, InFlight.cancel]
    split
    next hnone => exact .inl ⟨rfl, by rw [strands, hnone]; rfl⟩
    next c hfind =>
      have hc : c ∈ s.calls.rows := by
        rw [InFlight.registered, Option.bind_eq_some_iff] at hfind
        obtain ⟨row, -, hrow⟩ := hfind
        exact (Table.find_eq_some.mp hrow).1
      refine .inr (.inr ⟨c, hc, _, by simp, ?_, rfl⟩)
      rw [strands, hfind]
      exact cancel_moves c connection_id

theorem mem_take (hc : c ∈ s.calls.rows) (hid : t.call.id = c.id) {c' : Call ν ρ}
    (h : c' ∈ (s.take t).calls.rows) :
    c' = t.call ∨ (c' ∈ s.calls.rows ∧ c'.id ≠ c.id) := by
  have hfind : s.calls.find t.call.id = some c := Table.find_eq_some.mpr ⟨hc, hid.symm⟩
  rcases Table.mem_modify (f := fun c => { t.call with id := c.id }) hfind (fun _ => rfl) h
    with heq | ⟨hmem, hne⟩
  · left
    rw [heq, ← hid]
  · right
    rw [← hid]
    exact ⟨hmem, hne⟩

theorem mem_take_self (hc : c ∈ s.calls.rows) (hid : t.call.id = c.id) :
    t.call ∈ (s.take t).calls.rows := by
  have hfind : s.calls.find t.call.id = some c := Table.find_eq_some.mpr ⟨hc, hid.symm⟩
  have := Table.find_modify_self hfind (fun c => { t.call with id := c.id }) (fun _ => rfl)
  have hmem := (Table.find_eq_some.mp this).1
  rwa [← hid] at hmem

theorem mem_take_other (hid : t.call.id = c.id) {c' : Call ν ρ}
    (h : c' ∈ s.calls.rows) (hne : c'.id ≠ c.id) : c' ∈ (s.take t).calls.rows := by
  have hfind : s.calls.find c'.id = some c' := Table.find_eq_some.mpr ⟨h, rfl⟩
  rw [← hid] at hne
  rw [← Table.find_modify_other s.calls (fun c => { t.call with id := c.id })
    (fun _ => rfl) hne] at hfind
  exact (Table.find_eq_some.mp hfind).1

variable {row : RequestKey × ℕ}

theorem mem_registry_take : row ∈ (s.take t).registry.entries.rows
      ↔ row ∈ s.registry.entries.rows ∧ (t.removed = true → row ≠ (t.call.key, t.call.id)) := by
  rw [InFlight.take]
  dsimp only
  split
  next hremoved =>
    rw [InFlightRegistry.mem_remove_if_same]
    exact and_congr_right fun _ => ⟨fun h _ => h, fun h => h hremoved⟩
  next hremoved => exact ⟨fun h => ⟨h, fun hr => absurd hr hremoved⟩, And.left⟩

theorem InFlight.Sound.key_eq (hs : s.Sound) (hc : c ∈ s.calls.rows)
    (hrow : row ∈ s.registry.entries.rows) (hid : row.2 = c.id) : row = (c.key, c.id) := by
  obtain ⟨c', hc', hid', hkey'⟩ := hs.rooted row hrow
  have heq := List.inj_on_of_nodup_map s.calls.nodup hc' hc (hid'.trans hid)
  rw [← heq, hkey', hid']

theorem holds_take (hs : s.Sound) (hc : c ∈ s.calls.rows) (hid : t.call.id = c.id)
    (hkey : t.call.key = c.key) (c' : Call ν ρ) :
    (s.take t).holds c' = true
      ↔ s.holds c' = true ∧ ¬(t.removed = true ∧ c'.id = c.id) := by
  rw [InFlight.holds, InFlight.holds, InFlightRegistry.holds_iff, InFlightRegistry.holds_iff]
  constructor
  · rintro ⟨key, hrow⟩
    obtain ⟨hrow, hne⟩ := mem_registry_take.mp hrow
    refine ⟨⟨key, hrow⟩, ?_⟩
    rintro ⟨hremoved, hsame⟩
    apply hne hremoved
    rw [hs.key_eq hc hrow hsame, hid, hkey]
  · rintro ⟨⟨key, hrow⟩, hkept⟩
    refine ⟨key, mem_registry_take.mpr ⟨hrow, fun hremoved heq => ?_⟩⟩
    apply hkept
    refine ⟨hremoved, ?_⟩
    rw [← hid]
    exact congrArg Prod.snd heq

theorem len_take (s : InFlight ν ρ) (t : Turn ν ρ) :
    (s.take t).registry.len ≤ s.registry.len
      ∧ (s.take t).registry.capacity = s.registry.capacity := by
  rw [InFlight.take]
  dsimp only
  split
  next =>
    exact ⟨InFlightRegistry.len_remove_if_same _ _ _,
      InFlightRegistry.remove_if_same_capacity _ _ _⟩
  next => exact ⟨le_rfl, rfl⟩

theorem sound_take (hs : s.Sound) (hc : c ∈ s.calls.rows) (h : Moves c b t) :
    (s.take t).Sound := by
  have hid := h.id_eq
  have hkey := h.key_eq
  refine ⟨?_, ?_, ?_, ?_, ?_⟩
  · intro row hrow
    obtain ⟨hrow, -⟩ := mem_registry_take.mp hrow
    obtain ⟨c', hc', hid', hkey'⟩ := hs.rooted row hrow
    by_cases hsame : c'.id = c.id
    · have heq := List.inj_on_of_nodup_map s.calls.nodup hc' hc hsame
      rw [heq] at hid' hkey'
      exact ⟨t.call, mem_take_self hc hid, hid.trans hid', hkey.trans hkey'⟩
    · exact ⟨c', mem_take_other hid hc' hsame, hid', hkey'⟩
  · intro c' hc'
    rcases mem_take hc hid hc' with rfl | ⟨hc', -⟩
    · exact h.staged (hs.staged c hc)
    · exact hs.staged c' hc'
  · intro c' hc'
    rcases mem_take hc hid hc' with rfl | ⟨hc', -⟩
    · exact h.told (hs.staged c hc) (hs.told c hc)
    · exact hs.told c' hc'
  · intro c' hc' hpending
    rw [holds_take hs hc hid hkey]
    rcases mem_take hc hid hc' with rfl | ⟨hc', hne⟩
    · obtain ⟨hpending, hkept⟩ := h.pending (hs.staged c hc) hpending
      refine ⟨?_, fun hremoved => ?_⟩
      · rw [InFlight.holds, hid]
        exact hs.pending c hc hpending
      · rw [hkept] at hremoved
        cases hremoved.1
    · exact ⟨hs.pending c' hc' hpending, fun hsame => hne hsame.2⟩
  · obtain ⟨hlen, hcapacity⟩ := len_take s t
    rw [hcapacity]
    exact hlen.trans hs.bounded

/-! ## A new call -/

variable {config : Config ν} {id : ℕ} {q : ToolCall ν} {tool : String × String}
  {registry : InFlightRegistry}

theorem new_call_staged : (config.new_call id q tool : Call ν ρ).Staged where
  early := fun _ => rfl
  running := fun h => by cases h
  durable := fun _ => rfl
  direct := fun _ => rfl

theorem new_call_told : (config.new_call id q tool : Call ν ρ).Told where
  begun := by
    constructor
    · intro h
      cases h
    · intro h
      cases h
  ordered := Machine.logged_nil
  refused := by
    rintro (h | h)
    · cases h
    · cases h

theorem calls_insert (config : Config ν) (tool : String × String)
    (hfresh : s.calls.find id = none) :
    ((s.calls.insert (config.new_call id q tool)).getD s.calls).rows
      = s.calls.rows ++ [config.new_call id q tool] := by
  have hnone : s.calls.find (config.new_call id q tool : Call ν ρ).id = none := hfresh
  rw [Table.insert, dif_pos hnone, Option.getD_some]

theorem holds_append (h : registry.entries.rows
    = s.registry.entries.rows ++ [row]) (id : ℕ) :
    registry.holds id = true ↔ s.registry.holds id = true ∨ row.2 = id := by
  rw [InFlightRegistry.holds, h, List.any_append, Bool.or_eq_true, List.any_cons, List.any_nil,
    Bool.or_false, beq_iff_eq]
  rfl

theorem sound_call (hs : s.Sound) (hfresh : s.calls.find id = none)
    (hregister : s.registry.register (config.key q.scope q.context q.request_id) id
      = .ok registry) :
    InFlight.Sound
      ⟨registry, (s.calls.insert (config.new_call id q tool)).getD s.calls⟩ := by
  obtain ⟨hrows, hcapacity, hroom, -⟩ := InFlightRegistry.register_ok hregister
  have hcalls := calls_insert (q := q) config tool hfresh
  have hmem : ∀ c, c ∈ ((s.calls.insert (config.new_call id q tool)).getD s.calls).rows →
      c ∈ s.calls.rows ∨ c = config.new_call id q tool := by
    intro c hc
    rw [hcalls, List.mem_append, List.mem_singleton] at hc
    exact hc
  refine ⟨?_, ?_, ?_, ?_, ?_⟩
  · intro row hrow
    rw [hcalls]
    rw [hrows, List.mem_append, List.mem_singleton] at hrow
    rcases hrow with hrow | rfl
    · obtain ⟨c, hc, hrest⟩ := hs.rooted row hrow
      exact ⟨c, List.mem_append_left _ hc, hrest⟩
    · exact ⟨_, List.mem_append_right _ (List.mem_singleton_self _), rfl, rfl⟩
  · intro c hc
    rcases hmem c hc with hc | rfl
    · exact hs.staged c hc
    · exact new_call_staged
  · intro c hc
    rcases hmem c hc with hc | rfl
    · exact hs.told c hc
    · exact new_call_told
  · intro c hc hpending
    rw [InFlight.holds, holds_append hrows]
    rcases hmem c hc with hc | rfl
    · exact .inl (hs.pending c hc hpending)
    · exact .inr rfl
  · rw [InFlightRegistry.len, hrows, List.length_append, List.length_singleton, hcapacity]
    exact hroom

theorem sound_new (capacity : ℕ) : (InFlight.new capacity : InFlight ν ρ).Sound where
  rooted := by
    intro row h
    cases h
  staged := by
    intro c h
    cases h
  told := by
    intro c h
    cases h
  pending := by
    intro c h
    cases h
  bounded := Nat.zero_le _

theorem sound_step (hs : s.Sound) (op : Op ν ρ) : (step config s op).Sound := by
  rcases step_cases config s op with ⟨heq, -⟩ |
    ⟨id, q, tool, registry, -, hfresh, -, hregister, heq⟩
    | ⟨c, hc, t, -, hmoves, heq⟩
  · rw [heq]
    exact hs
  · rw [heq]
    exact sound_call hs hfresh hregister
  · rw [heq]
    exact sound_take hs hc hmoves

/-! ## Runs -/

/-- Every call in the registry is attended. -/
def InFlight.Attended (s : InFlight ν ρ) : Prop :=
  ∀ c ∈ s.calls.rows, s.holds c = true → c.Attended

/-- A call that is over is not in the registry. -/
def InFlight.Clean (s : InFlight ν ρ) : Prop :=
  ∀ c ∈ s.calls.rows, c.over = true → s.holds c = false

def InFlight.Leaks (s : InFlight ν ρ) (id : ℕ) : Prop :=
  ∃ c ∈ s.calls.rows, c.id = id ∧ c.Stranded

theorem not_over_of_attended (h : c.Attended) : c.over = false := by
  rcases h with hearly | ⟨hrunning, -⟩
  · rw [Call.over]
    cases hhandler : c.handler <;> rw [hhandler] at hearly <;> first | rfl | cases hearly
  · rw [Call.running, Bool.or_eq_true] at hrunning
    rcases hrunning with hdirect | hlive
    · rw [Call.over]
      cases hhandler : c.handler <;> rw [hhandler] at hdirect <;> first | rfl | cases hdirect
    · rw [Call.over, hlive, Bool.not_true, Bool.and_false]

theorem attended_step (hs : s.Sound) {op : Op ν ρ} (hop : strands config s op = false)
    (ha : s.Attended) : (step config s op).Attended := by
  rcases step_cases config s op with ⟨heq, -⟩ |
    ⟨id, q, tool, registry, -, hfresh, -, hregister, heq⟩
    | ⟨c, hc, t, -, hmoves, heq⟩
  · rw [heq]
    exact ha
  · rw [heq]
    intro c hc hheld
    rw [calls_insert _ _ hfresh, List.mem_append, List.mem_singleton] at hc
    rcases hc with hc | rfl
    · apply ha c hc
      obtain ⟨hrows, -⟩ := InFlightRegistry.register_ok hregister
      rw [InFlight.holds, holds_append hrows] at hheld
      refine hheld.resolve_right fun hsame => ?_
      rw [Table.find_none_iff] at hfresh
      apply hfresh
      rw [show id = c.id from hsame]
      exact List.mem_map_of_mem hc
    · exact .inl rfl
  · rw [heq]
    rw [hop] at hmoves
    intro c' hc' hheld
    rw [holds_take hs hc hmoves.id_eq hmoves.key_eq] at hheld
    rcases mem_take hc hmoves.id_eq hc' with rfl | ⟨hc', -⟩
    · have hheld' : s.holds c = true := by
        rw [InFlight.holds, ← hmoves.id_eq]
        exact hheld.1
      have hkept : t.removed = false := by
        by_contra hremoved
        exact hheld.2 ⟨Bool.eq_true_of_not_eq_false hremoved, hmoves.id_eq⟩
      exact hmoves.attended (hs.staged c hc) (ha c hc hheld') hkept
    · exact ha c' hc' hheld.1

theorem leaks_step (hs : s.Sound) (op : Op ν ρ) {id : ℕ} (h : s.Leaks id) :
    (step config s op).Leaks id := by
  obtain ⟨c, hc, hid, hstranded⟩ := h
  rcases step_cases config s op with ⟨heq, -⟩ | ⟨id', q, tool, registry, -, hfresh, -, -, heq⟩
    | ⟨c', hc', t, -, hmoves, heq⟩
  · rw [heq]
    exact ⟨c, hc, hid, hstranded⟩
  · rw [heq]
    refine ⟨c, ?_, hid, hstranded⟩
    rw [calls_insert _ _ hfresh]
    exact List.mem_append_left _ hc
  · rw [heq]
    by_cases hsame : c.id = c'.id
    · have hc_eq := List.inj_on_of_nodup_map s.calls.nodup hc hc' hsame
      refine ⟨t.call, mem_take_self hc' hmoves.id_eq, ?_, ?_⟩
      · rw [hmoves.id_eq, ← hsame, hid]
      · rw [hc_eq] at hstranded
        exact (hmoves.stranded (hs.staged c' hc') hstranded).1
    · exact ⟨c, mem_take_other hmoves.id_eq hc hsame, hid, hstranded⟩

theorem leaks_of_strands (hs : s.Sound) {op : Op ν ρ} (h : strands config s op = true) :
    ∃ id, (step config s op).Leaks id := by
  rcases step_cases config s op with ⟨-, hno⟩ | ⟨id, q, tool, registry, -, -, hno, -⟩
    | ⟨c, hc, t, -, hmoves, heq⟩
  · rw [h] at hno
    cases hno
  · rw [h] at hno
    cases hno
  · rw [h] at hmoves
    rw [heq]
    exact ⟨t.call.id, t.call, mem_take_self hc hmoves.id_eq, rfl,
      hmoves.strands (hs.staged c hc)⟩

theorem run_sound (config : Config ν) (capacity : ℕ) (ops : List (Op ν ρ)) :
    (Machine.run (step config) (InFlight.new capacity) ops).Sound := by
  have hstep : ∀ s op, InFlight.Sound s → (step config s op : InFlight ν ρ).Sound :=
    fun s op hs => sound_step hs op
  exact Machine.run_keeps hstep (sound_new capacity) ops

theorem step_capacity (config : Config ν) (s : InFlight ν ρ) (op : Op ν ρ) :
    (step config s op).registry.capacity = s.registry.capacity := by
  rcases step_cases config s op with ⟨heq, -⟩ | ⟨id, q, tool, registry, -, -, -, hregister, heq⟩
    | ⟨c, hc, t, -, hmoves, heq⟩
  · rw [heq]
  · rw [heq]
    exact (InFlightRegistry.register_ok hregister).2.1
  · rw [heq]
    exact (len_take s t).2

theorem run_capacity (config : Config ν) (capacity : ℕ) (ops : List (Op ν ρ)) :
    (Machine.run (step config) (InFlight.new capacity) ops).registry.capacity = capacity := by
  have hstep : ∀ (s : InFlight ν ρ) op, s.registry.capacity = capacity →
      (step config s op).registry.capacity = capacity := by
    intro s op hs
    rw [step_capacity, hs]
  exact Machine.run_keeps (I := fun s : InFlight ν ρ => s.registry.capacity = capacity)
    hstep rfl ops

def Guarded (config : Config ν) (s : InFlight ν ρ) (ops : List (Op ν ρ)) : Prop :=
  Machine.Meets (step config) (fun s op => strands config s op = false) s ops

theorem clean_of_guarded {ops : List (Op ν ρ)} (hs : s.Sound) (ha : s.Attended)
    (h : Guarded config s ops) : (Machine.run (step config) s ops).Clean := by
  have hkeeps : (Machine.run (step config) s ops).Sound
      ∧ (Machine.run (step config) s ops).Attended :=
    h.keeps (I := fun s => s.Sound ∧ s.Attended)
      (fun s op hop hI => ⟨sound_step hI.1 op, attended_step hI.1 hop hI.2⟩) ⟨hs, ha⟩
  intro c hc hover
  by_contra hheld
  have := not_over_of_attended (hkeeps.2 c hc (Bool.eq_true_of_not_eq_false hheld))
  rw [hover] at this
  cases this

theorem leaks_of_unguarded {ops : List (Op ν ρ)} (hs : s.Sound)
    (h : ¬Guarded config s ops) : ∃ id, (Machine.run (step config) s ops).Leaks id := by
  induction ops generalizing s with
  | nil => exact absurd trivial h
  | cons op ops ih =>
    cases hop : strands config s op with
    | false => exact ih (sound_step hs op) (fun hops => h ⟨hop, hops⟩)
    | true =>
      obtain ⟨id, hleaks⟩ := leaks_of_strands hs hop
      have hstep : ∀ (s : InFlight ν ρ) op, s.Sound ∧ s.Leaks id →
          (step config s op).Sound ∧ (step config s op).Leaks id :=
        fun s op hI => ⟨sound_step hI.1 op, leaks_step hI.1 op hI.2⟩
      have hkeeps := Machine.run_keeps (I := fun s : InFlight ν ρ => s.Sound ∧ s.Leaks id) hstep
        ⟨sound_step hs op, hleaks⟩ ops
      exact ⟨id, hkeeps.2⟩

theorem drop_handler_ended (h : c.handler.early = false) :
    c.drop_handler.call.handler.ended = true := by
  rw [Call.drop_handler]
  split
  next => rfl
  next => rfl
  next => rfl
  next hselecting hexecuting hjoining =>
    rw [Call.stay]
    cases hhandler : c.handler with
    | selecting => exact absurd hhandler hselecting
    | executing request invoked => exact absurd hhandler (hexecuting request invoked)
    | joining => exact absurd hhandler hjoining
    | set_connection connection =>
      rw [hhandler] at h
      cases h
    | begin_dispatch request =>
      rw [hhandler] at h
      cases h
    | returned payload => rfl
    | dropped => rfl

theorem not_clean_of_leaks (hs : s.Sound) {id : ℕ} (h : s.Leaks id) :
    ¬(step config s (.move id .drop_handler)).Clean := by
  intro hclean
  obtain ⟨c, hc, rfl, hstranded⟩ := h
  have hfind : s.calls.find c.id = some c := Table.find_eq_some.mpr ⟨hc, rfl⟩
  have hstep : step config s (.move c.id .drop_handler) = s.take c.drop_handler := by
    rw [step, hfind]
    rfl
  rw [hstep] at hclean
  have hmoves := drop_handler_moves c
  obtain ⟨hafter, -⟩ := hmoves.stranded (hs.staged c hc) hstranded
  have hlate : c.handler.early = false := by
    by_contra hearly
    have := (hs.staged c hc).unbegun (Bool.eq_true_of_not_eq_false hearly)
    rw [hstranded.unfinished] at this
    cases this
  have hover : c.drop_handler.call.over = true := by
    rw [Call.over, drop_handler_ended hlate, hafter.idle]
    rfl
  have hmem := mem_take_self hc hmoves.id_eq
  have hpending : c.drop_handler.call.pending = true := by
    rw [Call.pending, hafter.unfinished, Bool.or_true]
  have hheld := (sound_take hs hc hmoves).pending _ hmem hpending
  rw [hclean _ hmem hover] at hheld
  cases hheld

/-- **Requests in flight.** In every run of calls, of the steps of their handlers and
tasks, and of cancellations: the executor is called for a call only after
`begin_dispatch` has succeeded for it, and not when its cancellation is reported as
before the dispatch; registered calls have different keys; and there are no more than
the capacity. A run that strands no call leaves no entry of a call that is over, and
none at all when every call is. A run that strands one can be continued so that its
entry stays behind. -/
theorem in_flight_released (config : Config ν) (capacity : ℕ) (ops : List (Op ν ρ)) :
    let s := Machine.run (step config) (InFlight.new capacity) ops
    (∀ c ∈ s.calls.rows, ∀ request, .invoked request ∈ c.observed →
      (∀ before after, c.observed = before ++ .invoked request :: after → .begun ∈ before)
      ∧ .cancelled .BeforeDispatch ∉ c.observed
      ∧ .answered (.cancellation_error .BeforeDispatch) ∉ c.observed)
    ∧ (∀ c ∈ s.calls.rows, ∀ c' ∈ s.calls.rows, s.holds c = true → s.holds c' = true →
      c.key = c'.key → c = c')
    ∧ s.registry.len ≤ capacity
    ∧ (Guarded config (InFlight.new capacity) ops →
      s.Clean ∧ ((∀ c ∈ s.calls.rows, c.over = true) → s.registry.len = 0))
    ∧ (¬Guarded config (InFlight.new capacity) ops → ∃ ops',
      ¬(Machine.run (step config) (InFlight.new capacity) (ops ++ ops')).Clean) := by
  intro s
  have hs : s.Sound := run_sound config capacity ops
  have hattended : (InFlight.new capacity : InFlight ν ρ).Attended := by
    intro c h
    cases h
  have hcapacity : s.registry.capacity = capacity := run_capacity config capacity ops
  refine ⟨?_, ?_, ?_, ?_, ?_⟩
  · intro c hc request hinvoked
    have htold := hs.told c hc
    have hbegun : .begun ∈ c.observed := by
      obtain ⟨before, after, hsplit⟩ := List.append_of_mem hinvoked
      rw [hsplit]
      exact List.mem_append_left _ (htold.ordered before _ after hsplit request rfl)
    have hbefore : c.entry.lifecycle ≠ .Cancelled .BeforeDispatch := by
      intro hbefore
      have := htold.begun.mp hbegun
      rw [hbefore] at this
      cases this
    exact ⟨fun before after hsplit => htold.ordered before _ after hsplit request rfl,
      fun h => hbefore (htold.refused (.inl h)), fun h => hbefore (htold.refused (.inr h))⟩
  · intro c hc c' hc' hheld hheld' hkey
    obtain ⟨key, hrow⟩ := InFlightRegistry.holds_iff.mp hheld
    obtain ⟨key', hrow'⟩ := InFlightRegistry.holds_iff.mp hheld'
    have hfirst : key = c.key := congrArg Prod.fst (hs.key_eq hc hrow rfl)
    have hfirst' : key' = c'.key := congrArg Prod.fst (hs.key_eq hc' hrow' rfl)
    have hkeys : key = key' := by rw [hfirst, hfirst', hkey]
    have hsame := List.inj_on_of_nodup_map s.registry.entries.nodup hrow hrow' hkeys
    exact List.inj_on_of_nodup_map s.calls.nodup hc hc' (congrArg Prod.snd hsame)
  · rw [← hcapacity]
    exact hs.bounded
  · intro hguarded
    have hclean : s.Clean := clean_of_guarded (sound_new capacity) hattended hguarded
    refine ⟨hclean, fun hall => ?_⟩
    rw [InFlightRegistry.len, List.length_eq_zero_iff, List.eq_nil_iff_forall_not_mem]
    intro row hrow
    obtain ⟨c, hc, hid, -⟩ := hs.rooted row hrow
    have hno := hclean c hc (hall c hc)
    have hheld : s.holds c = true :=
      InFlightRegistry.holds_iff.mpr ⟨row.1, by rw [hid]; exact hrow⟩
    rw [hno] at hheld
    cases hheld
  · intro hunguarded
    obtain ⟨id, hleaks⟩ := leaks_of_unguarded (sound_new capacity) hunguarded
    refine ⟨[.move id .drop_handler], ?_⟩
    rw [Machine.run_append]
    change ¬(step config s (.move id .drop_handler)).Clean
    exact not_clean_of_leaks hs hleaks

namespace Sample

def demo : Config ℕ where
  sha256 := fun bytes => bytes
  operation := fun connector operation =>
    if connector = "demo" ∧ operation = "rows.add" then
      some ⟨.Action, "Adds a row.", some (.object [])⟩
    else none

/-- A call under a session, whose context cancels durably. -/
def add_row : ToolCall ℕ where
  scope := ⟨"p1", "a1", "", "token"⟩
  context := (McpRequestContext.new 1).with_session_id "session"
  name := "demo__rows__add"
  input := .object []
  idempotency_key := none
  connection_id := none
  request_id := "1"

def connection : Connection := ⟨"c1", "p1", "a1", "demo", "active"⟩

/-- The call is registered, selects its connection and spawns its task. -/
def spawned : List (Op ℕ ℕ) :=
  [.call 0 add_row, .move 0 (.selected (some [connection])), .move 0 .advance,
    .move 0 .advance]

def dropped_before_poll : List (Op ℕ ℕ) :=
  spawned ++ [.move 0 .drop_handler, .move 0 .drop_task]

/-- The caller is dropped while the task executes. -/
def dropped_after_poll : List (Op ℕ ℕ) :=
  spawned ++ [.move 0 .poll_task, .move 0 .drop_handler, .move 0 .drop_task]

/-- A task that is aborted before its first poll leaves the entry behind: nothing runs
any more, and one request is in flight. -/
theorem unpolled_task_stays_in_flight :
    let s := Machine.run (step demo) (InFlight.new 128) dropped_before_poll
    s.calls.rows.length = 1 ∧ (∀ c ∈ s.calls.rows, c.over = true) ∧ s.registry.len = 1 := by
  decide

/-- A task that was polled leaves no entry when it is dropped. -/
theorem polled_task_released :
    Guarded demo (InFlight.new 128) dropped_after_poll
      ∧ (Machine.run (step demo) (InFlight.new 128) dropped_after_poll).Clean := by
  have hguarded : Guarded demo (InFlight.new 128) dropped_after_poll := by
    refine ⟨?_, ?_, ?_, ?_, ?_, ?_, ?_, trivial⟩ <;> decide
  exact ⟨hguarded, ((in_flight_released demo 128 dropped_after_poll).2.2.2.1 hguarded).1⟩

end Sample

end Appcall.Mcp
