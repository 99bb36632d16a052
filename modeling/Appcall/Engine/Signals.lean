/-
Signals are delivered once and in order.

A signal that the engine accepts is appended to the signals of its run, and a
workflow that waits for the name takes the first one that is not flagged yet.
The flag and the value in the history are written by one commit, so what the
history has delivered under a name is always what the flags say: the first
signals of the name, as many as are flagged.

`take_signal_spec` is the whole argument about the list; it needs that no flagged
signal stands behind an unflagged one of its name (`InOrder`), which taking the
first one keeps.
-/
import Appcall.Engine.History

set_option autoImplicit false

namespace Appcall.Durable

open Appcall.Refine

/-! ## Deliveries -/

/-- The payload an event of a history delivered under a signal name: the value of
a `Signal` command, or of a `Select` whose selected source is that signal. -/
def HistoryEvent.delivered (name : String) (event : HistoryEvent) : Option PayloadRef :=
  match event.command, event.value with
  | .Signal name', some (.Payload p) => if name' = name then some p else none
  | .Select sources, some (.Selected ⟨i, some p⟩) =>
    if sources[i]? = some (.Signal name) then some p else none
  | _, _ => none

/-- The payloads a history delivered under a signal name, in its order. -/
def delivered (history : List HistoryEvent) (name : String) : List PayloadRef :=
  history.filterMap (HistoryEvent.delivered name)

/-- The payloads of the signals of one name, in the order of their arrival. -/
def arrived (signals : List SignalEvent) (name : String) : List PayloadRef :=
  (signals.filter (fun s => decide (s.name = name))).map (·.value)

/-- How many signals of the name are flagged. -/
def consumed (signals : List SignalEvent) (name : String) : ℕ :=
  signals.countP (fun s => decide (s.name = name) && s.consumed)

/-- No flagged signal stands behind an unflagged one of its name. -/
def InOrder (signals : List SignalEvent) : Prop :=
  signals.Pairwise (fun s s' => s.name = s'.name → s'.consumed = true → s.consumed = true)

theorem consumed_le_arrived (signals : List SignalEvent) (name : String) :
    consumed signals name ≤ (arrived signals name).length := by
  unfold consumed arrived
  rw [List.length_map, ← List.countP_eq_length_filter]
  refine List.countP_mono_left (fun s _ h => ?_)
  exact (Bool.and_eq_true_iff.mp h).1

/-- What taking a signal does to the list. -/
structure Takes (signals : List SignalEvent) (name : String) (p : PayloadRef)
    (signals' : List SignalEvent) : Prop where
  arrived : ∀ n, arrived signals' n = arrived signals n
  consumed : ∀ n, consumed signals' n = consumed signals n + if n = name then 1 else 0
  next : (Durable.arrived signals name)[Durable.consumed signals name]? = some p
  kept : ∀ s ∈ signals', s ∈ signals ∨ s.name = name
  inOrder : InOrder signals'

variable {signals : List SignalEvent} {event : HistoryEvent} {r r' : RunRecord}
  {value : Option CommandValue} {m : Machine} {children : List RunRecord} {l : Label} {m' : Machine}
  {e : Engine}

/-- **The first unflagged signal** of a name is the one after those delivered. -/
theorem take_signal_spec {signals' : List SignalEvent} {name : String} {p : PayloadRef}
    (h : take_signal signals name = some (p, signals')) (ho : InOrder signals) :
    Takes signals name p signals' := by
  induction signals generalizing signals' with
  | nil => cases h
  | cons s signals ih =>
    obtain ⟨hhead, htail⟩ := List.pairwise_cons.mp ho
    unfold take_signal at h
    by_cases hs : s.name = name ∧ s.consumed = false
    · rw [if_pos hs] at h
      cases h
      obtain ⟨rfl, hflag⟩ := hs
      -- behind the signal that is taken none of the name is flagged
      have hzero : Durable.consumed signals s.name = 0 := by
        unfold Durable.consumed
        rw [List.countP_eq_zero]
        intro s' hs' hc
        simp only [Bool.and_eq_true, decide_eq_true_eq] at hc
        rw [hhead s' hs' hc.1.symm hc.2] at hflag
        cases hflag
      constructor
      · intro n
        simp [Durable.arrived, List.filter_cons]
        split <;> rfl
      · intro n
        by_cases hn : n = s.name
        · subst hn
          simp [Durable.consumed, hflag]
        · simp [Durable.consumed, Ne.symm hn, hn]
      · have hc : Durable.consumed (s :: signals) s.name = 0 := by
          simpa [Durable.consumed, List.countP_cons, hflag] using hzero
        rw [hc]
        simp [Durable.arrived]
      · intro s' hs'
        rcases List.mem_cons.mp hs' with rfl | h
        · exact .inr rfl
        · exact .inl (List.mem_cons_of_mem _ h)
      · exact List.pairwise_cons.mpr ⟨fun _ _ _ _ => rfl, htail⟩
    · rw [if_neg hs] at h
      obtain ⟨⟨q, rest⟩, hrest, heq⟩ := Option.map_eq_some_iff.mp h
      cases heq
      have hind := ih hrest htail
      constructor
      · intro n
        have := hind.arrived n
        simp only [Durable.arrived, List.filter_cons] at this ⊢
        split <;> simp [this]
      · intro n
        have := hind.consumed n
        simp only [Durable.consumed, List.countP_cons] at this ⊢
        omega
      · have := hind.next
        by_cases hn : s.name = name
        · -- the head is of the name, so it is flagged and counted
          have hflag : s.consumed = true := by
            by_contra hf
            exact hs ⟨hn, Bool.eq_false_iff.mpr hf⟩
          have hc : Durable.consumed (s :: signals) name = Durable.consumed signals name + 1 := by
            simp [Durable.consumed, hn, hflag]
          have ha : Durable.arrived (s :: signals) name
              = s.value :: Durable.arrived signals name := by
            simp [Durable.arrived, hn]
          rw [hc, ha, List.getElem?_cons_succ]
          exact this
        · have hc : Durable.consumed (s :: signals) name = Durable.consumed signals name := by
            simp [Durable.consumed, hn]
          have ha : Durable.arrived (s :: signals) name = Durable.arrived signals name := by
            simp [Durable.arrived, hn]
          rw [hc, ha]
          exact this
      · intro s' hs'
        rcases List.mem_cons.mp hs' with rfl | h'
        · exact .inl List.mem_cons_self
        · rcases hind.kept s' h' with h'' | h''
          · exact .inl (List.mem_cons_of_mem _ h'')
          · exact .inr h''
      · refine List.pairwise_cons.mpr ⟨fun s' hs' hname hflag => ?_, hind.inOrder⟩
        rcases hind.kept s' hs' with h' | h'
        · exact hhead s' h' hname hflag
        · by_contra hf
          exact hs ⟨hname.trans h', Bool.eq_false_iff.mpr hf⟩

/-! ## The list and the history of one run -/

/-- **The invariant of a run**: under every name its history has delivered the
first signals, as many as are flagged. -/
structure Delivers (r : RunRecord) : Prop where
  inOrder : InOrder r.signals
  taken : ∀ name, delivered r.history name
    = (arrived r.signals name).take (consumed r.signals name)

theorem delivered_append (h h' : List HistoryEvent) (name : String) :
    delivered (h ++ h') name = delivered h name ++ delivered h' name := by
  unfold delivered
  exact List.filterMap_append

theorem HistoryEvent.delivered_open (h : event.value = none) (name : String) :
    event.delivered name = none := by
  unfold HistoryEvent.delivered
  rw [h]
  cases event.command <;> rfl

theorem delivered_opened (b : RunRecord) (pending : Option Command) (name : String) :
    delivered (opened b pending).history name = delivered b.history name := by
  cases pending with
  | none => rfl
  | some c =>
    show delivered (b.history ++ [⟨c, none⟩]) name = _
    rw [delivered_append]
    have hnone : (⟨c, none⟩ : HistoryEvent).delivered name = none :=
      HistoryEvent.delivered_open rfl name
    simp [delivered, hnone]

theorem delivered_resolve {h : List HistoryEvent} (ho : OneOpen h) {e : HistoryEvent}
    (he : h[seal_end h]? = some e) (e' : HistoryEvent) (name : String) :
    delivered (h.set (seal_end h) e') name = delivered h name ++ (e'.delivered name).toList := by
  have hval := seal_end_open he
  have hlast := ho.last he hval
  obtain ⟨hlt, hget⟩ := List.getElem?_eq_some_iff.mp he
  have hsplit : h = h.take (seal_end h) ++ [e] := by
    conv_lhs => rw [← List.take_append_drop (seal_end h) h]
    rw [List.drop_eq_getElem_cons hlt, hget, List.drop_of_length_le (by omega)]
  have hset : h.set (seal_end h) e' = h.take (seal_end h) ++ [e'] := by
    rw [List.set_eq_take_append_cons_drop, if_pos hlt, List.drop_of_length_le (by omega)]
  rw [hset]
  conv_rhs => rw [hsplit]
  rw [delivered_append, delivered_append]
  have hnone := HistoryEvent.delivered_open hval name
  cases hd : e'.delivered name <;> simp [delivered, hnone, hd]

/-! ## Commits -/

/-- The value of a command, and the signals it left: a signal was taken and the
value delivers it, or nothing was taken and nothing is delivered. -/
def Hands (c : Command) (value : Option CommandValue) (signals signals' : List SignalEvent) :
    Prop :=
  (signals' = signals ∧ ∀ name, HistoryEvent.delivered name ⟨c, value⟩ = none)
    ∨ ∃ name p v, value = some v ∧ take_signal signals name = some (p, signals')
      ∧ ∀ n, HistoryEvent.delivered n ⟨c, some v⟩ = if n = name then some p else none

theorem Hands.nothing {c : Command} : Hands c none signals signals :=
  .inl ⟨rfl, fun name => HistoryEvent.delivered_open rfl name⟩

theorem Selects.hands {v : String → Option Entry} {now : ℤ} {i : ℕ} {sources : List WaitSource}
    (h : Selects v now r i sources value r') (before : List WaitSource) (hi : before.length = i) :
    Hands (.Select (before ++ sources)) value r.signals r'.signals := by
  -- the source at the position that was selected
  have hat : ∀ source rest, (before ++ source :: rest)[before.length]? = some source := by
    intro source rest
    rw [List.getElem?_append_right le_rfl, Nat.sub_self, List.getElem?_cons_zero]
  have hlater : ∀ source rest, before ++ source :: rest = (before ++ [source]) ++ rest := by simp
  induction h generalizing before with
  | nothing | child_failed | child_cancelled => exact .nothing
  | timer_fired => exact .inl ⟨rfl, fun name => rfl⟩
  | @signal_taken r i name sources p signals htake =>
    refine .inr ⟨name, p, _, rfl, htake, fun n => ?_⟩
    subst hi
    unfold HistoryEvent.delivered
    simp only [hat, Option.some.injEq, WaitSource.Signal.injEq]
    by_cases hn : name = n
    · rw [if_pos hn, if_pos hn.symm]
    · rw [if_neg hn, if_neg (Ne.symm hn)]
  | @child_completed r run i child sources =>
    refine .inl ⟨rfl, fun name => ?_⟩
    subst hi
    unfold HistoryEvent.delivered
    cases run.output with
    | none => rfl
    | some p => simp
  | activity_done =>
    refine .inl ⟨rfl, fun name => ?_⟩
    subst hi
    unfold HistoryEvent.delivered
    simp
  | timer_later _ _ ih | signal_later _ _ ih =>
    rw [hlater]
    exact ih _ (by simp [hi])
      (fun source rest => by simp) (by simp)
  | child_later _ _ _ _ ih =>
    rw [hlater]
    exact ih _ (by simp [hi]) (fun source rest => by simp) (by simp)
  | activity_later _ _ _ ih =>
    rw [hlater]
    exact ih _ (by simp [hi]) (fun source rest => by simp) (by simp)

theorem with_task_signals (r : RunRecord) (epoch index : ℕ) (name version : String)
    (input : PayloadRef) (policy : EffectPolicy) :
    (with_task r epoch index name version input policy).signals = r.signals := by
  unfold with_task
  split <;> rfl

theorem Evaluates.hands {index : ℕ} {now : ℤ} {c : Command}
    (h : Evaluates m r index now c value r' children) : Hands c value r.signals r'.signals := by
  cases h with
  | spawned | activity_done => exact .inl ⟨with_task_signals _ _ _ _ _ _ _, fun name => rfl⟩
  | activity_later =>
    rw [with_task_signals]
    exact .nothing
  | timer_fired | child => exact .inl ⟨rfl, fun name => rfl⟩
  | timer_later | signal_later | continue_too_early | continued | continues => exact .nothing
  | @signal_taken name p signals htake =>
    refine .inr ⟨name, p, _, rfl, htake, fun n => ?_⟩
    unfold HistoryEvent.delivered
    by_cases hn : name = n
    · simp [hn]
    · simp [hn, Ne.symm hn]
  | select _ hsel => exact Selects.hands hsel [] rfl

/-- What one commit does to the signals and the deliveries of its run. -/
inductive Mails (l : Label) (r r' : RunRecord) : Prop where
  | kept : r'.signals = r.signals → (∀ name, delivered r'.history name = delivered r.history name) →
      (∀ name value, l ≠ .signal r.id name value) → Mails l r r'
  | accepted (name : String) (value : PayloadRef) : l = .signal r.id name value →
      r'.signals = r.signals ++ [{ name, value, consumed := false }] →
      r'.history = r.history → Mails l r r'
  | delivered (name : String) (p : PayloadRef) : take_signal r.signals name = some (p, r'.signals) →
      (∀ n, delivered r'.history n
        = delivered r.history n ++ if n = name then [p] else []) →
      (∀ name value, l ≠ .signal r.id name value) → Mails l r r'

theorem Turn.mails {now : ℤ} {r1 : RunRecord} {pending : Option Command}
    (h : Turn m now (begun r) pending event none r1 children) (hh : r'.history = r1.history)
    (hs : r'.signals = r1.signals) (hl : ∀ name value, l ≠ .signal r.id name value) :
    Mails l r r' := by
  refine .kept ?_ (fun name => ?_) hl
  · rw [hs]
    rcases h.evaluated.hands with ⟨h1, -⟩ | ⟨_, _, _, h1, -⟩
    · exact h1
    · cases h1
  · rw [hh, h.frame.2.1]
    exact delivered_opened (begun r) pending name

/-- **Every commit** leaves the mail of its run alone, accepts one signal, or
delivers one. -/
theorem Change.mails (h : Change m l r r' children) (ho : OneOpen r.history) : Mails l r r' := by
  cases h with
  | @signal r name value _ => exact .accepted name value rfl rfl rfl
  | complete =>
    rw [completed_run_frame]
    exact .kept rfl (fun _ => rfl) (by simp)
  | fail =>
    rw [failed_run_frame]
    exact .kept rfl (fun _ => rfl) (by simp)
  | stop _ ht | hold _ ht | unimplemented _ ht | wait _ ht =>
    exact ht.mails (by simp) (by simp) (by simp)
  | dispatch_exhausted _ ht =>
    refine ht.mails ?_ ?_ (by simp)
    · simp [mark_retry_exhausted]
    · simp [mark_retry_exhausted]
  | dispatch _ ht =>
    rw [still_ready_frame]
    exact ht.mails (by simp) (by simp) (by simp)
  | @resolve r r1 now pending event value children _ ht =>
    have hev := ht.open_event
    have hopen := ht.blocked.one_open (b := begun r) ho
    have hset : ∀ name, delivered (r1.history.set (seal_end (opened (begun r) pending).history)
        { event with value := some value }) name
          = delivered r.history name
            ++ (HistoryEvent.delivered name { event with value := some value }).toList := by
      intro name
      rw [ht.frame.2.1, delivered_resolve hopen hev, delivered_opened]
      rfl
    have hsignals : (opened (begun r) pending).signals = r.signals := rfl
    rcases ht.evaluated.hands with ⟨hsame, hnone⟩ | ⟨name, p, v, hv, htake, hdel⟩
    · refine .kept (by simpa [hsignals] using hsame) (fun name => ?_) (by simp)
      have hnone' : HistoryEvent.delivered name { event with value := some value } = none :=
        hnone name
      show delivered (r1.history.set _ _) name = _
      rw [hset name, hnone']
      simp
    · cases hv
      refine .delivered name p (by simpa [hsignals] using htake) (fun n => ?_) (by simp)
      have hdel' : HistoryEvent.delivered n { event with value := some value }
          = if n = name then some p else none := hdel n
      show delivered (r1.history.set _ _) n = _
      rw [hset n, hdel']
      split <;> rfl
  | _ =>
    exact .kept rfl (fun _ => rfl) (by simp)

theorem Mails.delivers (h : Mails l r r') (hr : Delivers r) : Delivers r' := by
  cases h with
  | kept hs hd =>
    refine ⟨hs ▸ hr.inOrder, fun name => ?_⟩
    rw [hd name, hs]
    exact hr.taken name
  | accepted name value _ hs hh =>
    constructor
    · rw [hs]
      refine List.pairwise_append.mpr ⟨hr.inOrder, List.pairwise_singleton _ _, ?_⟩
      intro s _ s' hs' _ hflag
      rw [List.mem_singleton.mp hs'] at hflag
      cases hflag
    · intro n
      have hc : consumed r'.signals n = consumed r.signals n := by
        rw [hs]
        simp [consumed]
      have ha : arrived r'.signals n = arrived r.signals n ++ arrived [⟨name, value, false⟩] n := by
        rw [hs]
        simp [arrived]
      rw [hc, ha, hh, List.take_append_of_le_length (consumed_le_arrived _ _)]
      exact hr.taken n
  | delivered name p htake hd =>
    have hspec := take_signal_spec htake hr.inOrder
    refine ⟨hspec.inOrder, fun n => ?_⟩
    rw [hd n, hspec.arrived, hspec.consumed, hr.taken n]
    by_cases hn : n = name
    · subst hn
      rw [if_pos rfl, if_pos rfl, List.take_add_one, hspec.next]
      rfl
    · rw [if_neg hn, if_neg hn, List.append_nil, Nat.add_zero]

/-! ## Runs of the engine -/

/-- Every stored run delivers its signals in order. -/
def Mailed (m : Machine) : Prop :=
  ∀ id en, m.runs id = some en → OneOpen en.record.history ∧ Delivers en.record

theorem NewRun.mailed (h : NewRun r) : OneOpen r.history ∧ Delivers r := by
  refine ⟨?_, ?_, fun name => ?_⟩
  · rw [h.history]
    intro e he
    cases he
  · rw [h.signals]
    exact List.Pairwise.nil
  · rw [h.history, h.signals]
    rfl

theorem Trans.mailed (h : Trans m l m') (hm : Mailed m) : Mailed m' := by
  intro id en hen
  rcases h.backward hen with ⟨c, hr⟩ | ⟨r, c, run, children, hr, -, hc, heq⟩ | ⟨-, hn, -⟩
  · exact hm id ⟨en.record, c⟩ hr
  · obtain ⟨hopen, hdel⟩ := hm id _ hr
    have hd := (hc.mails hopen).delivers hdel
    rw [heq]
    exact ⟨(hc.extends hopen).2, hd.inOrder, hd.taken⟩
  · exact hn.mailed

theorem Reachable.mailed (h : Reachable e) : Mailed e.machine :=
  Reachable.invariant (fun m hm id en hen => by rw [hm id] at hen; cases hen)
    (fun _ _ _ ht hI => ht.mailed hI) h

/-- The signals of one name that a run has, flagged or not. -/
def mail (m : Machine) (id name : String) : List PayloadRef :=
  match m.runs id with
  | some en => arrived en.record.signals name
  | none => []

/-- The signal a move adds to a run under a name. -/
def Label.posts (id name : String) : Label → List PayloadRef
  | .signal id' name' value => if id' = id ∧ name' = name then [value] else []
  | _ => []

theorem Label.posts_nil {id name : String} (h : ∀ n v, l ≠ .signal id n v) :
    l.posts id name = [] := by
  cases l with
  | signal id' name' value =>
    refine if_neg (fun hboth => ?_)
    rw [hboth.1] at h
    exact h name' value rfl
  | _ => rfl

theorem Change.signal_id {id name : String} {value : PayloadRef}
    (h : Change m (.signal id name value) r r' children) : id = r.id := by
  cases h
  rfl

theorem Mails.arrived (h : Mails l r r') (hr : Delivers r) (name : String) :
    arrived r'.signals name = Durable.arrived r.signals name
      ++ l.posts r.id name := by
  cases h with
  | kept hs _ hl => rw [hs, Label.posts_nil hl, List.append_nil]
  | accepted name' value hl hs _ =>
    rw [hs, hl]
    by_cases hn : name' = name
    · simp [Durable.arrived, Label.posts, hn]
    · simp [Durable.arrived, Label.posts, hn]
  | delivered name' p htake _ hl =>
    rw [(take_signal_spec htake hr.inOrder).arrived, Label.posts_nil hl, List.append_nil]

/-- **One move** adds to the signals of a run what its label says. -/
theorem Trans.posts (h : Trans m l m') (hm : Mailed m) (id name : String) :
    mail m' id name = mail m id name ++ l.posts id name := by
  -- a run that the move does not commit: it is as it was, or new and without signals
  have hother : (∀ n v, l ≠ .signal id n v) →
      (∀ r c, m.runs id = some ⟨r, c⟩ → ∃ c', m'.runs id = some ⟨r, c'⟩) →
      mail m' id name = mail m id name ++ l.posts id name := by
    intro hl hkept
    rw [Label.posts_nil hl, List.append_nil]
    unfold mail
    cases hr : m.runs id with
    | some en =>
      obtain ⟨c', hr'⟩ := hkept en.record en.wakeup hr
      rw [hr']
    | none =>
      cases hr' : m'.runs id with
      | none => rfl
      | some en' =>
        rcases h.backward hr' with ⟨c, h1⟩ | ⟨r, c, _, _, h1, _⟩ | ⟨-, hn, -⟩
        · rw [hr] at h1
          cases h1
        · rw [hr] at h1
          cases h1
        · simp only [hn.signals]
          rfl
  cases h with
  | @change _ r run c children hs hc hf =>
    rw [← hc.frame.id] at hf
    by_cases hid : id = r.id
    · subst hid
      have hself := Machine.commit_self hf
      rw [hc.frame.id] at hself
      obtain ⟨hopen, hdel⟩ := hm r.id _ hs
      unfold mail
      rw [hself, hs]
      exact (hc.mails hopen).arrived hdel name
    · refine hother ?_ (fun r1 c1 hr1 => ?_)
      · rintro n v rfl
        exact hid hc.signal_id
      · rw [← hc.frame.id] at hid
        exact ⟨_, Machine.commit_other hf hid hr1⟩
  | @start id0 _ _ _ _ _ hnone =>
    refine hother (by simp) (fun r1 c1 hr1 => ⟨c1, ?_⟩)
    have hid : id ≠ id0 := by
      rintro rfl
      rw [hnone] at hr1
      cases hr1
    exact (Function.update_of_ne hid _ _).trans hr1
  | restart failed =>
    exact hother (by simp) (fun r1 c1 hr1 => reopened_iff.mpr ⟨c1, hr1⟩)
  | idle | park | unpark | hand_out | release | register_workflow | configure =>
    exact hother (by simp) (fun r1 c1 hr1 => ⟨c1, hr1⟩)

theorem Path.posts {ls : List Label} (hp : Path Trans m ls m') (hm : Mailed m) (id name : String) :
    mail m' id name = mail m id name ++ ls.flatMap (Label.posts id name) := by
  induction hp with
  | nil => simp
  | cons htrans _ ih =>
    rw [ih (htrans.mailed hm), htrans.posts hm, List.flatMap_cons, List.append_assoc]

/-- The payload a step has the run `id` accept under a name: that of a call of
`signal` that answers `Ok`. -/
def Step.accepts (step : Step) (e : Engine) (id name : String) : List PayloadRef :=
  match step.op, (step.exec e).1 with
  | .signal id' name' value, .ok _ => if id' = id ∧ name' = name then [value] else []
  | _, _ => []

/-- The payloads that a run of the engine had the run `id` accept under a name,
in the order of their arrival. -/
def accepted (e : Engine) : List Step → String → String → List PayloadRef
  | [], _, _ => []
  | step :: steps, id, name =>
    step.accepts e id name ++ accepted (step.exec e).2 steps id name

theorem Outcome.posts {step : Step} {ls : List Label}
    (h : Outcome e.machine step.op (step.exec e).1 ls) (id name : String) :
    ls.flatMap (Label.posts id name) = step.accepts e id name := by
  have htells := h.tells
  have hemits := h.emits
  unfold Step.accepts
  -- an operation that is no signal makes no move of a signal
  have hnone : (∀ n v, ∀ l ∈ ls, l ≠ .signal id n v) → ls.flatMap (Label.posts id name) = [] := by
    intro hno
    rw [List.flatMap_eq_nil_iff]
    exact fun l hl => Label.posts_nil (fun n v => hno n v l hl)
  cases hop : step.op with
  | signal id' name' value =>
    rw [hop] at htells
    rcases htells with ⟨⟨reply, hres⟩, rfl⟩ | ⟨⟨error, hres⟩, rfl⟩
    · rw [hres]
      simp [Label.posts]
    · rw [hres]
      rfl
  | _ =>
    refine hnone (fun n v l hl heq => ?_)
    have hemit := hemits l hl
    rw [hop, heq] at hemit
    simp [Operation.emits, Label.releases, Label.drives, Label.cancels] at hemit

theorem Step.posts (he : Reachable e) (step : Step) (id name : String) :
    mail (step.exec e).2.machine id name
      = mail e.machine id name ++ step.accepts e id name := by
  obtain ⟨ls, hp, -, hout⟩ := step.path he.wellFormed
  rw [Path.posts hp he.mailed, hout.posts]

theorem mail_after (he : Reachable e) (steps : List Step) (id name : String) :
    mail (after e steps).machine id name = mail e.machine id name ++ accepted e steps id name := by
  induction steps generalizing e with
  | nil => simp [after, accepted]
  | cons step steps ih =>
    have hrest := ih (he.step step)
    rw [step.posts he, List.append_assoc] at hrest
    exact hrest

/-- **Signals are delivered exactly once and in order.** At every point of every
run of the engine: the signals of a name that a stored run has are the accepted
ones, none lost and none twice, and what its history has delivered under the name
are the first of them, as many as are flagged. -/
theorem signals_delivered_in_order (codec : Codec) (sha256_hex : String → String)
    (steps : List Step) (id name : String) (r : RunRecord)
    (hr : (after (Engine.init codec sha256_hex) steps).store.load id = .ok r) :
    arrived r.signals name = accepted (Engine.init codec sha256_hex) steps id name
      ∧ delivered r.history name
        = (accepted (Engine.init codec sha256_hex) steps id name).take
            (consumed r.signals name) := by
  have hreach : Reachable (after (Engine.init codec sha256_hex) steps) :=
    ⟨codec, sha256_hex, steps, rfl⟩
  obtain ⟨c, hc⟩ := (load_iff hreach.wellFormed).mp hr
  have hall := mail_after (Reachable.init codec sha256_hex) steps id name
  have hinit : mail (Engine.init codec sha256_hex).machine id name = [] := by
    unfold mail
    rw [init_runs]
  have harrived : arrived r.signals name
      = accepted (Engine.init codec sha256_hex) steps id name := by
    rw [hinit, List.nil_append] at hall
    unfold mail at hall
    rw [hc] at hall
    exact hall
  obtain ⟨-, hdel⟩ := hreach.mailed id _ hc
  refine ⟨harrived, ?_⟩
  rw [← harrived]
  exact hdel.taken name

/-- A workflow that waits for a signal and then for the signal or a far timer, and
a host that sends it three. -/
def Sample.three_signals : List Step :=
  Sample.start (fun _ => .signal "s" (.and_then fun _ =>
      .select [.Timer 100, .Signal "s"] (.and_then fun _ =>
        .timer 200 (.and_then fun _ => .ret (.ok Sample.payload)))))
    ++ [Sample.call (.signal "run" "s" ⟨"p1", false, by decide⟩),
      Sample.call (.signal "run" "s" ⟨"p2", false, by decide⟩), Sample.drive "run" 0,
      Sample.call (.signal "run" "s" ⟨"p3", false, by decide⟩), Sample.drive "run" 0]

/-- Of the three signals the first two are delivered, in order. -/
theorem signals_delivered_three :
    ∃ r, (after (Engine.init Sample.codec id) Sample.three_signals).store.load "run" = .ok r
      ∧ consumed r.signals "s" = 2
      ∧ delivered r.history "s"
        = (accepted (Engine.init Sample.codec id) Sample.three_signals "run" "s").take 2 := by
  have hcount : ((after (Engine.init Sample.codec id) Sample.three_signals).store.load "run").map
      (fun r => consumed r.signals "s") = .ok 2 := by decide +kernel
  cases hr : (after (Engine.init Sample.codec id) Sample.three_signals).store.load "run" with
  | error e =>
    rw [hr] at hcount
    cases hcount
  | ok r =>
    rw [hr] at hcount
    have htwo : consumed r.signals "s" = 2 := Except.ok.inj hcount
    have hdel := (signals_delivered_in_order Sample.codec id Sample.three_signals "run" "s" r hr).2
    rw [htwo] at hdel
    exact ⟨r, rfl, htwo, hdel⟩

end Appcall.Durable
