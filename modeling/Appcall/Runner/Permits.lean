/-
The permits of the runner.

`Sound` says how the counters, the queue and the log go with the stages of the requests. Inside
the `finally` of a request its permit belongs to nobody; `extra` counts it. From there it goes
to the request that has waited longest, or is given back.

Each handler is a few writes to one request with counters and queue beside it. The lemmas of the
first sections say what such a write does to the parts of `Sound`; those of the last say that
every operation of the server keeps it, with `extra` at zero between two operations.
-/
import Appcall.Lib.Count
import Appcall.Runner.Book

set_option autoImplicit false

namespace Appcall.Serve

/-! ## The invariant -/

/-- How the counters, the queue and the log go with the requests; `extra` permits belong to
nobody. -/
structure Sound (l : Limits) (extra : ℕ) (s : State) : Prop where
  paths : ∀ (n : ℕ) (r : Request), s.requests[n]? = some r → Path r.stage (kinds s.log n)
  fresh : ∀ n, s.requests.length ≤ n → kinds s.log n = []
  refused : ∀ r ∈ s.requests, r.stage = .settled false ∨ r.stage = .reading false →
    r.aborted = true ∨ r.admittedAt + maxOperationTimeoutMs ≤ s.now
  active : s.active = s.requests.countP (fun r => r.stage.holds) + extra
  bound : s.active ≤ l.maxConcurrent
  queue_bound : s.queue.length ≤ l.maxQueued
  full : s.queue ≠ [] → s.active = l.maxConcurrent
  waiting : ∀ n, n ∈ s.queue ↔ ∃ r, s.requests[n]? = some r ∧ r.stage = .waiting
  nodup : s.queue.Nodup
  book : Book s
  recycled : .recycled ∈ s.log → s.draining = true ∧ s.active = 0
  counted : s.completed = s.log.countP Event.is_completed

theorem new_sound (l : Limits) : Sound l 0 .new where
  paths := fun n r h => by
    rw [show State.new.requests[n]? = none from rfl] at h
    cases h
  fresh := fun _ _ => rfl
  refused := fun _ h => absurd h List.not_mem_nil
  active := rfl
  bound := Nat.zero_le _
  queue_bound := Nat.zero_le _
  full := fun h => absurd rfl h
  waiting := fun n => ⟨fun h => absurd h List.not_mem_nil, fun ⟨r, h, _⟩ => by
    rw [show State.new.requests[n]? = none from rfl] at h
    cases h⟩
  nodup := List.nodup_nil
  book :=
    { order := rfl
      drained := ⟨(fun h => nomatch h), (fun h => absurd h List.not_mem_nil)⟩
      late := fun n h => by
        obtain ⟨before, after, heq, -⟩ := h
        cases before with
        | nil => cases heq
        | cons => cases heq
      once := Nat.zero_le _
      fifo := Machine.logged_nil }
  recycled := fun h => absurd h List.not_mem_nil
  counted := rfl

variable {l : Limits} {extra extra' : ℕ} {s s' : State}

/-! ## One request goes on -/

variable {n : ℕ} {r : Request} {admitted : Bool}

theorem getElem?_set_cases {α : Type} {l : List α} {m : ℕ} {a b : α}
    (h : (l.set n a)[m]? = some b) :
    (m = n ∧ b = a) ∨ (m ≠ n ∧ l[m]? = some b) := by
  rw [List.getElem?_set] at h
  split at h
  next heq =>
    split at h
    next =>
      cases h
      exact .inl ⟨heq.symm, rfl⟩
    next => cases h
  next hne => exact .inr ⟨Ne.symm hne, h⟩

theorem Sound.paths_set (h : Sound l extra s) (r' : Request) {es : List Event}
    (hr : s.requests[n]? = some r) (hothers : ∀ m, m ≠ n → kinds es m = [])
    (hpath : Path r'.stage (kinds s.log n ++ kinds es n)) :
    (∀ (m : ℕ) (x : Request), (s.requests.set n r')[m]? = some x →
        Path x.stage (kinds (s.log ++ es) m))
      ∧ ∀ m, (s.requests.set n r').length ≤ m → kinds (s.log ++ es) m = [] := by
  constructor
  · intro m x hx
    rw [kinds_append]
    rcases getElem?_set_cases hx with ⟨rfl, rfl⟩ | ⟨hne, hold⟩
    · exact hpath
    · rw [hothers m hne, List.append_nil]
      exact h.paths m x hold
  · intro m hm
    rw [List.length_set] at hm
    have hne : m ≠ n := by
      have := (List.getElem?_eq_some_iff.mp hr).1
      omega
    rw [kinds_append, h.fresh m hm, hothers m hne, List.append_nil]

theorem Sound.refused_set (h : Sound l extra s) {r' : Request} {now : ℕ} (hnow : s.now ≤ now)
    (hrefused : r'.stage = .settled false ∨ r'.stage = .reading false →
      r'.aborted = true ∨ r'.admittedAt + maxOperationTimeoutMs ≤ now) :
    ∀ x ∈ s.requests.set n r', x.stage = .settled false ∨ x.stage = .reading false →
      x.aborted = true ∨ x.admittedAt + maxOperationTimeoutMs ≤ now := by
  intro x hx hstage
  rcases List.mem_or_eq_of_mem_set hx with hx | rfl
  · exact (h.refused x hx hstage).imp_right (fun hold => Nat.le_trans hold hnow)
  · exact hrefused hstage

theorem Sound.moves (h : Sound l extra s) {r' : Request} (es : List Event)
    (hr : s.requests[n]? = some r) (hrequests : s'.requests = s.requests.set n r')
    (hlog : s'.log = s.log ++ es) (hqueue : s'.queue = s.queue) (hactive : s'.active = s.active)
    (hnow : s'.now = s.now) (hdraining : s'.draining = s.draining)
    (hcompleted : s'.completed = s.completed + es.countP Event.is_completed)
    (hothers : ∀ m, m ≠ n → kinds es m = []) (hpath : Path r'.stage (kinds s.log n ++ kinds es n))
    (hwaits : r.stage ≠ .waiting) (hwaits' : r'.stage ≠ .waiting)
    (hrefused : r'.stage = .settled false ∨ r'.stage = .reading false →
      r'.aborted = true ∨ r'.admittedAt + maxOperationTimeoutMs ≤ s.now)
    (hextra : extra' + (if r'.stage.holds then 1 else 0)
      = extra + (if r.stage.holds then 1 else 0)) (haside : Aside es)
    (harrived : ∀ n, .request n .arrived ∉ es) (hdrained : .drained ∉ es)
    (hrecycled : .recycled ∉ es) : Sound l extra' s' where
  paths := by
    rw [hrequests, hlog]
    exact (h.paths_set r' hr hothers hpath).1
  fresh := by
    rw [hrequests, hlog]
    exact (h.paths_set r' hr hothers hpath).2
  refused := by
    rw [hrequests, hnow]
    exact h.refused_set (Nat.le_refl _) hrefused
  active := by
    have hset := countP_set_of_getElem? (b := r') hr (fun r => r.stage.holds)
    rw [hactive, hrequests, h.active]
    omega
  bound := by
    rw [hactive]
    exact h.bound
  queue_bound := by
    rw [hqueue]
    exact h.queue_bound
  full := by
    rw [hqueue, hactive]
    exact h.full
  waiting := fun m => by
    rw [hqueue, hrequests, h.waiting]
    constructor
    · rintro ⟨x, hx, hstage⟩
      have hne : n ≠ m := by
        rintro rfl
        rw [hr] at hx
        cases hx
        exact hwaits hstage
      exact ⟨x, by rwa [List.getElem?_set_ne hne], hstage⟩
    · rintro ⟨x, hx, hstage⟩
      rcases getElem?_set_cases hx with ⟨-, rfl⟩ | ⟨-, hold⟩
      · exact absurd hstage hwaits'
      · exact ⟨x, hold, hstage⟩
  nodup := by
    rw [hqueue]
    exact h.nodup
  book := h.book.aside hlog hqueue hdraining haside harrived hdrained hrecycled
  recycled := by
    rw [hlog, hdraining, hactive, List.mem_append]
    exact fun hmem => h.recycled (hmem.resolve_right hrecycled)
  counted := by
    rw [hcompleted, hlog, List.countP_append, h.counted]

/-! ## A wait ends -/

def settle_kind (admitted : Bool) : Kind := if admitted then .permitted else .refused

theorem settle_log (s : State) (n : ℕ) (r : Request) (admitted : Bool) :
    (s.settleQueued n r admitted).log = s.log ++ [.request n (settle_kind admitted)] := rfl

theorem settle_mem {m : ℕ} {kind : Kind}
    (h : Event.request m kind ∈ [Event.request n (settle_kind admitted)]) :
    m = n ∧ (kind = .permitted ∧ admitted = true ∨ kind = .refused ∧ admitted = false) := by
  have heq := List.mem_singleton.mp h
  cases admitted with
  | true =>
    cases heq
    exact ⟨rfl, .inl ⟨rfl, rfl⟩⟩
  | false =>
    cases heq
    exact ⟨rfl, .inr ⟨rfl, rfl⟩⟩

theorem ended_settle (log : List Event) (n m : ℕ) (admitted : Bool) :
    ended (log ++ [.request n (settle_kind admitted)]) m = (ended log m || decide (m = n)) := by
  have hiff : (.request m .permitted ∈ log ++ [Event.request n (settle_kind admitted)]
      ∨ .request m .refused ∈ log ++ [Event.request n (settle_kind admitted)])
      ↔ ((.request m .permitted ∈ log ∨ .request m .refused ∈ log) ∨ m = n) := by
    rw [List.mem_append, List.mem_append]
    constructor
    · rintro ((hold | hnew) | (hold | hnew))
      · exact .inl (.inl hold)
      · exact .inr (settle_mem hnew).1
      · exact .inl (.inr hold)
      · exact .inr (settle_mem hnew).1
    · rintro ((hold | hold) | rfl)
      · exact .inl (.inl hold)
      · exact .inr (.inl hold)
      · cases admitted with
        | true => exact .inl (.inr (List.mem_singleton_self _))
        | false => exact .inr (.inr (List.mem_singleton_self _))
  rw [ended, ended, ← Bool.decide_or]
  exact decide_eq_decide.mpr hiff

theorem Book.settle {s : State} (h : Book s) (hnodup : s.queue.Nodup)
    (hqueued : .queued ∈ kinds s.log n) (hfifo : admitted = true →
      ∀ m ∈ (arrivals s.log).takeWhile (fun m => decide (m ≠ n)), ended s.log m = true) :
    Book (s.settleQueued n r admitted) where
  order := by
    have harrivals : arrivals (s.log ++ [.request n (settle_kind admitted)])
        = arrivals s.log := by
      have hnone : arrivals [.request n (settle_kind admitted)] = [] := by
        cases admitted with
        | true => rfl
        | false => rfl
      rw [arrivals_append, hnone, List.append_nil]
    rw [settle_log, harrivals]
    change s.queue.erase n = _
    rw [hnodup.erase_eq_filter, h.order, List.filter_filter]
    apply List.filter_congr
    intro m _
    rw [ended_settle]
    by_cases hm : m = n
    · subst hm
      simp
    · simp [hm]
  drained := by
    rw [settle_log, List.mem_append]
    change s.draining = true ↔ _
    rw [h.drained]
    refine ⟨.inl, fun hmem => hmem.resolve_right (fun hnew => ?_)⟩
    cases List.mem_singleton.mp hnew
  late := fun m hlate => by
    rw [settle_log] at hlate ⊢
    rcases late_append hlate with hold | ⟨hnew, -⟩
    · -- who is late has not come to wait
      obtain ⟨hnot_queued, hnot_permitted⟩ := h.late m hold
      have hne : n ≠ m := by
        rintro rfl
        exact hnot_queued hqueued
      rw [kinds_append, kinds_other hne, kinds_nil, List.append_nil]
      exact ⟨hnot_queued, hnot_permitted⟩
    · rcases (settle_mem hnew).2 with ⟨hkind, -⟩ | ⟨hkind, -⟩
      · cases hkind
      · cases hkind
  once := by
    have hnot : Event.recycled ∉ [Event.request n (settle_kind admitted)] := by
      intro hmem
      cases List.mem_singleton.mp hmem
    rw [settle_log, List.count_append, List.count_eq_zero_of_not_mem hnot]
    exact h.once
  fifo := by
    rw [settle_log]
    apply Machine.logged_append_singleton h.fifo
    intro m heq
    cases admitted with
    | true =>
      cases heq
      exact hfifo rfl
    | false => cases heq

/-- A waiting request is admitted or refused. -/
theorem Sound.settle (h : Sound l extra s) (aborted : Bool) (hr : s.requests[n]? = some r)
    (hwaits : r.stage = .waiting) (hrefused : admitted = false →
      aborted = true ∨ r.admittedAt + maxOperationTimeoutMs ≤ s.now) (hfifo : admitted = true →
      ∀ m ∈ (arrivals s.log).takeWhile (fun m => decide (m ≠ n)), ended s.log m = true)
    (hextra : extra' + (if admitted then 1 else 0) = extra) :
    Sound l extra' (s.settleQueued n { r with aborted } admitted) := by
  have hpath := h.paths n r hr
  rw [hwaits] at hpath
  have hkinds : kinds s.log n = [.arrived, .queued] := by
    generalize kinds s.log n = ks at hpath
    cases hpath
    rfl
  have hmem : n ∈ s.queue := (h.waiting n).mpr ⟨r, hr, hwaits⟩
  have hothers : ∀ m, m ≠ n → kinds [Event.request n (settle_kind admitted)] m = [] := by
    intro m hm
    rw [kinds_other hm.symm, kinds_nil]
  have hnew : Path (Stage.settled admitted)
      (kinds s.log n ++ kinds [.request n (settle_kind admitted)] n) := by
    rw [hkinds, kinds_request, kinds_nil]
    cases admitted with
    | true => exact .admitted
    | false => exact .refused
  have hpaths := h.paths_set { r with aborted, stage := .settled admitted } hr hothers hnew
  have hnotrecycled : .recycled ∈ (s.settleQueued n { r with aborted } admitted).log →
      .recycled ∈ s.log := by
    intro hlog
    rcases List.mem_append.mp hlog with hold | hlog
    · exact hold
    · cases List.mem_singleton.mp hlog
  constructor
  · exact hpaths.1
  · exact hpaths.2
  · refine h.refused_set (Nat.le_refl _) (fun hstage => ?_)
    rcases hstage with hstage | hstage
    · injection hstage with hstage
      exact hrefused hstage
    · cases hstage
  · have hset := countP_set_of_getElem? (b := { r with aborted, stage := .settled admitted }) hr
      (fun r => r.stage.holds)
    change s.active = (s.requests.set n _).countP _ + _
    rw [h.active]
    cases admitted with
    | true =>
      simp only [hwaits, Stage.holds, if_true, Bool.false_eq_true, if_false] at hset hextra ⊢
      omega
    | false =>
      simp only [hwaits, Stage.holds, Bool.false_eq_true, if_false] at hset hextra ⊢
      omega
  · exact h.bound
  · exact Nat.le_trans (List.length_erase_le) h.queue_bound
  · intro _
    exact h.full (List.ne_nil_of_mem hmem)
  · intro m
    change m ∈ s.queue.erase n ↔ _
    rw [h.nodup.mem_erase_iff, h.waiting]
    constructor
    · rintro ⟨hne, x, hx, hstage⟩
      exact ⟨x, by rwa [State.settleQueued, State.put, List.getElem?_set_ne hne.symm], hstage⟩
    · rintro ⟨x, hx, hstage⟩
      rcases getElem?_set_cases hx with ⟨-, rfl⟩ | ⟨hne, hold⟩
      · cases hstage
      · exact ⟨hne, x, hold, hstage⟩
  · exact h.nodup.erase n
  · exact h.book.settle h.nodup (by rw [hkinds]; decide) hfifo
  · exact fun hlog => h.recycled (hnotrecycled hlog)
  · have hcount : [Event.request n (settle_kind admitted)].countP Event.is_completed = 0 := by
      cases admitted with
      | true => rfl
      | false => rfl
    rw [settle_log, List.countP_append, hcount]
    exact h.counted

theorem takeWhile_before_head {l : List ℕ} {p : ℕ → Bool} {rest : List ℕ}
    (h : l.filter p = n :: rest) : ∀ m ∈ l.takeWhile (fun m => decide (m ≠ n)), p m = false := by
  induction l with
  | nil => exact fun m hm => absurd hm List.not_mem_nil
  | cons a l ih =>
    intro m hm
    by_cases ha : a = n
    · rw [List.takeWhile_cons_of_neg (by simpa using ha)] at hm
      exact absurd hm List.not_mem_nil
    · rw [List.takeWhile_cons_of_pos (by simpa using ha)] at hm
      have hp : p a = false := by
        by_contra hp
        rw [List.filter_cons_of_pos (by simpa using hp)] at h
        injection h with heq
        exact ha heq
      rcases List.mem_cons.mp hm with rfl | hm
      · exact hp
      · rw [List.filter_cons_of_neg (by simp [hp])] at h
        exact ih h m hm

theorem Sound.pass (h : Sound l 1 s) : Sound l 0 s.pass := by
  rw [State.pass]
  split
  next hqueue =>
    refine ⟨h.paths, h.fresh, h.refused, ?_, ?_, ?_, ?_, ?_, ?_, ?_, ?_, h.counted⟩
    · dsimp only
      rw [h.active]
      omega
    · have := h.bound
      dsimp only
      omega
    · exact h.queue_bound
    · exact fun hne => absurd hqueue hne
    · exact h.waiting
    · exact h.nodup
    · exact ⟨h.book.order, h.book.drained, h.book.late, h.book.once, h.book.fifo⟩
    · intro hmem
      obtain ⟨hdraining, hactive⟩ := h.recycled hmem
      refine ⟨hdraining, ?_⟩
      dsimp only
      omega
  next next rest hqueue =>
    have hmem : next ∈ s.queue := by
      rw [hqueue]
      exact List.mem_cons_self
    obtain ⟨r, hr, hwaits⟩ := (h.waiting next).mp hmem
    rw [hr]
    dsimp only
    have horder := h.book.order
    rw [hqueue] at horder
    refine h.settle r.aborted hr hwaits (fun h => nomatch h) (fun _ m hm => ?_) rfl
    have hended := takeWhile_before_head horder.symm m hm
    simpa using hended

theorem Sound.recycle (h : Sound l 0 s) (hnot : .recycled ∉ s.log) : Sound l 0 s.recycle := by
  rw [State.recycle]
  split
  next hlast =>
    have haside : Aside [Event.recycled] := by
      intro n
      refine ⟨?_, ?_, ?_⟩
      all_goals
        intro hmem
        cases List.mem_singleton.mp hmem
    have hkinds : ∀ n, kinds (s.log ++ [Event.recycled]) n = kinds s.log n := by
      intro n
      rw [kinds_append, kinds_recycled, kinds_nil, List.append_nil]
    refine ⟨?_, ?_, h.refused, h.active, h.bound, h.queue_bound, h.full, h.waiting, h.nodup, ?_,
      fun _ => hlast, ?_⟩
    · intro n r hr
      change Path r.stage (kinds (s.log ++ [Event.recycled]) n)
      rw [hkinds]
      exact h.paths n r hr
    · intro n hn
      change kinds (s.log ++ [Event.recycled]) n = []
      rw [hkinds]
      exact h.fresh n hn
    · refine ⟨?_, ?_, ?_, ?_, ?_⟩
      · change s.queue = (arrivals (s.log ++ [Event.recycled])).filter _
        rw [arrivals_aside haside, h.book.order]
        apply List.filter_congr
        intro n _
        change _ = !ended (s.log ++ [Event.recycled]) n
        rw [ended_aside haside]
      · change s.draining = true ↔ .drained ∈ s.log ++ [Event.recycled]
        rw [h.book.drained, List.mem_append]
        refine ⟨.inl, fun hmem => hmem.resolve_right (fun hnew => ?_)⟩
        cases List.mem_singleton.mp hnew
      · intro n hlate
        change .queued ∉ kinds (s.log ++ [Event.recycled]) n
          ∧ .permitted ∉ kinds (s.log ++ [Event.recycled]) n
        rw [hkinds]
        rcases late_append hlate with hold | ⟨hnew, -⟩
        · exact h.book.late n hold
        · cases List.mem_singleton.mp hnew
      · change (s.log ++ [Event.recycled]).count .recycled ≤ 1
        rw [List.count_append, List.count_eq_zero_of_not_mem hnot]
        decide
      · exact fifo_append h.book.fifo (fun n => (haside n).2.1)
    · change s.completed = (s.log ++ [Event.recycled]).countP Event.is_completed
      rw [List.countP_append, h.counted]
      rfl
  next => exact h

/-! ## A request is through -/

theorem Sound.drain (h : Sound l extra s) (hdraining : s.draining = false) :
    Sound l extra { s with draining := true, log := s.log ++ [.drained] } := by
  have haside : Aside [Event.drained] := by
    intro n
    refine ⟨?_, ?_, ?_⟩
    all_goals
      intro hmem
      cases List.mem_singleton.mp hmem
  have hkinds : ∀ n, kinds (s.log ++ [.drained]) n = kinds s.log n := by
    intro n
    rw [kinds_append, kinds_drained, kinds_nil, List.append_nil]
  have hnot : Event.recycled ∉ [Event.drained] := by
    intro hmem
    cases List.mem_singleton.mp hmem
  refine ⟨?_, ?_, h.refused, h.active, h.bound, h.queue_bound, h.full, h.waiting, h.nodup, ?_, ?_,
    ?_⟩
  · intro n r hr
    dsimp only at hr ⊢
    rw [hkinds]
    exact h.paths n r hr
  · intro n hn
    dsimp only at hn ⊢
    rw [hkinds]
    exact h.fresh n hn
  · refine ⟨?_, ?_, ?_, ?_, ?_⟩
    · dsimp only
      rw [arrivals_aside haside, h.book.order]
      apply List.filter_congr
      intro n _
      rw [ended_aside haside]
    · refine ⟨fun _ => List.mem_append_right _ (List.mem_singleton_self _), fun _ => rfl⟩
    · intro n hlate
      dsimp only at hlate ⊢
      rw [hkinds]
      rcases late_append hlate with hold | ⟨hnew, -⟩
      · exact h.book.late n hold
      · cases List.mem_singleton.mp hnew
    · dsimp only
      rw [List.count_append, List.count_eq_zero_of_not_mem hnot]
      exact h.book.once
    · exact fifo_append h.book.fifo (fun n => (haside n).2.1)
  · intro hmem
    have hold := (List.mem_append.mp hmem).resolve_right hnot
    rw [(h.recycled hold).1] at hdraining
    cases hdraining
  · dsimp only
    rw [List.countP_append, h.counted]
    rfl

theorem mem_pair {m : ℕ} {kind a b : Kind}
    (h : Event.request m kind ∈ [Event.request n a, Event.request n b]) : kind = a ∨ kind = b := by
  rcases List.mem_cons.mp h with h | h
  · cases h
    exact .inl rfl
  · cases List.mem_singleton.mp h
    exact .inr rfl

theorem Sound.complete (h : Sound l 0 s) (hr : s.requests[n]? = some r)
    (hstage : r.stage = .reading true ∨ r.stage = .executing true) :
    Sound l 1 (s.complete l n r) := by
  have haside : Aside [.request n .completed, .request n .answered] := by
    intro m
    refine ⟨?_, ?_, ?_⟩
    all_goals
      intro hmem
      rcases mem_pair hmem with hkind | hkind
      · cases hkind
      · cases hkind
  have harrived : ∀ m,
      Event.request m .arrived ∉ [.request n .completed, .request n .answered] := by
    intro m hmem
    rcases mem_pair hmem with hkind | hkind
    · cases hkind
    · cases hkind
  have hholds : r.stage.holds = true := by
    rcases hstage with hstage | hstage
    · rw [hstage]
      rfl
    · rw [hstage]
      rfl
  have hwaits : r.stage ≠ .waiting := by
    intro hwaits
    rw [hwaits] at hholds
    cases hholds
  have hthrough : Sound l 1 { s.put n r .finished with
      completed := s.completed + 1
      log := s.log ++ [.request n .completed, .request n .answered] } := by
    refine h.moves _ hr rfl rfl rfl rfl rfl rfl rfl ?_ ?_ hwaits (fun h => nomatch h) ?_ ?_ haside
      harrived ?_ ?_
    · intro m hm
      rw [kinds_other hm.symm, kinds_other hm.symm, kinds_nil]
    · rw [kinds_request, kinds_request, kinds_nil]
      exact .ends (h.paths n r hr) hstage
    · rintro (hstage | hstage)
      · cases hstage
      · cases hstage
    · rw [hholds]
      rfl
    · intro hmem
      simp at hmem
    · intro hmem
      simp at hmem
  rw [State.complete]
  by_cases hnew : s.draining = false ∧ l.reached (s.completed + 1) = true
  · rw [if_pos hnew, hnew.1, hnew.2, Bool.false_or]
    have hdrained := hthrough.drain hnew.1
    dsimp only at hdrained
    rw [List.append_assoc] at hdrained
    exact hdrained
  · have hsame : (s.draining || l.reached (s.completed + 1)) = s.draining := by
      cases hdraining : s.draining with
      | true => rfl
      | false =>
        rw [Bool.false_or]
        exact eq_false_of_ne_true (fun hreached => hnew ⟨hdraining, hreached⟩)
    rw [if_neg hnew, hsame]
    exact hthrough

theorem Sound.not_recycled (h : Sound l 0 s) (hr : s.requests[n]? = some r)
    (hholds : r.stage.holds = true) : .recycled ∉ s.log := by
  intro hmem
  have hpos : 0 < s.requests.countP (fun r => r.stage.holds) :=
    List.countP_pos_iff.mpr ⟨r, List.mem_of_getElem? hr, hholds⟩
  have hactive := h.active
  rw [(h.recycled hmem).2] at hactive
  omega

theorem recycled_pass {s : State} (h : .recycled ∈ s.pass.log) : .recycled ∈ s.log := by
  rw [State.pass] at h
  split at h
  next => exact h
  next =>
    split at h
    next =>
      rcases List.mem_append.mp h with hold | hnew
      · exact hold
      · cases List.mem_singleton.mp hnew
    next => exact h

theorem recycled_complete {l : Limits} {s : State} (h : .recycled ∈ (s.complete l n r).log) :
    .recycled ∈ s.log := by
  rcases List.mem_append.mp h with hold | hnew
  · exact hold
  · split at hnew
    next => simp at hnew
    next => simp at hnew

theorem Sound.leave (h : Sound l 0 s) {permit : Bool} (hr : s.requests[n]? = some r)
    (hstage : r.stage = .reading permit ∨ r.stage = .executing permit) :
    Sound l 0 (s.leave l n r permit) := by
  cases permit with
  | true =>
    rw [State.leave, if_pos rfl]
    apply (h.complete hr hstage).pass.recycle
    intro hmem
    have hholds : r.stage.holds = true := by
      rcases hstage with hstage | hstage
      · rw [hstage]
        rfl
      · rw [hstage]
        rfl
    exact h.not_recycled hr hholds (recycled_complete (recycled_pass hmem))
  | false =>
    have hpath := h.paths n r hr
    rcases hstage with hstage | hstage
    · rw [hstage] at hpath
      rw [State.leave, if_neg Bool.false_ne_true]
      have hsingle : ∀ {m : ℕ} {kind : Kind},
          Event.request m kind ∈ [Event.request n .answered] → kind = .answered := by
        intro m kind hmem
        cases List.mem_singleton.mp hmem
        rfl
      refine h.moves _ hr rfl rfl rfl rfl rfl rfl rfl ?_ ?_ ?_ (fun h => nomatch h) ?_ ?_ ?_ ?_
        ?_ ?_
      · intro m hm
        rw [kinds_other hm.symm, kinds_nil]
      · rw [kinds_request, kinds_nil]
        exact .ends_without hpath
      · intro hwaits
        rw [hwaits] at hstage
        cases hstage
      · rintro (hstage | hstage)
        · cases hstage
        · cases hstage
      · rw [hstage]
        rfl
      · intro m
        refine ⟨?_, ?_, ?_⟩
        all_goals
          intro hmem
          cases hsingle hmem
      · intro m hmem
        cases hsingle hmem
      · intro hmem
        cases List.mem_singleton.mp hmem
      · intro hmem
        cases List.mem_singleton.mp hmem
    · -- without a permit nothing is executed
      rw [hstage] at hpath
      cases hpath

theorem Sound.body (h : Sound l 0 s) {permit : Bool} (b : Body) (hr : s.requests[n]? = some r)
    (hstage : r.stage = .reading permit) : Sound l 0 (s.body l n r permit b) := by
  cases b with
  | unusable => exact h.leave hr (.inl hstage)
  | envelope deadlineUnixMs =>
    rw [State.body]
    split
    next => exact h.leave hr (.inl hstage)
    next hgo =>
      rw [not_or, Nat.not_le] at hgo
      have hpermit : permit = true := by
        cases permit with
        | true => rfl
        | false =>
          exfalso
          rcases h.refused r (List.mem_of_getElem? hr) (.inr hstage) with haborted | hlate
          · exact hgo.1 haborted
          · omega
      subst hpermit
      have hpath := h.paths n r hr
      rw [hstage] at hpath
      have hsingle : ∀ {m : ℕ} {kind : Kind},
          Event.request m kind ∈ [Event.request n .invoked] → kind = .invoked := by
        intro m kind hmem
        cases List.mem_singleton.mp hmem
        rfl
      refine h.moves _ hr rfl rfl rfl rfl rfl rfl rfl ?_ ?_ ?_ (fun h => nomatch h) ?_ ?_ ?_ ?_
        ?_ ?_
      · intro m hm
        rw [kinds_other hm.symm, kinds_nil]
      · rw [kinds_request, kinds_nil]
        exact .executes hpath
      · intro hwaits
        rw [hwaits] at hstage
        cases hstage
      · rintro (hstage | hstage)
        · cases hstage
        · cases hstage
      · rw [hstage]
        rfl
      · intro m
        refine ⟨?_, ?_, ?_⟩
        all_goals
          intro hmem
          cases hsingle hmem
      · intro m hmem
        cases hsingle hmem
      · intro hmem
        cases List.mem_singleton.mp hmem
      · intro hmem
        cases List.mem_singleton.mp hmem

theorem Sound.tick (h : Sound l extra s) (elapsed : ℕ) :
    Sound l extra { s with now := s.now + elapsed } where
  paths := h.paths
  fresh := h.fresh
  refused := fun r hr hstage => (h.refused r hr hstage).imp_right
    (fun hold => Nat.le_trans hold (Nat.le_add_right _ _))
  active := h.active
  bound := h.bound
  queue_bound := h.queue_bound
  full := h.full
  waiting := h.waiting
  nodup := h.nodup
  book := ⟨h.book.order, h.book.drained, h.book.late, h.book.once, h.book.fifo⟩
  recycled := h.recycled
  counted := h.counted

theorem Sound.put (h : Sound l 0 s) (aborted : Bool) {stage : Stage} (hr : s.requests[n]? = some r)
    (hpath : Path stage (kinds s.log n)) (hwaits : r.stage ≠ .waiting) (hwaits' : stage ≠ .waiting)
    (hholds : stage.holds = r.stage.holds)
    (hrefused : stage = .settled false ∨ stage = .reading false →
      aborted = true ∨ r.admittedAt + maxOperationTimeoutMs ≤ s.now) :
    Sound l 0 (s.put n { r with aborted } stage) := by
  have hnot : ∀ e : Event, e ∉ ([] : List Event) := fun e => List.not_mem_nil
  refine h.moves [] hr rfl (List.append_nil _).symm rfl rfl rfl rfl rfl (fun _ _ => rfl) ?_
    hwaits hwaits' hrefused ?_ (fun m => ⟨hnot _, hnot _, hnot _⟩) (fun m => hnot _) (hnot _)
    (hnot _)
  · rw [kinds_nil, List.append_nil]
    exact hpath
  · dsimp only
    rw [hholds]

end Appcall.Serve
