/-
The requests that arrive, and every step of the runner.
-/
import Appcall.Runner.Permits

set_option autoImplicit false

namespace Appcall.Serve

variable {l : Limits} {extra : ℕ} {s : State}

/-! ## A request arrives -/

variable {stage : Stage} {ks : List Kind} {aborted : Bool}

theorem Sound.paths_enter (h : Sound l extra s) (aborted : Bool) (hpath : Path stage ks) :
    (∀ (n : ℕ) (r : Request), (s.enter aborted stage ks).requests[n]? = some r →
        Path r.stage (kinds (s.enter aborted stage ks).log n))
      ∧ ∀ n, (s.enter aborted stage ks).requests.length ≤ n →
        kinds (s.enter aborted stage ks).log n = [] := by
  constructor
  · intro n r hr
    rw [State.enter] at hr ⊢
    dsimp only at hr ⊢
    rw [kinds_append, kinds_map]
    rw [List.getElem?_append] at hr
    split at hr
    next hlt =>
      rw [if_neg (by omega), List.append_nil]
      exact h.paths n r hr
    next hge =>
      have hn : n = s.requests.length := by
        have hlt := (List.getElem?_eq_some_iff.mp hr).1
        rw [List.length_singleton] at hlt
        omega
      subst hn
      rw [Nat.sub_self, List.getElem?_cons_zero] at hr
      cases hr
      rw [if_pos rfl, h.fresh _ (Nat.le_refl _), List.nil_append]
      exact hpath
  · intro n hn
    rw [State.enter] at hn ⊢
    dsimp only at hn ⊢
    rw [List.length_append, List.length_singleton] at hn
    rw [kinds_append, kinds_map, if_neg (by omega), List.append_nil]
    exact h.fresh n (by omega)

theorem getElem?_enter (ks : List Kind) {n : ℕ} {r : Request} :
    (s.enter aborted stage ks).requests[n]? = some r ↔
      s.requests[n]? = some r ∨ (n = s.requests.length ∧ r = ⟨stage, aborted, s.now⟩) := by
  rw [State.enter]
  dsimp only
  rw [List.getElem?_append]
  split
  next hlt =>
    refine ⟨.inl, ?_⟩
    rintro (hold | ⟨rfl, -⟩)
    · exact hold
    · exact absurd hlt (Nat.lt_irrefl _)
  next hge =>
    constructor
    · intro hr
      have hlt := (List.getElem?_eq_some_iff.mp hr).1
      rw [List.length_singleton] at hlt
      have hn : n = s.requests.length := by omega
      subst hn
      rw [Nat.sub_self, List.getElem?_cons_zero] at hr
      cases hr
      exact .inr ⟨rfl, rfl⟩
    · rintro (hold | ⟨rfl, rfl⟩)
      · exact absurd (List.getElem?_eq_some_iff.mp hold).1 hge
      · rw [Nat.sub_self, List.getElem?_cons_zero]

theorem Sound.refused_enter (h : Sound l extra s) (ks : List Kind)
    (hnew : stage = .settled false ∨ stage = .reading false → aborted = true) :
    ∀ r ∈ (s.enter aborted stage ks).requests,
      r.stage = .settled false ∨ r.stage = .reading false →
        r.aborted = true ∨ r.admittedAt + maxOperationTimeoutMs ≤ s.now := by
  intro r hr hstage
  rcases List.mem_append.mp hr with hold | hmem
  · exact h.refused r hold hstage
  · cases List.mem_singleton.mp hmem
    exact .inl (hnew hstage)

theorem countP_enter : (s.enter aborted stage ks).requests.countP (fun r => r.stage.holds)
      = s.requests.countP (fun r => r.stage.holds) + if stage.holds then 1 else 0 := by
  rw [State.enter]
  dsimp only
  rw [List.countP_append, List.countP_singleton]

theorem mem_enter_log {e : Event} (h : e ∈ (s.enter aborted stage ks).log) :
    e ∈ s.log ∨ ∃ kind ∈ ks, e = .request s.requests.length kind := by
  rcases List.mem_append.mp h with hold | hnew
  · exact .inl hold
  · obtain ⟨kind, hkind, rfl⟩ := List.mem_map.mp hnew
    exact .inr ⟨kind, hkind, rfl⟩

theorem mem_map_request {n m : ℕ} {kind : Kind}
    (h : Event.request n kind ∈ ks.map (Event.request m)) : n = m ∧ kind ∈ ks := by
  obtain ⟨kind', hkind, heq⟩ := List.mem_map.mp h
  cases heq
  exact ⟨rfl, hkind⟩

theorem not_mem_map {m : ℕ} {e : Event} (he : e = .drained ∨ e = .recycled) :
    e ∉ ks.map (Event.request m) := by
  intro hmem
  obtain ⟨kind, -, heq⟩ := List.mem_map.mp hmem
  rcases he with rfl | rfl
  · cases heq
  · cases heq

theorem Sound.book_enter (h : Sound l extra s) {s' : State} (ks : List Kind)
    (hlog : s'.log = s.log ++ ks.map (Event.request s.requests.length))
    (hdraining : s'.draining = s.draining)
    (horder : s'.queue = (arrivals s'.log).filter (fun n => !ended s'.log n))
    (hlate : s.draining = false ∨ (.queued ∉ ks ∧ .permitted ∉ ks))
    (hfifo : Machine.Logged Fifo s'.log) : Book s' where
  order := horder
  drained := by
    rw [hdraining, hlog, h.book.drained, List.mem_append]
    exact ⟨.inl, fun hmem => hmem.resolve_right (not_mem_map (.inl rfl))⟩
  late := fun n hn => by
    rw [hlog] at hn ⊢
    rw [kinds_append, kinds_map]
    rcases late_append hn with hold | ⟨hnew, hdrained⟩
    · have hne : s.requests.length ≠ n := by
        rintro rfl
        obtain ⟨before, after, heq, harrived⟩ := hold
        have hkind : Kind.arrived ∈ kinds s.log s.requests.length := by
          rw [mem_kinds, heq]
          exact List.mem_append_right _ (List.mem_cons_of_mem _ harrived)
        rw [h.fresh _ (Nat.le_refl _)] at hkind
        exact absurd hkind List.not_mem_nil
      rw [if_neg hne, List.append_nil]
      exact h.book.late n hold
    · obtain ⟨rfl, -⟩ := mem_map_request hnew
      rw [if_pos rfl, h.fresh _ (Nat.le_refl _), List.nil_append]
      rcases hlate with hopen | hks
      · have hmem := hdrained.resolve_right (not_mem_map (.inl rfl))
        rw [h.book.drained.mpr hmem] at hopen
        cases hopen
      · exact hks
  once := by
    rw [hlog, List.count_append, List.count_eq_zero_of_not_mem (not_mem_map (.inr rfl))]
    exact h.book.once
  fifo := hfifo

theorem countP_map_request {m : ℕ} (h : .completed ∉ ks) :
    (ks.map (Event.request m)).countP Event.is_completed = 0 := by
  rw [List.countP_eq_zero]
  intro e he hcompleted
  obtain ⟨kind, hkind, rfl⟩ := List.mem_map.mp he
  cases kind with
  | completed => exact h hkind
  | _ => cases hcompleted

theorem Sound.enter_aside (h : Sound l 0 s) (hpath : Path stage ks) (hwaits : stage ≠ .waiting)
    (hholds : stage.holds = false)
    (hrefused : stage = .settled false ∨ stage = .reading false → aborted = true)
    (hks : .queued ∉ ks ∧ .permitted ∉ ks ∧ .refused ∉ ks ∧ .completed ∉ ks) :
    Sound l 0 (s.enter aborted stage ks) := by
  have haside : Aside (ks.map (Event.request s.requests.length)) := fun n =>
    ⟨fun hmem => hks.1 (mem_map_request hmem).2, fun hmem => hks.2.1 (mem_map_request hmem).2,
      fun hmem => hks.2.2.1 (mem_map_request hmem).2⟩
  refine ⟨(h.paths_enter aborted hpath).1, (h.paths_enter aborted hpath).2,
    h.refused_enter ks hrefused, ?_, h.bound,
    h.queue_bound, h.full, ?_, h.nodup, ?_, ?_, ?_⟩
  · rw [countP_enter, hholds]
    exact h.active
  · intro n
    change n ∈ s.queue ↔ _
    rw [h.waiting]
    constructor
    · rintro ⟨r, hr, hstage⟩
      exact ⟨r, (getElem?_enter _).mpr (.inl hr), hstage⟩
    · rintro ⟨r, hr, hstage⟩
      rcases (getElem?_enter _).mp hr with hold | ⟨-, rfl⟩
      · exact ⟨r, hold, hstage⟩
      · exact absurd hstage hwaits
  · refine h.book_enter ks rfl rfl ?_ (.inr ⟨hks.1, hks.2.1⟩) ?_
    · change s.queue = (arrivals (s.log ++ _)).filter (fun n => !ended (s.log ++ _) n)
      rw [arrivals_aside haside, h.book.order]
      apply List.filter_congr
      intro n _
      rw [ended_aside haside]
    · exact fifo_append h.book.fifo (fun n => (haside n).2.1)
  · intro hmem
    rcases mem_enter_log hmem with hold | ⟨kind, -, heq⟩
    · exact h.recycled hold
    · cases heq
  · change s.completed = (s.log ++ _).countP _
    rw [List.countP_append, countP_map_request hks.2.2.2]
    exact h.counted

theorem ended_append {log : List Event} {n : ℕ} (h : ended log n = true) (es : List Event) :
    ended (log ++ es) n = true := by
  rw [ended, decide_eq_true_eq] at h ⊢
  exact h.imp (List.mem_append_left _) (List.mem_append_left _)

theorem Sound.not_ended_new (h : Sound l extra s) : ended s.log s.requests.length = false := by
  have hfresh := h.fresh _ (Nat.le_refl _)
  apply decide_eq_false
  rintro (hmem | hmem)
  · have hkind := mem_kinds.mpr hmem
    rw [hfresh] at hkind
    exact absurd hkind List.not_mem_nil
  · have hkind := mem_kinds.mpr hmem
    rw [hfresh] at hkind
    exact absurd hkind List.not_mem_nil

theorem Sound.not_recycled_open (h : Sound l extra s) (hdraining : s.draining = false) :
    .recycled ∉ s.log := by
  intro hmem
  rw [(h.recycled hmem).1] at hdraining
  cases hdraining

/-- A request enters and has to wait. -/
theorem Sound.enter_waiting (h : Sound l 0 s) (hdraining : s.draining = false)
    (hfull : l.maxConcurrent ≤ s.active) (hroom : s.queue.length < l.maxQueued) :
    Sound l 0 { s.enter false .waiting [.arrived, .queued] with
      queue := s.queue ++ [s.requests.length] } := by
  have hpaths := h.paths_enter false .waits
  have hlog : (s.enter false .waiting [.arrived, .queued]).log
      = s.log ++ [.request s.requests.length .arrived, .request s.requests.length .queued] := rfl
  have hnew : s.requests.length ∉ s.queue := by
    intro hmem
    obtain ⟨r, hr, -⟩ := (h.waiting _).mp hmem
    exact absurd (List.getElem?_eq_some_iff.mp hr).1 (Nat.lt_irrefl _)
  have hended : ∀ n, ended (s.log ++ [.request s.requests.length .arrived,
      .request s.requests.length .queued]) n = ended s.log n := by
    intro n
    apply decide_eq_decide.mpr
    simp
  refine ⟨hpaths.1, hpaths.2, h.refused_enter [.arrived, .queued] ?_, ?_, h.bound, ?_, ?_,
    ?_, ?_, ?_, ?_, ?_⟩
  · rintro (hstage | hstage)
    · cases hstage
    · cases hstage
  · rw [countP_enter]
    exact h.active
  · dsimp only
    rw [List.length_append, List.length_singleton]
    omega
  · intro _
    exact Nat.le_antisymm h.bound hfull
  · intro n
    dsimp only
    rw [List.mem_append, h.waiting, List.mem_singleton]
    constructor
    · rintro (⟨r, hr, hstage⟩ | rfl)
      · exact ⟨r, (getElem?_enter _).mpr (.inl hr), hstage⟩
      · exact ⟨_, (getElem?_enter _).mpr (.inr ⟨rfl, rfl⟩), rfl⟩
    · rintro ⟨r, hr, hstage⟩
      rcases (getElem?_enter _).mp hr with hold | ⟨rfl, -⟩
      · exact .inl ⟨r, hold, hstage⟩
      · exact .inr rfl
  · refine List.nodup_append.mpr ⟨h.nodup, List.nodup_singleton _, ?_⟩
    rintro m hm n hn rfl
    rw [List.mem_singleton.mp hn] at hm
    exact hnew hm
  · refine h.book_enter [.arrived, .queued] rfl rfl ?_ (.inl hdraining) ?_
    · dsimp only
      rw [hlog, arrivals_append, List.filter_append, h.book.order]
      congr 1
      · apply List.filter_congr
        intro n _
        rw [hended]
      · have harrivals : arrivals [.request s.requests.length .arrived,
            .request s.requests.length .queued] = [s.requests.length] := rfl
        rw [harrivals, List.filter_cons_of_pos]
        · rfl
        · rw [hended, h.not_ended_new]
          rfl
    · apply fifo_append h.book.fifo
      intro n hmem
      have hkind := (mem_map_request hmem).2
      simp at hkind
  · intro hmem
    rcases List.mem_append.mp hmem with hold | hnew
    · exact absurd hold (h.not_recycled_open hdraining)
    · exact absurd hnew (not_mem_map (.inr rfl))
  · change s.completed = (s.log ++ _).countP _
    rw [List.countP_append, countP_map_request (by decide)]
    exact h.counted

/-- A request enters and gets a permit at once. -/
theorem Sound.enter_permitted (h : Sound l 0 s) (hdraining : s.draining = false)
    (hroom : s.active < l.maxConcurrent) :
    Sound l 0 { s.enter false (.reading true) [.arrived, .permitted] with
      active := s.active + 1 } := by
  have hpaths := h.paths_enter false .reads
  have hqueue : s.queue = [] := by
    by_contra hne
    rw [h.full hne] at hroom
    exact absurd hroom (Nat.lt_irrefl _)
  have hlog : (s.enter false (.reading true) [.arrived, .permitted]).log
      = (s.log ++ [.request s.requests.length .arrived])
        ++ [.request s.requests.length .permitted] := by
    rw [List.append_assoc]
    rfl
  have harrived : arrivals (s.log ++ [.request s.requests.length .arrived])
      = arrivals s.log := by
    rw [arrivals_append]
    exact List.append_nil _
  have hall : ∀ m ∈ arrivals s.log, ended s.log m = true := by
    intro m hm
    by_contra hended
    have hmem : m ∈ s.queue := by
      rw [h.book.order]
      exact List.mem_filter.mpr ⟨hm, by simpa using hended⟩
    rw [hqueue] at hmem
    exact absurd hmem List.not_mem_nil
  refine ⟨hpaths.1, hpaths.2, h.refused_enter [.arrived, .permitted] ?_, ?_, hroom,
    h.queue_bound, ?_, ?_, h.nodup, ?_, ?_, ?_⟩
  · rintro (hstage | hstage)
    · cases hstage
    · cases hstage
  · rw [countP_enter]
    dsimp only
    rw [h.active]
    rfl
  · intro hne
    exact absurd hqueue hne
  · intro n
    change n ∈ s.queue ↔ _
    rw [h.waiting]
    constructor
    · rintro ⟨r, hr, hstage⟩
      exact ⟨r, (getElem?_enter [.arrived, .permitted]).mpr (.inl hr), hstage⟩
    · rintro ⟨r, hr, hstage⟩
      rcases (getElem?_enter [.arrived, .permitted]).mp hr with hold | ⟨-, rfl⟩
      · exact ⟨r, hold, hstage⟩
      · cases hstage
  · refine h.book_enter [.arrived, .permitted] rfl rfl ?_ (.inl hdraining) ?_
    · change s.queue = (arrivals (s.enter false (.reading true) [.arrived, .permitted]).log).filter
        (fun n => !ended (s.enter false (.reading true) [.arrived, .permitted]).log n)
      have hsame : arrivals ((s.log ++ [.request s.requests.length .arrived])
          ++ [.request s.requests.length .permitted]) = arrivals s.log := by
        rw [arrivals_append, harrived]
        exact List.append_nil _
      rw [hlog, hsame, hqueue, eq_comm, List.filter_eq_nil_iff]
      intro m hm
      rw [ended_append (ended_append (hall m hm) _)]
      decide
    · change Machine.Logged Fifo (s.enter false (.reading true) [.arrived, .permitted]).log
      rw [hlog]
      apply Machine.logged_append_singleton
      · apply fifo_append h.book.fifo
        intro n hmem
        cases List.mem_singleton.mp hmem
      · intro n _ m hm
        have hmem := (List.takeWhile_sublist _).mem hm
        rw [harrived] at hmem
        exact ended_append (hall m hmem) _
  · intro hmem
    rcases List.mem_append.mp hmem with hold | hnew
    · exact absurd hold (h.not_recycled_open hdraining)
    · exact absurd hnew (not_mem_map (.inr rfl))
  · change s.completed = (s.log ++ _).countP _
    rw [List.countP_append, countP_map_request (by decide)]
    exact h.counted

theorem Sound.arrive (h : Sound l 0 s) (aborted : Bool) : Sound l 0 (s.arrive l aborted) := by
  rw [State.arrive]
  split
  next =>
    split
    next haborted =>
      exact h.enter_aside .reads_aborted (fun h => nomatch h) rfl (fun _ => haborted) (by decide)
    next =>
      refine h.enter_aside (.ends_without .reads_aborted) (fun h => nomatch h) rfl ?_ (by decide)
      rintro (hstage | hstage)
      · cases hstage
      · cases hstage
  next hopen =>
    simp only [not_or, not_and, Nat.not_le, Bool.not_eq_true] at hopen
    obtain ⟨hdraining, haborted, hroom⟩ := hopen
    subst haborted
    split
    next hfull => exact h.enter_waiting hdraining hfull (hroom hfull)
    next hfree => exact h.enter_permitted hdraining (Nat.lt_of_not_le hfree)

/-! ## Every step -/

/-- Every operation of the server keeps the invariant. -/
theorem Sound.step (h : Sound l 0 s) (op : Op) : Sound l 0 (s.step l op) := by
  cases op with
  | tick elapsed => exact h.tick elapsed
  | arrive aborted => exact h.arrive aborted
  | abort n =>
    rw [State.step]
    split
    next => exact h
    next r hr =>
      split
      next hwaits =>
        exact h.settle true hr hwaits (fun _ => .inl rfl) (fun h => nomatch h) rfl
      next hwaits =>
        refine h.put true hr (h.paths n r hr) hwaits hwaits rfl ?_
        exact fun _ => .inl rfl
  | expire n =>
    rw [State.step]
    split
    next => exact h
    next r hr =>
      split
      next hdue =>
        exact h.settle r.aborted hr hdue.1 (fun _ => .inr hdue.2)
          (fun h => nomatch h) rfl
      next => exact h
  | resume n =>
    rw [State.step]
    split
    next => exact h
    next r hr =>
      split
      next admitted hstage =>
        have hpath := h.paths n r hr
        rw [hstage] at hpath
        have hwaits : r.stage ≠ .waiting := by
          rw [hstage]
          exact fun h => nomatch h
        refine h.put r.aborted hr ?_ hwaits (fun h => nomatch h) ?_ ?_
        · generalize kinds s.log n = ks at hpath
          cases hpath with
          | admitted => exact .reads_admitted
          | refused => exact .reads_refused
        · rw [hstage]
          rfl
        · rintro (hnew | hnew)
          · cases hnew
          · cases hnew
            exact h.refused r (List.mem_of_getElem? hr) (.inl hstage)
      next => exact h
  | body n b =>
    rw [State.step]
    split
    next => exact h
    next r hr =>
      split
      next permit hstage => exact h.body b hr hstage
      next => exact h
  | finish n =>
    rw [State.step]
    split
    next => exact h
    next r hr =>
      split
      next permit hstage => exact h.leave hr (.inr hstage)
      next => exact h

theorem run_sound (l : Limits) (ops : List Op) :
    Sound l 0 (Machine.run (State.step l) .new ops) :=
  Machine.run_keeps (fun _ op h => h.step op) (new_sound l) ops

end Appcall.Serve
