/-
The protocol of the circuit, over whole runs.

A run is timely when no admission outlives `2 ^ 64` changes of its circuit. In a timely
run an open circuit admits nobody before its time, then one probe at a time, and the
admissions of the past do nothing; `wrapped_admission_acts` is a run that is not timely.
Where the calls are made one at a time, the circuit is open exactly when as many
transient failures as the threshold have come one after another.
-/
import Appcall.Actions.Admissions

set_option autoImplicit false

namespace Appcall.Breaker

variable {s s' : System} {op : Op} {k : String}

/-! ## Runs -/

variable {ops : List Op} {a : Admission} {since : ℕ}

/-- **Every state of a timely run is sound for every key.** -/
theorem run_sound {s : System} (h : KeySound s k)
    (htimely : Machine.Meets System.step Timely s ops) :
    KeySound (Machine.run System.step s ops) k :=
  htimely.keeps (I := fun s => KeySound s k) (fun _ _ htimely h => h.step htimely) h

theorem run_now_le (s : System) (ops : List Op) : s.now ≤ (Machine.run System.step s ops).now :=
  Machine.run_keeps (I := fun s' => s.now ≤ s'.now)
    (fun s' op h => h.trans (step_onward s' op).1) (Nat.le_refl _) ops

/-- How many admissions of a key were granted so far. -/
def System.granted (s : System) (key : String) : ℕ := s.keys.count key

theorem KeySound.step_open (h : KeySound s k) (htimely : Timely s op) {until_ : ℕ}
    (hopen : (s.state k).open_until = some until_) (hnow : s.now < until_) :
    (s.step op).state k = s.state k ∧ (s.step op).granted k = s.granted k := by
  rw [System.granted, System.granted]
  rcases step_moves s op with ⟨-, -, hstate, -, -, hkeys, -⟩
    | ⟨key, hop, hprobe, huntil, hself, hother, -, -, -, -, hkeys, -⟩
    | ⟨i, a, since, how, hop, -, hthis, hstate, -, -, -, hkeys, -⟩
  · exact ⟨hstate k, by rw [hkeys]⟩
  · have hk : k ≠ key := by
      rintro rfl
      exact absurd (huntil until_ hopen) (Nat.not_le_of_lt hnow)
    refine ⟨hother k hk, ?_⟩
    rw [hkeys, List.count_append, List.count_singleton, if_neg (by simpa using hk.symm),
      Nat.add_zero]
  · refine ⟨?_, by rw [hkeys]⟩
    rw [hstate k]
    by_cases hkey : a.key = k
    · have hholds : s.Holds k i a since := ⟨hthis, hkey⟩
      refine h.stale hholds (htimely i hop k a since hholds) ?_ how k
      -- an admission that is not stale is a probe, and none is granted so early
      refine Nat.lt_of_le_of_ne (h.held hholds).2.2.1 fun hsince => ?_
      have hprobe := h.current hholds hsince (by rw [hopen]; rfl)
      have hflag := (h.flagged hholds hprobe).2
      exact absurd (h.waited hflag until_ hopen) (Nat.not_le_of_lt hnow)
    · exact ended_other how (Ne.symm hkey)

theorem run_open (h : KeySound s k) (htimely : Machine.Meets System.step Timely s ops) {until_ : ℕ}
    (hopen : (s.state k).open_until = some until_)
    (hnow : (Machine.run System.step s ops).now < until_) :
    (Machine.run System.step s ops).state k = s.state k
      ∧ (Machine.run System.step s ops).granted k = s.granted k := by
  induction ops generalizing s with
  | nil => exact ⟨rfl, rfl⟩
  | cons op ops ih =>
    have hsoon : s.now < until_ := Nat.lt_of_le_of_lt (run_now_le s (op :: ops)) hnow
    obtain ⟨hstate, hgranted⟩ := h.step_open htimely.1 hopen hsoon
    obtain ⟨hstate', hgranted'⟩ := ih (h.step htimely.1) htimely.2
      (by rw [hstate]; exact hopen) hnow
    exact ⟨hstate'.trans hstate, hgranted'.trans hgranted⟩

theorem step_ends {i : ℕ} (hholds : s.Holds k i a since) (hop : op.ends = some i) : ∃ how : Ending,
      (∀ k', (s.step op).state k' = (a.ended s.circuit s.now how).state k')
        ∧ (s.step op).held i = none
        ∧ (s.step op).results = s.results ++ reported how k := by
  rcases step_moves s op with ⟨-, hends, -, -, -, -, -⟩
    | ⟨key, hcall, -, -, -, -, -, -, -, -, -, -⟩
    | ⟨j, b, since', how, hop', -, hthis, hstate, -, hnone, -, -, hresults⟩
  · have hnone := hends i hop
    rw [hholds.1] at hnone
    cases hnone
  · rw [hcall] at hop
    cases hop
  · cases Option.some.inj (hop'.symm.trans hop)
    have hboth := hthis.symm.trans hholds.1
    rw [Option.some.injEq, Prod.mk.injEq] at hboth
    obtain ⟨rfl, rfl⟩ := hboth
    exact ⟨how, hstate, hnone, by rw [hresults, hholds.2]⟩

/-- **The end of a probe clears the flag.** -/
theorem KeySound.probe_ends (h : KeySound s k) {i : ℕ} (hholds : s.Holds k i a since)
    (hprobe : a.probe = true) (hop : op.ends = some i) :
    ((s.step op).state k).probe = false ∧ (s.step op).held i = none := by
  obtain ⟨how, hstate, hnone, -⟩ := step_ends hholds hop
  refine ⟨?_, hnone⟩
  obtain ⟨rfl, -⟩ := h.flagged hholds hprobe
  rw [hstate k, h.acts hholds how]
  rcases ended_cases (s.state k) s.circuit.threshold s.circuit.cooldown a.probe s.now how with
    ⟨-, heq⟩ | ⟨-, -, heq⟩ | ⟨-, -, heq⟩ | ⟨-, heq⟩
  · rw [heq, if_pos hprobe]
  · rw [heq]
  · rw [heq]
  · rw [heq]

/-! ## One call at a time -/

/-- The condition on a run: a call of the key begins when no admission of it is
outstanding. -/
def Alone (k : String) (s : System) (op : Op) : Prop :=
  op = .call k → ∀ i a since, ¬s.Holds k i a since

/-- How many transient failures of a key were reported since its last other result. -/
def streak (k : String) (results : List (String × Bool)) : ℕ :=
  ((results.filter (fun r => r.1 == k)).reverse.takeWhile (·.2)).length

theorem streak_other {results : List (String × Bool)} {key : String} (h : key ≠ k) (t : Bool) :
    streak k (results ++ [(key, t)]) = streak k results := by
  have hno : ¬(((key, t) : String × Bool).1 == k) = true := by simpa using h
  rw [streak, List.filter_append, List.filter_cons_of_neg (p := fun r : String × Bool => r.1 == k)
    hno, List.filter_nil, List.append_nil, streak]

theorem streak_self (results : List (String × Bool)) (t : Bool) :
    streak k (results ++ [(k, t)]) = if t then streak k results + 1 else 0 := by
  have hyes : (((k, t) : String × Bool).1 == k) = true := beq_self_eq_true k
  rw [streak, List.filter_append, List.filter_cons_of_pos (p := fun r : String × Bool => r.1 == k)
    hyes, List.filter_nil, List.reverse_append, List.reverse_singleton, List.singleton_append,
    List.takeWhile_cons]
  dsimp only
  split
  · rfl
  · rfl

theorem streak_reported {key : String} (h : key ≠ k) (results : List (String × Bool))
    (how : Ending) : streak k (results ++ reported how key) = streak k results := by
  cases how with
  | resolve t => exact streak_other h t
  | drop => rw [reported, List.append_nil]

/-- What holds of a key whose calls are made one at a time. -/
structure InTurn (s : System) (k : String) : Prop where
  one : ∀ {i j a b since since'}, s.Holds k i a since → s.Holds k j b since' → i = j
  held : ∀ {i a since}, s.Holds k i a since → (s.circuit.states k).isSome = true
    ∧ a.resolved = false ∧ a.generation = (s.state k).generation
    ∧ a.probe = (s.state k).open_until.isSome
  failures : (s.state k).failures = min (streak k s.results) (2 ^ 32 - 1)
  opened : (s.state k).open_until.isSome = true ↔ s.circuit.threshold ≤ streak k s.results

theorem inTurn_new (threshold : UInt32) (cooldown : ℕ) (k : String) :
    InTurn (System.new threshold cooldown) k where
  one h := nomatch h.1
  held h := nomatch h.1
  failures := rfl
  opened := by
    refine ⟨fun h => (nomatch h), fun h => ?_⟩
    exact absurd h (Nat.not_le_of_lt (Circuit.new threshold cooldown).positive)

theorem InTurn.of_same (h : InTurn s k) (honward : Onward s.circuit s'.circuit)
    (hstate : s'.state k = s.state k) (hresults : streak k s'.results = streak k s.results)
    (hback : ∀ i a since, s'.Holds k i a since → s.Holds k i a since) : InTurn s' k where
  one ha hb := h.one (hback _ _ _ ha) (hback _ _ _ hb)
  held := by
    intro i a since hholds
    obtain ⟨hsome, hrest⟩ := h.held (hback i a since hholds)
    rw [hstate]
    exact ⟨honward.states k hsome, hrest⟩
  failures := by rw [hstate, hresults]; exact h.failures
  opened := by rw [hstate, hresults, honward.threshold]; exact h.opened

theorem InTurn.after_end (h : InTurn s k) (honward : Onward s.circuit s'.circuit) {i : ℕ}
    {how : Ending} (hholds : s.Holds k i a since)
    (hstate : s'.state k = (a.ended s.circuit s.now how).state k)
    (hresults : s'.results = s.results ++ reported how k) (hnone : s'.held i = none)
    (hheld : ∀ j, j ≠ i → s'.held j = s.held j) : InTurn s' k := by
  obtain ⟨hsome, hresolved, hgeneration, -⟩ := h.held hholds
  have hkey := hholds.2
  have hidle : ∀ {j b since'}, ¬s'.Holds k j b since' := by
    intro j b since' hb
    by_cases hj : j = i
    · rw [System.Holds, hj, hnone] at hb
      cases hb.1
    · rw [System.Holds, hheld j hj] at hb
      exact hj (h.one hb hholds)
  have hacts := ended_current s.now how (by rw [hkey]; exact hsome) hresolved
    (by rw [hkey]; exact hgeneration.symm)
  rw [hkey] at hacts
  rw [hacts] at hstate
  have hpositive := s.circuit.positive
  have hsized := s.circuit.sized
  have hfailures := h.failures
  have hopened := h.opened
  refine ⟨fun ha => (hidle ha).elim, fun ha => (hidle ha).elim, ?_, ?_⟩
  · rw [hstate, hresults]
    rcases ended_cases (s.circuit.state k) s.circuit.threshold s.circuit.cooldown a.probe s.now how
      with ⟨rfl, heq⟩ | ⟨rfl, -, heq⟩ | ⟨rfl, -, heq⟩ | ⟨rfl, heq⟩
    · rw [heq, reported, List.append_nil]
      split
      · exact hfailures
      · exact hfailures
    · rw [heq, reported, streak_self, if_pos rfl]
      rw [System.state] at hfailures
      rw [saturating_succ, hfailures]
      dsimp only
      omega
    · rw [heq, reported, streak_self, if_pos rfl]
      rw [System.state] at hfailures
      rw [saturating_succ, hfailures]
      dsimp only
      omega
    · rw [heq, reported, streak_self]
      rfl
  · rw [hstate, hresults, honward.threshold]
    rw [System.state] at hfailures hopened
    rcases ended_cases (s.circuit.state k) s.circuit.threshold s.circuit.cooldown a.probe s.now how
      with ⟨rfl, heq⟩ | ⟨rfl, hreached, heq⟩ | ⟨rfl, hbelow, heq⟩ | ⟨rfl, heq⟩
    · rw [heq, reported, List.append_nil]
      split
      · exact hopened
      · exact hopened
    · rw [heq, reported, streak_self, if_pos rfl]
      rw [saturating_succ, hfailures] at hreached
      refine ⟨fun _ => by omega, fun _ => rfl⟩
    · rw [heq, reported, streak_self, if_pos rfl]
      rw [saturating_succ, hfailures] at hbelow
      dsimp only
      rw [hopened]
      omega
    · rw [heq, reported, streak_self]
      refine ⟨(fun hopen => by cases hopen), fun hle => ?_⟩
      rw [if_neg (by decide)] at hle
      omega

/-- **One step**, with the calls of the key one at a time. -/
theorem InTurn.step (h : InTurn s k) (halone : Alone k s op) : InTurn (s.step op) k := by
  have honward := (step_onward s op).2
  rcases step_moves s op with ⟨-, -, hstate, -, hheld, -, hresults⟩
    | ⟨key, hop, -, -, hself, hother, -, hsome, hnew, hheld, -, hresults⟩
    | ⟨i, a, since, how, -, -, hthis, hstate, -, hnone, hheld, -, hresults⟩
  · refine h.of_same honward (hstate k) (by rw [hresults]) fun i a since hholds => ?_
    rwa [System.Holds, hheld i] at hholds
  · by_cases hk : k = key
    · subst hk
      have honly : ∀ {i a since}, (s.step op).Holds k i a since → i = s.calls.length
          ∧ a = ⟨k, (s.state k).generation, (s.state k).open_until.isSome, false⟩ := by
        intro i a since hholds
        by_cases hi : i = s.calls.length
        · rw [System.Holds, hi, hnew, Option.some.injEq, Prod.mk.injEq] at hholds
          exact ⟨hi, hholds.1.1.symm⟩
        · rw [System.Holds, hheld i hi] at hholds
          exact absurd hholds (halone hop i a since)
      refine ⟨fun ha hb => (honly ha).1.trans (honly hb).1.symm, fun ha => ?_, ?_, ?_⟩
      · rw [(honly ha).2, hself]
        exact ⟨hsome, rfl, rfl, rfl⟩
      · rw [hself, hresults]
        exact h.failures
      · rw [hself, hresults, honward.threshold]
        exact h.opened
    · refine h.of_same honward (hother k hk) (by rw [hresults]) fun i a since hholds => ?_
      by_cases hi : i = s.calls.length
      · rw [System.Holds, hi, hnew, Option.some.injEq, Prod.mk.injEq] at hholds
        obtain ⟨⟨rfl, -⟩, hkey⟩ := hholds
        exact absurd hkey.symm hk
      · rwa [System.Holds, hheld i hi] at hholds
  · by_cases hkey : a.key = k
    · refine h.after_end honward ⟨hthis, hkey⟩ (hstate k) ?_ hnone hheld
      rw [hresults, hkey]
    · refine h.of_same honward ?_ ?_ fun j b since' hholds => ?_
      · rw [hstate k]
        exact ended_other how (Ne.symm hkey)
      · rw [hresults]
        exact streak_reported hkey s.results how
      · by_cases hj : j = i
        · rw [System.Holds, hj, hnone] at hholds
          cases hholds.1
        · rwa [System.Holds, hheld j hj] at hholds

/-- **The threshold-th failure in a row, and no other result, opens the circuit.** -/
theorem InTurn.opens_iff (h : InTurn s k) (halone : Alone k s op) :
    ((s.state k).open_until = none ∧ ((s.step op).state k).open_until.isSome = true)
      ↔ (s.step op).results = s.results ++ [(k, true)]
        ∧ streak k (s.step op).results = s.circuit.threshold := by
  have hpositive := s.circuit.positive
  have hopened := h.opened
  have hopened' := (h.step halone).opened
  rw [(step_onward s op).2.threshold] at hopened'
  rw [← Option.not_isSome_iff_eq_none, hopened, hopened']
  constructor
  · rintro ⟨hbelow, hreached⟩
    obtain ⟨how, key, hresults⟩ := step_results s op
    by_cases hkey : key = k
    · subst hkey
      rcases how with (_ | _) | _
      · rw [hresults, reported, streak_self, if_neg (by decide)] at hreached
        omega
      · refine ⟨hresults, ?_⟩
        rw [hresults, reported, streak_self, if_pos rfl] at hreached ⊢
        omega
      · rw [hresults, reported, List.append_nil] at hreached
        exact absurd hreached hbelow
    · rw [hresults, streak_reported hkey] at hreached
      exact absurd hreached hbelow
  · rintro ⟨hresults, hstreak⟩
    rw [hresults, streak_self, if_pos rfl] at hstreak ⊢
    omega

/-- **A result of a probe that is no transient failure, and nothing else, closes the
circuit.** -/
theorem InTurn.closes_iff (h : InTurn s k) (halone : Alone k s op) :
    ((s.state k).open_until.isSome = true ∧ ((s.step op).state k).open_until = none)
      ↔ ∃ i a since, s.Holds k i a since ∧ a.probe = true ∧ op.ends = some i
        ∧ (s.step op).results = s.results ++ [(k, false)] := by
  have hpositive := s.circuit.positive
  have hopened := h.opened
  have hopened' := (h.step halone).opened
  rw [(step_onward s op).2.threshold] at hopened'
  constructor
  · rintro ⟨hopen, hclosed⟩
    have hreached := hopened.mp hopen
    rw [← Option.not_isSome_iff_eq_none, hopened'] at hclosed
    rcases step_moves s op with ⟨-, -, -, -, -, -, hresults⟩
      | ⟨key, -, -, -, -, -, -, -, -, -, -, hresults⟩
      | ⟨i, a, since, how, hop, -, hthis, -, -, -, -, -, hresults⟩
    · rw [hresults] at hclosed
      exact absurd hreached hclosed
    · rw [hresults] at hclosed
      exact absurd hreached hclosed
    · by_cases hkey : a.key = k
      · have hholds : s.Holds k i a since := ⟨hthis, hkey⟩
        rw [hkey] at hresults
        refine ⟨i, a, since, hholds, ?_, hop, ?_⟩
        · rw [(h.held hholds).2.2.2]
          exact hopen
        · rcases how with (_ | _) | _
          · exact hresults
          · rw [hresults, reported, streak_self, if_pos rfl] at hclosed
            omega
          · rw [hresults, reported, List.append_nil] at hclosed
            exact absurd hreached hclosed
      · rw [hresults, streak_reported hkey] at hclosed
        exact absurd hreached hclosed
  · rintro ⟨i, a, since, hholds, hprobe, -, hresults⟩
    refine ⟨?_, ?_⟩
    · rw [← (h.held hholds).2.2.2]
      exact hprobe
    · rw [← Option.not_isSome_iff_eq_none, hopened', hresults, streak_self,
        if_neg (by decide)]
      omega

/-! ## The protocol -/

theorem timely_of_short (h : ∀ k, s.turns k + ops.length < 2 ^ 64) :
    Machine.Meets System.step Timely s ops := by
  induction ops generalizing s with
  | nil => trivial
  | cons op ops ih =>
    refine ⟨fun i _ k a since _ => ?_, ih fun k => ?_⟩
    · have hk := h k
      omega
    · have hk := h k
      have hnext := step_turns_le s op k
      rw [List.length_cons] at hk
      omega

/-- **The circuit breaker protocol.** In a timely run an open circuit neither moves nor
grants an admission before its time, and then has at most one outstanding probe; the end
of a probe clears the flag, and the end of a stale admission changes nothing. Where the
calls of the key are made one at a time, the circuit opens exactly on the threshold-th
transient failure in a row and closes exactly on the result of a probe that is none. -/
theorem circuit_protocol (threshold : UInt32) (cooldown : ℕ) (k : String) (ops : List Op) :
    let s := Machine.run System.step (System.new threshold cooldown) ops
    (Machine.Meets System.step Timely (System.new threshold cooldown) ops →
      (∀ until_ more, (s.state k).open_until = some until_ →
          Machine.Meets System.step Timely s more →
          (Machine.run System.step s more).now < until_ →
          (Machine.run System.step s more).state k = s.state k
            ∧ (Machine.run System.step s more).granted k = s.granted k)
        ∧ (∀ i a since, s.Holds k i a since → ¬s.Stale k since →
          (a.probe = true ↔ (s.state k).open_until.isSome = true))
        ∧ (∀ i j a b since since', s.Holds k i a since → s.Holds k j b since' →
          a.probe = true → b.probe = true → i = j)
        ∧ ((s.state k).probe = true ↔ ∃ i a since, s.Holds k i a since ∧ a.probe = true)
        ∧ (∀ i a since op, s.Holds k i a since → a.probe = true → op.ends = some i →
          ((s.step op).state k).probe = false ∧ (s.step op).held i = none)
        ∧ ∀ i a since op, s.Holds k i a since → s.Stale k since → op.ends = some i →
          Timely s op → ∀ k', (s.step op).state k' = s.state k')
    ∧ (Machine.Meets System.step (Alone k) (System.new threshold cooldown) ops →
      ∀ op, Alone k s op →
        (((s.state k).open_until = none ∧ ((s.step op).state k).open_until.isSome = true)
          ↔ (s.step op).results = s.results ++ [(k, true)]
            ∧ streak k (s.step op).results = max threshold.toNat 1)
        ∧ (((s.state k).open_until.isSome = true ∧ ((s.step op).state k).open_until = none)
          ↔ ∃ i a since, s.Holds k i a since ∧ a.probe = true ∧ op.ends = some i
            ∧ (s.step op).results = s.results ++ [(k, false)])) := by
  intro s
  refine ⟨fun htimely => ?_, fun halone op hop => ?_⟩
  · have h : KeySound s k := run_sound (keySound_new threshold cooldown k) htimely
    refine ⟨fun until_ more hopen hmore hnow => run_open h hmore hopen hnow, ?_,
      fun i j a b since since' => h.one, ⟨h.flag, ?_⟩, ?_, ?_⟩
    · intro i a since hholds hfresh
      have hnow : since = s.turns k :=
        Nat.le_antisymm (h.held hholds).2.2.1 (Nat.le_of_not_lt hfresh)
      refine ⟨fun hprobe => ?_, h.current hholds hnow⟩
      by_contra hclosed
      rw [Option.not_isSome_iff_eq_none] at hclosed
      have hflag := (h.flagged hholds hprobe).2
      rw [(h.closed hclosed).2] at hflag
      cases hflag
    · rintro ⟨i, a, since, hholds, hprobe⟩
      exact (h.flagged hholds hprobe).2
    · exact fun i a since op hholds hprobe hop => h.probe_ends hholds hprobe hop
    · intro i a since op hholds hstale hop htimely k'
      obtain ⟨how, hstate, -⟩ := step_ends hholds hop
      rw [hstate k']
      exact h.stale hholds (htimely i hop k a since hholds) hstale how k'
  · have h : InTurn s k :=
      halone.keeps (I := fun s => InTurn s k) (fun _ _ halone h => h.step halone)
        (inTurn_new threshold cooldown k)
    have hthreshold : s.circuit.threshold = max threshold.toNat 1 := by
      exact Machine.run_keeps (I := fun s' : System =>
        s'.circuit.threshold = max threshold.toNat 1)
        (fun s' op h => (step_onward s' op).2.threshold.trans h)
        (s := System.new threshold cooldown) rfl ops
    rw [← hthreshold]
    exact ⟨h.opens_iff hop, h.closes_iff hop⟩

namespace Sample

/-- A call is admitted, the threshold is reached, and a probe goes out. -/
def stall : List Op := [.call "k", .call "k", .resolve_admission 1 true, .call "k"]

/-- The admission of before drops without touching the probe, which bars the next call. -/
theorem stale_drop_keeps_probe :
    let s := Machine.run System.step (System.new 1 0) stall
    (s.state "k").probe = true ∧ (s.step (.drop 0)).state "k" = s.state "k"
      ∧ ((s.step (.drop 0)).step (.call "k")).keys = s.keys
      ∧ ((s.step (.drop 2)).state "k").probe = false := by
  intro s
  have hshort : Machine.Meets System.step Timely (System.new 1 0) (stall ++ [.drop 0]) :=
    timely_of_short fun k => by
      show 0 + 5 < 2 ^ 64
      omega
  have htimely := (Machine.meets_append.mp hshort).1
  have hdrop := (Machine.meets_append.mp hshort).2.1
  obtain ⟨-, -, -, -, hends, hstale⟩ := (circuit_protocol 1 0 "k" stall).1 htimely
  refine ⟨by decide, ?_, by decide, ?_⟩
  · exact hstale 0 ⟨"k", 0, false, false⟩ 0 (.drop 0) ⟨by decide, rfl⟩
      (show 0 < s.turns "k" by decide) rfl hdrop "k"
  · exact (hends 2 ⟨"k", 1, true, false⟩ 1 (.drop 2) ⟨by decide, rfl⟩ rfl rfl).1

/-- A call stays outstanding while others succeed, one at a time. -/
def successes : ℕ → List Op
  | 0 => [.call "k"]
  | n + 1 => successes n ++ [.call "k", .resolve_admission (n + 1) false]

/-- What holds after so many successes. -/
structure Succeeded (s : System) (n : ℕ) : Prop where
  length : s.keys.length = n + 1
  state : s.state "k" = ⟨n % 2 ^ 64, 0, none, false⟩
  states : (s.circuit.states "k").isSome = true
  held : s.Holds "k" 0 ⟨"k", 0, false, false⟩ 0
  turns : s.turns "k" = n

theorem call_granted {s : System} (hclosed : (s.state "k").open_until = none)
    (hprobe : (s.state "k").probe = false) :
    (s.step (.call "k")).state "k" = s.state "k" ∧ (s.step (.call "k")).turns = s.turns
      ∧ ((s.step (.call "k")).circuit.states "k").isSome = true
      ∧ (s.step (.call "k")).held s.calls.length
        = some (⟨"k", (s.state "k").generation, false, false⟩, s.turns "k")
      ∧ (∀ i, i ≠ s.calls.length → (s.step (.call "k")).held i = s.held i)
      ∧ (s.step (.call "k")).keys = s.keys ++ ["k"] := by
  rcases step_moves s (.call "k") with ⟨hcall, -, -, -, -, -, -⟩
    | ⟨key, hop, -, -, hself, -, hturns, hsome, hnew, hheld, hkeys, -⟩
    | ⟨i, a, since, how, hop, -, -, -, -, -, -, -, -⟩
  · obtain hflag | ⟨until_, hopen, -⟩ := hcall "k" rfl
    · rw [hprobe] at hflag
      cases hflag
    · rw [hclosed] at hopen
      cases hopen
  · cases hop
    rw [hclosed, Option.isSome_none] at hself hnew
    refine ⟨?_, hturns, hsome, hnew, hheld, hkeys⟩
    rw [hself, ← hprobe]
  · cases hop

theorem succeeded (n : ℕ) :
    Succeeded (Machine.run System.step (System.new 5 60) (successes n)) n := by
  induction n with
  | zero =>
    exact ⟨by decide, by decide, by decide, ⟨by decide, rfl⟩,
      by decide⟩
  | succ n ih =>
    rw [successes, Machine.run_append, Machine.run_cons, Machine.run_cons, Machine.run_nil]
    generalize Machine.run System.step (System.new 5 60) (successes n) = s at ih
    obtain ⟨hstate, hturns, hsome, hnew, hheld, hkeys⟩ :=
      call_granted (s := s) (by rw [ih.state]) (by rw [ih.state])
    have hlength : s.calls.length = n + 1 := by
      rw [← ih.length, System.keys, List.length_map]
    rw [hlength] at hnew hheld
    have hzero := hheld 0 (by omega)
    generalize s.step (.call "k") = t at *
    rcases step_moves t (.resolve_admission (n + 1) false) with ⟨-, hends, -, -, -, -, -⟩
      | ⟨key, hop, -, -, -, -, -, -, -, -, -, -⟩
      | ⟨i, a, since, how, hop, hhow, hthis, hstates, hturns', -, hheld', hkeys', -⟩
    · rw [hends (n + 1) rfl] at hnew
      cases hnew
    · cases hop
    · cases hop
      cases hhow
      have hboth := hthis.symm.trans hnew
      rw [Option.some.injEq, Prod.mk.injEq] at hboth
      obtain ⟨rfl, -⟩ := hboth
      have honward := (step_onward t (.resolve_admission (n + 1) false)).2
      have hafter : (t.step (.resolve_admission (n + 1) false)).state "k"
          = ⟨(n + 1) % 2 ^ 64, 0, none, false⟩ := by
        rw [hstates "k"]
        refine (ended_current t.now (.resolve false) hsome rfl (congrArg _ hstate)).trans ?_
        have hview : t.circuit.state "k" = ⟨n % 2 ^ 64, 0, none, false⟩ := hstate.trans ih.state
        rw [hview, CircuitState.ended, CircuitState.settle, if_neg (by decide), wrapping_succ,
          Nat.mod_add_mod]
      refine ⟨?_, hafter, honward.states "k" hsome, ⟨?_, rfl⟩, ?_⟩
      · rw [hkeys', hkeys, List.length_append, ih.length, List.length_singleton]
      · rw [hheld' 0 (by omega), hzero]
        exact ih.held.1
      · rw [hturns', System.turned]
        have hne : ((t.step (.resolve_admission (n + 1) false)).circuit.state "k").generation
            ≠ (t.circuit.state "k").generation := by
          have hold := congrArg CircuitState.generation (hstate.trans ih.state)
          have hnew := congrArg CircuitState.generation hafter
          rw [System.state] at hold hnew
          rw [hold, hnew]
          dsimp only
          omega
        dsimp only
        rw [if_neg hne, hturns, ih.turns]

theorem wrapped_acts {s : System} {n : ℕ} (h : Succeeded s n) (hpositive : 0 < n)
    (hwrapped : n % 2 ^ 64 = 0) :
    s.Holds "k" 0 ⟨"k", 0, false, false⟩ 0 ∧ s.Stale "k" 0
      ∧ ((s.step (.resolve_admission 0 true)).state "k").failures ≠ (s.state "k").failures := by
  refine ⟨h.held, by rw [System.Stale, h.turns]; exact hpositive, ?_⟩
  rcases step_moves s (.resolve_admission 0 true) with ⟨-, hends, -, -, -, -, -⟩
    | ⟨key, hop, -, -, -, -, -, -, -, -, -, -⟩
    | ⟨i, a, since, how, hop, hhow, hthis, hstate, -, -, -, -, -⟩
  · have hnone := hends 0 rfl
    rw [h.held.1] at hnone
    cases hnone
  · cases hop
  · cases hop
    cases hhow
    have hboth := hthis.symm.trans h.held.1
    rw [Option.some.injEq, Prod.mk.injEq] at hboth
    obtain ⟨rfl, -⟩ := hboth
    have hview : s.circuit.state "k" = ⟨0, 0, none, false⟩ := by
      have hold := h.state
      rw [hwrapped] at hold
      exact hold
    have hacts := ended_current (a := ⟨"k", 0, false, false⟩) s.now (.resolve true) h.states rfl
      (congrArg CircuitState.generation hview)
    have hzero : (s.state "k").failures = 0 := congrArg CircuitState.failures hview
    rw [hstate "k", hacts, hzero]
    rcases ended_cases (s.circuit.state "k") s.circuit.threshold s.circuit.cooldown false s.now
      (.resolve true) with ⟨hhow, -⟩ | ⟨-, -, heq⟩ | ⟨-, -, heq⟩ | ⟨hhow, -⟩
    · cases hhow
    · rw [heq, hview]
      exact Nat.one_ne_zero
    · rw [heq, hview]
      exact Nat.one_ne_zero
    · cases hhow

/-- **An admission outlives `2 ^ 64` changes**, and its generation is the current one
again: it was granted before the circuit last closed, and counts a failure. -/
theorem wrapped_admission_acts :
    let s := Machine.run System.step (System.new 5 60) (successes (2 ^ 64))
    ∃ a since, s.Holds "k" 0 a since ∧ s.Stale "k" since
      ∧ ((s.step (.resolve_admission 0 true)).state "k").failures ≠ (s.state "k").failures :=
  ⟨_, _, wrapped_acts (succeeded (2 ^ 64)) (Nat.two_pow_pos 64) (Nat.mod_self _)⟩

end Sample

end Appcall.Breaker
