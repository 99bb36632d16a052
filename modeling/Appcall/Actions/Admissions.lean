/-
The calls that share a circuit, in any order: what an admission can do to the circuit
while other calls open and close it.

The state is the circuit with the calls that were admitted. How often the circuit of a
key has opened or closed is counted exactly, and each call remembers the count it was
admitted at, so that the generation of an admission is that count modulo `2 ^ 64`.
`Moves` lists what a step can do; the invariant `KeySound` of a key is derived from it.
-/
import Appcall.Actions.Circuit
import Mathlib.Data.List.Count

set_option autoImplicit false

namespace Appcall.Breaker

open Rpc (ActionDispatchOutcome)

/-- A call of the service, with the count of openings and closings it was admitted at. -/
structure Call where
  key : String
  evidence : DispatchEvidence
  since : ℕ

/-- The circuit, the clock, the calls so far, the openings and closings of each key, and
the results that were reported for each key. -/
structure System where
  circuit : Circuit
  now : ℕ
  calls : List Call
  turns : String → ℕ
  results : List (String × Bool)

def System.new (threshold : UInt32) (cooldown : ℕ) : System where
  circuit := Circuit.new threshold cooldown
  now := 0
  calls := []
  turns _ := 0
  results := []

inductive Op
  | tick (elapsed : ℕ)
  | call (key : String)
  | begin_attempt (i : ℕ)
  | finish_attempt (i : ℕ) (prior : ActionDispatchOutcome) (failure : Option ActionDispatchOutcome)
  | resolve_admission (i : ℕ) (transient_failure : Bool)
  | resolve_deadline (i : ℕ)
  | drop (i : ℕ)

/-- The circuit is written; a key has opened or closed when its generation changed. -/
def System.turned (s : System) (c : Circuit) : System :=
  { s with
    circuit := c
    turns := fun key =>
      if (c.state key).generation = (s.circuit.state key).generation then s.turns key
      else s.turns key + 1 }

/-- An attempt of a call begins or ends. -/
def System.attempt (s : System) (i : ℕ) (f : DispatchEvidence → DispatchEvidence) : System :=
  match s.calls[i]? with
  | none => s
  | some call => { s with calls := s.calls.set i { call with evidence := f call.evidence } }

/-- A call gives up its admission, and reports a result if there is one. -/
def System.close (s : System) (i : ℕ) (f : DispatchEvidence → DispatchEvidence × Circuit)
    (result : DispatchEvidence → Option Bool) : System :=
  match s.calls[i]? with
  | none => s
  | some call =>
    let (evidence, c) := f call.evidence
    let reports := call.evidence.admission.bind (fun a =>
      (result call.evidence).map (fun transient_failure => (a.key, transient_failure)))
    { s.turned c with
      calls := s.calls.set i { call with evidence }
      results := s.results ++ reports.toList }

def System.step (s : System) : Op → System
  | .tick elapsed => { s with now := s.now + elapsed }
  | .call key =>
    let (c, admission) := s.circuit.admit_key key s.now
    match admission with
    | .ok a =>
      { s.turned c with
        calls := s.calls ++ [⟨key, DispatchEvidence.new a, s.turns key⟩] }
    | .error _ => s.turned c
  | .begin_attempt i => s.attempt i (fun e => e.begin_attempt.1)
  | .finish_attempt i prior failure => s.attempt i (fun e => e.finish_attempt prior failure)
  | .resolve_admission i transient_failure =>
    s.close i (fun e => e.resolve_admission s.circuit transient_failure s.now)
      (fun _ => some transient_failure)
  | .resolve_deadline i =>
    s.close i (fun e => e.resolve_deadline s.circuit s.now)
      (fun e => if e.failed_late then some true else none)
  | .drop i => s.close i (fun e => e.drop s.circuit) (fun _ => none)

/-- The outstanding admission of a call, with the count it was granted at. -/
def System.held (s : System) (i : ℕ) : Option (Admission × ℕ) :=
  s.calls[i]?.bind (fun call => call.evidence.admission.map (fun a => (a, call.since)))

/-- The key of each admission that was granted so far. -/
def System.keys (s : System) : List String := s.calls.map Call.key

def System.state (s : System) (key : String) : CircuitState := s.circuit.state key

/-- The call whose admission the operation ends. -/
def Op.ends : Op → Option ℕ
  | .resolve_admission i _ | .resolve_deadline i | .drop i => some i
  | _ => none

/-- The ways in which the operation may end an admission. -/
def Op.ends_by : Op → Ending → Prop
  | .resolve_admission _ transient_failure, how => how = .resolve transient_failure
  | .resolve_deadline _, how => how = .resolve true ∨ how = .drop
  | .drop _, how => how = .drop
  | _, _ => False

/-- The results that the end of an admission reports. -/
def reported (how : Ending) (key : String) : List (String × Bool) :=
  match how with
  | .resolve transient_failure => [(key, transient_failure)]
  | .drop => []

/-! ## What a step can do -/

/-- What a step can do to the circuit and to the outstanding admissions. -/
inductive Moves (s : System) (op : Op) (s' : System) : Prop
  /-- The circuit and the admissions are what they were: a call may have been refused, or
  a call without an admission has ended. -/
  | still (hcall : ∀ key, op = .call key → (s.state key).probe = true
        ∨ ∃ until_, (s.state key).open_until = some until_ ∧ s.now < until_)
      (hends : ∀ i, op.ends = some i → s.held i = none)
      (hstate : ∀ k, s'.state k = s.state k) (hturns : s'.turns = s.turns)
      (hheld : ∀ i, s'.held i = s.held i) (hkeys : s'.keys = s.keys)
      (hresults : s'.results = s.results)
  /-- A call is admitted, as a probe when the circuit is open. -/
  | granted (key : String) (hop : op = .call key) (hprobe : (s.state key).probe = false)
      (huntil : ∀ until_, (s.state key).open_until = some until_ → until_ ≤ s.now)
      (hself : s'.state key = { s.state key with probe := (s.state key).open_until.isSome })
      (hother : ∀ k, k ≠ key → s'.state k = s.state k) (hturns : s'.turns = s.turns)
      (hsome : (s'.circuit.states key).isSome = true)
      (hnew : s'.held s.calls.length = some (⟨key, (s.state key).generation,
        (s.state key).open_until.isSome, false⟩, s.turns key))
      (hheld : ∀ i, i ≠ s.calls.length → s'.held i = s.held i)
      (hkeys : s'.keys = s.keys ++ [key]) (hresults : s'.results = s.results)
  /-- A call gives up its admission. -/
  | ended (i : ℕ) (a : Admission) (since : ℕ) (how : Ending) (hop : op.ends = some i)
      (hhow : op.ends_by how) (hthis : s.held i = some (a, since))
      (hstate : ∀ k, s'.state k = (a.ended s.circuit s.now how).state k)
      (hturns : s'.turns = (s.turned s'.circuit).turns) (hnone : s'.held i = none)
      (hheld : ∀ j, j ≠ i → s'.held j = s.held j) (hkeys : s'.keys = s.keys)
      (hresults : s'.results = s.results ++ reported how a.key)

variable {i : ℕ} {f : DispatchEvidence → DispatchEvidence × Circuit}
  {result : DispatchEvidence → Option Bool} {a : Admission} {since : ℕ}

theorem held_set {s t : System} {call : Call} {e : DispatchEvidence}
    (hcall : s.calls[i]? = some call)
    (hcalls : t.calls = s.calls.set i { call with evidence := e }) :
    t.held i = e.admission.map (fun a => (a, call.since))
      ∧ (∀ j, j ≠ i → t.held j = s.held j) ∧ t.keys = s.keys := by
  have hlt : i < s.calls.length := (List.getElem?_eq_some_iff.mp hcall).1
  refine ⟨?_, fun j hj => ?_, ?_⟩
  · rw [System.held, hcalls, List.getElem?_set_self hlt]
    rfl
  · rw [System.held, System.held, hcalls, List.getElem?_set_ne (Ne.symm hj)]
  · have hlt' : i < (s.calls.map Call.key).length := by rwa [List.length_map]
    have hkey : (s.calls.map Call.key)[i] = call.key := by
      rw [List.getElem_map, (List.getElem?_eq_some_iff.mp hcall).2]
    rw [System.keys, System.keys, hcalls, List.map_set]
    calc (s.calls.map Call.key).set i call.key
        = (s.calls.map Call.key).set i (s.calls.map Call.key)[i] := by rw [hkey]
      _ = s.calls.map Call.key := List.set_getElem_self hlt'

theorem turned_same {s : System} {c : Circuit}
    (h : ∀ k, (c.state k).generation = (s.circuit.state k).generation) :
    (s.turned c).turns = s.turns := by
  funext key
  rw [System.turned]
  exact if_pos (h key)

theorem attempt_moves (s : System) {op : Op} (i : ℕ) {f : DispatchEvidence → DispatchEvidence}
    (hcall : ∀ key, op ≠ .call key) (hends : op.ends = none)
    (hf : ∀ e, (f e).admission = e.admission) : Moves s op (s.attempt i f) := by
  have hnot : ∀ i, op.ends = some i → s.held i = none := by
    intro i hi
    rw [hends] at hi
    cases hi
  rw [System.attempt]
  split
  · exact .still (fun key h => (hcall key h).elim) hnot (fun _ => rfl) rfl (fun _ => rfl) rfl rfl
  next call hcalls =>
    obtain ⟨hself, hother, hkeys⟩ := held_set (s := s) (t := { s with
      calls := s.calls.set i { call with evidence := f call.evidence } }) hcalls rfl
    refine .still (fun key h => (hcall key h).elim) hnot (fun _ => rfl) rfl (fun j => ?_) hkeys rfl
    by_cases hj : j = i
    · rw [hj, hself, hf, System.held, hcalls]
      rfl
    · exact hother j hj

theorem close_moves {s : System} {op : Op} (hop : op.ends = some i)
    (hnone : ∀ e, e.admission = none → f e = (e, s.circuit))
    (hsome : ∀ e a, e.admission = some a → ∃ how : Ending,
      f e = ({ e with admission := none }, a.ended s.circuit s.now how)
        ∧ reported how a.key = ((result e).map (fun t => (a.key, t))).toList
        ∧ op.ends_by how) : Moves s op (s.close i f result) := by
  have hnot : ∀ key, op ≠ .call key := by
    rintro key rfl
    cases hop
  have hthis : ∀ j, op.ends = some j → j = i := fun j hj => Option.some.inj (hj.symm.trans hop)
  rw [System.close]
  split
  next hcall =>
    refine .still (fun key h => (hnot key h).elim) (fun j hj => ?_) (fun _ => rfl) rfl
      (fun _ => rfl) rfl rfl
    rw [hthis j hj, System.held, hcall]
    rfl
  next call hcall =>
    cases hadm : call.evidence.admission with
    | none =>
      rw [hnone _ hadm]
      obtain ⟨hself, hother, hkeys⟩ := held_set (s := s) (t := { s.turned s.circuit with
        calls := s.calls.set i { call with evidence := call.evidence }
        results := s.results ++ [] }) hcall rfl
      refine .still (fun key h => (hnot key h).elim) (fun j hj => ?_) (fun _ => rfl)
        (turned_same fun _ => rfl) (fun j => ?_) hkeys (List.append_nil _)
      · rw [hthis j hj, System.held, hcall, Option.bind_some, hadm]
        rfl
      · by_cases hj : j = i
        · rw [hj]
          refine hself.trans ?_
          rw [System.held, hcall]
          rfl
        · exact hother j hj
    | some a =>
      obtain ⟨how, heq, hresults, hhow⟩ := hsome _ a hadm
      rw [heq]
      obtain ⟨hself, hother, hkeys⟩ := held_set (s := s)
        (t := { s.turned (a.ended s.circuit s.now how) with
          calls := s.calls.set i { call with evidence :=
            { call.evidence with admission := none } }
          results := s.results ++ ((result call.evidence).map (fun t => (a.key, t))).toList })
        hcall rfl
      refine .ended i a call.since how hop hhow ?_ (fun _ => rfl) rfl hself hother hkeys ?_
      · rw [System.held, hcall, Option.bind_some, hadm]
        rfl
      · rw [hresults]
        rfl

/-- **What a step can do.** -/
theorem step_moves (s : System) (op : Op) : Moves s op (s.step op) := by
  cases op with
  | tick elapsed =>
    exact .still (fun key h => nomatch h) (fun i h => nomatch h) (fun _ => rfl) rfl (fun _ => rfl)
      rfl rfl
  | call key =>
    rw [System.step]
    rcases admit_key_cases s.circuit key s.now with ⟨hrefused, herr, hsame⟩
      | ⟨hprobe, huntil, hok, hself, hother⟩
    · dsimp only
      rw [herr]
      refine .still (fun key' h => ?_) (fun i h => nomatch h) hsame
        (turned_same fun k => by rw [hsame k]) (fun _ => rfl) rfl rfl
      cases h
      exact hrefused
    · have hgeneration : ∀ k, ((s.circuit.admit_key key s.now).1.state k).generation
          = (s.circuit.state k).generation := by
        intro k
        by_cases hk : k = key
        · rw [hk, hself]
        · rw [hother k hk]
      dsimp only
      rw [hok]
      refine .granted key rfl hprobe huntil hself hother (turned_same hgeneration)
        (admit_key_states s.circuit key s.now).1 ?_ (fun i hi => ?_) List.map_append rfl
      · rw [System.held, List.getElem?_concat_length]
        rfl
      · rw [System.held, System.held]
        congr 1
        by_cases hlt : i < s.calls.length
        · exact List.getElem?_append_left hlt
        · rw [List.getElem?_eq_none (Nat.le_of_not_lt hlt)]
          refine List.getElem?_eq_none ?_
          rw [List.length_append, List.length_singleton]
          omega
  | begin_attempt i =>
    exact attempt_moves s i (f := fun e => e.begin_attempt.1) (fun key h => nomatch h) rfl
      fun _ => rfl
  | finish_attempt i prior failure =>
    exact attempt_moves s i (f := fun e => e.finish_attempt prior failure)
      (fun key h => nomatch h) rfl fun _ => rfl
  | resolve_admission i transient_failure =>
    rw [System.step]
    refine close_moves rfl (fun e he => ?_) fun e a he =>
      ⟨.resolve transient_failure, ?_, rfl, rfl⟩
    · rw [DispatchEvidence.resolve_admission, he]
    · rw [DispatchEvidence.resolve_admission, he]
      rfl
  | resolve_deadline i =>
    rw [System.step]
    refine close_moves rfl (fun e he => ?_) fun e a he => ?_
    · rw [DispatchEvidence.resolve_deadline, he]
    · cases hlate : e.failed_late with
      | true =>
        refine ⟨.resolve true, ?_, rfl, .inl rfl⟩
        rw [DispatchEvidence.resolve_deadline, he, hlate]
        rfl
      | false =>
        refine ⟨.drop, ?_, rfl, .inr rfl⟩
        rw [DispatchEvidence.resolve_deadline, he, hlate]
        rfl
  | drop i =>
    rw [System.step]
    refine close_moves rfl (fun e he => ?_) fun e a he => ⟨.drop, ?_, rfl, rfl⟩
    · rw [DispatchEvidence.drop, he]
    · rw [DispatchEvidence.drop, he]
      rfl

/-- The rules of a circuit stay, and so do the keys that it has. -/
structure Onward (c c' : Circuit) : Prop where
  threshold : c'.threshold = c.threshold
  cooldown : c'.cooldown = c.cooldown
  states : ∀ k, (c.states k).isSome = true → (c'.states k).isSome = true

theorem Onward.refl (c : Circuit) : Onward c c := ⟨rfl, rfl, fun _ h => h⟩

theorem ended_onward (a : Admission) (c : Circuit) (now : ℕ) (how : Ending) :
    Onward c (a.ended c now how) :=
  ⟨(ended_threshold how).1, (ended_threshold how).2, fun _ => ended_states how⟩

theorem close_onward {s : System} (h : ∀ e, Onward s.circuit (f e).2) :
    s.now ≤ (s.close i f result).now ∧ Onward s.circuit (s.close i f result).circuit := by
  rw [System.close]
  split
  · exact ⟨Nat.le_refl _, Onward.refl _⟩
  next call _ => exact ⟨Nat.le_refl _, h call.evidence⟩

theorem attempt_onward {s : System} {f : DispatchEvidence → DispatchEvidence} :
    s.now ≤ (s.attempt i f).now ∧ Onward s.circuit (s.attempt i f).circuit := by
  rw [System.attempt]
  split
  · exact ⟨Nat.le_refl _, Onward.refl _⟩
  · exact ⟨Nat.le_refl _, Onward.refl _⟩

theorem step_onward (s : System) (op : Op) :
    s.now ≤ (s.step op).now ∧ Onward s.circuit (s.step op).circuit := by
  cases op with
  | tick elapsed => exact ⟨Nat.le_add_right _ _, Onward.refl _⟩
  | call key =>
    have honward : Onward s.circuit (s.circuit.admit_key key s.now).1 :=
      ⟨(admit_key_threshold _ _ _).1, (admit_key_threshold _ _ _).2, (admit_key_states _ _ _).2⟩
    rw [System.step]
    dsimp only
    split
    · exact ⟨Nat.le_refl _, honward⟩
    · exact ⟨Nat.le_refl _, honward⟩
  | begin_attempt i => exact attempt_onward
  | finish_attempt i prior failure => exact attempt_onward
  | resolve_admission i transient_failure =>
    refine close_onward fun e => ?_
    rw [DispatchEvidence.resolve_admission]
    split
    next a _ => exact ended_onward a _ _ (.resolve transient_failure)
    next => exact Onward.refl _
  | resolve_deadline i =>
    refine close_onward fun e => ?_
    rw [DispatchEvidence.resolve_deadline]
    split
    next a _ =>
      dsimp only
      split
      · exact ended_onward a _ _ (.resolve true)
      · exact ended_onward a _ s.now .drop
    next => exact Onward.refl _
  | drop i =>
    refine close_onward fun e => ?_
    rw [DispatchEvidence.drop]
    split
    next a _ => exact ended_onward a _ s.now .drop
    next => exact Onward.refl _

/-! ## One key -/

variable {s s' : System} {op : Op} {k : String}

/-- A call has an outstanding admission of the key. -/
def System.Holds (s : System) (k : String) (i : ℕ) (a : Admission) (since : ℕ) : Prop :=
  s.held i = some (a, since) ∧ a.key = k

/-- The circuit of the key has opened or closed since: the admission is stale. -/
def System.Stale (s : System) (k : String) (since : ℕ) : Prop := since < s.turns k

/-- What holds of a key. An admission that is not stale is a probe exactly when the
circuit is open, and the flag is up exactly while a probe is outstanding. -/
structure KeySound (s : System) (k : String) : Prop where
  generation : (s.state k).generation = s.turns k % 2 ^ 64
  closed : (s.state k).open_until = none →
    (s.state k).failures < s.circuit.threshold ∧ (s.state k).probe = false
  opened : (s.state k).open_until.isSome = true → s.circuit.threshold ≤ (s.state k).failures
  waited : (s.state k).probe = true →
    ∀ until_, (s.state k).open_until = some until_ → until_ ≤ s.now
  held : ∀ {i a since}, s.Holds k i a since → (s.circuit.states k).isSome = true
    ∧ a.resolved = false ∧ since ≤ s.turns k ∧ a.generation = since % 2 ^ 64
  flagged : ∀ {i a since}, s.Holds k i a since → a.probe = true →
    since = s.turns k ∧ (s.state k).probe = true
  current : ∀ {i a since}, s.Holds k i a since → since = s.turns k →
    (s.state k).open_until.isSome = true → a.probe = true
  one : ∀ {i j a b since since'}, s.Holds k i a since → s.Holds k j b since' →
    a.probe = true → b.probe = true → i = j
  flag : (s.state k).probe = true → ∃ i a since, s.Holds k i a since ∧ a.probe = true

/-- The condition on a run: while an admission is outstanding, the circuit of its key
opens and closes fewer than `2 ^ 64` times. -/
def Timely (s : System) (op : Op) : Prop :=
  ∀ i, op.ends = some i → ∀ k a since, s.Holds k i a since → s.turns k < since + 2 ^ 64

theorem keySound_new (threshold : UInt32) (cooldown : ℕ) (k : String) :
    KeySound (System.new threshold cooldown) k := by
  have hnone : ∀ {i a since}, ¬(System.new threshold cooldown).Holds k i a since :=
    fun h => nomatch h.1
  exact {
    generation := rfl
    closed := fun _ => ⟨(Circuit.new threshold cooldown).positive, rfl⟩
    opened := fun h => nomatch h
    waited := fun h => nomatch h
    held := fun h => (hnone h).elim
    flagged := fun h => (hnone h).elim
    current := fun h => (hnone h).elim
    one := fun h => (hnone h).elim
    flag := fun h => nomatch h }

theorem KeySound.generation_eq_iff (h : KeySound s k) (hholds : s.Holds k i a since)
    (htimely : s.turns k < since + 2 ^ 64) :
    (s.state k).generation = a.generation ↔ since = s.turns k := by
  obtain ⟨-, -, hle, hgeneration⟩ := h.held hholds
  rw [h.generation, hgeneration]
  constructor
  · intro hmod
    omega
  · intro hsince
    rw [hsince]

/-- **A stale admission changes nothing.** -/
theorem KeySound.stale (h : KeySound s k) (hholds : s.Holds k i a since)
    (htimely : s.turns k < since + 2 ^ 64) (hstale : s.Stale k since) (how : Ending) (k' : String) :
    (a.ended s.circuit s.now how).state k' = s.state k' := by
  by_cases hk : k' = a.key
  · rw [hk]
    have hkey := hholds.2
    refine ended_stale how ?_ ?_
    · rw [hkey]
      exact (h.held hholds).1
    · intro heq
      rw [hkey] at heq
      have hnow := (h.generation_eq_iff hholds htimely).mp heq
      rw [System.Stale, ← hnow] at hstale
      exact absurd hstale (Nat.lt_irrefl _)
  · exact ended_other how hk

theorem KeySound.acts (h : KeySound s k) (hholds : s.Holds k i a (s.turns k)) (how : Ending) :
    (a.ended s.circuit s.now how).state k
      = (s.state k).ended s.circuit.threshold s.circuit.cooldown a.probe s.now how := by
  obtain ⟨hsome, hresolved, -, hgeneration⟩ := h.held hholds
  have hkey := hholds.2
  have hacts := ended_current s.now how (by rw [hkey]; exact hsome) hresolved
    (by rw [hkey, hgeneration]; exact h.generation)
  rw [hkey] at hacts
  exact hacts

theorem KeySound.of_same (h : KeySound s k) (honward : s.now ≤ s'.now ∧ Onward s.circuit s'.circuit)
    (hstate : s'.state k = s.state k) (hturns : s'.turns k = s.turns k)
    (hback : ∀ i a since, s'.Holds k i a since → s.Holds k i a since)
    (hprobes : ∀ i a since, s.Holds k i a since → a.probe = true → s'.Holds k i a since) :
    KeySound s' k where
  generation := by rw [hstate, hturns]; exact h.generation
  closed := by rw [hstate, honward.2.threshold]; exact h.closed
  opened := by rw [hstate, honward.2.threshold]; exact h.opened
  waited := by
    rw [hstate]
    exact fun hprobe until_ huntil => Nat.le_trans (h.waited hprobe until_ huntil) honward.1
  held := by
    intro i a since hholds
    obtain ⟨hsome, hrest⟩ := h.held (hback i a since hholds)
    rw [hturns]
    exact ⟨honward.2.states k hsome, hrest⟩
  flagged := by
    intro i a since hholds
    rw [hstate, hturns]
    exact h.flagged (hback i a since hholds)
  current := by
    intro i a since hholds
    rw [hstate, hturns]
    exact h.current (hback i a since hholds)
  one := fun ha hb => h.one (hback _ _ _ ha) (hback _ _ _ hb)
  flag := by
    rw [hstate]
    intro hprobe
    obtain ⟨i, a, since, hholds, ha⟩ := h.flag hprobe
    exact ⟨i, a, since, hprobes i a since hholds ha, ha⟩

theorem KeySound.no_other_probe (h : KeySound s k) (hholds : s.Holds k i a (s.turns k)) {j : ℕ}
    {b : Admission} (hother : s.Holds k j b since) (hne : j ≠ i) : b.probe = false := by
  by_contra hb
  rw [Bool.not_eq_false] at hb
  by_cases hopen : (s.state k).open_until.isSome = true
  · exact hne (h.one hother hholds hb (h.current hholds rfl hopen))
  · rw [Option.not_isSome_iff_eq_none] at hopen
    have hflag := (h.flagged hother hb).2
    rw [(h.closed hopen).2] at hflag
    cases hflag

theorem ended_cases (state : CircuitState) (threshold cooldown : ℕ) (probe : Bool) (now : ℕ)
    (how : Ending) :
    (how = .drop ∧ state.ended threshold cooldown probe now how
      = if probe then { state with probe := false } else state)
    ∨ (how = .resolve true ∧ threshold ≤ saturating_succ state.failures
      ∧ state.ended threshold cooldown probe now how
        = ⟨wrapping_succ state.generation, saturating_succ state.failures,
          some (now + cooldown), false⟩)
    ∨ (how = .resolve true ∧ saturating_succ state.failures < threshold
      ∧ state.ended threshold cooldown probe now how
        = ⟨state.generation, saturating_succ state.failures, state.open_until, false⟩)
    ∨ (how = .resolve false ∧ state.ended threshold cooldown probe now how
      = ⟨wrapping_succ state.generation, 0, none, false⟩) := by
  cases how with
  | drop => exact .inl ⟨rfl, rfl⟩
  | resolve transient_failure =>
    cases transient_failure with
    | false => exact .inr (.inr (.inr ⟨rfl, rfl⟩))
    | true =>
      rw [CircuitState.ended, CircuitState.settle]
      by_cases hreached : threshold ≤ saturating_succ state.failures
      · refine .inr (.inl ⟨rfl, hreached, ?_⟩)
        dsimp only
        rw [if_pos rfl, if_pos hreached]
      · refine .inr (.inr (.inl ⟨rfl, Nat.lt_of_not_le hreached, ?_⟩))
        dsimp only
        rw [if_pos rfl, if_neg hreached]

theorem KeySound.of_lowered (h : KeySound s k)
    (honward : s.now ≤ s'.now ∧ Onward s.circuit s'.circuit)
    (hgeneration : (s'.state k).generation = s'.turns k % 2 ^ 64)
    (hturns : s.turns k ≤ s'.turns k) (hprobe : (s'.state k).probe = false)
    (hclosed : (s'.state k).open_until = none → (s'.state k).failures < s.circuit.threshold)
    (hopened : (s'.state k).open_until.isSome = true →
      s.circuit.threshold ≤ (s'.state k).failures)
    (hcurrent : s'.turns k = s.turns k → (s'.state k).open_until.isSome = true →
      (s.state k).open_until.isSome = true)
    (hback : ∀ i a since, s'.Holds k i a since → s.Holds k i a since ∧ a.probe = false) :
    KeySound s' k where
  generation := hgeneration
  closed := by
    rw [honward.2.threshold]
    exact fun hnone => ⟨hclosed hnone, hprobe⟩
  opened := by rw [honward.2.threshold]; exact hopened
  waited := by
    rw [hprobe]
    intro hflag
    cases hflag
  held := by
    intro i a since hholds
    obtain ⟨hsome, hresolved, hle, hgen⟩ := h.held (hback i a since hholds).1
    exact ⟨honward.2.states k hsome, hresolved, Nat.le_trans hle hturns, hgen⟩
  flagged := by
    intro i a since hholds ha
    rw [(hback i a since hholds).2] at ha
    cases ha
  current := by
    intro i a since hholds hsince hopen
    obtain ⟨-, -, hle, -⟩ := h.held (hback i a since hholds).1
    have hsame : s'.turns k = s.turns k := Nat.le_antisymm (hsince ▸ hle) hturns
    exact h.current (hback i a since hholds).1 (hsince.trans hsame) (hcurrent hsame hopen)
  one := by
    intro i j a b since since' ha _ hpa
    rw [(hback i a since ha).2] at hpa
    cases hpa
  flag := by
    rw [hprobe]
    intro hflag
    cases hflag

/-- An admission of the key ends. -/
theorem KeySound.after_end (h : KeySound s k)
    (honward : s.now ≤ s'.now ∧ Onward s.circuit s'.circuit) {how : Ending}
    (hholds : s.Holds k i a (s.turns k))
    (hstate : s'.state k = (a.ended s.circuit s.now how).state k)
    (hturns : s'.turns = (s.turned s'.circuit).turns) (hnone : s'.held i = none)
    (hheld : ∀ j, j ≠ i → s'.held j = s.held j) : KeySound s' k := by
  have hback : ∀ j b since, s'.Holds k j b since → s.Holds k j b since ∧ b.probe = false := by
    intro j b since hb
    by_cases hj : j = i
    · rw [System.Holds, hj, hnone] at hb
      cases hb.1
    · rw [System.Holds, hheld j hj] at hb
      exact ⟨hb, h.no_other_probe hholds hb hj⟩
  have hsame : (s'.state k).generation = (s.state k).generation → s'.turns k = s.turns k := by
    intro hgen
    rw [hturns]
    exact if_pos hgen
  have hnext : (s'.state k).generation = wrapping_succ (s.state k).generation →
      s'.turns k = s.turns k + 1 ∧ (s'.state k).generation = s'.turns k % 2 ^ 64 := by
    intro hgen
    have hmod := h.generation
    have hne : (s'.circuit.state k).generation ≠ (s.circuit.state k).generation := by
      rw [System.state, System.state] at hgen
      rw [System.state] at hmod
      rw [hgen, wrapping_succ]
      omega
    have hsucc : s'.turns k = s.turns k + 1 := by
      rw [hturns]
      exact if_neg hne
    refine ⟨hsucc, ?_⟩
    rw [hgen, hsucc, wrapping_succ, hmod]
    omega
  rw [h.acts hholds how] at hstate
  rcases ended_cases (s.state k) s.circuit.threshold s.circuit.cooldown a.probe s.now how with
    ⟨-, heq⟩ | ⟨-, hreached, heq⟩ | ⟨-, hbelow, heq⟩ | ⟨-, heq⟩
  · rw [heq] at hstate
    by_cases hprobe : a.probe = true
    · -- the probe is given up, and the circuit stays open
      rw [if_pos hprobe] at hstate
      have ht : s'.turns k = s.turns k := hsame (by rw [hstate])
      refine h.of_lowered honward ?_ ht.ge ?_ ?_ ?_ ?_ hback
      · rw [hstate, ht]
        exact h.generation
      · rw [hstate]
      · rw [hstate]
        exact fun hnone => (h.closed hnone).1
      · rw [hstate]
        exact h.opened
      · rw [hstate]
        exact fun _ hopen => hopen
    · rw [if_neg hprobe] at hstate
      refine h.of_same honward hstate (hsame (by rw [hstate]))
        (fun j b since hb => (hback j b since hb).1) ?_
      intro j b since hb hpb
      have hj : j ≠ i := by
        rintro rfl
        have hboth := hb.1.symm.trans hholds.1
        rw [Option.some.injEq, Prod.mk.injEq] at hboth
        rw [hboth.1] at hpb
        exact hprobe hpb
      rw [h.no_other_probe hholds hb hj] at hpb
      cases hpb
  · -- the threshold is reached: the circuit opens
    rw [heq] at hstate
    obtain ⟨hsucc, hgen⟩ := hnext (by rw [hstate])
    refine h.of_lowered honward hgen (by omega) ?_ ?_ ?_ (fun ht => by omega) hback
    · rw [hstate]
    · rw [hstate]
      intro hnone
      cases hnone
    · rw [hstate]
      exact fun _ => hreached
  · -- below the threshold: the circuit is closed, and stays closed
    rw [heq] at hstate
    have ht : s'.turns k = s.turns k := hsame (by rw [hstate])
    have hclosed : (s.state k).open_until = none := by
      rw [← Option.not_isSome_iff_eq_none]
      intro hopen
      have hle := h.opened hopen
      have hsized := s.circuit.sized
      rw [saturating_succ] at hbelow
      omega
    refine h.of_lowered honward ?_ ht.ge ?_ ?_ ?_ ?_ hback
    · rw [hstate, ht]
      exact h.generation
    · rw [hstate]
    · rw [hstate]
      exact fun _ => hbelow
    · rw [hstate, hclosed]
      intro hopen
      cases hopen
    · rw [hstate]
      exact fun _ hopen => hopen
  · -- a result that is no transient failure closes the circuit
    rw [heq] at hstate
    obtain ⟨hsucc, hgen⟩ := hnext (by rw [hstate])
    refine h.of_lowered honward hgen (by omega) ?_ ?_ ?_ (fun ht => by omega) hback
    · rw [hstate]
    · rw [hstate]
      exact fun _ => s.circuit.positive
    · rw [hstate]
      intro hopen
      cases hopen

theorem step_results (s : System) (op : Op) :
    ∃ how key, (s.step op).results = s.results ++ reported how key := by
  rcases step_moves s op with ⟨-, -, -, -, -, -, hresults⟩
    | ⟨key, -, -, -, -, -, -, -, -, -, -, hresults⟩
    | ⟨i, a, since, how, -, -, -, -, -, -, -, -, hresults⟩
  · exact ⟨.drop, "", by rw [hresults, reported, List.append_nil]⟩
  · exact ⟨.drop, "", by rw [hresults, reported, List.append_nil]⟩
  · exact ⟨how, a.key, hresults⟩

theorem step_turns_le (s : System) (op : Op) (k : String) :
    (s.step op).turns k ≤ s.turns k + 1 := by
  rcases step_moves s op with ⟨-, -, -, hturns, -, -, -⟩
    | ⟨key, -, -, -, -, -, hturns, -, -, -, -, -⟩
    | ⟨i, a, since, how, -, -, -, -, hturns, -, -, -, -⟩
  · rw [hturns]
    exact Nat.le_succ _
  · rw [hturns]
    exact Nat.le_succ _
  · rw [hturns, System.turned]
    dsimp only
    split
    · exact Nat.le_succ _
    · exact Nat.le_refl _

/-- **One step.** -/
theorem KeySound.step (h : KeySound s k) (htimely : Timely s op) : KeySound (s.step op) k := by
  have honward := step_onward s op
  rcases step_moves s op with ⟨-, -, hstate, hturns, hheld, -, -⟩
    | ⟨key, -, hprobe, huntil, hself, hother, hturns, hsome, hnew, hheld, -, -⟩
    | ⟨i, a, since, how, hop, -, hthis, hstate, hturns, hnone, hheld, -, -⟩
  · have hsame : ∀ i a since, (s.step op).Holds k i a since ↔ s.Holds k i a since := by
      intro i a since
      rw [System.Holds, System.Holds, hheld i]
    exact h.of_same honward (hstate k) (by rw [hturns]) (fun i a since => (hsame i a since).mp)
      fun i a since hholds _ => (hsame i a since).mpr hholds
  · have hold : ∀ {i a since}, s.Holds k i a since → i ≠ s.calls.length := by
      rintro i a since hholds rfl
      rw [System.Holds, System.held, List.getElem?_eq_none (Nat.le_refl _)] at hholds
      cases hholds.1
    by_cases hk : k = key
    · subst hk
      -- what is held now is the new admission, or was held before and is no probe
      have hback : ∀ {i a since}, (s.step op).Holds k i a since →
          (a = ⟨k, (s.state k).generation, (s.state k).open_until.isSome, false⟩
            ∧ since = s.turns k ∧ i = s.calls.length)
          ∨ (s.Holds k i a since ∧ a.probe = false) := by
        intro i a since hholds
        by_cases hi : i = s.calls.length
        · rw [System.Holds, hi, hnew, Option.some.injEq, Prod.mk.injEq] at hholds
          exact .inl ⟨hholds.1.1.symm, hholds.1.2.symm, hi⟩
        · rw [System.Holds, hheld i hi] at hholds
          refine .inr ⟨hholds, ?_⟩
          by_contra hpa
          rw [Bool.not_eq_false] at hpa
          have hflag := (h.flagged hholds hpa).2
          rw [hprobe] at hflag
          cases hflag
      exact {
        generation := by rw [hself, hturns]; exact h.generation
        closed := by
          rw [hself, honward.2.threshold]
          exact fun hn => ⟨(h.closed hn).1, by rw [hn]; rfl⟩
        opened := by rw [hself, honward.2.threshold]; exact h.opened
        waited := by
          rw [hself]
          exact fun _ until_ hu => Nat.le_trans (huntil until_ hu) honward.1
        held := by
          intro i a since hholds
          rw [hturns]
          obtain ⟨rfl, rfl, -⟩ | ⟨hholds, -⟩ := hback hholds
          · exact ⟨hsome, rfl, Nat.le_refl _, h.generation⟩
          · obtain ⟨-, hrest⟩ := h.held hholds
            exact ⟨hsome, hrest⟩
        flagged := by
          intro i a since hholds hpa
          rw [hself, hturns]
          obtain ⟨rfl, rfl, -⟩ | ⟨-, hpa'⟩ := hback hholds
          · exact ⟨rfl, hpa⟩
          · rw [hpa'] at hpa
            cases hpa
        current := by
          intro i a since hholds
          rw [hself, hturns]
          obtain ⟨rfl, rfl, -⟩ | ⟨hholds, -⟩ := hback hholds
          · exact fun _ hopen => hopen
          · exact h.current hholds
        one := by
          intro i j a b since since' ha hb hpa hpb
          obtain ⟨-, -, hi⟩ | ⟨-, hpa'⟩ := hback ha
          · obtain ⟨-, -, hj⟩ | ⟨-, hpb'⟩ := hback hb
            · rw [hi, hj]
            · rw [hpb'] at hpb
              cases hpb
          · rw [hpa'] at hpa
            cases hpa
        flag := by
          rw [hself]
          exact fun hopen => ⟨_, _, _, ⟨hnew, rfl⟩, hopen⟩ }
    · refine h.of_same honward (hother k hk) (by rw [hturns]) (fun i a since hholds => ?_)
        fun i a since hholds _ => ?_
      · by_cases hi : i = s.calls.length
        · rw [System.Holds, hi, hnew, Option.some.injEq, Prod.mk.injEq] at hholds
          obtain ⟨⟨rfl, -⟩, hkey⟩ := hholds
          exact absurd hkey.symm hk
        · rwa [System.Holds, hheld i hi] at hholds
      · rw [System.Holds, hheld i (hold hholds)]
        exact hholds
  · by_cases hcurrent : a.key = k ∧ since = s.turns k
    · obtain ⟨hkey, rfl⟩ := hcurrent
      exact h.after_end honward ⟨hthis, hkey⟩ (hstate k) hturns hnone hheld
    · -- the admission is of another key, or stale
      have hsame : (s.step op).state k = s.state k := by
        rw [hstate k]
        by_cases hkey : a.key = k
        · refine h.stale ⟨hthis, hkey⟩ (htimely i hop k a since ⟨hthis, hkey⟩) ?_ how k
          have hle := (h.held ⟨hthis, hkey⟩).2.2.1
          exact Nat.lt_of_le_of_ne hle fun hsince => hcurrent ⟨hkey, hsince⟩
        · exact ended_other how (Ne.symm hkey)
      have hkept : (s.step op).turns k = s.turns k := by
        rw [hturns]
        exact if_pos (congrArg CircuitState.generation hsame)
      have hne : ∀ {j b since'}, s.Holds k j b since' → b.probe = true → j ≠ i := by
        rintro j b since' hholds hpb rfl
        have hboth := hholds.1.symm.trans hthis
        rw [Option.some.injEq, Prod.mk.injEq] at hboth
        obtain ⟨rfl, rfl⟩ := hboth
        exact hcurrent ⟨hholds.2, (h.flagged hholds hpb).1⟩
      refine h.of_same honward hsame hkept (fun j b since' hholds => ?_)
        fun j b since' hholds hpb => ?_
      · by_cases hj : j = i
        · rw [System.Holds, hj, hnone] at hholds
          cases hholds.1
        · rwa [System.Holds, hheld j hj] at hholds
      · rw [System.Holds, hheld j (hne hholds hpb)]
        exact hholds

end Appcall.Breaker
