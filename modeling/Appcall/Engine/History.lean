/-
The history of a run is written once.

Everything the engine promises about replay rests on this: a workflow is run
again from its entry point against the recorded events, so an event that changed
would change what the workflow already did. The sealed layout of the store rests
on it as well, since an event that has left the blob is never written again.

One commit at a time this is `Change.extends`; here it is taken along the moves
of an operation, whatever the operation answers.
-/
import Appcall.Engine.Runs

set_option autoImplicit false

namespace Appcall.Durable

open Appcall.Refine

/-- Every stored history has at most one open event, its last. -/
def Histories (m : Machine) : Prop := ∀ id en, m.runs id = some en → OneOpen en.record.history

/-- Histories only get longer, and keep what they have. -/
structure Keeps (m m' : Machine) : Prop where
  one_open : Histories m → Histories m'
  extends_ : Histories m → ∀ id r c, m.runs id = some ⟨r, c⟩ →
    ∃ r' c', m'.runs id = some ⟨r', c'⟩ ∧ Extends r.history r'.history

theorem Keeps.refl (m : Machine) : Keeps m m :=
  ⟨fun h => h, fun _ _ r c hr => ⟨r, c, hr, .refl _⟩⟩

variable {m m' : Machine} {h : List HistoryEvent}

theorem Keeps.trans {m'' : Machine} (h : Keeps m m') (h' : Keeps m' m'') : Keeps m m'' := by
  refine ⟨fun ho => h'.one_open (h.one_open ho), fun ho id r c hr => ?_⟩
  obtain ⟨r', c', hr', hx⟩ := h.extends_ ho id r c hr
  obtain ⟨r'', c'', hr'', hx'⟩ := h'.extends_ (h.one_open ho) id r' c' hr'
  exact ⟨r'', c'', hr'', hx.trans hx'⟩

theorem Trans.keeps_histories {l : Label} (h : Trans m l m') : Keeps m m' := by
  constructor
  · intro ho id en hen
    rcases h.backward hen with ⟨c, hr⟩ | ⟨r, c, run, children, hr, -, hc, heq⟩ | ⟨-, hn, -⟩
    · exact ho id ⟨en.record, c⟩ hr
    · rw [heq]
      exact (hc.extends (ho id _ hr)).2
    · rw [hn.history]
      intro e he
      cases he
  · intro ho id r c hr
    rcases h.forward hr with ⟨c', hr'⟩ | ⟨run, children, -, hc, -, -, c', hr'⟩
    · exact ⟨r, c', hr', .refl _⟩
    · exact ⟨run.saved, c', hr', (hc.extends (ho id _ hr)).1⟩

theorem Path.keeps_histories {ls : List Label} (h : Path Trans m ls m') : Keeps m m' :=
  h.relates .refl (fun _ _ _ _ _ hk ht => hk.trans ht.keeps_histories)

theorem Reachable.histories {e : Engine} (h : Reachable e) : Histories e.machine :=
  fun _ _ hen => h.wellFormed.one_open hen

theorem OneOpen.last (ho : OneOpen h) {i : ℕ} {ev : HistoryEvent} (hi : h[i]? = some ev)
    (hv : ev.value = none) : i + 1 = h.length := by
  obtain ⟨hlt, hget⟩ := List.getElem?_eq_some_iff.mp hi
  by_contra hne
  have hmem : ev ∈ h.dropLast := by
    rw [List.dropLast_eq_take, List.mem_take_iff_getElem]
    exact ⟨i, by omega, hget⟩
  have := ho ev hmem
  rw [hv] at this
  cases this

/-- `h'` extends `h`: it is no shorter, it has the same commands and the same
resolved values, and an event that is not the same any more was the open one at
the end. In both at most the last event is open. -/
structure WrittenOnce (h h' : List HistoryEvent) : Prop where
  length_le : h.length ≤ h'.length
  kept : ∀ i ev, h[i]? = some ev → ∃ ev', h'[i]? = some ev' ∧ ev'.command = ev.command
    ∧ (ev.value.isSome = true → ev'.value = ev.value)
    ∧ (ev' ≠ ev → ev.value = none ∧ i + 1 = h.length)
  open_before : ∀ i ev, h[i]? = some ev → ev.value = none → i + 1 = h.length
  open_after : ∀ i ev, h'[i]? = some ev → ev.value = none → i + 1 = h'.length

theorem Extends.writtenOnce {h' : List HistoryEvent} (hx : Extends h h') (ho : OneOpen h)
    (ho' : OneOpen h') : WrittenOnce h h' := by
  refine ⟨hx.length_le, fun i ev hi => ?_, fun i ev hi hv => ho.last hi hv,
    fun i ev hi hv => ho'.last hi hv⟩
  obtain ⟨ev', hi', hcmd, hval⟩ := hx i ev hi
  refine ⟨ev', hi', hcmd, hval, fun hne => ?_⟩
  have hnone : ev.value = none := by
    by_contra hsome
    refine hne ?_
    cases ev'
    cases ev
    simp only at hcmd hval hsome
    rw [hcmd, hval (Option.isSome_iff_ne_none.mpr hsome)]
  exact ⟨hnone, ho.last hi hnone⟩

/-- **Write-once history.** Whatever an operation answers, each stored run is
still there afterwards and its history is written once. -/
theorem history_write_once {e : Engine} (h : Reachable e) (step : Step) (id : String)
    (r : RunRecord) (hr : e.store.load id = .ok r) :
    ∃ r', (step.exec e).2.store.load id = .ok r' ∧ WrittenOnce r.history r'.history := by
  obtain ⟨ls, hp, hw', -⟩ := step.path h.wellFormed
  obtain ⟨c, hc⟩ := (load_iff h.wellFormed).mp hr
  have hk := Path.keeps_histories hp
  obtain ⟨r', c', hr', hx⟩ := hk.extends_ h.histories id r c hc
  exact ⟨r', (load_iff hw').mpr ⟨c', hr'⟩,
    hx.writtenOnce (h.histories id _ hc) (hk.one_open h.histories id _ hr')⟩

/-- A drive refused by the database half way, of a run with two activities out. -/
theorem history_write_once_refused :
    ∃ r r', (Sample.host (Sample.start (Sample.pair .Unknown .Unknown)
        ++ [Sample.drive "run" 0])).store.load "run" = .ok r ∧ r.history.length = 3
      ∧ ((⟨.drive_with_resolver "run" 0 MissingPayloads, [none, some "disk"]⟩ : Step).exec
          (Sample.host (Sample.start (Sample.pair .Unknown .Unknown)
            ++ [Sample.drive "run" 0]))).2.store.load "run" = .ok r'
      ∧ WrittenOnce r.history r'.history := by
  cases hr : (Sample.host (Sample.start (Sample.pair .Unknown .Unknown)
      ++ [Sample.drive "run" 0])).store.load "run" with
  | error err =>
    have hok : ((Sample.host (Sample.start (Sample.pair .Unknown .Unknown)
        ++ [Sample.drive "run" 0])).store.load "run").isOk = true := by decide +kernel
    rw [hr] at hok
    cases hok
  | ok r =>
    obtain ⟨r', hr', hwritten⟩ := history_write_once (Sample.host_reachable _)
      ⟨.drive_with_resolver "run" 0 MissingPayloads, [none, some "disk"]⟩ "run" r hr
    refine ⟨r, r', rfl, ?_, hr', hwritten⟩
    have hlen : ((Sample.host (Sample.start (Sample.pair .Unknown .Unknown)
        ++ [Sample.drive "run" 0])).store.load "run").map (fun r => r.history.length)
          = .ok 3 := by decide +kernel
    rw [hr] at hlen
    exact Except.ok.inj hlen

end Appcall.Durable
