/-
What the callers of a refresh token are given.

`Moves` lists what a step can do; the invariant `Sound` is derived from it. The entry of a
token stays in the map while a caller has it, and as long as it is young; so all callers of
a token meet at one entry, and what is written there is what they all read. A caller that is
dropped while it asks the broker writes nothing, and the next one asks again.
-/
import Appcall.Web.Refresh
import Mathlib.Data.List.Nodup

set_option autoImplicit false

namespace Appcall.Web

variable {Digest : Type} {digest : String → Digest}

theorem Caller.live_of_waiting {c : Caller} (h : c.stage = .waiting) : c.stage ≠ .gone := by
  rw [h]
  decide

theorem Caller.live_of_calling {c : Caller} (h : c.stage = .calling) : c.stage ≠ .gone := by
  rw [h]
  decide

namespace RefreshCache

/-! ## What a step can do -/

/-- What a step does to the entries, the callers and the log. -/
inductive Moves (digest : String → Digest) (s : RefreshCache Digest) :
    Op → RefreshCache Digest → Prop
  | idle (op : Op) : Moves digest s op s
  | tick (elapsed : ℕ) : Moves digest s (.tick elapsed) { s with now := s.now + elapsed }
  | invalid {token : String} (h : refused token = true) :
      Moves digest s (.rotate token) (s.record [.returned token s.now (.error .Unauthorized)])
  | full {token : String} (h : ∀ i, (digest token, i) ∉ s.retain.entries) :
      Moves digest s (.rotate token)
        (s.retain.record [.returned token s.now (.error .Unavailable)])
  | joined {token : String} {i : ℕ} (hvalid : refused token = false)
      (h : (digest token, i) ∈ s.retain.entries) :
      Moves digest s (.rotate token) (s.retain.join token i)
  | created {token : String} (hvalid : refused token = false)
      (h : ∀ i, (digest token, i) ∉ s.retain.entries) :
      Moves digest s (.rotate token)
        { s.retain.join token s.heap.length with
          heap := s.heap ++ [⟨s.now, none⟩]
          entries := s.retain.entries ++ [(digest token, s.heap.length)] }
  | returned {n : ℕ} {c : Caller} {e : Entry} {result : Rotation} (hc : s.callers[n]? = some c)
      (hstage : c.stage = .waiting) (he : s.heap[c.entry]? = some e)
      (hresult : e.result = some result) :
      Moves digest s (.lock n) ((s.move n c .gone).record [.returned c.token c.arrived result])
  | started {n : ℕ} {c : Caller} (hc : s.callers[n]? = some c) (hstage : c.stage = .waiting)
      (hfree : s.locked c.entry = false)
      (hnone : ∀ e, s.heap[c.entry]? = some e → e.result = none) :
      Moves digest s (.lock n) ((s.move n c .calling).record [.started c.token s.now])
  | answered {n : ℕ} {c : Caller} {e : Entry} {given : Except Error AuthResult}
      (hc : s.callers[n]? = some c) (hstage : c.stage = .calling)
      (he : s.heap[c.entry]? = some e) :
      Moves digest s (.answer n given) (s.answer n c e (accept given))
  | left {n : ℕ} {c : Caller} (hc : s.callers[n]? = some c) (hstage : c.stage = .waiting) :
      Moves digest s (.drop n) (s.move n c .gone)
  | dropped {n : ℕ} {c : Caller} {e : Entry} (hc : s.callers[n]? = some c)
      (hstage : c.stage = .calling) (he : s.heap[c.entry]? = some e) :
      Moves digest s (.drop n) ((s.move n c .gone).record [.dropped c.token e.created])

theorem rotate_moves [DecidableEq Digest] (s : RefreshCache Digest) (token : String) :
    Moves digest s (.rotate token) (s.rotate digest token) := by
  rw [rotate]
  by_cases hrefused : refused token = true
  · rw [if_pos hrefused]
    exact .invalid hrefused
  rw [if_neg hrefused]
  have hvalid := eq_false_of_ne_true hrefused
  split
  next k i hfind =>
    have hkey := List.find?_some hfind
    rw [decide_eq_true_eq] at hkey
    dsimp only at hkey
    subst hkey
    exact .joined hvalid (List.mem_of_find?_eq_some hfind)
  next hfind =>
    have hnone : ∀ i, (digest token, i) ∉ s.retain.entries := by
      intro i hmem
      have hne := List.find?_eq_none.mp hfind _ hmem
      exact hne (decide_eq_true rfl)
    split
    · exact .full hnone
    · exact .created hvalid hnone

theorem step_moves [DecidableEq Digest] (s : RefreshCache Digest) (op : Op) :
    Moves digest s op (s.step digest op) := by
  cases op with
  | tick elapsed => exact .tick elapsed
  | rotate token => exact rotate_moves s token
  | lock n =>
    rw [step]
    split
    next c hc =>
      split
      next hlock =>
        rw [enter]
        split
        next result hresult =>
          obtain ⟨e, he, hresult⟩ := Option.bind_eq_some_iff.mp hresult
          exact .returned hc hlock.1 he hresult
        next hnone =>
          refine .started hc hlock.1 hlock.2 (fun e he => ?_)
          rw [he] at hnone
          exact hnone
      next => exact .idle _
    next => exact .idle _
  | answer n given =>
    rw [step]
    split
    next c hc =>
      split
      next e he =>
        split
        next hstage => exact .answered hc hstage he
        next => exact .idle _
      next => exact .idle _
    next => exact .idle _
  | drop n =>
    rw [step]
    split
    next c hc =>
      split
      next hstage => exact .left hc hstage
      next e hstage he => exact .dropped hc hstage he
      next => exact .idle _
    next => exact .idle _

/-! ## What the entries and the callers keep -/

/-- A caller that is not gone has the entry of its token, which is in the map. One caller
of an entry is at the broker at a time, and the entry has no result then. -/
structure Sound (digest : String → Digest) (s : RefreshCache Digest) : Prop where
  keys : (s.entries.map Prod.fst).Nodup
  made : ∀ p ∈ s.entries, p.2 < s.heap.length
  valid : ∀ c ∈ s.callers, refused c.token = false
  held : ∀ c ∈ s.callers, c.stage ≠ .gone → (digest c.token, c.entry) ∈ s.entries
  alone : ∀ (n n' : ℕ) (c c' : Caller), s.callers[n]? = some c → s.callers[n']? = some c' →
    c.stage = .calling → c'.stage = .calling → c.entry = c'.entry → n = n'
  unset : ∀ c ∈ s.callers, c.stage = .calling → ∀ e, s.heap[c.entry]? = some e →
    e.result = none

/-- The result of a token is at the entry that the token has until the entry is old, and
at which all its callers are that came before that. -/
def Kept (digest : String → Digest) (s : RefreshCache Digest) (token : String) (created : ℕ)
    (result : Rotation) : Prop :=
  refused token = false ∧ ∃ i, s.heap[i]? = some ⟨created, some result⟩ ∧
    (s.now < created + HANDOFF_TTL → (digest token, i) ∈ s.entries) ∧
    ∀ c ∈ s.callers, c.token = token → c.stage ≠ .gone → c.arrived < created + HANDOFF_TTL →
      c.entry = i

theorem default_sound : Sound digest (RefreshCache.default : RefreshCache Digest) where
  keys := List.nodup_nil
  made := fun _ h => absurd h List.not_mem_nil
  valid := fun _ h => absurd h List.not_mem_nil
  held := fun _ h => absurd h List.not_mem_nil
  alone := fun n _ c _ h => by
    rw [show (RefreshCache.default : RefreshCache Digest).callers[n]? = none from rfl] at h
    cases h
  unset := fun _ h => absurd h List.not_mem_nil

variable {s : RefreshCache Digest} {i : ℕ} {c : Caller} {token : String} {created : ℕ}
  {result : Rotation} {stage : Stage}

theorem Sound.unique (h : Sound digest s) {k : Digest} {j : ℕ} (hi : (k, i) ∈ s.entries)
    (hj : (k, j) ∈ s.entries) : i = j := by
  have heq := List.inj_on_of_nodup_map h.keys hi hj rfl
  exact congrArg Prod.snd heq

theorem Sound.same_entry (h : Sound digest s) {c' : Caller} (hc : c ∈ s.callers)
    (hc' : c' ∈ s.callers) (hlive : c.stage ≠ .gone) (hlive' : c'.stage ≠ .gone)
    (htoken : c.token = c'.token) : c.entry = c'.entry := by
  have hheld := h.held c hc hlive
  rw [htoken] at hheld
  exact h.unique hheld (h.held c' hc' hlive')

/-! ## The map is cleaned -/

theorem mem_retain {p : Digest × ℕ} : p ∈ s.retain.entries ↔ p ∈ s.entries ∧
      ((∃ e, s.heap[p.2]? = some e ∧ s.now - e.created < HANDOFF_TTL) ∨
        ∃ c ∈ s.callers, c.entry = p.2 ∧ c.stage ≠ .gone) := by
  rw [retain, List.mem_filter, Bool.or_eq_true, Option.any_eq_true, shared, List.any_eq_true]
  simp only [decide_eq_true_eq]

theorem Sound.retain (h : Sound digest s) : Sound digest s.retain where
  keys := h.keys.sublist (List.filter_sublist.map Prod.fst)
  made := fun p hp => h.made p (mem_retain.mp hp).1
  valid := h.valid
  held := fun c hc hlive => mem_retain.mpr ⟨h.held c hc hlive, .inr ⟨c, hc, rfl, hlive⟩⟩
  alone := h.alone
  unset := h.unset

theorem Kept.retain (h : Kept digest s token created result) :
    Kept digest s.retain token created result := by
  obtain ⟨hvalid, i, hi, hmem, hcallers⟩ := h
  refine ⟨hvalid, i, hi, fun hyoung => ?_, hcallers⟩
  refine mem_retain.mpr ⟨hmem hyoung, .inl ⟨_, hi, ?_⟩⟩
  have hnow : s.now < created + HANDOFF_TTL := hyoung
  dsimp only
  have hpos : 0 < HANDOFF_TTL := by decide
  omega

theorem Kept.old_of_absent (h : Kept digest s token created result)
    (habsent : ∀ i, (digest token, i) ∉ s.entries) : created + HANDOFF_TTL ≤ s.now := by
  obtain ⟨-, i, -, hmem, -⟩ := h
  by_contra hyoung
  exact habsent i (hmem (by omega))

/-! ## A caller joins an entry -/

theorem Sound.join (h : Sound digest s) (hvalid : refused token = false)
    (hmem : (digest token, i) ∈ s.entries) : Sound digest (s.join token i) where
  keys := h.keys
  made := h.made
  valid := fun c hc => by
    rcases List.mem_append.mp hc with hc | hc
    · exact h.valid c hc
    · cases List.mem_singleton.mp hc
      exact hvalid
  held := fun c hc hlive => by
    rcases List.mem_append.mp hc with hc | hc
    · exact h.held c hc hlive
    · cases List.mem_singleton.mp hc
      exact hmem
  alone := fun n n' c c' hn hn' hcalling hcalling' hentry => by
    -- the new caller is not at the broker
    have hold : ∀ {m : ℕ} {x : Caller}, (s.join token i).callers[m]? = some x →
        x.stage = .calling → s.callers[m]? = some x := by
      intro m x hx hstage
      rw [RefreshCache.join, List.getElem?_append] at hx
      split at hx
      · exact hx
      · have hx := List.mem_singleton.mp (List.mem_of_getElem? hx)
        rw [hx] at hstage
        cases hstage
    exact h.alone n n' c c' (hold hn hcalling) (hold hn' hcalling') hcalling hcalling' hentry
  unset := fun c hc hcalling => by
    rcases List.mem_append.mp hc with hc | hc
    · exact h.unset c hc hcalling
    · cases List.mem_singleton.mp hc
      cases hcalling

theorem Kept.join (hs : Sound digest s) {token' : String} (h : Kept digest s token created result)
    (hmem : (digest token', i) ∈ s.entries) :
    Kept digest (s.join token' i) token created result := by
  obtain ⟨hvalid, j, hj, hyoung, hcallers⟩ := h
  refine ⟨hvalid, j, hj, hyoung, fun c hc htoken hlive harrived => ?_⟩
  rcases List.mem_append.mp hc with hc | hc
  · exact hcallers c hc htoken hlive harrived
  · cases List.mem_singleton.mp hc
    dsimp only at htoken harrived ⊢
    subst htoken
    exact hs.unique hmem (hyoung harrived)

/-! ## An entry is made -/

/-- A token that has no entry gets one. -/
def create (digest : String → Digest) (s : RefreshCache Digest) (token : String) :
    RefreshCache Digest :=
  { s with
    heap := s.heap ++ [⟨s.now, none⟩]
    entries := s.entries ++ [(digest token, s.heap.length)] }

theorem Sound.entry_made (h : Sound digest s) (hc : c ∈ s.callers) (hlive : c.stage ≠ .gone) :
    c.entry < s.heap.length :=
  h.made _ (h.held c hc hlive)

theorem Sound.create (h : Sound digest s) (habsent : ∀ i, (digest token, i) ∉ s.entries) :
    Sound digest (s.create digest token) where
  keys := by
    rw [RefreshCache.create, List.map_append, List.map_singleton]
    refine List.nodup_append.mpr ⟨h.keys, List.nodup_singleton _, ?_⟩
    intro k hk k' hk' heq
    obtain ⟨p, hp, rfl⟩ := List.mem_map.mp hk
    have htoken : digest token = p.1 := (heq.trans (List.mem_singleton.mp hk')).symm
    apply habsent p.2
    rw [htoken]
    exact hp
  made := fun p hp => by
    rw [RefreshCache.create, List.length_append, List.length_singleton]
    rcases List.mem_append.mp hp with hp | hp
    · have := h.made p hp
      omega
    · cases List.mem_singleton.mp hp
      omega
  valid := h.valid
  held := fun c hc hlive => List.mem_append_left _ (h.held c hc hlive)
  alone := h.alone
  unset := fun c hc hcalling e he => by
    have hlt := h.entry_made hc (Caller.live_of_calling hcalling)
    rw [RefreshCache.create, List.getElem?_append_left hlt] at he
    exact h.unset c hc hcalling e he

theorem Kept.create {token' : String} (h : Kept digest s token created result) :
    Kept digest (s.create digest token') token created result := by
  obtain ⟨hvalid, i, hi, hyoung, hcallers⟩ := h
  refine ⟨hvalid, i, ?_, fun hlt => List.mem_append_left _ (hyoung hlt), hcallers⟩
  have hlt := (List.getElem?_eq_some_iff.mp hi).1
  rw [RefreshCache.create, List.getElem?_append_left hlt]
  exact hi

/-! ## A caller goes on -/

theorem mem_move {n : ℕ} {x : Caller} (hx : x ∈ (s.move n c stage).callers) :
    x ∈ s.callers ∨ x = { c with stage := stage } :=
  List.mem_or_eq_of_mem_set hx

theorem Sound.move (h : Sound digest s) {n : ℕ} (hc : s.callers[n]? = some c)
    (hlive : c.stage ≠ .gone) (hcall : stage = .calling → s.locked c.entry = false ∧
      ∀ e, s.heap[c.entry]? = some e → e.result = none) : Sound digest (s.move n c stage) where
  keys := h.keys
  made := h.made
  valid := fun x hx => by
    rcases mem_move hx with hx | rfl
    · exact h.valid x hx
    · exact h.valid c (List.mem_of_getElem? hc)
  held := fun x hx hxlive => by
    rcases mem_move hx with hx | rfl
    · exact h.held x hx hxlive
    · exact h.held c (List.mem_of_getElem? hc) hlive
  alone := by
    -- who is at the broker now was there, or is the caller that moved
    have hcases : ∀ {m : ℕ} {x : Caller}, (s.move n c stage).callers[m]? = some x →
        x.stage = .calling → (m = n ∧ x.entry = c.entry ∧ s.locked c.entry = false) ∨
          s.callers[m]? = some x := by
      intro m x hx hstage
      rw [RefreshCache.move, List.getElem?_set] at hx
      split at hx
      next heq =>
        split at hx
        next =>
          cases hx
          exact .inl ⟨heq.symm, rfl, (hcall hstage).1⟩
        next => cases hx
      next => exact .inr hx
    have hfree : ∀ {m : ℕ} {x : Caller}, s.locked c.entry = false → s.callers[m]? = some x →
        x.stage = .calling → x.entry ≠ c.entry := by
      intro m x hlocked hx hstage hentry
      rw [locked, List.any_eq_false] at hlocked
      have hx := hlocked x (List.mem_of_getElem? hx)
      rw [decide_eq_true_eq] at hx
      exact hx ⟨hentry, hstage⟩
    intro m m' x x' hm hm' hx hx' hentry
    rcases hcases hm hx with ⟨rfl, hxc, hlocked⟩ | hold
    · rcases hcases hm' hx' with ⟨rfl, -, -⟩ | hold'
      · rfl
      · exact absurd (hentry.symm.trans hxc) (hfree hlocked hold' hx')
    · rcases hcases hm' hx' with ⟨rfl, hxc', hlocked⟩ | hold'
      · exact absurd (hentry.trans hxc') (hfree hlocked hold hx)
      · exact h.alone m m' x x' hold hold' hx hx' hentry
  unset := fun x hx hcalling e he => by
    rcases mem_move hx with hx | rfl
    · exact h.unset x hx hcalling e he
    · exact (hcall hcalling).2 e he

theorem Sound.leave (h : Sound digest s) {n : ℕ} (hc : s.callers[n]? = some c)
    (hlive : c.stage ≠ .gone) : Sound digest (s.move n c .gone) := by
  apply h.move hc hlive
  intro hcalling
  cases hcalling

theorem Kept.move (h : Kept digest s token created result) {n : ℕ} (hc : s.callers[n]? = some c)
    (hlive : c.stage ≠ .gone) : Kept digest (s.move n c stage) token created result := by
  obtain ⟨hvalid, i, hi, hyoung, hcallers⟩ := h
  refine ⟨hvalid, i, hi, hyoung, fun x hx htoken hxlive harrived => ?_⟩
  rcases mem_move hx with hx | rfl
  · exact hcallers x hx htoken hxlive harrived
  · exact hcallers c (List.mem_of_getElem? hc) htoken hlive harrived

/-! ## A result is written -/

def write (s : RefreshCache Digest) (i : ℕ) (e : Entry) (result : Rotation) :
    RefreshCache Digest :=
  { s with heap := s.heap.set i { e with result := some result } }

theorem Sound.write (h : Sound digest s) {e : Entry}
    (hnone : ∀ c ∈ s.callers, c.stage = .calling → c.entry ≠ i) :
    Sound digest (s.write i e result) where
  keys := h.keys
  made := fun p hp => by
    rw [RefreshCache.write, List.length_set]
    exact h.made p hp
  valid := h.valid
  held := h.held
  alone := h.alone
  unset := fun c hc hcalling e' he' => by
    rw [RefreshCache.write, List.getElem?_set_ne (hnone c hc hcalling).symm] at he'
    exact h.unset c hc hcalling e' he'

theorem Kept.write {r : Rotation} (h : Kept digest s token created result) {e : Entry}
    (he : s.heap[i]? = some e) (hnone : e.result = none) :
    Kept digest (s.write i e r) token created result := by
  obtain ⟨hvalid, j, hj, hyoung, hcallers⟩ := h
  refine ⟨hvalid, j, ?_, hyoung, hcallers⟩
  have hne : i ≠ j := by
    rintro rfl
    rw [he] at hj
    cases hj
    cases hnone
  rw [RefreshCache.write, List.getElem?_set_ne hne]
  exact hj

end RefreshCache

end Appcall.Web
