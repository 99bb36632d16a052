/-
A refresh token is exchanged once, as long as nobody who asks the broker is dropped.

What was said of the callers of a token is in the log, and every event is judged by those
before it. A result that the broker gave is `Kept` until the entry of the token is old. A
call that was cut off leaves nothing: the next caller of the same entry calls again, and
the token is consumed twice.
-/
import Appcall.Web.Handoff

set_option autoImplicit false

namespace Appcall.Web

variable {Digest : Type} {digest : String → Digest}

namespace RefreshCache

/-! ## What is promised -/

/-- A call of the broker for the token, with an entry of this age, is over: it had a result
that is retained, or its caller was dropped. -/
def Settled (log : List Event) (token : String) (created : ℕ) : Prop :=
  (∃ result, retained result = true ∧ .ended token created result ∈ log) ∨
    .dropped token created ∈ log

/-- What an event says of the token, after the events before it. -/
def Good (token : String) (before : List Event) : Event → Prop
  | .started token' at_time => token' = token →
    ∀ created, Settled before token created → created + HANDOFF_TTL ≤ at_time
  | .returned token' arrived given => token' = token →
    ∀ created result, retained result = true → .ended token created result ∈ before →
      arrived < created + HANDOFF_TTL → given = result
  | _ => True

/-- The token is exchanged once: two calls of the broker are never in progress, none starts
in the thirty seconds of an entry whose call is over, and who comes in these is given the
result that was retained. -/
structure ExchangedOnce (s : RefreshCache Digest) (token : String) : Prop where
  one_call : ∀ (n n' : ℕ) (c c' : Caller), s.callers[n]? = some c → s.callers[n']? = some c' →
    c.token = token → c'.token = token → c.stage = .calling → c'.stage = .calling → n = n'
  judged : Machine.Logged (Good token) s.log

/-- The operation does not drop a caller of the token that is at the broker while its entry
is young. -/
def Survives (token : String) (s : RefreshCache Digest) : Op → Prop
  | .drop n => ∀ c e, s.callers[n]? = some c → c.token = token → c.stage = .calling →
    s.heap[c.entry]? = some e → e.created + HANDOFF_TTL ≤ s.now
  | _ => True

/-! ## The log -/

/-- What the log says of the token is so. -/
structure Told (digest : String → Digest) (token : String) (s : RefreshCache Digest) : Prop where
  kept : ∀ created result, retained result = true → .ended token created result ∈ s.log →
    Kept digest s token created result
  past : ∀ created, .dropped token created ∈ s.log → created + HANDOFF_TTL ≤ s.now
  judged : Machine.Logged (Good token) s.log

variable {token : String} {s s' : RefreshCache Digest} {e : Entry}

theorem default_told : Told digest token (RefreshCache.default : RefreshCache Digest) where
  kept := fun _ _ _ h => absurd h List.not_mem_nil
  past := fun _ h => absurd h List.not_mem_nil
  judged := Machine.logged_nil

theorem Told.quiet (h : Told digest token s) (hlog : s'.log = s.log) (hnow : s.now ≤ s'.now)
    (hkept : ∀ created result, Kept digest s token created result →
      Kept digest s' token created result) : Told digest token s' where
  kept := fun created result hretained hmem => by
    rw [hlog] at hmem
    exact hkept created result (h.kept created result hretained hmem)
  past := fun created hmem => by
    rw [hlog] at hmem
    exact Nat.le_trans (h.past created hmem) hnow
  judged := by
    rw [hlog]
    exact h.judged

theorem Told.note (h : Told digest token s) {event : Event}
    (hended : ∀ created result, event ≠ .ended token created result)
    (hdropped : ∀ created, event = .dropped token created → created + HANDOFF_TTL ≤ s.now)
    (hgood : Good token s.log event) : Told digest token (s.record [event]) where
  kept := fun created result hretained hmem => by
    rcases List.mem_append.mp hmem with hmem | hmem
    · exact h.kept created result hretained hmem
    · exact absurd (List.mem_singleton.mp hmem).symm (hended created result)
  past := fun created hmem => by
    rcases List.mem_append.mp hmem with hmem | hmem
    · exact h.past created hmem
    · exact hdropped created (List.mem_singleton.mp hmem).symm
  judged := Machine.logged_append_singleton h.judged hgood

theorem Told.settle {token' : String} (h : Told digest token s) {created : ℕ} {result : Rotation}
    (hkept : token' = token → retained result = true → Kept digest s token created result) :
    Told digest token (s.record [.ended token' created result]) where
  kept := fun created' result' hretained hmem => by
    rcases List.mem_append.mp hmem with hmem | hmem
    · exact h.kept created' result' hretained hmem
    · cases List.mem_singleton.mp hmem
      exact hkept rfl hretained
  past := fun created hmem => by
    rcases List.mem_append.mp hmem with hmem | hmem
    · exact h.past created hmem
    · cases List.mem_singleton.mp hmem
  judged := Machine.logged_append_singleton h.judged trivial

/-! ## The events are good -/

theorem Told.returned_good (h : Told digest token s) {c : Caller} {given : Rotation}
    (hc : c ∈ s.callers) (hlive : c.stage ≠ .gone) (he : s.heap[c.entry]? = some e)
    (hresult : e.result = some given) : Good token s.log (.returned c.token c.arrived given) := by
  intro htoken created result hretained hmem harrived
  obtain ⟨-, i, hi, -, hcallers⟩ := h.kept created result hretained hmem
  rw [hcallers c hc htoken hlive harrived, hi] at he
  cases he
  cases hresult
  rfl

theorem Told.started_good (hs : Sound digest s) (h : Told digest token s) {c : Caller}
    (hc : c ∈ s.callers) (hlive : c.stage ≠ .gone)
    (hnone : ∀ e, s.heap[c.entry]? = some e → e.result = none) :
    Good token s.log (.started c.token s.now) := by
  intro htoken created hsettled
  rcases hsettled with ⟨result, hretained, hmem⟩ | hdropped
  · obtain ⟨-, i, hi, hyoung, -⟩ := h.kept created result hretained hmem
    by_contra hlt
    have hheld := hs.held c hc hlive
    rw [htoken] at hheld
    rw [← hs.unique hheld (hyoung (by omega))] at hi
    cases hnone _ hi
  · exact h.past created hdropped

theorem Told.refused_good {token' : String} (h : Told digest token s) {given : Rotation}
    (hnone : ∀ created result, token' = token → Kept digest s token created result →
      created + HANDOFF_TTL ≤ s.now) : Good token s.log (.returned token' s.now given) := by
  intro htoken created result hretained hmem harrived
  have hold := hnone created result htoken (h.kept created result hretained hmem)
  omega

theorem Sound.record (h : Sound digest s) (events : List Event) : Sound digest (s.record events) :=
  ⟨h.keys, h.made, h.valid, h.held, h.alone, h.unset⟩

/-! ## The broker answers -/

theorem answer_eq (s : RefreshCache Digest) (n : ℕ) (c : Caller) (e : Entry)
    (result : Rotation) : s.answer n c e result =
      ((if retained result then (s.move n c .gone).write c.entry e result
        else s.move n c .gone).record [.ended c.token e.created result]).record
          [.returned c.token c.arrived result] := by
  rw [answer]
  by_cases hretained : retained result = true
  · simp [hretained, record, write, move]
  · simp [hretained, record, move]

theorem Sound.gone_free (h : Sound digest s) {n : ℕ} {c x : Caller} (hc : s.callers[n]? = some c)
    (hcalling : c.stage = .calling) (hx : x ∈ (s.move n c .gone).callers)
    (hstage : x.stage = .calling) : x.entry ≠ c.entry := by
  intro hentry
  obtain ⟨m, hm⟩ := List.mem_iff_getElem?.mp hx
  rw [RefreshCache.move, List.getElem?_set] at hm
  split at hm
  next =>
    split at hm
    next =>
      cases hm
      cases hstage
    next => cases hm
  next hne => exact hne (h.alone n m c x hc hm hcalling hstage hentry.symm)

theorem Sound.keeps_written (h : Sound digest s) {n : ℕ} {c : Caller} {result : Rotation}
    (hc : s.callers[n]? = some c) (hcalling : c.stage = .calling) (he : s.heap[c.entry]? = some e) :
    Kept digest ((s.move n c .gone).write c.entry e result) c.token e.created result := by
  have hmem := List.mem_of_getElem? hc
  have hlive := Caller.live_of_calling hcalling
  have hlt := (List.getElem?_eq_some_iff.mp he).1
  refine ⟨h.valid c hmem, c.entry, ?_, fun _ => h.held c hmem hlive, ?_⟩
  · rw [RefreshCache.write, RefreshCache.move, List.getElem?_set_self hlt]
  · intro x hx htoken hxlive _
    rcases mem_move hx with hx | rfl
    · exact h.same_entry hx hmem hxlive hlive htoken
    · exact absurd rfl hxlive

theorem answered_keeps (hs : Sound digest s) (ht : Told digest token s) {n : ℕ} {c : Caller}
    (result : Rotation) (hc : s.callers[n]? = some c) (hcalling : c.stage = .calling)
    (he : s.heap[c.entry]? = some e) :
    Sound digest (s.answer n c e result) ∧ Told digest token (s.answer n c e result) := by
  have hmem := List.mem_of_getElem? hc
  have hnone := hs.unset c hmem hcalling e he
  have hlive := Caller.live_of_calling hcalling
  have hgone : Sound digest (s.move n c .gone) := hs.leave hc hlive
  have hgood : Good token (s.log ++ [.ended c.token e.created result])
      (.returned c.token c.arrived result) := by
    intro htoken created given hretained hended harrived
    rcases List.mem_append.mp hended with hended | hended
    · -- a result that was kept before would be at the entry of the caller
      obtain ⟨-, i, hi, -, hcallers⟩ := ht.kept created given hretained hended
      rw [← hcallers c hmem htoken hlive harrived, he] at hi
      cases hi
      cases hnone
    · cases List.mem_singleton.mp hended
      rfl
  rw [answer_eq]
  by_cases hretained : retained result = true
  · rw [if_pos hretained]
    refine ⟨((hgone.write (fun x hx => hs.gone_free hc hcalling hx)).record _).record _, ?_⟩
    have hwritten : Told digest token ((s.move n c .gone).write c.entry e result) :=
      ht.quiet rfl (Nat.le_refl _)
        (fun created given hkept => (hkept.move hc hlive).write he hnone)
    refine Told.note (hwritten.settle ?_) (fun _ _ h => nomatch h) (fun _ h => nomatch h) hgood
    rintro rfl _
    exact hs.keeps_written hc hcalling he
  · rw [if_neg hretained]
    refine ⟨(hgone.record _).record _, ?_⟩
    have hmoved : Told digest token (s.move n c .gone) :=
      ht.quiet rfl (Nat.le_refl _) (fun created given hkept => hkept.move hc hlive)
    refine Told.note (hmoved.settle ?_) (fun _ _ h => nomatch h) (fun _ h => nomatch h) hgood
    intro _ h
    exact absurd h hretained

/-! ## Every step -/

/-- A move keeps both, if it drops no caller of the token at the broker. -/
theorem moves_keep {op : Op} (hmoves : Moves digest s op s') (hsurvives : Survives token s op)
    (hs : Sound digest s) (ht : Told digest token s) : Sound digest s' ∧ Told digest token s' := by
  cases hmoves with
  | idle => exact ⟨hs, ht⟩
  | tick elapsed =>
    refine ⟨⟨hs.keys, hs.made, hs.valid, hs.held, hs.alone, hs.unset⟩, ?_⟩
    refine ht.quiet rfl (Nat.le_add_right _ _) (fun created result hkept => ?_)
    obtain ⟨hvalid, i, hi, hyoung, hcallers⟩ := hkept
    refine ⟨hvalid, i, hi, fun hlt => hyoung ?_, hcallers⟩
    exact Nat.lt_of_le_of_lt (Nat.le_add_right _ _) hlt
  | invalid hrefused =>
    refine ⟨hs.record _, ht.note (fun _ _ h => nomatch h) (fun _ h => nomatch h) ?_⟩
    -- no result is kept for a token that is refused
    refine ht.refused_good (fun created result htoken hkept => ?_)
    rw [htoken, hkept.1] at hrefused
    cases hrefused
  | full habsent =>
    have htold : Told digest token s.retain :=
      ht.quiet rfl (Nat.le_refl _) (fun _ _ hkept => hkept.retain)
    refine ⟨hs.retain.record _, htold.note (fun _ _ h => nomatch h) (fun _ h => nomatch h) ?_⟩
    refine htold.refused_good (fun created result htoken hkept => ?_)
    subst htoken
    exact hkept.old_of_absent habsent
  | joined hvalid hmem =>
    refine ⟨hs.retain.join hvalid hmem, ht.quiet rfl (Nat.le_refl _) ?_⟩
    exact fun _ _ hkept => hkept.retain.join hs.retain hmem
  | created hvalid habsent =>
    rename_i token'
    have hmem : (digest token', s.heap.length) ∈ (s.retain.create digest token').entries :=
      List.mem_append_right _ (List.mem_singleton_self _)
    have hmade := hs.retain.create habsent
    refine ⟨hmade.join hvalid hmem, ht.quiet rfl (Nat.le_refl _) ?_⟩
    exact fun _ _ hkept => hkept.retain.create.join hmade hmem
  | returned hc hwaiting he hresult =>
    rename_i c e given
    have hlive := Caller.live_of_waiting hwaiting
    have htold : Told digest token (s.move _ c .gone) :=
      ht.quiet rfl (Nat.le_refl _) (fun _ _ hkept => hkept.move hc hlive)
    refine ⟨(hs.leave hc hlive).record _, ?_⟩
    exact htold.note (fun _ _ h => nomatch h) (fun _ h => nomatch h)
      (ht.returned_good (List.mem_of_getElem? hc) hlive he hresult)
  | started hc hwaiting hfree hnone =>
    rename_i c
    have hlive := Caller.live_of_waiting hwaiting
    have htold : Told digest token (s.move _ c .calling) :=
      ht.quiet rfl (Nat.le_refl _) (fun _ _ hkept => hkept.move hc hlive)
    refine ⟨(hs.move hc hlive (fun _ => ⟨hfree, hnone⟩)).record _, ?_⟩
    exact htold.note (fun _ _ h => nomatch h) (fun _ h => nomatch h)
      (ht.started_good hs (List.mem_of_getElem? hc) hlive hnone)
  | answered hc hcalling he => exact answered_keeps hs ht _ hc hcalling he
  | left hc hwaiting =>
    rename_i c
    have hlive := Caller.live_of_waiting hwaiting
    refine ⟨hs.leave hc hlive, ?_⟩
    exact ht.quiet rfl (Nat.le_refl _) (fun _ _ hkept => hkept.move hc hlive)
  | dropped hc hcalling he =>
    rename_i c e
    have hlive := Caller.live_of_calling hcalling
    have htold : Told digest token (s.move _ c .gone) :=
      ht.quiet rfl (Nat.le_refl _) (fun _ _ hkept => hkept.move hc hlive)
    refine ⟨(hs.leave hc hlive).record _, ?_⟩
    refine htold.note (fun _ _ h => nomatch h) (fun created h => ?_) trivial
    -- the entry of a caller that is dropped is old
    cases h
    exact hsurvives c e hc rfl hcalling he

theorem Sound.exchanged_once (hs : Sound digest s) (ht : Told digest token s) :
    ExchangedOnce s token where
  one_call := fun n n' c c' hc hc' htoken htoken' hcalling hcalling' => by
    have hlive := Caller.live_of_calling hcalling
    have hlive' := Caller.live_of_calling hcalling'
    have hentry := hs.same_entry (List.mem_of_getElem? hc) (List.mem_of_getElem? hc') hlive hlive'
      (htoken.trans htoken'.symm)
    exact hs.alone n n' c c' hc hc' hcalling hcalling' hentry
  judged := ht.judged

/-! ## Every run -/

variable [DecidableEq Digest]

/-- In every run that drops no caller of the token from the broker while its entry is
young, the token is exchanged once. -/
theorem run_exchanges_once (digest : String → Digest) (token : String) (ops : List Op)
    (h : Machine.Meets (step digest) (Survives token) RefreshCache.default ops) :
    ExchangedOnce (Machine.run (step digest) RefreshCache.default ops) token := by
  obtain ⟨hs, ht⟩ := Machine.Meets.keeps (I := fun s => Sound digest s ∧ Told digest token s)
    (fun s op hsurvives hkeeps => moves_keep (step_moves s op) hsurvives hkeeps.1 hkeeps.2)
    h ⟨default_sound, default_told⟩
  exact hs.exchanged_once ht

/-- Of three callers one leaves while it waits, one asks the broker and one reads what that
one was given. -/
theorem three_callers_exchange_once :
    ExchangedOnce (Machine.run (step id) (RefreshCache.default : RefreshCache String)
      [.rotate "old", .rotate "old", .rotate "old", .lock 0, .drop 1,
        .answer 0 (.ok ⟨"access", "new", false⟩), .tick 1, .lock 2]) "old" := by
  apply run_exchanges_once
  refine ⟨trivial, trivial, trivial, trivial, ?_, trivial, trivial, trivial, trivial⟩
  intro c e hc htoken hcalling
  cases hc
  cases hcalling

/-- A caller is dropped while it asks the broker, and the next one asks at once. -/
theorem dropped_call_repeated :
    ¬ExchangedOnce (Machine.run (step id) (RefreshCache.default : RefreshCache String)
      [.rotate "old", .lock 0, .drop 0, .rotate "old", .lock 1]) "old" := by
  intro h
  have hgood := h.judged [.started "old" 0, .dropped "old" 0] (.started "old" 0) [] rfl
  have hlate := hgood rfl 0 (.inr (List.mem_cons_of_mem _ (List.mem_singleton_self _)))
  exact absurd hlate (by decide)

end RefreshCache

end Appcall.Web
