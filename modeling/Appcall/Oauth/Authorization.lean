/-
Authorizations are one-shot, and what diagnostics do to them.

A callback goes to the provider only for the pending authorization of its state, and
takes it; so a state is exchanged once, and only the state of the last start is. A
test of the connection is meant to be passive. It is not when it resolves a connection
that is authorizing or degraded and finds the tokens expired: the refresh overwrites
the pending authorization and, when it succeeds, activates the connection. Nor is it
when it fails and writes `Degraded` over `Authorizing`. `authorization_one_shot` says
that a run without these steps keeps what diagnostics promise.
-/
import Appcall.Oauth.Refresh

set_option autoImplicit false

namespace Appcall.Oauth

variable {State Digest : Type}

/-! ## One exchange for a state -/

/-- A flight that has not asked yet for the exchange of this state. -/
def Flight.unasked_exchange [DecidableEq State] (f : Flight State) (state : State) : Bool :=
  f.result.isNone && match f.origin with
    | .callback s => decide (s = state)
    | _ => false

/-- How often a state is exchanged: the requests made and those about to be made. -/
def System.exchanges [DecidableEq State] (s : System State Digest) (state : State) : ℕ :=
  s.exchanged.count state + s.flights.countP (fun f => f.unasked_exchange state)

/-- What keeps every state from being exchanged twice: a pending authorization is that
of the last start, which nobody has exchanged. -/
structure System.OneShot [DecidableEq State] (lc : Lifecycle State Digest)
    (s : System State Digest) : Prop where
  once : ∀ state, s.exchanges state ≤ 1
  known : ∀ state, 0 < s.exchanges state → state ∈ s.issued
  drawn : ∀ state ∈ s.issued, ∃ k < s.drawn, ∃ claims, lc.opened state = some claims ∧
    claims.pkce_ref = lc.random_id "sec_" k
  pending : ∀ i, s.db.intent = some i → i.state = .authorizing →
    ∃ state rest, s.issued = state :: rest ∧ i.state_digest = some (lc.digest state) ∧
      s.exchanges state = 0

section OneShot

variable [DecidableEq State]

variable {lc : Lifecycle State Digest} {s s' : System State Digest}

theorem Database.Created.one_shot {db : Database Digest} (h : db.Created) (now : ℤ) :
    (System.at_rest db now : System State Digest).OneShot lc := by
  refine ⟨?_, ?_, ?_, ?_⟩
  · simp [System.exchanges, System.at_rest]
  · simp [System.exchanges, System.at_rest]
  · simp [System.at_rest]
  · intro i hi
    simp [System.at_rest, h.intent] at hi

theorem System.OneShot.mono (h : s.OneShot lc) (hissued : s'.issued = s.issued)
    (hdrawn : s.drawn ≤ s'.drawn) (hexchanges : ∀ state, s'.exchanges state ≤ s.exchanges state)
    (hintent : ∀ i', s'.db.intent = some i' → i'.state = .authorizing →
      ∃ i, s.db.intent = some i ∧ i.state = .authorizing ∧
        i'.state_digest = i.state_digest) : s'.OneShot lc := by
  refine ⟨?_, ?_, ?_, ?_⟩
  · intro state
    exact Nat.le_trans (hexchanges state) (h.once state)
  · intro state hpos
    rw [hissued]
    exact h.known state (Nat.lt_of_lt_of_le hpos (hexchanges state))
  · intro state hstate
    rw [hissued] at hstate
    obtain ⟨k, hk, claims, hclaims⟩ := h.drawn state hstate
    exact ⟨k, Nat.lt_of_lt_of_le hk hdrawn, claims, hclaims⟩
  · intro i' hi' hstate
    obtain ⟨i, hi, hauthorizing, hdigest⟩ := hintent i' hi' hstate
    obtain ⟨state, rest, hlast, hd, hzero⟩ := h.pending i hi hauthorizing
    refine ⟨state, rest, by rw [hissued, hlast], by rw [hdigest, hd], ?_⟩
    have := hexchanges state
    omega

theorem exchanges_eraseIdx (s : System State Digest) (i : ℕ) (state : State) :
    s.exchanged.count state
        + (s.flights.eraseIdx i).countP (fun f => f.unasked_exchange state)
      ≤ s.exchanges state :=
  Nat.add_le_add_left ((List.eraseIdx_sublist s.flights i).countP_le) _

theorem exchanges_request {i : ℕ} {f : Flight State} (hflight : s.flights[i]? = some f)
    (hwaiting : f.result = none) (answer : Option (Except Error TokenSet)) (state : State) :
    (s.request i answer).exchanges state ≤ s.exchanges state := by
  have hasked : ∀ result, ({ f with result := some result } : Flight State).unasked_exchange
      state = false := fun _ => rfl
  have h := countP_set_add hflight (fun f => f.unasked_exchange state)
    (hasked (answer.getD (.error .OutcomeUnknown)))
  simp only [System.request, hflight, hwaiting, Option.isSome_none, Bool.false_eq_true,
    if_false]
  split
  · simp only [System.exchanges]
    omega
  split
  next state' horigin =>
    simp only [System.exchanges, List.count_cons]
    by_cases hstate : state' = state
    · have hu : f.unasked_exchange state = true := by
        simp [Flight.unasked_exchange, hwaiting, horigin, hstate]
      rw [if_pos hu] at h
      simp only [beq_iff_eq, hstate, if_pos]
      omega
    · simp only [beq_iff_eq, hstate, if_false]
      omega
  next =>
    simp only [System.exchanges]
    omega

theorem System.OneShot.last (h : s.OneShot lc) {i : Intent Digest} {state : State}
    (hi : s.db.intent = some i) (hauthorizing : i.state = .authorizing)
    (hdigest : i.state_digest = some (lc.digest state)) :
    (∃ rest, s.issued = state :: rest) ∧ s.exchanges state = 0 := by
  obtain ⟨last, rest, hissued, hd, hzero⟩ := h.pending i hi hauthorizing
  rw [hdigest] at hd
  obtain rfl := lc.digest_injective (Option.some.inj hd)
  exact ⟨⟨rest, hissued⟩, hzero⟩

/-- **One step.** No step exchanges a state twice. -/
theorem System.OneShot.step {op : Op State} (h : s.OneShot lc) (hmove : lc.Move s op s') :
    s'.OneShot lc := by
  cases hmove with
  | idle tests checks seconds drawn =>
    exact h.mono rfl (Nat.le_add_right _ _) (fun _ => Nat.le_refl _)
      (fun i hi hs => ⟨i, hi, hs, rfl⟩)
  | touch checks status test at_time written =>
    exact h.mono rfl (Nat.le_refl _) (fun _ => Nat.le_refl _) (fun i hi hs => ⟨i, hi, hs, rfl⟩)
  | refresh tests r origin from_op resolvable tokens expired allowed =>
    refine h.mono rfl (Nat.le_succ _) ?_ ?_
    · intro state
      rcases from_op with ⟨-, rfl⟩ | ⟨i, scope, seen, -, -, -, rfl⟩ <;>
        simp [System.exchanges, Flight.unasked_exchange]
    · intro i hi hs
      cases hi
      cases hs
  | start connector spec app state secrets from_op hspec happ hconnector signed stored =>
    have hopened := lc.opened_sign _ _ signed
    -- the reference in the state is drawn now, so the state was not issued before
    have hnew : state ∉ s.issued := by
      intro hmem
      obtain ⟨k, hk, claims, hclaims, href⟩ := h.drawn state hmem
      rw [hopened] at hclaims
      cases hclaims
      have := random_id_inj href
      omega
    have hzero : s.exchanges state = 0 := by
      by_contra hne
      exact hnew (h.known state (Nat.pos_of_ne_zero hne))
    refine ⟨h.once, ?_, ?_, ?_⟩
    · intro other hpos
      exact List.mem_cons_of_mem _ (h.known other hpos)
    · intro other hother
      rcases List.mem_cons.mp hother with rfl | hother
      · exact ⟨s.drawn + 1, Nat.add_lt_add_left (by decide) _, _, hopened, rfl⟩
      · obtain ⟨k, hk, claims, hclaims⟩ := h.drawn other hother
        exact ⟨k, Nat.lt_of_lt_of_le hk (Nat.le_add_right _ _), claims, hclaims⟩
    · intro i hi hs
      cases hi
      exact ⟨state, s.issued, rfl, rfl, hzero⟩
  | authorize state scope i from_op intent authorizing digest secret =>
    obtain ⟨⟨rest, hissued⟩, hzero⟩ := h.last intent authorizing digest
    have hexchanges : ∀ other, System.exchanges { s with
        flights := s.flights ++ [{
          scope
          pending := { connection := s.db.row.connection, attempt := i.attempt_id }
          origin := .callback state, result := none, writes := s.writes }] } other
        = s.exchanges other + if other = state then 1 else 0 := by
      intro other
      simp only [System.exchanges, List.countP_append, List.countP_singleton,
        Flight.unasked_exchange, Option.isNone_none, Bool.true_and, decide_eq_true_eq]
      by_cases hother : state = other
      · simp [hother, Nat.add_assoc]
      · simp [hother, Ne.symm hother]
    refine ⟨?_, ?_, h.drawn, ?_⟩
    · intro other
      refine Nat.le_trans (Nat.le_of_eq (hexchanges other)) ?_
      split
      next heq =>
        subst heq
        omega
      next => exact h.once other
    · intro other hpos
      by_cases heq : other = state
      · rw [heq]
        show state ∈ s.issued
        rw [hissued]
        exact List.mem_cons_self
      · refine h.known other (Nat.lt_of_lt_of_le hpos ?_)
        refine Nat.le_trans (Nat.le_of_eq (hexchanges other)) ?_
        rw [if_neg heq]
        exact Nat.le_refl _
    · intro i' hi' hs
      cases hi'
      cases hs
  | request i f answer from_op flight waiting =>
    have hexchanges := exchanges_request flight waiting answer
    obtain ⟨flights, refreshed, exchanged, hrequest⟩ :=
      System.request_eq s flight waiting answer
    rw [hrequest] at hexchanges ⊢
    exact h.mono rfl (Nat.le_refl _) hexchanges (fun i hi hs => ⟨i, hi, hs, rfl⟩)
  | fail checks i f from_op flight answered db doubt =>
    rcases doubt with rfl | rfl
    · exact h.mono rfl (Nat.le_succ _) (exchanges_eraseIdx s i)
        (fun i hi hs => ⟨i, hi, hs, rfl⟩)
    · refine h.mono rfl (Nat.le_succ _) (exchanges_eraseIdx s i) ?_
      intro i' hi' hs
      obtain ⟨i0, hi0, rfl⟩ := Option.map_eq_some_iff.mp hi'
      split at hs
      · cases hs
      next hother =>
        rw [if_neg hother]
        exact ⟨i0, hi0, hs, rfl⟩
  | stored checks i f tokens from_op flight result accepts named new =>
    refine h.mono rfl (Nat.le_succ _) (exchanges_eraseIdx s i) ?_
    intro i' hi' hs
    obtain ⟨i0, hi0, rfl⟩ := Option.map_eq_some_iff.mp hi'
    split at hs
    · cases hs
    next hother =>
      rw [if_neg hother]
      exact ⟨i0, hi0, hs, rfl⟩
  | replaced save secret secrets from_op calm written =>
    exact h.mono rfl (Nat.le_succ _) (fun _ => Nat.le_refl _) (fun i hi hs => ⟨i, hi, hs, rfl⟩)

end OneShot

/-! ## Passive diagnostics -/

/-- The steps of resolutions, tests and listings, and of the requests under way. -/
def Op.looks : Op State → Bool
  | .start _ _ | .callback _ _ _ _ | .save _ | .disconnect _ => false
  | _ => true

/-- A step that is as passive as a diagnostic should be: no refresh is dispatched while
an authorization is pending, nor by a test that saw the connection degraded, and no
failed test is recorded while an authorization is pending. -/
structure Lifecycle.Passive (lc : Lifecycle State Digest) (s : System State Digest)
    (op : Op State) : Prop where
  pending : lc.Refreshes s op → s.db.row.connection.status ≠ .Authorizing
  degraded : lc.Refreshes s op → ∀ i scope seen, op = .test_resolve i →
    s.tests[i]? = some (scope, seen) → seen.status ≠ .Degraded
  recorded : ∀ i health c, op = .check i health → s.checks[i]? = some c →
    (∃ db, s.db.record_test c health s.now = .ok db) → (c.outcome health).degraded = true →
    s.db.row.connection.status ≠ .Authorizing

/-- The authorization of a state is pending: everything a callback with it asks for. -/
structure System.Offers (lc : Lifecycle State Digest) (s : System State Digest)
    (state : State) (claims : StateClaims) (spec : OAuthConfig) (since : ℤ) : Prop where
  status : s.db.row.connection.status = .Authorizing
  connector : s.db.row.connection.connector = claims.connector
  id : s.db.row.connection.id = claims.connection_id
  project : s.db.row.connection.project_id = claims.project_id
  intent : ∃ i, s.db.intent = some i ∧ i.state = .authorizing ∧ i.operation = .authorization ∧
    i.state_digest = some (lc.digest state) ∧
    i.secret_ref_id = s.db.row.connection.secret_ref_id ∧ i.created_at = since ∧
    i.pkce_secret_ref_id = if spec.pkce then some claims.pkce_ref else none
  verifier : spec.pkce = true → ∃ secret, s.db.secret claims.pkce_ref = some secret ∧
    secret.kind = pkce_kind s.db.row.connection.id ∧ secret.text ≠ none

theorem doubt_intent_eq {db : Database Digest} {i : Intent Digest} (h : db.intent = some i)
    (hstate : i.state ≠ .dispatched) (attempt : String) : db.doubt_intent attempt = db := by
  have hif : ¬(i.attempt_id = attempt ∧ i.state = .dispatched) := fun h => hstate h.2
  cases db
  simp only at h
  subst h
  simp only [Database.doubt_intent, Option.map_some, if_neg hif]

variable {lc : Lifecycle State Digest} {s s' : System State Digest} {op : Op State}
  {claims : StateClaims} {spec : OAuthConfig} {since : ℤ} {connector : String}

/-- **One step.** A passive step leaves a pending authorization, unless the cleanup finds
it half an hour old. -/
theorem System.Offers.step {state : State} (h : s.Offers lc state claims spec since)
    (hmove : lc.Move s op s') (hlooks : op.looks = true) (hpassive : lc.Passive s op)
    (hnow : s.now < since + 600) : s'.Offers lc state claims spec since := by
  obtain ⟨i, hintent, hauthorizing, hoperation, hrest⟩ := h.intent
  cases hmove with
  | idle tests checks seconds drawn =>
    exact ⟨h.status, h.connector, h.id, h.project, h.intent, h.verifier⟩
  | touch checks status test at_time written =>
    have hstatus : status = .Authorizing := by
      rcases written with ⟨-, rfl⟩ | ⟨⟨scope, rfl⟩, -⟩ | ⟨-, -, hstale, -⟩ |
        ⟨j, health, c, rfl, hcheck, hrecorded, hdegraded, -⟩
      · exact h.status
      · cases hlooks
      · -- the pending authorization is at most ten minutes old
        have hsince : s.db.authorizing_since = since := by
          simp only [Database.authorizing_since, hintent, hoperation, hauthorizing, and_self,
            if_true]
          exact hrest.2.2.1
        rw [hsince] at hstale
        omega
      · exact absurd h.status (hpassive.recorded j health c rfl hcheck hrecorded hdegraded)
    exact ⟨hstatus, h.connector, h.id, h.project, h.intent, h.verifier⟩
  | refresh tests r origin from_op resolvable tokens expired allowed =>
    exact absurd h.status
      (hpassive.pending (refreshes_of_move from_op resolvable expired allowed))
  | start connector spec app state secrets from_op =>
    obtain ⟨scope, rfl⟩ := from_op
    cases hlooks
  | authorize state scope j from_op =>
    obtain ⟨connector, project, code, rfl⟩ := from_op
    cases hlooks
  | request j f answer from_op flight waiting =>
    obtain ⟨result, refreshed, exchanged, hrequest⟩ := s.request_eq flight waiting answer
    rw [hrequest]
    exact ⟨h.status, h.connector, h.id, h.project, h.intent, h.verifier⟩
  | fail checks j f from_op flight answered db doubt =>
    have hdb : db = s.db := by
      rcases doubt with rfl | rfl
      · rfl
      · exact doubt_intent_eq hintent (by rw [hauthorizing]; decide) _
    subst hdb
    exact ⟨h.status, h.connector, h.id, h.project, h.intent, h.verifier⟩
  | stored checks j f tokens from_op flight result accepts =>
    have hdegraded := (accepts_awaits accepts).degraded
    rw [h.status] at hdegraded
    cases hdegraded
  | replaced save secret secrets from_op =>
    rw [from_op] at hlooks
    cases hlooks

theorem Lifecycle.Move.now_le (h : lc.Move s op s') : s.now ≤ s'.now := by
  cases h with
  | idle tests checks seconds drawn =>
    show s.now ≤ s.now + seconds
    omega
  | request i f answer from_op flight waiting =>
    obtain ⟨result, refreshed, exchanged, hrequest⟩ := s.request_eq flight waiting answer
    rw [hrequest]
  | _ => exact Int.le_refl _

theorem run_now_le (lc : Lifecycle State Digest) [DecidableEq Digest]
    (s : System State Digest) (ops : List (Op State)) :
    s.now ≤ (Machine.run lc.step s ops).now :=
  Machine.run_keeps (I := fun s' => s.now ≤ s'.now)
    (fun s' op h => Int.le_trans h (act_move lc s' op).now_le) (Int.le_refl _) ops

/-- **The run.** Passive steps leave a pending authorization until it expires. -/
theorem System.Offers.run [DecidableEq Digest] {state : State} {ops : List (Op State)}
    (h : s.Offers lc state claims spec since) (hlooks : ∀ op ∈ ops, op.looks = true)
    (hpassive : Machine.Meets lc.step lc.Passive s ops)
    (hnow : (Machine.run lc.step s ops).now < since + 600) :
    (Machine.run lc.step s ops).Offers lc state claims spec since := by
  induction ops generalizing s with
  | nil => exact h
  | cons op ops ih =>
    have hle : s.now ≤ (Machine.run lc.step s (op :: ops)).now := run_now_le lc s _
    refine ih ?_ (fun op hop => hlooks op (List.mem_cons_of_mem _ hop)) hpassive.2 hnow
    refine h.step (act_move lc s op) (hlooks op List.mem_cons_self) hpassive.1 ?_
    omega

theorem start_offers [DecidableEq Digest] {scope : Scope} {state : State}
    (h : (lc.act s (.start scope connector)).2 = .authorization state) :
    ∃ spec app claims, lc.spec connector = .ok spec ∧ lc.apps connector = some app ∧
      lc.opened state = some claims ∧ claims.connector = connector ∧
      claims.redirect_uri = app.redirect_uri ∧ claims.expires_at = s.now + 600 ∧
      claims.project_id = s.db.row.connection.project_id ∧
      (lc.step s (.start scope connector)).Offers lc state claims spec s.now := by
  simp only [Lifecycle.step, Lifecycle.act] at h ⊢
  cases hstart : lc.start_checked s.db scope connector s.now (lc.random_id "" s.drawn)
      (lc.random_id "sec_" (s.drawn + 1)) (lc.random_id "auth_" (s.drawn + 2)) with
  | error e =>
    rw [hstart] at h
    cases h
  | ok pair =>
    obtain ⟨state', db⟩ := pair
    rw [hstart] at h
    cases h
    obtain ⟨spec, app, hspec, happ, hconnector, hsign, secrets, hstored, rfl⟩ :=
      start_checked_ok hstart
    refine ⟨spec, app, _, hspec, happ, lc.opened_sign _ _ hsign, rfl, rfl, rfl, rfl, ?_⟩
    refine ⟨rfl, hconnector, rfl, rfl, ⟨_, rfl, rfl, rfl, rfl, rfl, rfl, rfl⟩, ?_⟩
    intro hpkce
    rcases hstored with ⟨-, hno⟩ | ⟨-, -, -, rfl⟩
    · rw [hpkce] at hno
      cases hno
    · refine ⟨verifier_envelope s.db.row.connection.id (lc.random_id "" s.drawn), ?_, rfl, ?_⟩
      · show List.lookup _ (_ :: _) = _
        rw [List.lookup_cons]
        simp
      · simp [verifier_envelope]

theorem System.Offers.callback [DecidableEq Digest] {state : State} {code : String}
    {project : Option String} {app : AppCredentials} (h : s.Offers lc state claims spec since)
    (hspec : lc.spec connector = .ok spec) (happ : lc.apps connector = some app)
    (hopened : lc.opened state = some claims) (hconnector : claims.connector = connector)
    (hredirect : claims.redirect_uri = app.redirect_uri) (hexpires : s.now < claims.expires_at)
    (hproject : claims.project_id ≠ "")
    (hscope : project = none ∨ project = some "" ∨ project = some claims.project_id)
    (hcode : code ≠ "" ∧ code.utf8ByteSize ≤ 4096) :
    ∃ attempt, lc.callback_checked s.db connector project code state s.now
      = .ok ({ project := claims.project_id, account := "" },
          { connection := s.db.row.connection, attempt },
          s.db.dispatch_authorization attempt s.now) := by
  obtain ⟨i, hintent, hauthorizing, hoperation, hdigest, hsecret, -, hpkce⟩ := h.intent
  have hverify : lc.verify state project connector app.redirect_uri s.now = .ok claims := by
    simp only [Lifecycle.verify, hopened]
    rw [if_neg (by omega)]
    rw [if_neg]
    rcases hscope with rfl | rfl | rfl <;> simp [hconnector, hredirect]
  have hlock : s.db.lock_connection { project := claims.project_id, account := "" }
      claims.connection_id = .ok s.db.row.connection := by
    simp [Database.lock_connection, Scope.owns, h.project, h.id]
  have hauthorization : lc.authorization s.db spec connector claims state
      = .ok i.attempt_id := by
    simp only [Lifecycle.authorization, hintent]
    rw [if_neg (by simp [h.connector, hconnector, h.status])]
    rw [if_neg (by simp [hauthorizing, hoperation, hdigest, hsecret])]
    cases hp : spec.pkce with
    | false => rfl
    | true =>
      obtain ⟨secret, hstored, hkind, htext⟩ := h.verifier hp
      rw [hp, if_pos rfl] at hpkce
      simp only [hpkce, hstored, Bool.not_true, Bool.false_eq_true, if_false]
      rw [if_neg (by simp), if_neg (by simp [hkind, htext])]
  refine ⟨i.attempt_id, ?_⟩
  simp only [Lifecycle.callback_checked, hspec, happ, hverify, hlock, hauthorization]
  rw [if_neg (by simp [hcode.1]; omega), if_neg hproject]

/-- No request is under way for a test that saw the connection degraded. -/
def System.Discreet (s : System State Digest) : Prop :=
  ∀ f ∈ s.flights, ∀ scope seen, f.origin = .test scope seen → seen.status ≠ .Degraded

theorem System.Discreet.step (h : s.Discreet) (hmove : lc.Move s op s')
    (hpassive : lc.Passive s op) :
    s'.Discreet := by
  cases hmove with
  | refresh tests r origin from_op resolvable tokens expired allowed =>
    intro f hf scope seen horigin
    rcases List.mem_append.mp hf with hf | hf
    · exact h f hf scope seen horigin
    · rw [List.mem_singleton.mp hf] at horigin
      have hrefreshes := refreshes_of_move from_op resolvable expired allowed
      rcases from_op with ⟨-, rfl⟩ | ⟨i, scope', seen', rfl, htest, -, rfl⟩
      · cases horigin
      · cases horigin
        exact hpassive.degraded hrefreshes i scope seen rfl htest
  | authorize state scope i from_op =>
    intro f hf scope seen horigin
    rcases List.mem_append.mp hf with hf | hf
    · exact h f hf scope seen horigin
    · rw [List.mem_singleton.mp hf] at horigin
      cases horigin
  | request i f answer from_op flight waiting =>
    obtain ⟨result, refreshed, exchanged, hrequest⟩ := s.request_eq flight waiting answer
    rw [hrequest]
    intro g hg scope seen horigin
    obtain ⟨g', hg', _, rfl⟩ := Flight.Among.set flight result g hg
    exact h g' hg' scope seen horigin
  | fail => exact fun f hf => h f (List.mem_of_mem_eraseIdx hf)
  | stored => exact fun f hf => h f (List.mem_of_mem_eraseIdx hf)
  | _ => exact h

/-- A step of a `test_connection` that first saw this connection. -/
def System.TestStep (s : System State Digest) (op : Op State) (seen : Connection) : Prop :=
  (∃ i scope, op = .test_resolve i ∧ s.tests[i]? = some (scope, seen)) ∨
    (∃ i f scope, op = .finish i ∧ s.flights[i]? = some f ∧ f.origin = .test scope seen) ∨
    ∃ i health c, op = .check i health ∧ s.checks[i]? = some c ∧ c.seen = seen

theorem test_step_activates {seen : Connection} (hmove : lc.Move s op s')
    (htest : s.TestStep op seen) (hbefore : s.db.row.connection.status ≠ .Active)
    (hafter : s'.db.row.connection.status = .Active) :
    ∃ f ∈ s.flights, ∃ scope, f.origin = .test scope seen := by
  cases hmove with
  | idle tests checks seconds drawn => exact absurd hafter hbefore
  | touch checks status test at_time written =>
    exfalso
    have hactive : status = .Active := hafter
    rcases written with ⟨-, hsame⟩ | ⟨-, hs⟩ | ⟨-, -, -, hs⟩ | ⟨-, -, -, -, -, -, -, hs⟩
    · exact hbefore (hsame ▸ hactive)
    all_goals
      rw [hs] at hactive
      cases hactive
  | stored checks i f tokens from_op flight =>
    rcases htest with ⟨j, scope, hop, -⟩ | ⟨j, g, scope, hop, hg, horigin⟩ |
      ⟨j, health, c, hop, -⟩
    · rw [from_op] at hop
      cases hop
    · rw [from_op] at hop
      cases hop
      rw [flight] at hg
      cases hg
      exact ⟨f, List.mem_of_getElem? flight, scope, horigin⟩
    · rw [from_op] at hop
      cases hop
  | replaced save secret secrets from_op =>
    exfalso
    rcases htest with ⟨j, scope, hop, -⟩ | ⟨j, g, scope, hop, -⟩ | ⟨j, health, c, hop, -⟩ <;>
    · rw [from_op] at hop
      cases hop
  | request i f answer from_op flight waiting =>
    obtain ⟨result, refreshed, exchanged, hrequest⟩ := s.request_eq flight waiting answer
    rw [hrequest] at hafter
    exact absurd hafter hbefore
  | fail checks i f from_op flight answered db doubt =>
    rcases doubt with rfl | rfl <;> exact absurd hafter hbefore
  | refresh => cases hafter
  | start => cases hafter
  | authorize => cases hafter

/-- **Authorizations are one-shot, and passive diagnostics leave them.** In every run: a
state is exchanged at most once, and a callback dispatches an exchange only for the
state of the last start. If after a start there are only passive steps of resolutions,
tests and listings, a callback with its state that comes before it expires asks the
provider. And in a run of passive steps no step of a test that saw the connection
degraded activates it. -/
theorem authorization_one_shot (lc : Lifecycle State Digest) [DecidableEq State]
    [DecidableEq Digest] (db : Database Digest) (hdb : db.Created) (now : ℤ)
    (ops : List (Op State)) (s : System State Digest)
    (hs : s = Machine.run lc.step (System.at_rest db now) ops) :
    (∀ state, s.exchanged.count state ≤ 1) ∧
    (∀ connector project code state,
      (lc.step s (.callback connector project code state)).flights ≠ s.flights →
      ∃ rest, s.issued = state :: rest) ∧
    (∀ scope connector state, (lc.act s (.start scope connector)).2 = .authorization state →
      ∀ later t, (∀ op ∈ later, op.looks = true) →
        Machine.Meets lc.step lc.Passive (lc.step s (.start scope connector)) later →
        t = Machine.run lc.step (lc.step s (.start scope connector)) later →
        t.now < s.now + 600 →
        ∀ project code answer,
          (project = none ∨ project = some "" ∨
            project = some s.db.row.connection.project_id) →
          (code ≠ "" ∧ code.utf8ByteSize ≤ 4096) →
          (lc.step (lc.step t (.callback connector project code state))
            (.request t.flights.length (some answer))).exchanged = state :: t.exchanged) ∧
    (Machine.Meets lc.step lc.Passive (System.at_rest db now) ops →
      ∀ op seen, s.TestStep op seen → seen.status = .Degraded →
        s.db.row.connection.status ≠ .Active →
        (lc.step s op).db.row.connection.status ≠ .Active) := by
  have hshot : s.OneShot lc := by
    rw [hs]
    exact Machine.run_keeps (I := fun s : System State Digest => s.OneShot lc)
      (fun s op h => h.step (act_move lc s op)) (hdb.one_shot now) ops
  have hproject : s.db.row.connection.project_id ≠ "" := by
    rw [hs]
    exact Machine.run_keeps
      (I := fun s : System State Digest => s.db.row.connection.project_id ≠ "")
      (fun s op h => by rw [(act_move lc s op).project_eq]; exact h) hdb.project ops
  refine ⟨?_, ?_, ?_, ?_⟩
  · intro state
    exact Nat.le_trans (Nat.le_add_right _ _) (hshot.once state)
  · intro connector project code state hflights
    simp only [Lifecycle.step, Lifecycle.act] at hflights
    split at hflights
    · exact absurd rfl hflights
    next scope pending db' hcallback =>
      obtain ⟨i, hintent, hstate, hdigest, -, -, -⟩ := callback_checked_ok hcallback
      exact (hshot.last hintent hstate hdigest).1
  · intro scope connector state hstart later t hlooks hpassive ht hnow project code answer
      hscope hcode
    obtain ⟨spec, app, claims, hspec, happ, hopened, hconnector, hredirect, hexpires, hclaims,
      hoffers⟩ := start_offers hstart
    rw [ht] at hnow
    have hkept := hoffers.run hlooks hpassive hnow
    rw [← ht] at hkept hnow
    obtain ⟨attempt, hcallback⟩ := hkept.callback hspec happ hopened hconnector hredirect
      (by rw [hexpires]; exact hnow) (by rw [hclaims]; exact hproject)
      (by rw [hclaims]; exact hscope) hcode
    -- the flight of the callback is the last one
    simp [Lifecycle.step, Lifecycle.act, hcallback, System.request]
  · intro hpassive op seen htest hdegraded hbefore hafter
    have hdiscreet : s.Discreet := by
      rw [hs]
      exact hpassive.keeps (I := System.Discreet)
        (fun s op hp h => h.step (act_move lc s op) hp) (fun f hf => by cases hf)
    obtain ⟨f, hf, scope, horigin⟩ :=
      test_step_activates (act_move lc s op) htest hbefore hafter
    exact hdiscreet f hf scope seen horigin hdegraded

namespace Sample

/-- The test of the sample connection, up to its credentials. -/
def test_connection : List (Op StateClaims) := [.test scope, .test_resolve 0]

def renewed : Except Error TokenSet :=
  .ok { access_token := "new", refresh_token := "next", expires_at := some 5000 }

/-- The sample connection with tokens that are still valid. -/
def fresh_database : Database StateClaims :=
  { database with
    secret_envelopes := [("s", { tokens with expires_at := some 5000 }.envelope "c")] }

/-- The sample connection after a failed test. -/
def degraded_database : Database StateClaims := database.touched .Degraded .Failed 0

theorem fresh_created : fresh_database.Created := ⟨by decide, rfl, .inr rfl⟩

theorem degraded_created : degraded_database.Created := ⟨by decide, rfl, .inr rfl⟩

/-- The state of the first start of the sample connection. -/
def state : StateClaims :=
  { project_id := "p", connector := "mail", connection_id := "c"
    redirect_uri := "https://example.test/callback", expires_at := 700
    pkce_ref := lifecycle.random_id "sec_" 1 }

end Sample

namespace Sample

/-- A start of an authorization, and then a test that passes. -/
def tested : List (Op StateClaims) := test_connection ++ [.check 0 (.reported true true)]

def authorizing : System StateClaims StateClaims :=
  lifecycle.step (System.at_rest fresh_database 100) (.start scope "mail")

theorem tested_passive : Machine.Meets lifecycle.step lifecycle.Passive authorizing tested := by
  -- the tokens are valid at every step, so there is nothing to refresh
  have hfresh : ∀ (s : System StateClaims StateClaims) (op : Op StateClaims),
      s.db.credentials s.now = .ok (.fields [("accessToken", "access")]) →
      ¬lifecycle.Refreshes s op := by
    rintro s op hfields ⟨r, -, -, expired, hexpired, -⟩
    rw [hfields] at hexpired
    cases hexpired
  have hcheck : (lifecycle.step (lifecycle.step authorizing (.test scope))
      (.test_resolve 0)).checks[0]?.map (·.resolved) = some true := by
    decide
  refine ⟨⟨?_, ?_, ?_⟩, ⟨?_, ?_, ?_⟩, ⟨?_, ?_, ?_⟩, trivial⟩
  · exact fun h => absurd h (hfresh _ _ rfl)
  · exact fun h => absurd h (hfresh _ _ rfl)
  · exact fun i health c h => by cases h
  · exact fun h => absurd h (hfresh _ _ rfl)
  · exact fun h => absurd h (hfresh _ _ rfl)
  · exact fun i health c h => by cases h
  · exact fun h => absurd h (hfresh _ _ rfl)
  · exact fun h => absurd h (hfresh _ _ rfl)
  · rintro i health c h hc - hdegraded
    cases h
    rw [hc] at hcheck
    simp only [Option.map_some, Option.some.injEq] at hcheck
    simp [Check.outcome, hcheck, Health.degraded] at hdegraded

end Sample

/-- With tokens that are valid, a test that passes leaves the authorization pending. -/
theorem authorization_survives_test :
    (Sample.lifecycle.step (Sample.lifecycle.step
      (Machine.run Sample.lifecycle.step Sample.authorizing Sample.tested)
      (.callback "mail" none "code" Sample.state))
      (.request (Machine.run Sample.lifecycle.step Sample.authorizing Sample.tested).flights.length
        (some Sample.renewed))).exchanged
      = Sample.state ::
        (Machine.run Sample.lifecycle.step Sample.authorizing Sample.tested).exchanged := by
  refine (authorization_one_shot Sample.lifecycle Sample.fresh_database Sample.fresh_created 100
    [] _ rfl).2.2.1 Sample.scope "mail" Sample.state ?_ Sample.tested _ ?_ Sample.tested_passive
    rfl ?_ none "code" Sample.renewed (.inl rfl) ?_
  · rfl
  · decide
  · decide
  · decide

namespace Sample

/-- A test that finds expired tokens and renews them. -/
def renewing_test : List (Op StateClaims) :=
  test_connection ++ [.request 0 (some renewed), .finish 0]

end Sample

/-- A test of a connection that is authorizing, with expired tokens, takes the pending
authorization away, and so does one that fails; a test of a degraded connection with
expired tokens activates it. -/
theorem test_connection_not_passive :
    (Sample.database.Created ∧
      (Sample.lifecycle.act (System.at_rest Sample.database 100) (.start Sample.scope "mail")).2
        = .authorization Sample.state ∧
      (∀ op ∈ Sample.renewing_test, op.looks = true) ∧
      (Sample.lifecycle.act (Machine.run Sample.lifecycle.step
          (Sample.lifecycle.step (System.at_rest Sample.database 100)
            (.start Sample.scope "mail")) Sample.renewing_test)
        (.callback "mail" none "code" Sample.state)).2 = .failed .ConnectionUnavailable) ∧
    (Sample.fresh_database.Created ∧
      (Sample.lifecycle.act (Machine.run Sample.lifecycle.step Sample.authorizing
          (Sample.test_connection ++ [.check 0 .failed]))
        (.callback "mail" none "code" Sample.state)).2 = .failed .ConnectionUnavailable) ∧
    Sample.degraded_database.Created ∧
      Sample.degraded_database.row.connection.status = .Degraded ∧
      (Machine.run Sample.lifecycle.step (System.at_rest Sample.degraded_database 100)
        Sample.renewing_test).db.row.connection.status = .Active := by
  refine ⟨⟨Sample.created, ?_, ?_, ?_⟩, ⟨Sample.fresh_created, ?_⟩, Sample.degraded_created,
    ?_, ?_⟩ <;> decide

end Appcall.Oauth
