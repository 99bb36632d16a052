/-
Refresh tokens are spent once, and stale results do not win.

A refresh is dispatched by an intent that is committed before the provider is asked.
As long as that intent stands, dispatched or in doubt, nothing resolves the secret; and
a result is stored only for the intent that is still waiting for it. The intent row is
one per connection, and starting an authorization overwrites it: what keeps a secret
from being spent twice is then gone until new credentials are stored. A health check,
which may resolve a connection that is authorizing, spends it again.
`refresh_token_spent_once` says that this is the only way.
-/
import Mathlib.Data.List.Count
import Appcall.Lib.Count
import Appcall.Oauth.Moves

set_option autoImplicit false

namespace Appcall.Oauth

variable {State Digest : Type}

/-! ## Spending -/

/-- A flight that has not asked yet for the refresh of this secret. -/
def Flight.unasked (f : Flight State) (secret : String) : Bool :=
  f.result.isNone && decide (f.pending.connection.secret_ref_id = secret)
    && match f.origin with
      | .callback _ => false
      | _ => true

/-- How often a secret is spent: the requests made and those about to be made. -/
def System.spent (s : System State Digest) (secret : String) : ℕ :=
  s.refreshed.count secret + s.flights.countP (fun f => f.unasked secret)

/-- The secret the connection refers to. -/
def System.current (s : System State Digest) : String := s.db.row.connection.secret_ref_id

/-- A connection as it is created: of a project, with no intent, and with a secret that
is stored. -/
structure Database.Created (db : Database Digest) : Prop where
  project : db.row.connection.project_id ≠ ""
  intent : db.intent = none
  secret : db.row.connection.secret_ref_id = "" ∨
    (db.secret db.row.connection.secret_ref_id).isSome

/-- The step dispatches a refresh of the current secret. -/
def Lifecycle.Refreshes (lc : Lifecycle State Digest) (s : System State Digest)
    (op : Op State) : Prop :=
  ∃ r, (op = .resolve r ∨ ∃ i scope seen, op = .test_resolve i ∧
      s.tests[i]? = some (scope, seen) ∧ r = seen.health_resolution) ∧
    s.db.resolvable r = .ok () ∧
    ∃ tokens, s.db.credentials s.now = .ok (.expired tokens) ∧
      lc.refreshable r.expected tokens = .ok ()

/-- The step does not refresh a secret whose refresh, in flight or in doubt, a start has
overwritten. -/
def Lifecycle.Guarded (lc : Lifecycle State Digest) (s : System State Digest)
    (op : Op State) : Prop :=
  lc.Refreshes s op → s.current ∉ s.reopened

variable {lc : Lifecycle State Digest} {s : System State Digest} {op : Op State}
  {db : Database Digest} {s' : System State Digest} {n : ℕ} {attempt : String}

theorem refreshes_of_move {r : Resolution} {origin : Origin State}
    (from_op : op = .resolve r ∧ origin = .resolve ∨
      ∃ i scope seen, op = .test_resolve i ∧ s.tests[i]? = some (scope, seen) ∧
        r = seen.health_resolution ∧ origin = .test scope seen)
    (resolvable : s.db.resolvable r = .ok ()) {tokens : TokenSet}
    (expired : s.db.credentials s.now = .ok (.expired tokens))
    (allowed : lc.refreshable r.expected tokens = .ok ()) : lc.Refreshes s op := by
  refine ⟨r, ?_, resolvable, tokens, expired, allowed⟩
  rcases from_op with ⟨rfl, -⟩ | ⟨i, scope, seen, rfl, htest, rfl, -⟩
  · exact .inl rfl
  · exact .inr ⟨i, scope, seen, rfl, htest, rfl⟩

/-- What keeps every secret from being spent twice. -/
structure System.Thrifty (s : System State Digest) : Prop where
  stored : s.current = "" ∨ (s.db.secret s.current).isSome
  once : ∀ secret, s.spent secret ≤ 1
  known : ∀ secret, 0 < s.spent secret → secret ≠ "" ∧ (s.db.secret secret).isSome
  fenced : 0 < s.spent s.current → s.db.refresh_open = true ∨ s.current ∈ s.reopened

theorem Database.Created.thrifty (h : db.Created) (now : ℤ) :
    (System.at_rest db now : System State Digest).Thrifty := by
  refine ⟨h.secret, ?_, ?_, ?_⟩ <;> simp [System.spent, System.at_rest]

theorem secret_cons {id new : String} {secret : Secret} (h : (db.secret id).isSome) :
    (List.lookup id ((new, secret) :: db.secret_envelopes)).isSome := by
  rw [List.lookup_cons]
  split
  · rfl
  · exact h

theorem secret_new {id new : String} (h : (db.secret id).isSome) (hnew : db.secret new = none) :
    id ≠ new := by
  rintro rfl
  rw [hnew] at h
  cases h

theorem System.Thrifty.mono (h : s.Thrifty) (hcurrent : s'.current = s.current)
    (hsecret : ∀ id, (s.db.secret id).isSome → (s'.db.secret id).isSome)
    (hspent : ∀ secret, s'.spent secret ≤ s.spent secret)
    (hfenced : s.db.refresh_open = true ∨ s.current ∈ s.reopened →
      s'.db.refresh_open = true ∨ s.current ∈ s'.reopened) : s'.Thrifty := by
  refine ⟨?_, ?_, ?_, ?_⟩
  · rw [hcurrent]
    exact h.stored.imp_right (hsecret _)
  · intro secret
    exact Nat.le_trans (hspent secret) (h.once secret)
  · intro secret hpos
    obtain ⟨hne, hstored⟩ := h.known secret (Nat.lt_of_lt_of_le hpos (hspent secret))
    exact ⟨hne, hsecret _ hstored⟩
  · rw [hcurrent]
    intro hpos
    exact hfenced (h.fenced (Nat.lt_of_lt_of_le hpos (hspent _)))

theorem System.Thrifty.renewed (h : s.Thrifty)
    (hsecret : ∀ id, (s.db.secret id).isSome → (s'.db.secret id).isSome)
    (hspent : ∀ secret, s'.spent secret ≤ s.spent secret)
    (hnew : s'.current = "" ∨ (s'.db.secret s'.current).isSome ∧ s.db.secret s'.current = none) :
    s'.Thrifty := by
  have hunspent : ¬0 < s'.spent s'.current := by
    intro hpos
    obtain ⟨hne, hstored⟩ := h.known _ (Nat.lt_of_lt_of_le hpos (hspent _))
    rcases hnew with hempty | ⟨-, hfree⟩
    · exact hne hempty
    · exact secret_new hstored hfree rfl
  refine ⟨hnew.imp_right And.left, ?_, ?_, fun hpos => absurd hpos hunspent⟩
  · intro secret
    exact Nat.le_trans (hspent secret) (h.once secret)
  · intro secret hpos
    obtain ⟨hne, hstored⟩ := h.known secret (Nat.lt_of_lt_of_le hpos (hspent secret))
    exact ⟨hne, hsecret _ hstored⟩

theorem spent_eraseIdx (s : System State Digest) (i : ℕ) (secret : String) :
    s.refreshed.count secret + (s.flights.eraseIdx i).countP (fun f => f.unasked secret)
      ≤ s.spent secret :=
  Nat.add_le_add_left ((List.eraseIdx_sublist s.flights i).countP_le) _

theorem spent_request {i : ℕ} {f : Flight State} (hflight : s.flights[i]? = some f)
    (hwaiting : f.result = none) (answer : Option (Except Error TokenSet)) (secret : String) :
    (s.request i answer).spent secret ≤ s.spent secret := by
  have hasked : ∀ result, ({ f with result := some result } : Flight State).unasked secret
      = false := fun _ => rfl
  simp only [System.request, hflight, hwaiting, Option.isSome_none, Bool.false_eq_true,
    if_false]
  have h := countP_set_add hflight (fun f => f.unasked secret)
    (hasked (answer.getD (.error .OutcomeUnknown)))
  split
  · simp only [System.spent]
    omega
  split
  next state horigin =>
    simp only [System.spent]
    omega
  next horigin =>
    simp only [System.spent, List.count_cons]
    by_cases hsecret : f.pending.connection.secret_ref_id = secret
    · have hu : f.unasked secret = true := by
        simp only [Flight.unasked, hwaiting, hsecret, Option.isNone_none, decide_true,
          Bool.and_self]
      rw [if_pos hu] at h
      simp only [beq_iff_eq, hsecret, if_pos]
      omega
    · simp only [beq_iff_eq, hsecret, if_false]
      omega

theorem refresh_open_doubt (h : db.refresh_open = true) (attempt : String) :
    (db.doubt_intent attempt).refresh_open = true := by
  cases hintent : db.intent with
  | none => simp [Database.refresh_open, hintent] at h
  | some i =>
    simp only [Database.refresh_open, hintent] at h
    simp only [Database.refresh_open, Database.doubt_intent, hintent, Option.map_some]
    split
    · simp only [Intent.fences, Bool.and_eq_true, Bool.or_eq_true, decide_eq_true_eq] at h ⊢
      exact ⟨⟨h.1.1, .inr trivial⟩, h.2⟩
    · exact h

theorem refresh_open_intent (attempt : String) (now : ℤ) (row : Row)
    (h : row.connection.secret_ref_id = db.row.connection.secret_ref_id) :
    Database.refresh_open { db with row, intent := some (db.refresh_intent attempt now) }
      = true := by
  simp [Database.refresh_open, Database.refresh_intent, Intent.fences, h]

theorem unfenced_not_open (h : db.fenced = false) : db.refresh_open = false := by
  cases hintent : db.intent with
  | none => simp [Database.refresh_open, hintent]
  | some i =>
    simp only [Database.fenced, hintent] at h
    simp [Database.refresh_open, hintent, h]

/-- **One step.** A guarded step spends no secret twice. -/
theorem System.Thrifty.step (h : s.Thrifty) (hmove : lc.Move s op s') (hguard : lc.Guarded s op) :
    s'.Thrifty := by
  cases hmove with
  | idle tests checks seconds drawn =>
    exact h.mono rfl (fun _ => id) (fun _ => Nat.le_refl _) id
  | touch checks status test at_time written =>
    exact h.mono rfl (fun _ => id) (fun _ => Nat.le_refl _) id
  | refresh tests r origin from_op resolvable tokens expired allowed =>
    have hclean : s.current ∉ s.reopened :=
      hguard (refreshes_of_move from_op resolvable expired allowed)
    have hunspent : s.spent s.current = 0 := by
      by_contra hne
      rcases h.fenced (Nat.pos_of_ne_zero hne) with hopen | hreopened
      · rw [unfenced_not_open (resolvable_ok resolvable).1] at hopen
        cases hopen
      · exact hclean hreopened
    obtain ⟨hne, hstored, -⟩ := credentials_expired expired
    -- the new flight is the only spending of the current secret
    have hspent : ∀ secret, System.spent { s with
        flights := s.flights ++ [{
          scope := r.scope
          pending := {
            connection := s.db.row.connection
            attempt := lc.random_id "refresh_" s.drawn }
          origin, result := none, writes := s.writes }] } secret
        ≤ s.spent secret + if secret = s.current then 1 else 0 := by
      intro secret
      simp only [System.spent, List.countP_append, List.countP_singleton]
      split
      next hu =>
        rw [if_pos (by simp [Flight.unasked] at hu; exact hu.1.symm)]
        omega
      next => omega
    refine ⟨h.stored, ?_, ?_, fun _ => .inl ?_⟩
    · intro secret
      refine Nat.le_trans (hspent secret) ?_
      split
      next heq =>
        subst heq
        omega
      next =>
        have := h.once secret
        omega
    · intro secret hpos
      by_cases heq : secret = s.current
      · rw [heq]
        exact ⟨hne, hstored⟩
      · have hle := hspent secret
        rw [if_neg heq] at hle
        exact h.known secret (Nat.lt_of_lt_of_le hpos hle)
    · exact refresh_open_intent _ _ _ rfl
  | start connector spec app state secrets from_op hspec happ hconnector signed stored =>
    refine h.mono rfl ?_ (fun _ => Nat.le_refl _) ?_
    · intro id hid
      rcases stored with ⟨rfl, -⟩ | ⟨-, -, -, rfl⟩
      · exact hid
      · exact secret_cons hid
    · -- what was open is now listed as overwritten
      rintro (hopen | hreopened)
      · right
        simp [hopen, System.current]
      · right
        show s.current ∈ if s.db.refresh_open = true then _ :: s.reopened else s.reopened
        by_cases hopen : s.db.refresh_open = true
        · rw [if_pos hopen]
          exact List.mem_cons_of_mem _ hreopened
        · rw [if_neg hopen]
          exact hreopened
  | authorize state scope i from_op intent authorizing digest secret =>
    refine h.mono rfl (fun _ => id) ?_ ?_
    · intro secret
      simp [System.spent, Flight.unasked]
    · rintro (hopen | hreopened)
      · simp [Database.refresh_open, intent, Intent.fences, authorizing] at hopen
      · exact .inr hreopened
  | request i f answer from_op flight waiting =>
    have hspent := spent_request flight waiting answer
    obtain ⟨result, refreshed, exchanged, hrequest⟩ := s.request_eq flight waiting answer
    rw [hrequest] at hspent ⊢
    exact h.mono rfl (fun _ => id) hspent id
  | fail checks i f from_op flight answered db doubt =>
    rcases doubt with rfl | rfl
    · exact h.mono rfl (fun _ => id) (spent_eraseIdx s i) id
    · refine h.mono rfl (fun _ => id) (spent_eraseIdx s i) ?_
      exact Or.imp_left (refresh_open_doubt · f.pending.attempt)
  | stored checks i f tokens from_op flight result accepts named new =>
    refine h.renewed (fun _ => secret_cons) (spent_eraseIdx s i) (.inr ⟨?_, new⟩)
    show (List.lookup _ (_ :: _)).isSome
    rw [List.lookup_cons]
    simp [System.current, Database.complete_intent, Database.with_credentials,
      Database.update, Connection.replaced]
  | replaced save secret secrets from_op calm written =>
    rcases written with ⟨rfl, rfl⟩ | ⟨hne, hnew, rfl⟩
    · exact h.renewed (fun _ => id) (fun _ => Nat.le_refl _) (.inl rfl)
    · refine h.renewed (fun _ => secret_cons) (fun _ => Nat.le_refl _) (.inr ⟨?_, hnew⟩)
      show (List.lookup _ (_ :: _)).isSome
      rw [List.lookup_cons]
      simp [System.current, Database.with_credentials, Database.update, Connection.replaced]

/-! ## Late results -/

def Lifecycle.Drawn (lc : Lifecycle State Digest) (n : ℕ) (attempt : String) : Prop :=
  ∃ k < n, attempt = lc.random_id "refresh_" k ∨ attempt = lc.random_id "auth_" k

theorem Lifecycle.Drawn.mono {m : ℕ} (h : lc.Drawn n attempt) (hle : n ≤ m) :
    lc.Drawn m attempt := by
  obtain ⟨k, hk, hattempt⟩ := h
  exact ⟨k, Nat.lt_of_lt_of_le hk hle, hattempt⟩

theorem random_id_inj {pre : String} {m : ℕ} (h : lc.random_id pre n = lc.random_id pre m) :
    n = m := by
  apply lc.random_injective
  have happend : pre.toList ++ (lc.random n).toList = pre.toList ++ (lc.random m).toList := by
    rw [← String.toList_append, ← String.toList_append]
    exact congrArg String.toList h
  exact String.toList_inj.mp (List.append_cancel_left happend)

theorem random_id_kinds {m : ℕ} : lc.random_id "refresh_" n ≠ lc.random_id "auth_" m := by
  intro h
  have hlist := congrArg String.toList h
  rw [Lifecycle.random_id, Lifecycle.random_id, String.toList_append,
    String.toList_append] at hlist
  have hhead := congrArg List.head? hlist
  cases hhead

theorem Lifecycle.Drawn.ne_refresh {k : ℕ} (h : lc.Drawn n attempt) (hk : n ≤ k) :
    attempt ≠ lc.random_id "refresh_" k := by
  obtain ⟨j, hj, rfl | rfl⟩ := h
  · intro heq
    have := random_id_inj heq
    omega
  · exact fun heq => random_id_kinds heq.symm

theorem Lifecycle.Drawn.ne_auth {k : ℕ} (h : lc.Drawn n attempt) (hk : n ≤ k) :
    attempt ≠ lc.random_id "auth_" k := by
  obtain ⟨j, hj, rfl | rfl⟩ := h
  · exact random_id_kinds
  · intro heq
    have := random_id_inj heq
    omega

/-- What ties a flight to the intent that waits for it. No flight carries the attempt of
an authorization that is still pending, and while the intent of a flight is dispatched
on a degraded connection, no credentials were written since. -/
structure System.Timely (lc : Lifecycle State Digest) (s : System State Digest) : Prop where
  intent_drawn : ∀ i, s.db.intent = some i → lc.Drawn s.drawn i.attempt_id
  flight_drawn : ∀ f ∈ s.flights, lc.Drawn s.drawn f.pending.attempt
  pending : ∀ i, s.db.intent = some i → i.state = .authorizing →
    ∀ f ∈ s.flights, f.pending.attempt ≠ i.attempt_id
  late : ∀ i, s.db.intent = some i → i.state = .dispatched →
    s.db.row.connection.status = .Degraded →
    ∀ f ∈ s.flights, f.pending.attempt = i.attempt_id → s.writes = f.writes

/-- The operations of the life cycle itself: resolutions, authorizations, replacements
and disconnections. -/
def Op.lifecycle : Op State → Bool
  | .list _ | .test _ | .test_resolve _ | .check _ _ => false
  | _ => true

theorem Database.Created.timely (h : db.Created) (now : ℤ) :
    (System.at_rest db now : System State Digest).Timely lc := by
  refine ⟨?_, ?_, ?_, ?_⟩ <;> intro x hx <;> simp [System.at_rest, h.intent] at hx

/-- The intent of the second database is that of the first; its attempt may be over. -/
def Database.Keeps (db db' : Database Digest) : Prop :=
  ∀ i', db'.intent = some i' → ∃ i, db.intent = some i ∧ i'.attempt_id = i.attempt_id ∧
    i'.operation = i.operation ∧ (i'.state = .authorizing → i.state = .authorizing) ∧
    (i'.state = .dispatched → i.state = .dispatched)

/-- The flights are among those before, with or without an answer. -/
def Flight.Among (flights flights' : List (Flight State)) : Prop :=
  ∀ f' ∈ flights', ∃ f ∈ flights, ∃ result, f' = { f with result }

theorem Database.Keeps.refl (db : Database Digest) : db.Keeps db :=
  fun i h => ⟨i, h, rfl, rfl, id, id⟩

theorem Database.Keeps.doubt (db : Database Digest) (attempt : String) :
    db.Keeps (db.doubt_intent attempt) := by
  intro i' hi'
  obtain ⟨i, hi, rfl⟩ := Option.map_eq_some_iff.mp hi'
  refine ⟨i, hi, ?_⟩
  split
  · exact ⟨rfl, rfl, (fun h => by cases h), (fun h => by cases h)⟩
  · exact ⟨rfl, rfl, id, id⟩

theorem Database.Keeps.complete (db : Database Digest) (attempt : String) :
    db.Keeps (db.complete_intent attempt) := by
  intro i' hi'
  obtain ⟨i, hi, rfl⟩ := Option.map_eq_some_iff.mp hi'
  refine ⟨i, hi, ?_⟩
  split
  · exact ⟨rfl, rfl, (fun h => by cases h), (fun h => by cases h)⟩
  · exact ⟨rfl, rfl, id, id⟩

theorem Flight.Among.refl (flights : List (Flight State)) : Flight.Among flights flights :=
  fun f hf => ⟨f, hf, f.result, rfl⟩

theorem Flight.Among.erase (flights : List (Flight State)) (i : ℕ) :
    Flight.Among flights (flights.eraseIdx i) :=
  fun f hf => ⟨f, List.mem_of_mem_eraseIdx hf, f.result, rfl⟩

theorem Flight.Among.set {flights : List (Flight State)} {i : ℕ} {f : Flight State}
    (hflight : flights[i]? = some f) (result : Option (Except Error TokenSet)) :
    Flight.Among flights (flights.set i { f with result }) := by
  intro g hg
  rcases List.mem_or_eq_of_mem_set hg with hg | rfl
  · exact ⟨g, hg, g.result, rfl⟩
  · exact ⟨f, List.mem_of_getElem? hflight, result, rfl⟩

theorem System.Timely.mono (h : s.Timely lc) (hdrawn : s.drawn ≤ s'.drawn)
    (hintent : s.db.Keeps s'.db) (hflights : Flight.Among s.flights s'.flights)
    (hstatus : s'.db.row.connection.status = .Degraded →
      s.db.row.connection.status = .Degraded ∧ s'.writes = s.writes) : s'.Timely lc := by
  refine ⟨?_, ?_, ?_, ?_⟩
  · intro i' hi'
    obtain ⟨i, hi, hattempt, -⟩ := hintent i' hi'
    rw [hattempt]
    exact (h.intent_drawn i hi).mono hdrawn
  · intro f' hf'
    obtain ⟨f, hf, result, rfl⟩ := hflights f' hf'
    exact (h.flight_drawn f hf).mono hdrawn
  · intro i' hi' hstate f' hf'
    obtain ⟨i, hi, hattempt, -, hauth, -⟩ := hintent i' hi'
    obtain ⟨f, hf, result, rfl⟩ := hflights f' hf'
    rw [hattempt]
    exact h.pending i hi (hauth hstate) f hf
  · intro i' hi' hstate hdegraded f' hf' heq
    obtain ⟨i, hi, hattempt, -, -, hdispatched⟩ := hintent i' hi'
    obtain ⟨f, hf, result, rfl⟩ := hflights f' hf'
    obtain ⟨hbefore, hsame⟩ := hstatus hdegraded
    rw [hsame]
    exact h.late i hi (hdispatched hstate) hbefore f hf (heq.trans hattempt)

/-- **One step.** Steps of the life cycle keep flights and intents tied. -/
theorem System.Timely.step (h : s.Timely lc) (hmove : lc.Move s op s') (hop : op.lifecycle = true) :
    s'.Timely lc := by
  cases hmove with
  | idle tests checks seconds drawn =>
    exact h.mono (Nat.le_add_right _ _) (.refl _) (.refl _) (fun h => ⟨h, rfl⟩)
  | touch checks status test at_time written =>
    refine h.mono (Nat.le_refl _) (.refl _) (.refl _) ?_
    intro hdegraded
    refine ⟨?_, rfl⟩
    rcases written with ⟨⟨i, health, rfl⟩, -⟩ | ⟨-, rfl⟩ | ⟨⟨project, rfl⟩, -⟩ |
      ⟨i, health, c, rfl, -⟩
    · cases hop
    · cases hdegraded
    · cases hop
    · cases hop
  | refresh tests r origin from_op resolvable tokens expired allowed =>
    refine ⟨?_, ?_, ?_, ?_⟩
    · intro i hi
      cases hi
      exact ⟨s.drawn, Nat.lt_succ_self _, .inl rfl⟩
    · intro f hf
      rcases List.mem_append.mp hf with hf | hf
      · exact (h.flight_drawn f hf).mono (Nat.le_succ _)
      · rw [List.mem_singleton.mp hf]
        exact ⟨s.drawn, Nat.lt_succ_self _, .inl rfl⟩
    · intro i hi hstate
      cases hi
      cases hstate
    · intro i hi hstate hdegraded f hf heq
      cases hi
      rcases List.mem_append.mp hf with hf | hf
      · exact absurd heq ((h.flight_drawn f hf).ne_refresh (Nat.le_refl _))
      · rw [List.mem_singleton.mp hf]
  | start connector spec app state secrets from_op hspec happ hconnector signed stored =>
    refine ⟨?_, ?_, ?_, ?_⟩
    · intro i hi
      cases hi
      exact ⟨s.drawn + 2, Nat.lt_succ_self _, .inr rfl⟩
    · intro f hf
      exact (h.flight_drawn f hf).mono (Nat.le_add_right _ _)
    · intro i hi hstate f hf
      cases hi
      exact (h.flight_drawn f hf).ne_auth (Nat.le_add_right _ _)
    · intro i hi hstate
      cases hi
      cases hstate
  | authorize state scope i from_op intent authorizing digest secret =>
    refine ⟨?_, ?_, ?_, ?_⟩
    · intro i' hi'
      cases hi'
      exact h.intent_drawn i intent
    · intro f hf
      rcases List.mem_append.mp hf with hf | hf
      · exact h.flight_drawn f hf
      · rw [List.mem_singleton.mp hf]
        exact h.intent_drawn i intent
    · intro i' hi' hstate
      cases hi'
      cases hstate
    · intro i' hi' hstate hdegraded f hf heq
      cases hi'
      rcases List.mem_append.mp hf with hf | hf
      · exact absurd heq (h.pending i intent authorizing f hf)
      · rw [List.mem_singleton.mp hf]
  | request i f answer from_op flight waiting =>
    obtain ⟨result, refreshed, exchanged, hrequest⟩ := s.request_eq flight waiting answer
    rw [hrequest]
    exact h.mono (Nat.le_refl _) (.refl _) (.set flight result) (fun h => ⟨h, rfl⟩)
  | fail checks i f from_op flight answered db doubt =>
    rcases doubt with rfl | rfl
    · exact h.mono (Nat.le_succ _) (.refl _) (.erase _ _) (fun h => ⟨h, rfl⟩)
    · exact h.mono (Nat.le_succ _) (.doubt _ _) (.erase _ _) (fun h => ⟨h, rfl⟩)
  | stored checks i f tokens from_op flight result accepts named new =>
    exact h.mono (Nat.le_succ _) (.complete _ _) (.erase _ _) (fun h => by cases h)
  | replaced save secret secrets from_op calm written =>
    exact h.mono (Nat.le_succ _) (.refl _) (.refl _) (fun h => by cases h)

/-! ## What is returned and what is stored -/

/-- The attempt is still the dispatched intent of a degraded connection whose secret,
connector, account and auth type have not changed. -/
structure Database.Awaits (db : Database Digest) (p : Pending) : Prop where
  intent : ∃ i, db.intent = some i ∧ i.attempt_id = p.attempt ∧
    i.secret_ref_id = p.connection.secret_ref_id ∧ i.state = .dispatched
  degraded : db.row.connection.status = .Degraded
  secret_ref_id : db.row.connection.secret_ref_id = p.connection.secret_ref_id
  connector : db.row.connection.connector = p.connection.connector
  account : db.row.connection.external_account_id = p.connection.external_account_id
  auth_type : db.row.connection.auth_type = p.connection.auth_type

theorem accepts_awaits {p : Pending} (h : db.accepts p = true) : db.Awaits p := by
  cases hintent : db.intent with
  | none => simp [Database.accepts, hintent] at h
  | some i =>
    simp only [Database.accepts, hintent, Intent.awaits, Bool.and_eq_true,
      decide_eq_true_eq] at h
    obtain ⟨⟨⟨⟨⟨⟨⟨hattempt, hsecret⟩, hstate⟩, hconnector⟩, haccount⟩, hauth⟩, hcurrent⟩,
      hdegraded⟩ := h
    exact ⟨⟨i, hintent, hattempt, hsecret, hstate⟩, hdegraded, hcurrent, hconnector, haccount,
      hauth⟩

theorem completed_unfenced {p : Pending} (h : db.accepts p = true) (row : Row)
    (secrets : List (String × Secret)) :
    (Database.complete_intent { db with row, secret_envelopes := secrets } p.attempt).fenced
      = false := by
  obtain ⟨i, hintent, hattempt, -, -⟩ := (accepts_awaits h).intent
  simp [Database.fenced, Database.complete_intent, hintent, hattempt, Intent.fences]

theorem credentials_unfenced [DecidableEq Digest] {c : Connection}
    (h : (lc.act s op).2 = .credentials c) : (lc.step s op).db.fenced = false := by
  cases op with
  | resolve r =>
    simp only [Lifecycle.step, Lifecycle.act] at h ⊢
    cases hresolve : lc.resolve s r .resolve with
    | in_flight s' =>
      rw [hresolve] at h
      cases h
    | answered result =>
      show s.db.fenced = false
      rw [Lifecycle.resolve] at hresolve
      split at hresolve
      next e hprepare =>
        cases hresolve
        rw [Lifecycle.resolve, hprepare] at h
        cases h
      next hprepare =>
        exact (resolvable_ok (prepare_refresh_fresh hprepare).2.2).1
      next => cases hresolve
  | finish i =>
    simp only [Lifecycle.step, Lifecycle.act, Lifecycle.finish] at h ⊢
    split at h
    · cases h
    next f hflight =>
    split at h
    · cases h
    next result hresult =>
    split at h
    · cases h
    next origin hother =>
    rcases finish_fenced_cases s.db f.scope f.pending result s.now (lc.random_id "sec_" s.drawn)
      with ⟨e, herror, -⟩ | ⟨tokens, -, haccepts, -, -, hdb, -⟩
    · -- a failed flight returns its error
      rw [herror] at h
      cases horigin : f.origin with
      | test scope seen => exact absurd horigin (hother scope seen)
      | resolve =>
        rw [horigin] at h
        cases h
      | callback state =>
        rw [horigin] at h
        cases h
    · simp only [System.landed]
      rw [hdb]
      exact completed_unfenced haccepts _ _
  | wait => cases h
  | request => cases h
  | list => cases h
  | start | callback | save | disconnect | test | test_resolve | check =>
    -- the other calls return no credentials
    simp only [Lifecycle.act] at h
    repeat' split at h
    all_goals cases h

theorem finish_awaits [DecidableEq Digest] {i : ℕ} {f : Flight State}
    (hflight : s.flights[i]? = some f) (h : (lc.step s (.finish i)).db.row ≠ s.db.row ∨
      (lc.step s (.finish i)).db.secret_envelopes ≠ s.db.secret_envelopes) :
    s.db.Awaits f.pending := by
  have hmove := act_move lc s (.finish i)
  generalize lc.step s (.finish i) = s' at h hmove
  cases hmove with
  | idle tests checks seconds drawn => simp at h
  | touch checks status test at_time written =>
    rcases written with ⟨⟨j, health, hop⟩, -⟩ | ⟨⟨scope, hop⟩, -⟩ | ⟨⟨project, hop⟩, -⟩ |
      ⟨j, health, c, hop, -⟩ <;> cases hop
  | refresh tests r origin from_op resolvable tokens expired allowed =>
    rcases from_op with ⟨hop, -⟩ | ⟨j, scope, seen, hop, -⟩ <;> cases hop
  | start connector spec app state secrets from_op =>
    obtain ⟨scope, hop⟩ := from_op
    cases hop
  | authorize state scope j from_op =>
    obtain ⟨connector, project, code, hop⟩ := from_op
    cases hop
  | request j g answer from_op => cases from_op
  | fail checks j g from_op flight answered db doubt =>
    rcases doubt with rfl | rfl <;> simp [Database.doubt_intent] at h
  | stored checks j g tokens from_op flight result accepts named new =>
    cases from_op
    rw [hflight] at flight
    cases flight
    exact accepts_awaits accepts
  | replaced save secret secrets from_op => cases from_op

/-- **Refresh tokens are spent once, and stale results never win.** In every run of the
life cycle of a connection: if no step refreshes a secret whose refresh a start has
overwritten while it was in flight or in doubt, the provider is asked to refresh each
secret at most once. Credentials are returned only when the intent of the current
secret is neither dispatched nor in doubt. And a result is stored only if its attempt
is still awaited and no credentials were written since it was dispatched. -/
theorem refresh_token_spent_once (lc : Lifecycle State Digest) [DecidableEq Digest]
    (db : Database Digest) (hdb : db.Created) (now : ℤ) (ops : List (Op State))
    (hops : ∀ op ∈ ops, op.lifecycle = true) :
    (Machine.Meets lc.step lc.Guarded (System.at_rest db now) ops →
      ∀ secret, (Machine.run lc.step (System.at_rest db now) ops).refreshed.count secret ≤ 1) ∧
    (∀ op c, (lc.act (Machine.run lc.step (System.at_rest db now) ops) op).2 = .credentials c →
      (lc.step (Machine.run lc.step (System.at_rest db now) ops) op).db.fenced = false) ∧
    ∀ s, s = Machine.run lc.step (System.at_rest db now) ops →
      ∀ (i : ℕ) (f : Flight State), s.flights[i]? = some f →
        ((lc.step s (.finish i)).db.row ≠ s.db.row ∨
          (lc.step s (.finish i)).db.secret_envelopes ≠ s.db.secret_envelopes) →
        s.db.Awaits f.pending ∧ s.writes = f.writes := by
  refine ⟨?_, ?_, ?_⟩
  · intro hmeets secret
    have hthrifty := hmeets.keeps (I := System.Thrifty)
      (fun s op hguard h => h.step (act_move lc s op) hguard) (hdb.thrifty now)
    exact Nat.le_trans (Nat.le_add_right _ _) (hthrifty.once secret)
  · intro op c h
    exact credentials_unfenced h
  · rintro s rfl i f hflight hstored
    have htimely : (Machine.run lc.step (System.at_rest db now) ops).Timely lc := by
      have hmeets : Machine.Meets lc.step (fun _ op => op.lifecycle = true)
          (System.at_rest db now) ops := Machine.meets_of_forall hops
      exact hmeets.keeps (I := fun s => s.Timely lc)
        (fun s op hop h => h.step (act_move lc s op) hop) (hdb.timely now)
    have hawaits := finish_awaits hflight hstored
    refine ⟨hawaits, ?_⟩
    obtain ⟨intent, hintent, hattempt, -, hstate⟩ := hawaits.intent
    exact htimely.late intent hintent hstate hawaits.degraded f
      (List.mem_of_getElem? hflight) hattempt.symm

/-! ## A run that spends a token twice -/

namespace Sample

/-- A life cycle with one connector; states are their own claims and digests. -/
def lifecycle : Lifecycle StateClaims StateClaims where
  spec _ := .ok { supports_refresh := true, pkce := false }
  apps _ := some { redirect_uri := "https://example.test/callback" }
  launchable _ := true
  sign claims := .ok claims
  opened := some
  digest := id
  random n := String.ofList (List.replicate n 'x')
  opened_sign := by
    intro claims state h
    cases h
    rfl
  digest_injective := Function.injective_id
  random_injective := by
    intro n m h
    have hlength := congrArg (fun s => s.toList.length) h
    simpa using hlength

/-- The tokens of the sample connection, expired at the epoch. -/
def tokens : TokenSet :=
  { access_token := "access", refresh_token := "rotating", expires_at := some 0 }

def database : Database StateClaims :=
  { row := {
      connection := {
        id := "c", project_id := "p", connector := "mail", auth_type := .OAuth2
        status := .Active, secret_ref_id := "s", last_test_status := .Unknown
        external_account_id := "a", credential_owner := .Brand }
      connection_generation := 1
      updated_at := 0 }
    intent := none
    secret_envelopes := [("s", tokens.envelope "c")] }

def scope : Scope := { project := "p", account := "a" }

/-- A resolution of the sample connection. -/
def resolve (health : Bool) : Op StateClaims :=
  .resolve { scope, expected := "mail", identity := none, health }

def lost_refresh (health : Bool) : List (Op StateClaims) :=
  [resolve health, .request 0 (some (.error .Transport)), .finish 0]

theorem created : database.Created := ⟨by decide, rfl, .inr rfl⟩

end Sample

/-- Without an authorization in between, a lost refresh is not repeated. -/
theorem lost_refresh_spent_once :
    (Machine.run Sample.lifecycle.step (System.at_rest Sample.database 100)
      (Sample.lost_refresh false ++ Sample.lost_refresh true)).refreshed.count "s" ≤ 1 := by
  refine (refresh_token_spent_once Sample.lifecycle Sample.database Sample.created 100
    (Sample.lost_refresh false ++ Sample.lost_refresh true) ?_).1 ?_ "s"
  · decide
  · simp only [Sample.lost_refresh, List.cons_append, List.nil_append, Machine.Meets]
    refine ⟨?_, ?_, ?_, ?_, ?_, ?_, trivial⟩ <;> exact fun _ h => by cases h

/-- A refresh is lost, the user starts to authorize the connection again, and a health
check spends the same refresh token a second time. -/
theorem lost_refresh_spent_twice :
    Sample.database.Created ∧
      (∀ op ∈ Sample.lost_refresh false ++ [.start Sample.scope "mail"]
        ++ Sample.lost_refresh true, op.lifecycle = true) ∧
      (Machine.run Sample.lifecycle.step (System.at_rest Sample.database 100)
        (Sample.lost_refresh false ++ [.start Sample.scope "mail"]
          ++ Sample.lost_refresh true)).refreshed.count "s" = 2 := by
  refine ⟨Sample.created, ?_, ?_⟩ <;> decide

end Appcall.Oauth
