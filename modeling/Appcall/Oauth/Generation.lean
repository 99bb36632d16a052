/-
The generation of a connection follows its identity.

The trigger on the row raises the generation with every write that changes the account,
the owner, the connector, the auth type or the secret, or that activates the connection;
it makes one exception, for the write that stores the tokens of a refresh. That write
carries a marker, and the trigger believes the marker only together with the dispatched
intent of the same attempt. An authorization stores its tokens through the same code
and under a marker of the same shape, so what tells the two apart is the operation of
the intent. `System.Sorted` is the invariant behind it: the attempts of refreshes and
of authorizations come from two families of names, and a flight of either kind carries
a name of its own family.
-/
import Appcall.Oauth.Refresh

set_option autoImplicit false

namespace Appcall.Oauth

variable {State Digest : Type}

/-! ## Updates of the row -/

/-- A transaction that writes the row: a step of the life cycle, one of the writes of
the store, or a statement of an operator on the other columns. -/
inductive Update (State : Type) where
  | call (op : Op State)
  | update_status (scope : Scope) (id : String) (status : Status)
  | update_test_status (scope : Scope) (id : String) (status : TestStatus)
  | set_secret_ref (scope : Scope) (id secret : String)
  | replace_credentials (scope : Scope) (id secret : String) (auth : AuthType)
  | statement (f : Connection → Connection)

/-- A transaction of the store: it fails as a whole. -/
def System.transaction (s : System State Digest)
    (result : Except StoreError (Database Digest)) : System State Digest :=
  match result with
  | .error _ => s
  | .ok db => { s with db := db }

def Connection.keyed (f : Connection → Connection) (c : Connection) : Connection :=
  { f c with id := c.id, project_id := c.project_id }

def Lifecycle.apply (lc : Lifecycle State Digest) [DecidableEq Digest]
    (s : System State Digest) : Update State → System State Digest
  | .call op => lc.step s op
  | .update_status scope id status => s.transaction (s.db.update_status s.now scope id status)
  | .update_test_status scope id status =>
    s.transaction (s.db.update_test_status s.now scope id status)
  | .set_secret_ref scope id secret =>
    s.transaction (s.db.set_secret_ref s.now scope id secret)
  | .replace_credentials scope id secret auth =>
    s.transaction (s.db.replace_credentials none s.now scope id secret auth)
  | .statement f => { s with db := s.db.update none s.now (Connection.keyed f) }

def System.generation (s : System State Digest) : ℕ := s.db.row.connection_generation

/-- The account, the owner, the connector, the auth type or the secret differ, or the
connection has become active. -/
def Connection.Changed (old new : Connection) : Prop :=
  old.external_account_id ≠ new.external_account_id ∨
    old.credential_owner ≠ new.credential_owner ∨ old.connector ≠ new.connector ∨
    old.auth_type ≠ new.auth_type ∨ old.secret_ref_id ≠ new.secret_ref_id ∨
    old.status ≠ new.status ∧ new.status = .Active

/-- A flight of this origin refreshes, as opposed to one that exchanges a code. -/
def Origin.refreshes : Origin State → Bool
  | .callback _ => false
  | _ => true

/-- The update is the last transaction of a refresh. -/
def System.FinishesRefresh (s : System State Digest) (u : Update State) : Prop :=
  ∃ i f, u = .call (.finish i) ∧ s.flights[i]? = some f ∧ f.origin.refreshes = true

/-- Updates that leave the row alone: time passes, or the provider answers. -/
def Update.quiet : Update State → Bool
  | .call (.wait _) => true
  | .call (.request _ _) => true
  | _ => false

/-! ## The trigger -/

theorem bump_le (marker : Option Marker) (intent : Option (Intent Digest))
    (old new : Connection) (generation : ℕ) :
    generation ≤ bump_connection_generation marker intent old new generation := by
  rw [bump_connection_generation]
  split
  · omega
  · omega

theorem bump_changed {marker : Option Marker} {intent : Option (Intent Digest)}
    {old new : Connection} (generation : ℕ) (hchanged : old.Changed new)
    (hplain : refresh_in_flight marker intent old new = false) :
    bump_connection_generation marker intent old new generation = generation + 1 := by
  rw [bump_connection_generation]
  apply if_pos
  rcases hchanged with h | h | h | h | h | h
  · exact .inl h
  · exact .inr (.inl h)
  · exact .inr (.inr (.inl h))
  · exact .inr (.inr (.inr (.inl h)))
  · exact .inr (.inr (.inr (.inr (.inl ⟨h, hplain⟩))))
  · exact .inr (.inr (.inr (.inr (.inr ⟨h.1, h.2, hplain⟩))))

theorem bump_in_flight {marker : Option Marker} {intent : Option (Intent Digest)}
    {old new : Connection} (generation : ℕ)
    (hflight : refresh_in_flight marker intent old new = true)
    (haccount : old.external_account_id = new.external_account_id)
    (howner : old.credential_owner = new.credential_owner)
    (hconnector : old.connector = new.connector) (hauth : old.auth_type = new.auth_type) :
    bump_connection_generation marker intent old new generation = generation := by
  rw [bump_connection_generation]
  apply if_neg
  rintro (h | h | h | h | ⟨-, h⟩ | ⟨-, -, h⟩)
  · exact h haccount
  · exact h howner
  · exact h hconnector
  · exact h hauth
  · rw [hflight] at h
    cases h
  · rw [hflight] at h
    cases h

theorem update_changed {db : Database Digest} {now : ℤ} {f : Connection → Connection}
    (h : db.row.connection.Changed (f db.row.connection)) :
    db.row.connection_generation < (db.update none now f).row.connection_generation := by
  have hbump : (db.update none now f).row.connection_generation
      = db.row.connection_generation + 1 :=
    bump_changed db.row.connection_generation h rfl
  omega

theorem touched_unchanged {db : Database Digest} {status : Status} {test : TestStatus}
    {at_time : ℤ} (h : status = db.row.connection.status ∨ status ≠ .Active) :
    ¬db.row.connection.Changed (db.touched status test at_time).row.connection := by
  rintro (hne | hne | hne | hne | hne | ⟨hne, hactive⟩)
  · exact hne rfl
  · exact hne rfl
  · exact hne rfl
  · exact hne rfl
  · exact hne rfl
  · rcases h with rfl | hother
    · exact hne rfl
    · exact hother hactive

/-! ## Two families of attempts -/

/-- The attempts of refreshes and of authorizations, in the intent and in the flights.
A refresh is of tokens: its connection has a secret and the auth type of OAuth. -/
structure System.Sorted (lc : Lifecycle State Digest) (s : System State Digest) : Prop where
  intent : ∀ i, s.db.intent = some i →
    (i.operation = .refresh ∧ i.state ≠ .authorizing ∧
        ∃ k, i.attempt_id = lc.random_id "refresh_" k) ∨
      i.operation = .authorization ∧ ∃ k, i.attempt_id = lc.random_id "auth_" k
  refresh : ∀ f ∈ s.flights, f.origin.refreshes = true →
    (∃ k, f.pending.attempt = lc.random_id "refresh_" k) ∧
      f.pending.connection.secret_ref_id ≠ "" ∧ f.pending.connection.auth_type = .OAuth2
  exchange : ∀ f ∈ s.flights, f.origin.refreshes = false →
    ∃ k, f.pending.attempt = lc.random_id "auth_" k

variable {lc : Lifecycle State Digest} {s : System State Digest}

theorem System.Sorted.mono {s' : System State Digest} (h : s.Sorted lc) (hintent : s.db.Keeps s'.db)
    (hflights : Flight.Among s.flights s'.flights) : s'.Sorted lc := by
  refine ⟨?_, ?_, ?_⟩
  · intro i' hi'
    obtain ⟨i, hi, hattempt, hoperation, hstate, -⟩ := hintent i' hi'
    rw [hattempt, hoperation]
    rcases h.intent i hi with ⟨hop, hne, hname⟩ | hauth
    · exact .inl ⟨hop, fun hpending => hne (hstate hpending), hname⟩
    · exact .inr hauth
  · intro f' hf' hrefreshes
    obtain ⟨f, hf, result, rfl⟩ := hflights f' hf'
    exact h.refresh f hf hrefreshes
  · intro f' hf' hrefreshes
    obtain ⟨f, hf, result, rfl⟩ := hflights f' hf'
    exact h.exchange f hf hrefreshes

theorem sorted_at_rest {db : Database Digest} (h : db.intent = none) (now : ℤ) :
    (System.at_rest db now : System State Digest).Sorted lc := by
  refine ⟨?_, ?_, ?_⟩
  · intro i hi
    rw [System.at_rest, h] at hi
    cases hi
  · intro f hf
    cases hf
  · intro f hf
    cases hf

theorem System.Sorted.step {s' : System State Digest} {op : Op State} (h : s.Sorted lc)
    (hmove : lc.Move s op s') : s'.Sorted lc := by
  cases hmove with
  | idle tests checks seconds drawn => exact h.mono (.refl _) (.refl _)
  | touch checks status test at_time written =>
    exact h.mono (.refl _) (.refl _)
  | refresh tests r origin from_op resolvable tokens expired allowed =>
    obtain ⟨hsecret, -, hauth⟩ := credentials_expired expired
    have hkind : origin.refreshes = true := by
      rcases from_op with ⟨-, rfl⟩ | ⟨_, _, _, -, -, -, rfl⟩ <;> rfl
    refine ⟨?_, ?_, ?_⟩
    · intro i hi
      cases hi
      exact .inl ⟨rfl, (fun hne => by cases hne), _, rfl⟩
    · intro f hf hrefreshes
      rcases List.mem_append.mp hf with hf | hf
      · exact h.refresh f hf hrefreshes
      · rw [List.mem_singleton.mp hf]
        exact ⟨⟨_, rfl⟩, hsecret, hauth⟩
    · intro f hf hexchanges
      rcases List.mem_append.mp hf with hf | hf
      · exact h.exchange f hf hexchanges
      · rw [List.mem_singleton.mp hf, hkind] at hexchanges
        cases hexchanges
  | start connector spec app state secrets from_op hspec happ hconnector signed stored =>
    refine ⟨?_, h.refresh, h.exchange⟩
    intro i hi
    cases hi
    exact .inr ⟨rfl, _, rfl⟩
  | authorize state scope i from_op intent authorizing digest secret =>
    -- a pending intent is that of an authorization, and the flight takes its attempt
    have hname : i.operation = .authorization ∧ ∃ k, i.attempt_id = lc.random_id "auth_" k := by
      rcases h.intent i intent with ⟨-, hne, -⟩ | hauth
      · exact absurd authorizing hne
      · exact hauth
    refine ⟨?_, ?_, ?_⟩
    · intro i' hi'
      cases hi'
      exact .inr hname
    · intro f hf hrefreshes
      rcases List.mem_append.mp hf with hf | hf
      · exact h.refresh f hf hrefreshes
      · rw [List.mem_singleton.mp hf] at hrefreshes
        cases hrefreshes
    · intro f hf hexchanges
      rcases List.mem_append.mp hf with hf | hf
      · exact h.exchange f hf hexchanges
      · rw [List.mem_singleton.mp hf]
        exact hname.2
  | request i f answer from_op flight waiting =>
    obtain ⟨result, refreshed, exchanged, hrequest⟩ := s.request_eq flight waiting answer
    rw [hrequest]
    exact h.mono (.refl _) (.set flight result)
  | fail checks i f from_op flight answered db doubt =>
    rcases doubt with rfl | rfl
    · exact h.mono (.refl _) (.erase _ _)
    · exact h.mono (.doubt _ _) (.erase _ _)
  | stored checks i f tokens from_op flight result accepts named new =>
    exact h.mono (.complete _ _) (.erase _ _)
  | replaced save secret secrets from_op calm written =>
    exact h.mono (.refl _) (.refl _)

theorem apply_written (lc : Lifecycle State Digest) [DecidableEq Digest]
    (s : System State Digest) (u : Update State) :
    (∃ op, u = .call op) ∨ lc.apply s u = s ∨
      ∃ f, lc.apply s u = { s with db := s.db.update none s.now f } := by
  have hscoped : ∀ {scope : Scope} {id : String} {f : Connection → Connection}
      {result : Except StoreError (Database Digest)},
      (∀ db, result = .ok db → s.db.update_scoped none s.now scope id f = .ok db) →
      s.transaction result = s ∨
        ∃ f, s.transaction result = { s with db := s.db.update none s.now f } := by
    intro scope id f result h
    cases result with
    | error e => exact .inl rfl
    | ok db =>
      right
      refine ⟨f, ?_⟩
      rw [System.transaction, update_scoped_ok (h db rfl)]
  cases u with
  | call op => exact .inl ⟨op, rfl⟩
  | update_status scope id status => exact .inr (hscoped (fun _ h => h))
  | update_test_status scope id status => exact .inr (hscoped (fun _ h => h))
  | set_secret_ref scope id secret =>
    refine .inr (@hscoped scope id (fun c => { c with secret_ref_id := secret }) _ ?_)
    intro db h
    rw [Database.set_secret_ref] at h
    split at h
    · cases h
    · exact h
  | replace_credentials scope id secret auth =>
    refine .inr (@hscoped scope id (Connection.replaced secret auth) _ ?_)
    intro db h
    rw [Database.replace_credentials] at h
    split at h
    · cases h
    · exact h
  | statement f => exact .inr (.inr ⟨_, rfl⟩)

theorem System.Sorted.apply [DecidableEq Digest] (h : s.Sorted lc) (u : Update State) :
    (lc.apply s u).Sorted lc := by
  rcases apply_written lc s u with ⟨op, rfl⟩ | hsame | ⟨f, hwritten⟩
  · exact h.step (act_move lc s op)
  · rw [hsame]
    exact h
  · rw [hwritten]
    exact h.mono (.refl _) (.refl _)

/-! ## The write that stores tokens -/

theorem stored_in_flight (h : s.Sorted lc) {f : Flight State} (hf : f ∈ s.flights)
    (hrefreshes : f.origin.refreshes = true) (haccepts : s.db.accepts f.pending = true)
    {secret : String} (hnamed : secret ≠ "") :
    refresh_in_flight (some (f.pending.marker s.db.row.connection secret)) s.db.intent
      s.db.row.connection (s.db.row.connection.replaced secret .OAuth2) = true := by
  have hawaits := accepts_awaits haccepts
  obtain ⟨i, hintent, hattempt, hsecret, hstate⟩ := hawaits.intent
  obtain ⟨⟨k, hname⟩, hne, -⟩ := h.refresh f hf hrefreshes
  have hold : s.db.row.connection.secret_ref_id ≠ "" := by
    rw [hawaits.secret_ref_id]
    exact hne
  -- the attempt is of the refreshes, so the intent that carries it is one
  have hoperation : i.operation = .refresh := by
    rcases h.intent i hintent with ⟨hop, -⟩ | ⟨-, m, hauth⟩
    · exact hop
    · rw [hattempt, hname] at hauth
      exact absurd hauth random_id_kinds
  simp [refresh_in_flight, Pending.marker, Connection.replaced, hintent, hoperation, hstate,
    hattempt, hawaits.degraded, hsecret, hawaits.secret_ref_id.symm, hold, hnamed]

theorem stored_plain (h : s.Sorted lc) {f : Flight State} (hf : f ∈ s.flights)
    (hexchanges : f.origin.refreshes = false) (haccepts : s.db.accepts f.pending = true)
    (secret : String) :
    refresh_in_flight (some (f.pending.marker s.db.row.connection secret)) s.db.intent
      s.db.row.connection (s.db.row.connection.replaced secret .OAuth2) = false := by
  obtain ⟨i, hintent, hattempt, -, -⟩ := (accepts_awaits haccepts).intent
  obtain ⟨k, hname⟩ := h.exchange f hf hexchanges
  have hoperation : i.operation ≠ .refresh := by
    intro hop
    rcases h.intent i hintent with ⟨-, -, m, hrefresh⟩ | ⟨hauth, -⟩
    · rw [hattempt, hname] at hrefresh
      exact random_id_kinds hrefresh.symm
    · rw [hop] at hauth
      cases hauth
  simp [refresh_in_flight, hintent, hoperation]

theorem finish_refresh_generation [DecidableEq Digest] (h : s.Sorted lc) {u : Update State}
    (hfinishes : s.FinishesRefresh u) : (lc.apply s u).generation = s.generation := by
  obtain ⟨j, g, rfl, hflight, hrefreshes⟩ := hfinishes
  have hmove : lc.Move s (.finish j) (lc.apply s (.call (.finish j))) := act_move lc s _
  generalize lc.apply s (.call (.finish j)) = s' at hmove
  cases hmove with
  | idle tests checks seconds drawn => rfl
  | touch checks status test at_time written => rfl
  | refresh tests r origin from_op => rfl
  | start connector spec app state secrets from_op => rfl
  | authorize state scope i from_op => rfl
  | request i f answer from_op => cases from_op
  | fail checks i f from_op flight answered db doubt => rcases doubt with rfl | rfl <;> rfl
  | stored checks i f tokens from_op flight result accepts named new =>
    cases from_op
    rw [hflight] at flight
    cases flight
    have hmem := List.mem_of_getElem? hflight
    have hauth : s.db.row.connection.auth_type = .OAuth2 := by
      rw [(accepts_awaits accepts).auth_type]
      exact (h.refresh g hmem hrefreshes).2.2
    exact bump_in_flight _ (stored_in_flight h hmem hrefreshes accepts named) rfl rfl rfl hauth
  | replaced save secret secrets from_op => cases from_op

/-! ## Every update -/

theorem resolvable_matches {db : Database Digest} {r : Resolution}
    (h : db.resolvable r = .ok ()) : r.mismatches db.row.connection = false := by
  simp only [Database.resolvable] at h
  split at h
  · cases h
  split at h
  · cases h
  next hmatches => simpa using hmatches

theorem resolve_dispatches {r : Resolution} (origin : Origin State)
    (hresolvable : s.db.resolvable r = .ok ()) {tokens : TokenSet}
    (hexpired : s.db.credentials s.now = .ok (.expired tokens))
    (hallowed : lc.refreshable r.expected tokens = .ok ()) :
    ∃ s', lc.resolve s r origin = .in_flight s' := by
  have hprepare : lc.prepare_refresh s.db r s.now (lc.random_id "refresh_" s.drawn)
      = .ok (.refresh { connection := s.db.row.connection,
                        attempt := lc.random_id "refresh_" s.drawn },
          s.db.dispatch_refresh (lc.random_id "refresh_" s.drawn) s.now) := by
    rw [Lifecycle.prepare_refresh, hresolvable]
    simp only [hexpired, hallowed]
  rw [Lifecycle.resolve, hprepare]
  exact ⟨_, rfl⟩

theorem dispatch_generation [DecidableEq Digest] {op : Op State} (hrefreshes : lc.Refreshes s op) :
    (lc.step s op).generation = s.generation ∧
      ∃ f, (lc.step s op).flights = s.flights ++ [f] ∧ f.origin.refreshes = true := by
  obtain ⟨r, hop, hresolvable, tokens, hexpired, hallowed⟩ := hrefreshes
  rcases hop with rfl | ⟨i, scope, seen, rfl, htest, rfl⟩
  · obtain ⟨t, hflight⟩ := resolve_dispatches (.resolve : Origin State) hresolvable hexpired
      hallowed
    have hstep : lc.step s (.resolve r) = t := by
      simp [Lifecycle.step, Lifecycle.act, hflight]
    obtain ⟨-, -, -, -, rfl⟩ := resolve_in_flight hflight
    rw [hstep]
    exact ⟨rfl, _, rfl, rfl⟩
  · -- a test of a bearer token resolves nothing, but the tokens of OAuth are no bearer
    have hauth : seen.auth_type ≠ .ExternalBearer := by
      have hmatches := resolvable_matches hresolvable
      simp only [Connection.health_resolution, Resolution.mismatches, Bool.or_eq_false_iff,
        decide_eq_false_iff_not, not_not] at hmatches
      rw [← hmatches.2, (credentials_expired hexpired).2.2]
      decide
    obtain ⟨t, hflight⟩ := @resolve_dispatches _ _ lc { s with tests := s.tests.eraseIdx i }
      seen.health_resolution (.test scope seen) hresolvable tokens hexpired hallowed
    have hstep : lc.step s (.test_resolve i) = t := by
      simp [Lifecycle.step, Lifecycle.act, htest, hauth, hflight]
    obtain ⟨-, -, -, -, rfl⟩ := resolve_in_flight hflight
    rw [hstep]
    exact ⟨rfl, _, rfl, rfl⟩

theorem generation_le (lc : Lifecycle State Digest) [DecidableEq Digest]
    (s : System State Digest) (u : Update State) :
    s.generation ≤ (lc.apply s u).generation := by
  rcases apply_written lc s u with ⟨op, rfl⟩ | hsame | ⟨f, hwritten⟩
  · have hmove : lc.Move s op (lc.apply s (.call op)) := act_move lc s op
    generalize lc.apply s (.call op) = s' at hmove
    cases hmove with
    | request i f answer from_op flight waiting =>
      obtain ⟨result, refreshed, exchanged, hrequest⟩ := s.request_eq flight waiting answer
      rw [hrequest]
      exact Nat.le_refl _
    | fail checks i f from_op flight answered db doubt =>
      rcases doubt with rfl | rfl <;> exact Nat.le_refl _
    | stored checks i f tokens from_op flight result accepts named new =>
      exact bump_le _ _ _ _ _
    | replaced save secret secrets from_op calm written => exact bump_le _ _ _ _ _
    | _ => exact Nat.le_refl _
  · exact Nat.le_of_eq (by rw [hsame])
  · rw [hwritten]
    exact bump_le _ _ _ _ _

/-- An update that changes the identity or activates the connection raises the
generation, unless it is the last transaction of a refresh. -/
theorem generation_lt [DecidableEq Digest] (h : s.Sorted lc) {u : Update State}
    (hother : ¬s.FinishesRefresh u)
    (hchanged : s.db.row.connection.Changed (lc.apply s u).db.row.connection) :
    s.generation < (lc.apply s u).generation := by
  have hsame : ¬s.db.row.connection.Changed s.db.row.connection := by
    rintro (hne | hne | hne | hne | hne | ⟨hne, -⟩) <;> exact hne rfl
  rcases apply_written lc s u with ⟨op, rfl⟩ | heq | ⟨f, hwritten⟩
  · have hmove : lc.Move s op (lc.apply s (.call op)) := act_move lc s op
    generalize lc.apply s (.call op) = s' at hmove hchanged
    cases hmove with
    | idle tests checks seconds drawn => exact absurd hchanged hsame
    | touch checks status test at_time written =>
      refine absurd hchanged (touched_unchanged ?_)
      rcases written with ⟨-, hstatus⟩ | ⟨-, rfl⟩ | ⟨-, -, -, rfl⟩ | ⟨_, _, _, -, -, -, -, rfl⟩
      · exact .inl hstatus
      · exact .inr (by decide)
      · exact .inr (by decide)
      · exact .inr (by decide)
    | refresh tests r origin from_op resolvable tokens expired allowed =>
      exact absurd hchanged (touched_unchanged (.inr (by decide)))
    | start connector spec app state secrets from_op hspec happ hconnector signed stored =>
      exact absurd hchanged (touched_unchanged (.inr (by decide)))
    | authorize state scope i from_op intent authorizing digest secret =>
      exact absurd hchanged (touched_unchanged (.inr (by decide)))
    | request i f answer from_op flight waiting =>
      obtain ⟨result, refreshed, exchanged, hrequest⟩ := s.request_eq flight waiting answer
      rw [hrequest] at hchanged
      exact absurd hchanged hsame
    | fail checks i f from_op flight answered db doubt =>
      rcases doubt with rfl | rfl <;> exact absurd hchanged hsame
    | stored checks i f tokens from_op flight result accepts named new =>
      subst from_op
      have hexchanges : f.origin.refreshes = false := by
        by_contra hrefreshes
        exact hother ⟨i, f, rfl, flight, by simpa using hrefreshes⟩
      have hplain := stored_plain h (List.mem_of_getElem? flight) hexchanges accepts
        (lc.random_id "sec_" s.drawn)
      exact Nat.lt_of_lt_of_eq (Nat.lt_succ_self _)
        (bump_changed s.generation hchanged hplain).symm
    | replaced save secret secrets from_op calm written =>
      exact @update_changed _ { s.db with secret_envelopes := secrets } _ _ hchanged
  · rw [heq] at hchanged
    exact absurd hchanged hsame
  · rw [hwritten] at hchanged ⊢
    exact update_changed hchanged

theorem quiet_cases {u : Update State} (hquiet : u.quiet = true) :
    (∃ seconds, u = .call (.wait seconds)) ∨ ∃ j answer, u = .call (.request j answer) := by
  cases u with
  | call op =>
    cases op with
    | wait seconds => exact .inl ⟨seconds, rfl⟩
    | request j answer => exact .inr ⟨j, answer, rfl⟩
    | _ => cases hquiet
  | _ => cases hquiet

theorem quiet_keeps [DecidableEq Digest] (s : System State Digest) {u : Update State}
    (hquiet : u.quiet = true) : (lc.apply s u).generation = s.generation ∧
      ∀ (i : ℕ) (f : Flight State), s.flights[i]? = some f →
        ∃ f', (lc.apply s u).flights[i]? = some f' ∧ f'.origin = f.origin := by
  have hsame : ∀ (i : ℕ) (f : Flight State), s.flights[i]? = some f →
      ∃ f', s.flights[i]? = some f' ∧ f'.origin = f.origin := fun i f hf => ⟨f, hf, rfl⟩
  obtain ⟨seconds, rfl⟩ | ⟨j, answer, rfl⟩ := quiet_cases hquiet
  · exact ⟨rfl, hsame⟩
  · simp only [Lifecycle.apply, Lifecycle.step, Lifecycle.act]
    cases hflight : s.flights[j]? with
    | none =>
      have hidle : s.request j answer = s := by simp [System.request, hflight]
      rw [hidle]
      exact ⟨rfl, hsame⟩
    | some g =>
      cases hresult : g.result with
      | some result =>
        have hidle : s.request j answer = s := by simp [System.request, hflight, hresult]
        rw [hidle]
        exact ⟨rfl, hsame⟩
      | none =>
        obtain ⟨result, refreshed, exchanged, hrequest⟩ := s.request_eq hflight hresult answer
        rw [hrequest]
        refine ⟨rfl, ?_⟩
        intro i f hf
        by_cases hij : j = i
        · subst hij
          rw [hflight] at hf
          cases hf
          obtain ⟨hlt, -⟩ := List.getElem?_eq_some_iff.mp hflight
          exact ⟨_, List.getElem?_set_self hlt, rfl⟩
        · exact ⟨f, by rw [List.getElem?_set_ne hij]; exact hf, rfl⟩

theorem quiet_run_keeps [DecidableEq Digest] {us : List (Update State)}
    (hquiet : ∀ u ∈ us, u.quiet = true) (s : System State Digest) :
    (Machine.run lc.apply s us).generation = s.generation ∧
      ∀ (i : ℕ) (f : Flight State), s.flights[i]? = some f →
        ∃ f', (Machine.run lc.apply s us).flights[i]? = some f' ∧ f'.origin = f.origin := by
  induction us generalizing s with
  | nil => exact ⟨rfl, fun i f hf => ⟨f, hf, rfl⟩⟩
  | cons u us ih =>
    obtain ⟨hgeneration, hflights⟩ := @quiet_keeps _ _ lc _ s u (hquiet u List.mem_cons_self)
    obtain ⟨hrun, hrest⟩ := ih (fun u hu => hquiet u (List.mem_cons_of_mem _ hu)) (lc.apply s u)
    refine ⟨hrun.trans hgeneration, ?_⟩
    intro i f hf
    obtain ⟨f', hf', horigin'⟩ := hflights i f hf
    obtain ⟨f'', hf'', horigin''⟩ := hrest i f' hf'
    exact ⟨f'', hf'', horigin''.trans horigin'⟩

theorem run_generation_le (lc : Lifecycle State Digest) [DecidableEq Digest]
    (s : System State Digest) (us : List (Update State)) :
    s.generation ≤ (Machine.run lc.apply s us).generation := by
  induction us generalizing s with
  | nil => exact Nat.le_refl _
  | cons u us ih => exact Nat.le_trans (generation_le lc s u) (ih (lc.apply s u))

/-- **The generation tracks the identity of the connection.** In every state that a run
of updates reaches from a connection without an intent: no further run lowers the
generation; from the dispatch of a refresh to its last transaction, with nothing but
time and requests in between, it stays the same, however the refresh ends; and every
update that changes the account, the owner, the connector, the auth type or the secret,
or that makes the connection active, raises it, unless it is the last transaction of a
refresh. -/
theorem generation_tracks_identity (lc : Lifecycle State Digest) [DecidableEq Digest]
    (db : Database Digest) (hdb : db.intent = none) (now : ℤ) (us : List (Update State))
    (s : System State Digest) (hs : s = Machine.run lc.apply (System.at_rest db now) us) :
    (∀ more, s.generation ≤ (Machine.run lc.apply s more).generation) ∧
    (∀ op between, lc.Refreshes s op → (∀ u ∈ between, u.quiet = true) →
      (Machine.run lc.apply s
        (.call op :: (between ++ [.call (.finish s.flights.length)]))).generation
        = s.generation) ∧
    ∀ u, ¬s.FinishesRefresh u →
      s.db.row.connection.Changed (lc.apply s u).db.row.connection →
      s.generation < (lc.apply s u).generation := by
  have hsorted : ∀ us, (Machine.run lc.apply (System.at_rest db now) us).Sorted lc := fun us =>
    Machine.run_keeps (fun s u h => h.apply u) (sorted_at_rest hdb now) us
  refine ⟨fun more => run_generation_le lc s more, ?_, ?_⟩
  · intro op between hrefreshes hquiet
    obtain ⟨hdispatch, f, hflights, hkind⟩ := dispatch_generation hrefreshes
    obtain ⟨hbetween, hkept⟩ := quiet_run_keeps hquiet (lc.step s op)
    -- the flight of the refresh is the last one, and stays where it is
    have hopened : (lc.step s op).flights[s.flights.length]? = some f := by
      rw [hflights]
      simp
    obtain ⟨f', hf', horigin⟩ := hkept _ f hopened
    have hrun : Machine.run lc.apply (lc.step s op) between
        = Machine.run lc.apply (System.at_rest db now) (us ++ .call op :: between) := by
      rw [Machine.run_append, ← hs]
      rfl
    have hfinish := finish_refresh_generation (hrun ▸ hsorted (us ++ Update.call op :: between))
      ⟨s.flights.length, f', rfl, hf', by rw [horigin]; exact hkind⟩
    rw [Machine.run_cons, Machine.run_append, Machine.run_cons, Machine.run_nil]
    exact (hfinish.trans hbetween).trans hdispatch
  · intro u hother hchanged
    exact generation_lt (hs ▸ hsorted us) hother hchanged

namespace Sample

def rotation : Option (Except Error TokenSet) :=
  some (.ok { access_token := "new", refresh_token := "next", expires_at := some 5000 })

/-- The claims of an authorization of the sample connection. -/
def claims : StateClaims :=
  { project_id := "p", connector := "mail", connection_id := "c"
    redirect_uri := "https://example.test/callback", expires_at := 700
    pkce_ref := lifecycle.random_id "sec_" 1 }

/-- An authorization of the sample connection, up to its last transaction. -/
def exchanged : List (Update StateClaims) :=
  [.call (.start scope "mail"), .call (.callback "mail" none "code" claims),
    .call (.request 0 rotation)]

end Sample

/-- A refresh of the sample connection stores a new secret in the same generation; the
end of an authorization stores one in a new generation. -/
theorem sample_generations :
    ((Machine.run Sample.lifecycle.apply (System.at_rest Sample.database 100)
        [.call (Sample.resolve false), .call (.request 0 Sample.rotation),
          .call (.finish 0)]).generation = 1 ∧
      (Machine.run Sample.lifecycle.apply (System.at_rest Sample.database 100)
        [.call (Sample.resolve false), .call (.request 0 Sample.rotation),
          .call (.finish 0)]).current ≠ "s") ∧
    1 < (Sample.lifecycle.apply (Machine.run Sample.lifecycle.apply
      (System.at_rest Sample.database 100) Sample.exchanged) (.call (.finish 0))).generation := by
  refine ⟨⟨?_, by decide⟩, ?_⟩
  · refine (generation_tracks_identity Sample.lifecycle Sample.database rfl 100 []
      (System.at_rest Sample.database 100) rfl).2.1 (Sample.resolve false)
      [.call (.request 0 Sample.rotation)] ?_ (by decide)
    exact ⟨_, .inl rfl, rfl, Sample.tokens, rfl, rfl⟩
  · refine (generation_tracks_identity Sample.lifecycle Sample.database rfl 100
      Sample.exchanged _ rfl).2.2 (.call (.finish 0)) ?_ ?_
    · rintro ⟨i, f, hop, hflight, hrefreshes⟩
      cases hop
      cases hflight
      cases hrefreshes
    · right; right; right; right; left
      decide

end Appcall.Oauth
