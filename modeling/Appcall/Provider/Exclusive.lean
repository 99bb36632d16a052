/-
Hosted account binding is exclusive and capped.

The constraints of the table say that an account is bound once and a channel of a brand
to one account. What changes a binding is the upsert of `complete`, which is for an
account that is not bound and below the cap, and `clear_binding`, which is for the
account that was deleted at the provider. A flow is claimed for one account, and
completed once while it is there; that ids and hashes of flows do not come again is what
random texts and their digests are for.
-/
import Appcall.Provider.Bindings

set_option autoImplicit false

namespace Appcall.Provider

variable {token_hash : String → String} {s : Hosted}

/-! ## Transactions -/

variable {db db' : Database} {now : ℤ} {token account : String} {locked providers : List String}
  {project : String} {b b' : Bindings} {r : Subaccount} {op : HostedOp}
  {key : String × String × String × String} {ops : List HostedOp} {s' : Hosted}

theorem claim_eq_ok {name : String} {flow : Flow}
    (h : db.claim token_hash now token name account = .ok (flow, db')) :
    ∃ f, db.flows.table.find name = some f ∧ f.token_hash = token_hash token
      ∧ (f.account_id = none ∨ f.account_id = some account) ∧ flow.id = name
      ∧ db' = { db with flows := db.flows.set_account name account } := by
  rw [Database.claim] at h
  split at h
  · cases h
  · cases hfind : db.flows.table.find name with
    | none =>
      rw [hfind] at h
      cases h
    | some f =>
      rw [hfind] at h
      dsimp only at h
      split at h
      next hclaim =>
        cases h
        exact ⟨f, rfl, hclaim.1, hclaim.2.2, (Table.find_eq_some.mp hfind).2, rfl⟩
      next => cases h

/-- What `complete` does: nothing more for a completed flow; else it completes the flow, and
binds an account that is not bound, below the limit. -/
theorem complete_eq_ok {flow : Flow} {channel : String} {limit : Option ℤ} {newly : Bool}
    (h : db.complete now flow account channel limit = .ok (newly, db')) :
    ∃ f, db.flows.table.find flow.id = some f ∧ f.account_id = some account
      ∧ ((f.completed = true ∧ db' = db)
        ∨ (f.completed = false ∧ db'.flows = db.flows.set_completed flow.id
          ∧ (db'.bindings = db.bindings
            ∨ ∃ l, limit = some l ∧ db.bindings.used flow.project < l
              ∧ db.bindings.owner flow.project account = none
              ∧ db.bindings.link
                ⟨flow.project, flow.brand, "unipile", channel, account, .connected⟩
                = some db'.bindings))) := by
  unfold Database.complete at h
  cases hfind : db.flows.table.find flow.id with
  | none =>
    rw [hfind] at h
    cases h
  | some f =>
    rw [hfind] at h
    dsimp only at h
    split at h
    next hflow =>
      refine ⟨f, rfl, hflow.2.2.1, ?_⟩
      split at h
      next hcompleted =>
        cases h
        exact .inl ⟨hcompleted, rfl⟩
      next hopen =>
        refine .inr ⟨by simpa using hopen, ?_⟩
        cases howner : db.bindings.owner flow.project account with
        | some owner =>
          rw [howner] at h
          dsimp only at h
          split at h
          · cases h
          · cases h
            exact ⟨rfl, .inl rfl⟩
        | none =>
          rw [howner] at h
          dsimp only at h
          cases limit with
          | none => cases h
          | some l =>
            dsimp only at h
            split at h
            · cases h
            next hroom =>
              rw [not_or, not_le, not_le] at hroom
              cases hlink : db.bindings.link
                  ⟨flow.project, flow.brand, "unipile", channel, account, .connected⟩ with
              | none =>
                rw [hlink] at h
                cases h
              | some bindings =>
                rw [hlink] at h
                cases h
                exact ⟨rfl, .inr ⟨l, rfl, hroom.2, rfl, rfl⟩⟩
    next => cases h

theorem create_flow_eq_ok {expires : ℤ} {id brand : String}
    (h : db.create_flow token_hash now locked id token project brand providers expires
      = .ok ((), db')) : db'.bindings = db.bindings
      ∧ ∀ f ∈ db'.flows.table.rows, f ∈ db.flows.table.rows
        ∨ (f.id = id ∧ f.token_hash = token_hash token) := by
  rw [Database.create_flow] at h
  split at h
  next => cases h
  next flows hinsert =>
    cases h
    refine ⟨rfl, fun f hf => ?_⟩
    rw [Flows.insert] at hinsert
    split at hinsert
    next => cases hinsert
    next table htable =>
      split at hinsert
      next =>
        cases hinsert
        rw [(Table.insert_eq_some htable).2, List.mem_append, List.mem_singleton] at hf
        rcases hf with hf | rfl
        · exact .inl (List.mem_of_mem_filter hf)
        · exact .inr ⟨rfl, rfl⟩
      next => cases hinsert

theorem link_eq_some (h : b.link r = some b') :
    b'.table = b.table.upsert r r.relink r.relink_key := by
  rw [Bindings.link] at h
  split at h
  · cases h
    rfl
  · cases h

theorem link_self (h : b.link r = some b') :
    ∃ r' ∈ b'.table.rows, r'.key = r.key ∧ r'.provider_account_id = r.provider_account_id := by
  have hfind : b'.table.find r.key = some ((b.table.find r.key).elim r r.relink) := by
    rw [link_eq_some h, Table.find_upsert_self]
  obtain ⟨hr, hkey⟩ := Table.find_eq_some.mp hfind
  refine ⟨_, hr, hkey, ?_⟩
  cases b.table.find r.key with
  | none => rfl
  | some old => rfl

theorem link_other {r' : Subaccount} (h : b.link r = some b') (hr' : r' ∈ b.table.rows)
    (hne : r'.key ≠ r.key) : r' ∈ b'.table.rows := by
  have hfind : b'.table.find r'.key = some r' := by
    rw [link_eq_some h, Table.find_upsert_other _ _ _ _ hne]
    exact Table.find_eq_some.mpr ⟨hr', rfl⟩
  exact (Table.find_eq_some.mp hfind).1

/-! ## Bindings -/

/-- What an operation can do to the bindings. -/
theorem step_bindings (token_hash : String → String) (s : Hosted) (op : HostedOp) :
    (hosted_step token_hash s op).db.bindings = s.db.bindings
    ∨ (∃ request now limit token flow account channel l, op = .complete request now limit
      ∧ s.stage request = some (.located token flow account channel) ∧ limit = some l
      ∧ s.db.bindings.used flow.project < l
      ∧ s.db.bindings.owner flow.project account = none
      ∧ s.db.bindings.link ⟨flow.project, flow.brand, "unipile", channel, account, .connected⟩
        = some (hosted_step token_hash s op).db.bindings)
    ∨ (∃ request project brand channel account, op = .clear_binding request
      ∧ s.stage request = some (.deleted project brand channel account)
      ∧ (hosted_step token_hash s op).db
        = s.db.clear_binding project brand channel account)
    ∨ ∃ key account, (hosted_step token_hash s op).db.bindings
        = s.db.bindings.set_status key account .needs_reconnect := by
  cases op with
  | hosted request project brand providers limit =>
    left
    simp only [hosted_step]
    repeat' (first | rfl | split)
  | create_flow request now locked id token expires =>
    left
    simp only [hosted_step]
    split
    next =>
      split
      · rfl
      next hok => exact (create_flow_eq_ok hok).1
    next => rfl
  | notify request now token name account =>
    left
    simp only [hosted_step]
    split
    · rfl
    next hok =>
      obtain ⟨f, -, -, -, -, rfl⟩ := claim_eq_ok hok
      split <;> rfl
  | accounts request provider =>
    left
    simp only [hosted_step]
    repeat' (first | rfl | split)
  | complete request now limit =>
    cases hstage : s.stage request with
    | none => exact .inl (by simp only [hosted_step, hstage])
    | some stage =>
      cases stage with
      | located token flow account channel =>
        cases hok : s.db.complete now flow account channel limit with
        | error e => exact .inl (by simp only [hosted_step, hstage, hok]; rfl)
        | ok r =>
          have hdb : (hosted_step token_hash s (.complete request now limit)).db = r.2 := by
            simp only [hosted_step, hstage, hok]
          obtain ⟨f, -, -, ⟨-, hsame⟩ | ⟨-, -, hsame | ⟨l, hl, hroom, howner, hlink⟩⟩⟩ :=
            complete_eq_ok hok
          · exact .inl (by rw [hdb, hsame])
          · exact .inl (by rw [hdb, hsame])
          · exact .inr (.inl ⟨request, now, limit, token, flow, account, channel, l, rfl, hstage,
              hl, hroom, howner, by rw [hdb, hlink]⟩)
      | _ => exact .inl (by simp only [hosted_step, hstage])
  | disconnect request project brand channel =>
    left
    simp only [hosted_step]
    repeat' (first | rfl | split)
  | delete request =>
    left
    simp only [hosted_step]
    repeat' (first | rfl | split)
  | clear_binding request =>
    cases hstage : s.stage request with
    | none => exact .inl (by simp only [hosted_step, hstage])
    | some stage =>
      cases stage with
      | deleted project brand channel account =>
        exact .inr (.inr (.inl ⟨request, project, brand, channel, account, rfl, hstage,
          by simp only [hosted_step, hstage]⟩))
      | _ => exact .inl (by simp only [hosted_step, hstage])
  | needs_reconnect project brand channel account => exact .inr (.inr (.inr ⟨_, _, rfl⟩))
  | abandon request => exact .inl rfl

/-- The account is bound to the brand and the channel. -/
def Hosted.binds (s : Hosted) (key : String × String × String × String) (account : String) :
    Prop :=
  ∃ r ∈ s.db.bindings.table.rows, r.key = key ∧ r.provider_account_id = account

/-- The step takes the binding away: its account was deleted at the provider, or another
account is bound in its place. -/
def HostedOp.frees (token_hash : String → String) (key : String × String × String × String)
    (account : String) (s : Hosted) : HostedOp → Prop
  | .complete request now limit => ∃ token flow account' channel,
    s.stage request = some (.located token flow account' channel)
      ∧ key = (flow.project, flow.brand, "unipile", channel) ∧ account ≠ account'
      ∧ (hosted_step token_hash s (.complete request now limit)).binds key account'
  | .clear_binding request => ∃ project brand channel,
    s.stage request = some (.deleted project brand channel account)
      ∧ key = (project, brand, "unipile", channel)
  | _ => False

theorem step_binds (hop : ¬op.frees token_hash key account s) (h : s.binds key account) :
    (hosted_step token_hash s op).binds key account := by
  obtain ⟨r, hr, rfl, rfl⟩ := h
  obtain hsame | ⟨request, now, limit, token, flow, account, channel, l, rfl, hstage, -, -,
    howner, hlink⟩ | ⟨request, project, brand, channel, account, rfl, hstage, hdb⟩
    | ⟨key, account, hdb⟩ := step_bindings token_hash s op
  · exact ⟨r, hsame ▸ hr, rfl, rfl⟩
  · by_cases heq : r.key = (flow.project, flow.brand, "unipile", channel)
    · -- the account that is bound now was not bound before
      have hother : r.provider_account_id ≠ account := by
        rintro rfl
        have hnone := List.find?_eq_none.mp howner r hr
        rw [decide_eq_true_eq] at hnone
        apply hnone
        simp only [Subaccount.key, Prod.mk.injEq] at heq
        rw [Subaccount.account_key, heq.1, heq.2.2.1]
      obtain ⟨r', hr', hkey', haccount'⟩ := link_self hlink
      exact (hop ⟨token, flow, account, channel, hstage, heq, hother,
        ⟨r', hr', hkey'.trans heq.symm, haccount'⟩⟩).elim
    · exact ⟨r, link_other hlink hr heq, rfl, rfl⟩
  · refine ⟨r, ?_, rfl, rfl⟩
    rw [hdb]
    refine List.mem_filter.mpr ⟨hr, ?_⟩
    rw [Bool.not_eq_true', decide_eq_false_iff_not]
    rintro ⟨heq, rfl⟩
    exact hop ⟨project, brand, channel, hstage, heq⟩
  · rw [Hosted.binds, hdb]
    refine ⟨_, List.mem_map_of_mem hr, ?_⟩
    dsimp only
    split <;> try split
    · exact ⟨rfl, rfl⟩
    · exact ⟨rfl, rfl⟩
    · exact ⟨rfl, rfl⟩

theorem run_binds (hops : Machine.Meets (hosted_step token_hash)
      (fun s op => ¬op.frees token_hash key account s) s ops) (h : s.binds key account) :
    (Machine.run (hosted_step token_hash) s ops).binds key account :=
  hops.keeps (I := fun s => s.binds key account) (fun _ _ hop h => step_binds hop h) h

/-! ## The cap -/

/-- The gate of the project, when it answers, answers with the limit. -/
def HostedOp.limited (project : String) (limit : ℤ) (s : Hosted) : HostedOp → Prop
  | .complete request _ answer => ∀ token flow account channel l,
    s.stage request = some (.located token flow account channel) → flow.project = project →
      answer = some l → l = limit
  | _ => True

theorem counted_nonneg (project : String) (r : Subaccount) : 0 ≤ r.counted project := by
  rw [Subaccount.counted]
  split <;> omega

theorem counted_le_one (project : String) (r : Subaccount) : r.counted project ≤ 1 := by
  rw [Subaccount.counted]
  split <;> omega

theorem used_link (h : b.link r = some b') (project : String) :
    b'.used project ≤ b.used project + if r.project_id = project then 1 else 0 := by
  rw [Bindings.used, Bindings.used, link_eq_some h, Table.sum_upsert]
  have hone := counted_le_one project r
  split
  · cases hfind : b.table.find r.key with
    | none =>
      rw [Option.elim_none]
      omega
    | some old =>
      have hrelinked := counted_le_one project (r.relink old)
      have hold := counted_nonneg project old
      rw [Option.elim_some]
      omega
  next hother =>
    have hzero : ∀ r' : Subaccount, r'.project_id = r.project_id → r'.counted project = 0 := by
      intro r' heq
      rw [Subaccount.counted, if_neg]
      rintro ⟨hproject, -⟩
      exact hother (heq ▸ hproject)
    cases hfind : b.table.find r.key with
    | none =>
      rw [Option.elim_none, hzero r rfl]
    | some old =>
      have hkey : old.project_id = r.project_id :=
        congrArg Prod.fst (Table.find_eq_some.mp hfind).2
      rw [Option.elim_some, hzero (r.relink old) hkey, hzero old hkey]
      omega

theorem used_set_status (b : Bindings) (key : String × String × String × String)
    (account project : String) :
    (b.set_status key account .needs_reconnect).used project ≤ b.used project := by
  rw [Bindings.used, Bindings.used, Bindings.set_status]
  dsimp only
  cases hfind : b.table.find key with
  | none => rw [Table.sum, Table.modify_of_none hfind, Table.sum]
  | some r =>
    rw [Table.sum_modify hfind]
    have hnonneg := counted_nonneg project r
    split
    · have hzero : Subaccount.counted project { r with status := .needs_reconnect } = 0 := by
        rw [Subaccount.counted, if_neg]
        rintro ⟨-, -, hstatus⟩
        cases hstatus
      omega
    · omega

/-- **The cap.** Below the limit a binding may be added; above it the bindings only get
fewer. -/
theorem step_used {limit bound : ℤ} (hlimit : limit ≤ bound) (hop : op.limited project limit s)
    (h : s.db.bindings.used project ≤ bound) :
    (hosted_step token_hash s op).db.bindings.used project ≤ bound := by
  obtain hsame | ⟨request, now, answer, token, flow, account, channel, l, rfl, hstage, hl,
    hroom, -, hlink⟩ | ⟨request, project', brand, channel, account, -, -, hdb⟩
    | ⟨key, account, hdb⟩ := step_bindings token_hash s op
  · rw [hsame]
    exact h
  · refine (used_link hlink project).trans ?_
    split
    next hproject =>
      have heq := hop token flow account channel l hstage hproject hl
      have hsame : flow.project = project := hproject
      rw [hsame] at hroom
      omega
    next => omega
  · rw [hdb]
    exact (Table.sum_delete_le _ _ (counted_nonneg project)).trans h
  · rw [hdb]
    exact (used_set_status _ _ _ _).trans h

/-! ## Requests -/

/-- What is said of the stage of every request under way. -/
def Hosted.Holds (P : ℕ → Stage → Prop) (s : Hosted) : Prop :=
  ∀ r ∈ s.requests.rows, P r.id r.stage

section Holds

variable {P Q : ℕ → Stage → Prop} {id : ℕ} {stage : Stage}

theorem Hosted.Holds.mono (h : s.Holds P) (hPQ : ∀ id stage, P id stage → Q id stage) :
    s.Holds Q :=
  fun r hr => hPQ _ _ (h r hr)

theorem Hosted.Holds.at_stage (h : s.Holds P) (hstage : s.stage id = some stage) : P id stage := by
  rw [Hosted.stage, Option.map_eq_some_iff] at hstage
  obtain ⟨r, hfind, rfl⟩ := hstage
  obtain ⟨hr, rfl⟩ := Table.find_eq_some.mp hfind
  exact h r hr

theorem Hosted.Holds.begin_request (h : s.Holds P) (hnew : P id stage) :
    (s.begin_request id stage).Holds P := by
  intro r hr
  rcases Table.mem_insert_getD hr with hr | ⟨rfl, -⟩
  · exact h r hr
  · exact hnew

theorem Hosted.Holds.go_on (h : s.Holds P) (hnew : P id stage) : (s.go_on id stage).Holds P := by
  intro r hr
  obtain ⟨r₀, hr₀, rfl⟩ := List.mem_map.mp hr
  split
  next heq =>
    have hid : r₀.id = id := heq
    rw [hid]
    exact hnew
  next => exact h r₀ hr₀

theorem Hosted.Holds.end_request (h : s.Holds P) : (s.end_request id).Holds P :=
  fun r hr => h r (List.mem_of_mem_filter hr)

end Holds

/-! ## Disconnects -/

/-- A request that is past the provider has deleted its account there. -/
def Hosted.Deletes (s : Hosted) : Prop :=
  s.Holds fun id stage => ∀ project brand channel account,
    stage = .deleted project brand channel account → (id, project, account) ∈ s.deletions

/-- Every step keeps that. -/
theorem step_deletes (op : HostedOp) (h : s.Deletes) : (hosted_step token_hash s op).Deletes := by
  have hother : ∀ {id : ℕ} {stage : Stage},
      (∀ project brand channel account, stage ≠ .deleted project brand channel account) →
      ∀ project brand channel account,
        stage = .deleted project brand channel account → (id, project, account) ∈ s.deletions :=
    fun hne project brand channel account heq => (hne project brand channel account heq).elim
  cases op with
  | hosted request project brand providers limit =>
    simp only [hosted_step]
    split
    · exact h
    · split
      · exact h
      · split
        · exact h
        · exact Hosted.Holds.begin_request h (hother (by rintro _ _ _ _ ⟨⟩))
  | create_flow request now locked id token expires =>
    simp only [hosted_step]
    split
    · split
      · exact Hosted.Holds.end_request h
      · exact Hosted.Holds.end_request h
    · exact h
  | notify request now token name account =>
    simp only [hosted_step]
    split
    · exact h
    · split
      · exact h
      · exact Hosted.Holds.begin_request (s := { s with db := _ }) h
          (hother (by rintro _ _ _ _ ⟨⟩))
  | accounts request provider =>
    simp only [hosted_step]
    split
    · split
      · exact Hosted.Holds.end_request h
      · split
        · exact Hosted.Holds.end_request h
        · split
          · exact Hosted.Holds.end_request h
          · exact Hosted.Holds.go_on h (hother (by rintro _ _ _ _ ⟨⟩))
    · exact h
  | complete request now limit =>
    simp only [hosted_step]
    split
    · split
      · exact Hosted.Holds.end_request h
      · exact Hosted.Holds.end_request h
    · exact h
  | disconnect request project brand channel =>
    simp only [hosted_step]
    split
    · exact h
    · split
      · exact h
      · exact Hosted.Holds.begin_request h (hother (by rintro _ _ _ _ ⟨⟩))
  | delete request =>
    simp only [hosted_step]
    split
    next project brand channel account hstage =>
      refine Hosted.Holds.go_on (P := fun id stage => ∀ project' brand' channel' account',
          stage = .deleted project' brand' channel' account' →
            (id, project', account') ∈ s.deletions ++ [(request, project, account)])
        (h.mono fun id stage hid project' brand' channel' account' heq =>
          List.mem_append_left _ (hid project' brand' channel' account' heq)) ?_
      rintro project' brand' channel' account' ⟨⟩
      exact List.mem_append_right _ (List.mem_singleton_self _)
    next => exact h
  | clear_binding request =>
    simp only [hosted_step]
    split
    · exact Hosted.Holds.end_request h
    · exact h
  | needs_reconnect project brand channel account => exact h
  | abandon request => exact Hosted.Holds.end_request h

theorem run_deletes (token_hash : String → String) (db : Database) (ops : List HostedOp) :
    (Machine.run (hosted_step token_hash) (Hosted.init db) ops).Deletes :=
  Machine.run_keeps (I := Hosted.Deletes) (fun _ op h => step_deletes op h)
    (fun r hr => by cases hr) ops

theorem clear_binding_deleted (h : s.Deletes) {request : ℕ} (hr : r ∈ s.db.bindings.table.rows)
    (hgone : r ∉ (hosted_step token_hash s (.clear_binding request)).db.bindings.table.rows) :
    (request, r.project_id, r.provider_account_id) ∈ s.deletions := by
  simp only [hosted_step] at hgone
  split at hgone
  next project brand channel account hstage =>
    by_cases hcleared : r.key = (project, brand, "unipile", channel)
        ∧ r.provider_account_id = account
    · have hproject : r.project_id = project := congrArg Prod.fst hcleared.1
      rw [hproject, hcleared.2]
      exact h.at_stage hstage project brand channel account rfl
    · refine (hgone (List.mem_filter.mpr ⟨hr, ?_⟩)).elim
      rw [Bool.not_eq_true', decide_eq_false_iff_not]
      exact hcleared
  next => exact (hgone hr).elim

/-! ## Flows -/

/-- The id and the hash of a new flow were never those of a flow. -/
def HostedOp.fresh (token_hash : String → String) (s : Hosted) : HostedOp → Prop
  | .create_flow _ _ _ id token _ => ∀ e ∈ s.issued, e.1 ≠ id ∧ e.2 ≠ token_hash token
  | _ => True

/-- The flow that a request completes, with the token it came with. -/
def Stage.flow : Stage → Option (String × String)
  | .claimed token flow _ => some (flow.id, token)
  | .located token flow _ _ => some (flow.id, token)
  | _ => none

/-- The flow that a request completes is an issued one of its token. -/
def Issued (token_hash : String → String) (issued : List (String × String)) (_ : ℕ)
    (stage : Stage) : Prop :=
  ∀ flow token, stage.flow = some (flow, token) → (flow, token_hash token) ∈ issued

/-- Every flow is an issued one, no two of which share an id or a hash, and a flow that was
completed stays completed while it is there. -/
structure Hosted.Traced (token_hash : String → String) (s : Hosted) : Prop where
  rows : ∀ f ∈ s.db.flows.table.rows, (f.id, f.token_hash) ∈ s.issued
  ids : ∀ e ∈ s.issued, ∀ e' ∈ s.issued, e.1 = e'.1 → e = e'
  hashes : ∀ e ∈ s.issued, ∀ e' ∈ s.issued, e.2 = e'.2 → e = e'
  requests : s.Holds (Issued token_hash s.issued)
  completed : ∀ c ∈ s.completions, (c.flow, token_hash c.token) ∈ s.issued
    ∧ ∀ f ∈ s.db.flows.table.rows, f.id = c.flow → f.completed = true
  once : (s.completions.map Completion.flow).Nodup

theorem traced_init (token_hash : String → String) (db : Database) :
    (Hosted.init db).Traced token_hash where
  rows f hf := List.mem_map_of_mem hf
  ids e he e' he' heq := by
    obtain ⟨f, hf, rfl⟩ := List.mem_map.mp he
    obtain ⟨f', hf', rfl⟩ := List.mem_map.mp he'
    rw [List.inj_on_of_nodup_map db.flows.table.nodup hf hf' heq]
  hashes e he e' he' heq := by
    obtain ⟨f, hf, rfl⟩ := List.mem_map.mp he
    obtain ⟨f', hf', rfl⟩ := List.mem_map.mp he'
    rw [db.flows.unique f hf f' hf' heq]
  requests r hr := by cases hr
  completed c hc := by cases hc
  once := List.nodup_nil

theorem Hosted.Traced.of_rows (h : s.Traced token_hash) (hissued : s'.issued = s.issued)
    (hcompletions : s'.completions = s.completions)
    (hrequests : s'.Holds (Issued token_hash s.issued))
    (hrows : ∀ f ∈ s'.db.flows.table.rows, ∃ f₀ ∈ s.db.flows.table.rows, f₀.id = f.id
      ∧ f₀.token_hash = f.token_hash ∧ (f₀.completed = true → f.completed = true)) :
    s'.Traced token_hash where
  rows f hf := by
    obtain ⟨f₀, hf₀, hid, hhash, -⟩ := hrows f hf
    rw [hissued, ← hid, ← hhash]
    exact h.rows f₀ hf₀
  ids := hissued ▸ h.ids
  hashes := hissued ▸ h.hashes
  requests := hissued ▸ hrequests
  completed c hc := by
    rw [hcompletions] at hc
    rw [hissued]
    refine ⟨(h.completed c hc).1, fun f hf heq => ?_⟩
    obtain ⟨f₀, hf₀, hid, -, hcompleted⟩ := hrows f hf
    exact hcompleted ((h.completed c hc).2 f₀ hf₀ (hid.trans heq))
  once := hcompletions ▸ h.once

theorem Hosted.Traced.of_requests (h : s.Traced token_hash) (hflows : s'.db.flows = s.db.flows)
    (hissued : s'.issued = s.issued) (hcompletions : s'.completions = s.completions)
    (hrequests : s'.Holds (Issued token_hash s.issued)) : s'.Traced token_hash :=
  h.of_rows hissued hcompletions hrequests
    fun f hf => ⟨f, hflows ▸ hf, rfl, rfl, fun hcompleted => hcompleted⟩

theorem Hosted.Traced.claim {name : String} {flow : Flow} (h : s.Traced token_hash)
    (hok : s.db.claim token_hash now token name account = .ok (flow, db)) :
    ({ s with db } : Hosted).Traced token_hash ∧ (flow.id, token_hash token) ∈ s.issued := by
  obtain ⟨f, hfind, hhash, -, hid, rfl⟩ := claim_eq_ok hok
  obtain ⟨hf, hname⟩ := Table.find_eq_some.mp hfind
  refine ⟨h.of_rows rfl rfl h.requests fun f' hf' => ?_, ?_⟩
  · obtain ⟨f₀, hf₀, rfl⟩ := List.mem_map.mp hf'
    refine ⟨f₀, hf₀, ?_⟩
    split
    · exact ⟨rfl, rfl, fun hcompleted => hcompleted⟩
    · exact ⟨rfl, rfl, fun hcompleted => hcompleted⟩
  · rw [hid, ← hname, ← hhash]
    exact h.rows f hf

theorem Hosted.Traced.complete {chan : String} {flow : Flow} {limit : Option ℤ} {newly : Bool}
    (h : s.Traced token_hash) (hissued : (flow.id, token_hash token) ∈ s.issued)
    (hok : s.db.complete now flow account chan limit = .ok (newly, db)) (hdb : s'.db = db)
    (hissued' : s'.issued = s.issued) (hrequests : s'.Holds (Issued token_hash s.issued))
    (hcompletions : s'.completions
      = if (s.db.flows.table.find flow.id).any HostedFlow.completed then s.completions
        else s.completions ++ [⟨token, flow.id, account⟩]) : s'.Traced token_hash := by
  obtain ⟨f, hfind, -, ⟨hcompleted, rfl⟩ | ⟨hopen, hflows, -⟩⟩ := complete_eq_ok hok
  · rw [hfind, Option.any_some, if_pos hcompleted] at hcompletions
    exact h.of_requests (hdb ▸ rfl) hissued' hcompletions hrequests
  · rw [hfind, Option.any_some, hopen, if_neg Bool.false_ne_true] at hcompletions
    obtain ⟨hf, hid⟩ := Table.find_eq_some.mp hfind
    have hrows : ∀ f' ∈ s'.db.flows.table.rows, ∃ f₀ ∈ s.db.flows.table.rows, f₀.id = f'.id
        ∧ f₀.token_hash = f'.token_hash ∧ (f₀.completed = true → f'.completed = true)
        ∧ (f'.id = flow.id → f'.completed = true) := by
      intro f' hf'
      rw [hdb, hflows] at hf'
      obtain ⟨f₀, hf₀, rfl⟩ := List.mem_map.mp hf'
      refine ⟨f₀, hf₀, ?_⟩
      split
      next => exact ⟨rfl, rfl, fun _ => rfl, fun _ => rfl⟩
      next hne => exact ⟨rfl, rfl, fun hcompleted => hcompleted, fun heq => (hne heq).elim⟩
    refine ⟨fun f' hf' => ?_, hissued' ▸ h.ids, hissued' ▸ h.hashes, hissued' ▸ hrequests,
      fun c hc => ?_, ?_⟩
    · obtain ⟨f₀, hf₀, hid₀, hhash₀, -⟩ := hrows f' hf'
      rw [hissued', ← hid₀, ← hhash₀]
      exact h.rows f₀ hf₀
    · rw [hcompletions, List.mem_append, List.mem_singleton] at hc
      rw [hissued']
      rcases hc with hc | rfl
      · refine ⟨(h.completed c hc).1, fun f' hf' heq => ?_⟩
        obtain ⟨f₀, hf₀, hid₀, -, hkeeps, -⟩ := hrows f' hf'
        exact hkeeps ((h.completed c hc).2 f₀ hf₀ (hid₀.trans heq))
      · refine ⟨hissued, fun f' hf' heq => ?_⟩
        obtain ⟨f₀, -, -, -, -, hdone⟩ := hrows f' hf'
        exact hdone heq
    · rw [hcompletions, List.map_append]
      refine List.nodup_append.mpr ⟨h.once, List.nodup_singleton _, ?_⟩
      intro flow' hflow' id' hid' heq
      obtain rfl := List.mem_singleton.mp hid'
      obtain ⟨c, hc, hcflow⟩ := List.mem_map.mp hflow'
      have hcompleted := (h.completed c hc).2 f hf (hid.trans (heq.symm.trans hcflow.symm))
      rw [hopen] at hcompleted
      cases hcompleted

theorem Hosted.Traced.create_flow {expires : ℤ} {id brand : String} (h : s.Traced token_hash)
    (hfresh : ∀ e ∈ s.issued, e.1 ≠ id ∧ e.2 ≠ token_hash token)
    (hok : s.db.create_flow token_hash now locked id token project brand providers expires
      = .ok ((), db)) (hdb : s'.db = db)
    (hissued : s'.issued = s.issued ++ [(id, token_hash token)])
    (hcompletions : s'.completions = s.completions)
    (hrequests : s'.Holds (Issued token_hash s.issued)) : s'.Traced token_hash := by
  have hrows := (create_flow_eq_ok hok).2
  refine ⟨fun f hf => ?_, fun e he e' he' heq => ?_, fun e he e' he' heq => ?_,
    hrequests.mono fun _ stage hstage flow token hflow => ?_, fun c hc => ?_,
    hcompletions ▸ h.once⟩
  · rw [hissued, List.mem_append, List.mem_singleton]
    rw [hdb] at hf
    rcases hrows f hf with hf | ⟨hid, hhash⟩
    · exact .inl (h.rows f hf)
    · exact .inr (by rw [hid, hhash])
  · rw [hissued, List.mem_append, List.mem_singleton] at he he'
    rcases he with he | rfl <;> rcases he' with he' | rfl
    · exact h.ids e he e' he' heq
    · exact ((hfresh e he).1 heq).elim
    · exact ((hfresh e' he').1 heq.symm).elim
    · rfl
  · rw [hissued, List.mem_append, List.mem_singleton] at he he'
    rcases he with he | rfl <;> rcases he' with he' | rfl
    · exact h.hashes e he e' he' heq
    · exact ((hfresh e he).2 heq).elim
    · exact ((hfresh e' he').2 heq.symm).elim
    · rfl
  · rw [hissued]
    exact List.mem_append_left _ (hstage flow token hflow)
  · rw [hcompletions] at hc
    refine ⟨hissued ▸ List.mem_append_left _ (h.completed c hc).1, fun f hf heq => ?_⟩
    rw [hdb] at hf
    rcases hrows f hf with hf | ⟨hid, -⟩
    · exact (h.completed c hc).2 f hf heq
    · exact ((hfresh _ (h.completed c hc).1).1 (heq.symm.trans hid)).elim

/-- **Flows.** A step completes no flow a second time. -/
theorem step_traced (hop : op.fresh token_hash s) (h : s.Traced token_hash) :
    (hosted_step token_hash s op).Traced token_hash := by
  have hnone : ∀ {id : ℕ} {stage : Stage}, stage.flow = none →
      Issued token_hash s.issued id stage := by
    intro id stage hnone flow token hflow
    rw [hnone] at hflow
    cases hflow
  have hkept : ∀ {id : ℕ}, (s.end_request id).Traced token_hash :=
    h.of_requests rfl rfl rfl h.requests.end_request
  cases op with
  | hosted request project brand providers limit =>
    simp only [hosted_step]
    split
    · exact h
    · split
      · exact h
      · split
        · exact h
        · exact h.of_requests rfl rfl rfl (h.requests.begin_request (hnone rfl))
  | create_flow request now locked id token expires =>
    simp only [hosted_step]
    split
    · split
      · exact hkept
      next hok => exact h.create_flow hop hok rfl rfl rfl h.requests.end_request
    · exact h
  | notify request now token name account =>
    simp only [hosted_step]
    split
    · exact h
    next hok =>
      obtain ⟨htraced, hissued⟩ := h.claim hok
      split
      · exact htraced
      · refine htraced.of_requests rfl rfl rfl (htraced.requests.begin_request ?_)
        rintro flow' token' ⟨⟩
        exact hissued
  | accounts request provider =>
    simp only [hosted_step]
    split
    next hstage =>
      split
      · exact hkept
      · split
        · exact hkept
        · split
          · exact hkept
          · refine h.of_requests rfl rfl rfl (h.requests.go_on ?_)
            rintro flow' token' ⟨⟩
            exact h.requests.at_stage hstage _ _ rfl
    next => exact h
  | complete request now limit =>
    simp only [hosted_step]
    split
    next hstage =>
      split
      · exact hkept
      next hok =>
        exact h.complete (h.requests.at_stage hstage _ _ rfl) hok rfl rfl h.requests.end_request
          rfl
    next => exact h
  | disconnect request project brand channel =>
    simp only [hosted_step]
    split
    · exact h
    · split
      · exact h
      · exact h.of_requests rfl rfl rfl (h.requests.begin_request (hnone rfl))
  | delete request =>
    simp only [hosted_step]
    split
    · exact h.of_requests rfl rfl rfl (h.requests.go_on (hnone rfl))
    · exact h
  | clear_binding request =>
    simp only [hosted_step]
    split
    · exact h.of_requests rfl rfl rfl h.requests.end_request
    · exact h
  | needs_reconnect project brand channel account => exact h.of_requests rfl rfl rfl h.requests
  | abandon request => exact hkept

theorem run_traced
    (hops : Machine.Meets (hosted_step token_hash) (fun s op => op.fresh token_hash s)
      (Hosted.init db) ops) :
    (Machine.run (hosted_step token_hash) (Hosted.init db) ops).Traced token_hash :=
  hops.keeps (I := fun s => s.Traced token_hash) (fun _ _ hop h => step_traced hop h)
    (traced_init token_hash db)

theorem Hosted.Traced.completed_once (h : s.Traced token_hash) {c c' : Completion}
    (hc : c ∈ s.completions) (hc' : c' ∈ s.completions)
    (heq : c.flow = c'.flow ∨ c.token = c'.token) : c = c' := by
  have hflow : c.flow = c'.flow := by
    rcases heq with heq | heq
    · exact heq
    · exact congrArg Prod.fst (h.hashes _ (h.completed c hc).1 _ (h.completed c' hc').1
        (congrArg token_hash heq))
  exact List.inj_on_of_nodup_map h.once hc hc' hflow

/-! ## Exclusiveness -/

theorem bound_once (b : Bindings) {r' : Subaccount} (hr : r ∈ b.table.rows)
    (hr' : r' ∈ b.table.rows) (heq : r.account_key = r'.account_key ∨ r.key = r'.key) : r = r' := by
  rcases heq with heq | heq
  · exact b.unique r hr r' hr' heq
  · exact List.inj_on_of_nodup_map b.table.nodup hr hr' heq

/-- **Hosted binding.** Over any run: with ids and tokens that are new, a flow is completed
once and a token binds one account; an account is bound to one channel of one brand and such
a channel to one account, and stays there until a disconnect or another account takes its
place; with a constant limit the connected bindings do not pass the limit or their initial
number; and what `clear_binding` takes away its request has deleted at the provider. -/
theorem hosted_binding_exclusive (token_hash : String → String) (db : Database)
    (ops : List HostedOp) :
    let s := Machine.run (hosted_step token_hash) (Hosted.init db) ops
    (Machine.Meets (hosted_step token_hash) (fun s op => op.fresh token_hash s)
        (Hosted.init db) ops →
      (s.completions.map Completion.flow).Nodup ∧
      ∀ c ∈ s.completions, ∀ c' ∈ s.completions, c.token = c'.token → c = c')
    ∧ (∀ r ∈ s.db.bindings.table.rows, ∀ r' ∈ s.db.bindings.table.rows,
      r.account_key = r'.account_key ∨ r.key = r'.key → r = r')
    ∧ (∀ r ∈ s.db.bindings.table.rows, ∀ ops',
      Machine.Meets (hosted_step token_hash)
        (fun s op => ¬op.frees token_hash r.key r.provider_account_id s) s ops' →
      let s' := Machine.run (hosted_step token_hash) s ops'
      s'.binds r.key r.provider_account_id
      ∧ ∀ r' ∈ s'.db.bindings.table.rows, r'.account_key = r.account_key → r'.key = r.key)
    ∧ (∀ project limit, Machine.Meets (hosted_step token_hash)
        (fun s op => op.limited project limit s) (Hosted.init db) ops →
      s.db.bindings.used project ≤ max limit (db.bindings.used project))
    ∧ ∀ request, ∀ r ∈ s.db.bindings.table.rows,
      r ∉ (hosted_step token_hash s (.clear_binding request)).db.bindings.table.rows →
      (request, r.project_id, r.provider_account_id) ∈ s.deletions := by
  intro s
  refine ⟨fun hfresh => ?_, fun r hr r' hr' heq => bound_once _ hr hr' heq,
    fun r hr ops' hops' => ?_, fun project limit hlimited => ?_,
    fun request r hr hgone => clear_binding_deleted (run_deletes token_hash db ops) hr hgone⟩
  · have htraced := run_traced hfresh
    exact ⟨htraced.once, fun c hc c' hc' heq => htraced.completed_once hc hc' (.inr heq)⟩
  · intro s'
    have hbinds := run_binds hops' ⟨r, hr, rfl, rfl⟩
    refine ⟨hbinds, fun r' hr' heq => ?_⟩
    obtain ⟨r'', hr'', hkey, haccount⟩ := hbinds
    have hkey' : r''.account_key = r.account_key := by
      simp only [Subaccount.key, Prod.mk.injEq] at hkey
      rw [Subaccount.account_key, Subaccount.account_key, hkey.1, hkey.2.2.1, haccount]
    rw [bound_once _ hr' hr'' (.inl (heq.trans hkey'.symm)), hkey]
  · exact hlimited.keeps
      (I := fun s => s.db.bindings.used project ≤ max limit (db.bindings.used project))
      (fun _ _ hop h => step_used (le_max_left _ _) hop h) (le_max_right _ _)

/-! ## A run -/

namespace Sample

def hosted_start : Hosted := Hosted.init ⟨⟨Table.empty, fun r hr => by cases hr⟩,
  ⟨Table.empty, fun f hf => by cases hf⟩⟩

/-- An account is linked, while a second notification for its flow is under way. -/
def hosted_ops : List HostedOp :=
  [.hosted 1 "p" "b" ["LINKEDIN"] (some 2), .create_flow 1 0 [] "f" "t" 10,
    .notify 2 1 "t" "f" "a", .notify 3 1 "t" "f" "a", .accounts 2 (some "LINKEDIN"),
    .accounts 3 (some "LINKEDIN"), .complete 2 2 (some 2), .complete 3 2 (some 2)]

theorem hosted_ops_fresh : Machine.Meets (hosted_step id) (fun s op => op.fresh id s)
    hosted_start hosted_ops := by
  refine ⟨trivial, fun e he => ?_, trivial, trivial, trivial, trivial, trivial, trivial, trivial⟩
  have hnone : (hosted_step id hosted_start
      (.hosted 1 "p" "b" ["LINKEDIN"] (some 2))).issued = [] := by
    decide
  rw [hnone] at he
  cases he

/-- The two notifications complete the flow once. -/
theorem hosted_ops_exclusive :
    let s := Machine.run (hosted_step id) hosted_start hosted_ops
    s.completions = [⟨"t", "f", "a"⟩] ∧ s.db.bindings.used "p" = 1
      ∧ (s.completions.map Completion.flow).Nodup :=
  ⟨by decide, by decide,
    ((hosted_binding_exclusive id _ hosted_ops).1 hosted_ops_fresh).1⟩

end Sample

end Appcall.Provider
