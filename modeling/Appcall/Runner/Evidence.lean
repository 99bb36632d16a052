/-
Dispatch evidence: `runner_failure` of `crates/appcall-actions/src/adapters.rs`,
`evidence.rs`, and the loop over the attempts in `service.rs`.

A failed execution of an action releases its claim and refunds its charge when the
evidence says that nothing was dispatched. The evidence is read off a code, and codes
travel through three layers that share one namespace: what a handler throws, the
envelope of the runner, the classification of the client. `evidence_sound_iff` says
for which handlers the reading is sound: those that never throw, once they are called,
one of the fifteen codes the client takes for a rejection before dispatch.
-/
import Mathlib.Tactic.Tauto
import Appcall.Runner.Client

set_option autoImplicit false

namespace Appcall.Rpc

/-! ## The adapter -/

inductive ActionDispatchOutcome where
  | NotDispatched
  | ResponseReceived
  | Unknown
  deriving DecidableEq

/-- `RunnerFailure`, without the detail that is shown to a person. -/
structure RunnerFailure where
  code : String
  transient : Bool
  retry_after_ms : ℕ
  retry_after_seconds : Option ℕ
  outcome : ActionDispatchOutcome

def known_safe_runner_code (code : String) : Bool :=
  decide (code ∈ ["CONNECTOR_ACCOUNT_RESTRICTED", "CONNECTOR_ACTION_NOT_PERMITTED",
    "CONNECTOR_RATE_LIMITED", "CONNECTOR_UPSTREAM_ERROR", "CONNECTOR_UNAVAILABLE",
    "RUNNER_BUSY", "RUNNER_UNAVAILABLE", "ACTION_TIMEOUT", "INVALID_ACTION_INPUT",
    "NOTE_TOO_LONG", "MISSING_CREDENTIAL", "ACTION_RESPONSE_INVALID",
    "ACTION_RESPONSE_TOO_LARGE"])

/-- `collect_input_strings`, by the levels of nesting that are left: whether all of the
input was seen, and the strings in it. -/
def collect_input_strings : ℕ → Value → List String → Bool × List String
  | 0, _, secrets => (false, secrets)
  | levels + 1, value, secrets =>
    let all (values : List Value) : Bool × List String :=
      -- `.all` stops at the first value that answers false
      values.foldl (fun acc v =>
        if acc.1 then collect_input_strings levels v acc.2 else acc) (true, secrets)
    if secrets.length > 128 then (false, secrets)
    else
      match value with
      | .string s =>
        if s = "" then (true, secrets)
        else (decide (secrets.length + 1 ≤ 128), secrets ++ [s])
      | .object fields => all (fields.map Prod.snd)
      | .array values => all values
      | _ => (true, secrets)

/-- `From<DispatchOutcome>`, as `runner_failure` spells it. -/
def DispatchOutcome.to_action : DispatchOutcome → ActionDispatchOutcome
  | .NotDispatched => .NotDispatched
  | .ResponseReceived => .ResponseReceived
  | .Unknown => .Unknown

/-- The code an error without one is reported under. -/
def ErrorKind.action_code : ErrorKind → String
  | .Timeout => "ACTION_TIMEOUT"
  | .ResponseTooLarge => "ACTION_RESPONSE_TOO_LARGE"
  | .Transport => "CONNECTOR_UNAVAILABLE"
  | _ => "ACTION_FAILED"

def runner_failure (e : ClientError) (input : Value) : RunnerFailure :=
  let (bounded, secrets) := collect_input_strings 33 input []
  let code := e.code.getD e.kind.action_code
  let code :=
    match code with
    | "OUTPUT_TOO_LARGE" | "OUTBOUND_RESPONSE_TOO_LARGE" => "ACTION_RESPONSE_TOO_LARGE"
    | "CONNECTOR_RESPONSE_INVALID" => "ACTION_RESPONSE_INVALID"
    | code => code
  let withheld :=
    (!bounded && !known_safe_runner_code code)
      || secrets.any (fun value => decide (value.toList <:+: code.toList))
      || decide (code = "") || decide (code.utf8ByteSize > 96)
      || !code.toList.all (fun c => c.isUpper || c.isDigit || c == '_')
  let code := if withheld then "ACTION_FAILED" else code
  { code
    transient := decide (code ∈ ["CONNECTOR_RATE_LIMITED", "CONNECTOR_UNAVAILABLE",
      "RUNNER_BUSY", "RUNNER_UNAVAILABLE"])
    retry_after_ms := min (e.retry_after_seconds.getD 0 * 1000) u64_max
    retry_after_seconds := e.retry_after_seconds
    outcome := e.outcome.to_action }

/-- `combine` of `evidence.rs`. -/
def combine : ActionDispatchOutcome → ActionDispatchOutcome → ActionDispatchOutcome
  | .Unknown, _ => .Unknown
  | _, .Unknown => .Unknown
  | .ResponseReceived, _ => .ResponseReceived
  | _, .ResponseReceived => .ResponseReceived
  | .NotDispatched, .NotDispatched => .NotDispatched

/-! ## The attempts of a dispatch -/

/-- The part of an `Attempt` the runner is given. -/
structure Attempt where
  request_id : String
  connector : String
  action : String

/-- `ActionRunner::execute` of the client. -/
def RunnerClient.execute (client : RunnerClient) (reg : Registry) (a : Attempt) (input : Value)
    (deadline : ℕ) (w : World) : Except RunnerFailure Value × Bool :=
  let (result, called) := client.action_execute reg
    { request_id := a.request_id, deadline_unix_ms := some deadline }
    { connector_key := a.connector, action := a.action, input } w
  match result with
  | .ok output => (.ok output, called)
  | .error e => (.error (runner_failure e input), called)

/-- One attempt: what the world does to the call, and whether the deadline of the
action cancels the dispatch while the call is in flight or in the pause after it. -/
structure Turn where
  world : World
  cancelled_in_flight : Bool
  cancelled_in_pause : Bool

/-- How the loop over the attempts ends: `none` is a cancelled dispatch. -/
structure Dispatched where
  result : Option (Except RunnerFailure Value)
  outcome : ActionDispatchOutcome
  called : Bool

/-- The loop of `dispatch`, with `more` attempts after this one. `prior` is the evidence
so far, as `begin_attempt` returns it. -/
def RunnerClient.attempts (client : RunnerClient) (reg : Registry) (a : Attempt) (input : Value)
    (deadline : ℕ) (turns : ℕ → Turn) :
    ℕ → ℕ → ActionDispatchOutcome → Bool → Dispatched
  | more, index, prior, called_before =>
    let turn := turns index
    let (outcome, called_now) := client.execute reg a input deadline turn.world
    let called := called_before || called_now
    -- an attempt in flight is `Unknown` until `finish_attempt`
    if turn.cancelled_in_flight then { result := none, outcome := .Unknown, called }
    else
      match outcome with
      | .ok output =>
        { result := some (.ok output), outcome := combine prior .ResponseReceived, called }
      | .error failure =>
        let evidence := combine prior failure.outcome
        match more with
        | 0 => { result := some (.error failure), outcome := evidence, called }
        | more + 1 =>
          if !failure.transient then
            { result := some (.error failure), outcome := evidence, called }
          else if turn.cancelled_in_pause then { result := none, outcome := evidence, called }
          else client.attempts reg a input deadline turns more (index + 1) evidence called

/-- The dispatch of an action whose claim is dispatched: three attempts of a read, one
of a mutation. -/
def RunnerClient.dispatch (client : RunnerClient) (reg : Registry) (a : Attempt) (input : Value)
    (deadline : ℕ) (read_only : Bool) (turns : ℕ → Turn) : Dispatched :=
  client.attempts reg a input deadline turns (if read_only then 2 else 0) 0 .NotDispatched false

/-- Whether the claim is cleared and its charges are refunded as never dispatched: by
`finish_not_dispatched_with_reservation` after a failure, by `finish_read_timeout` when
the deadline cancels a read. -/
def Dispatched.releases (d : Dispatched) (read_only : Bool) : Bool :=
  match d.result with
  | some (.ok _) => false
  | some (.error _) => decide (d.outcome = .NotDispatched)
  | none => read_only && decide (d.outcome = .NotDispatched)

/-! ## Soundness -/

/-- The evidence about one action on one input is sound: whatever the client, the ids,
the deadlines and the worlds, nothing that is reported as not dispatched has called the
handler, on any attempt, and a failure of a called handler is reported as `Unknown` or
`ResponseReceived`. -/
structure EvidenceSound (reg : Registry) (connector action : String) (input : Value) :
    Prop where
  call : ∀ (client : RunnerClient) (context : RequestContext) (w : World) (e : ClientError)
    (called : Bool), client.action_execute reg context ⟨connector, action, input⟩ w
      = (.error e, called) → e.outcome = .NotDispatched → called = false
  call_failed : ∀ (client : RunnerClient) (context : RequestContext) (w : World)
    (e : ClientError), client.action_execute reg context ⟨connector, action, input⟩ w
      = (.error e, true) → e.outcome = .Unknown ∨ e.outcome = .ResponseReceived
  adapter : ∀ (client : RunnerClient) (id : String) (deadline : ℕ) (w : World)
    (f : RunnerFailure) (called : Bool),
    client.execute reg ⟨id, connector, action⟩ input deadline w = (.error f, called) →
      f.outcome = .NotDispatched → called = false
  combined : ∀ (client : RunnerClient) (id : String) (deadline : ℕ) (read_only : Bool)
    (turns : ℕ → Turn),
    (client.dispatch reg ⟨id, connector, action⟩ input deadline read_only turns).outcome
      = .NotDispatched →
    (client.dispatch reg ⟨id, connector, action⟩ input deadline read_only turns).called = false
  combined_failed : ∀ (client : RunnerClient) (id : String) (deadline : ℕ) (read_only : Bool)
    (turns : ℕ → Turn),
    (client.dispatch reg ⟨id, connector, action⟩ input deadline read_only turns).called = true →
    (client.dispatch reg ⟨id, connector, action⟩ input deadline read_only turns).outcome
        = .Unknown ∨
      (client.dispatch reg ⟨id, connector, action⟩ input deadline read_only turns).outcome
        = .ResponseReceived
  released : ∀ (client : RunnerClient) (id : String) (deadline : ℕ) (read_only : Bool)
    (turns : ℕ → Turn),
    (client.dispatch reg ⟨id, connector, action⟩ input deadline read_only turns).releases
      read_only = true →
    (client.dispatch reg ⟨id, connector, action⟩ input deadline read_only turns).called = false

/-- The request passes every check that stands before the handler. -/
def Registry.Accepts (reg : Registry) (connector action : String) (input : Value)
    (handler : Handler) (spec : OperationSpec) : Prop :=
  connector ≠ "" ∧ reg.described connector = true ∧ action ≠ "" ∧
    reg.checked connector action input = .ok (handler, spec)

/-- A handler throws a structured error with this code. -/
def Running.Throws (r : Running) (code : String) : Prop :=
  ∃ e, r.settled = some (.threw e) ∧ e.code = some code

/-- A code is raised once the action runs: by its handler, or, when that returned an
output within its bound, by the handler that observes its effect. -/
inductive Registry.Raises (reg : Registry) (connector action : String) (input : Value)
    (code : String) : Prop where
  | handler (handler : Handler) (spec : OperationSpec)
      (accepts : reg.Accepts connector action input handler spec)
      (throws : (handler input).Throws code)
  | observer (handler : Handler) (spec : OperationSpec)
      (accepts : reg.Accepts connector action input handler spec)
      (acts : action ≠ "healthcheck") (o : Output)
      (returned : (handler input).settled = some (.returned o))
      (fits : reg.output_too_large o spec.max_response_bytes = false)
      (name : String) (idempotent : Bool) (observes : spec.observes = some (name, idempotent))
      (observer : Handler) (found : reg.observe_handler connector name = some observer)
      (observed : Value)
      (projects : reg.observe_input connector input spec name idempotent o = .ok observed)
      (throws : (observer observed).Throws code)

/-! ## What a called handler makes of a response -/

/-- The codes the runner itself reports after the handler was called. -/
def post_dispatch_codes : List String :=
  ["OPERATION_TIMEOUT", "OUTPUT_TOO_LARGE", "CONNECTOR_UPSTREAM_ERROR", "RECONCILE_NOT_DECLARED",
    "RECONCILE_HANDLER_MISSING", "IDEMPOTENT_ID_MISSING", "INVALID_ACTION_INPUT"]

variable {r : Running} {f : Output → Settled} {e : Thrown} {o : Output} {reg : Registry}
  {code connector : String} {input : Value} {spec : OperationSpec} {name : String}
  {idempotent : Bool} {action : String} {handler observer : Handler} {d : Deadline}
  {envelope : RequestEnvelope} {response : Response} {client : RunnerClient} {w : World}
  {a : Attempt} {deadline : ℕ}

theorem Running.bind_threw : (r.bind f).settled = some (.threw e) ↔
      r.settled = some (.threw e) ∨
        ∃ o, r.settled = some (.returned o) ∧ f o = .threw e := by
  rcases r with (_ | _) | (_ | (_ | _)) <;> simp [Running.bind, Running.settled]

theorem Running.bind_returned : (r.bind f).settled = some (.returned o) ↔
      ∃ o', r.settled = some (.returned o') ∧ f o' = .returned o := by
  rcases r with (_ | _) | (_ | (_ | _)) <;> simp [Running.bind, Running.settled]

theorem Running.chain_threw {f : Output → Running} : (r.chain f).settled = some (.threw e) ↔
      r.settled = some (.threw e) ∨
        ∃ o, r.settled = some (.returned o) ∧ (f o).settled = some (.threw e) := by
  rcases r with (_ | _) | (_ | (_ | _)) <;> simp [Running.chain, Running.settled]

theorem Registry.bounded_output_threw {max : Option ℕ} :
    (reg.bounded_output r max).settled = some (.threw e) ↔
      r.settled = some (.threw e) ∨
        (∃ o, r.settled = some (.returned o) ∧ reg.output_too_large o max = true) ∧
          e = failure "OUTPUT_TOO_LARGE" := by
  rw [bounded_output, Running.bind_threw]
  refine or_congr_right ⟨?_, ?_⟩
  · rintro ⟨o, ho, hf⟩
    by_cases hlarge : reg.output_too_large o max = true
    · rw [if_pos hlarge] at hf
      cases hf
      exact ⟨⟨o, ho, hlarge⟩, rfl⟩
    · rw [if_neg hlarge] at hf
      cases hf
  · rintro ⟨⟨o, ho, hlarge⟩, rfl⟩
    exact ⟨o, ho, if_pos hlarge⟩

theorem Registry.bounded_output_returned {max : Option ℕ} :
    (reg.bounded_output r max).settled = some (.returned o) ↔
      r.settled = some (.returned o) ∧ reg.output_too_large o max = false := by
  rw [bounded_output, Running.bind_returned]
  constructor
  · rintro ⟨o', ho, hf⟩
    by_cases hlarge : reg.output_too_large o' max = true
    · rw [if_pos hlarge] at hf
      cases hf
    · rw [if_neg hlarge] at hf
      cases hf
      exact ⟨ho, by simpa using hlarge⟩
  · rintro ⟨ho, hfits⟩
    exact ⟨o, ho, by rw [hfits]; rfl⟩

@[simp] theorem failure_code (h : code ≠ "") : (failure code).code = some code := by
  simp [failure, Thrown.code, h]

theorem enforce_healthcheck_evidence_threw
    (h : (reg.enforce_healthcheck_evidence connector input r).settled = some (.threw e)) :
    r.settled = some (.threw e) ∨ e = failure "CONNECTOR_UPSTREAM_ERROR" := by
  rw [Registry.enforce_healthcheck_evidence] at h
  split at h
  · exact .inl h
  · rcases Running.bind_threw.mp h with h | ⟨o, -, hf⟩
    · exact .inl h
    · split at hf
      · cases hf
        exact .inr rfl
      · cases hf

theorem enforce_healthcheck_evidence_keeps (h : r.settled = some (.threw e)) :
    (reg.enforce_healthcheck_evidence connector input r).settled = some (.threw e) := by
  rw [Registry.enforce_healthcheck_evidence]
  split
  · exact h
  · exact Running.bind_threw.mpr (.inl h)

theorem normalize_healthcheck_output_threw {properties : List String} :
    (normalize_healthcheck_output properties r).settled = some (.threw e) ↔
      r.settled = some (.threw e) := by
  rw [normalize_healthcheck_output, Running.bind_threw]
  constructor
  · rintro (h | ⟨o, -, hf⟩)
    · exact h
    · split at hf <;> cases hf
  · exact .inl

theorem project_idempotent_id_error (h : project_idempotent_id o = .error e) :
    e = failure "IDEMPOTENT_ID_MISSING" := by
  rw [project_idempotent_id] at h
  split at h
  · cases h
    rfl
  · split at h
    · cases h
    · split at h
      · cases h
      · cases h
        rfl

theorem observe_input_error
    (h : reg.observe_input connector input spec name idempotent o = .error e) :
    e = failure "IDEMPOTENT_ID_MISSING" := by
  rw [Registry.observe_input] at h
  split at h
  · split at h
    next herror =>
      cases h
      exact project_idempotent_id_error herror
    next => cases h
  · cases h

theorem Registry.checked_ok (h : reg.checked connector action input = .ok (handler, spec)) :
    reg.operation_specs connector action = some spec ∧
      supports_operation_budget spec = true ∧
      reg.precheck_reconcile connector input spec = none := by
  rw [checked] at h
  split at h
  · cases h
  split at h
  · cases h
  next spec' hspec =>
  split at h
  · cases h
  split at h
  · cases h
  split at h
  · cases h
  split at h
  · cases h
  next hbudget =>
  split at h
  · cases h
  split at h
  · cases h
  split at h
  · cases h
  split at h
  · cases h
  next hcheck =>
  cases h
  exact ⟨hspec, by simpa using hbudget, hcheck⟩

theorem Registry.precheck_observer (h : reg.precheck_reconcile connector input spec = none)
    (hobserves : spec.observes = some (name, idempotent)) :
    ∃ observer, reg.observe_handler connector name = some observer := by
  cases hfound : reg.observe_handler connector name with
  | none => simp [precheck_reconcile, hobserves, hfound] at h
  | some observer => exact ⟨observer, rfl⟩

theorem Registry.reconcile_declared (hspec : reg.operation_specs connector action = some spec)
    (hobserves : spec.observes = none) : spec.effect_policy ≠ some "Reconcile" := by
  have hload := reg.loadable connector action spec hspec
  rw [OperationSpec.loadable, hobserves] at hload
  exact of_decide_eq_true hload

theorem Registry.apply_reconcile_plain (hspec : reg.operation_specs connector action = some spec)
    (hobserves : spec.observes = none) (input : Value) (primary : Running) :
    reg.apply_reconcile connector input primary spec = primary := by
  unfold apply_reconcile
  simp only [hobserves, if_neg (reconcile_declared hspec hobserves)]

theorem Registry.apply_reconcile_observes (hobserves : spec.observes = some (name, idempotent))
    (hfound : reg.observe_handler connector name = some observer) (input : Value)
    (primary : Running) : reg.apply_reconcile connector input primary spec
      = primary.chain (reg.run_observe connector input spec name idempotent observer) := by
  unfold apply_reconcile
  simp only [hobserves, hfound]

theorem Registry.run_observe_threw (hcode : e.code = some code)
    (h : (reg.run_observe connector input spec name idempotent observer o).settled
      = some (.threw e)) :
    (∃ observed, reg.observe_input connector input spec name idempotent o = .ok observed ∧
      (observer observed).Throws code) ∨ code ∈ post_dispatch_codes := by
  rw [run_observe] at h
  cases hinput : reg.observe_input connector input spec name idempotent o with
  | error e' =>
    rw [hinput] at h
    cases h
    rw [observe_input_error hinput, failure_code (by decide)] at hcode
    cases hcode
    exact .inr (by decide)
  | ok observed =>
    rw [hinput] at h
    rcases bounded_output_threw.mp h with h | ⟨-, rfl⟩
    · exact .inl ⟨observed, rfl, e, h, hcode⟩
    · rw [failure_code (by decide)] at hcode
      cases hcode
      exact .inr (by decide)

theorem Registry.body_threw (haccepts : reg.Accepts connector action input handler spec)
    (hcode : e.code = some code)
    (h : (reg.body connector action input handler spec).settled = some (.threw e)) :
    reg.Raises connector action input code ∨ code ∈ post_dispatch_codes := by
  obtain ⟨hspec, -, hcheck⟩ := checked_ok haccepts.2.2.2
  have own : ∀ name ∈ post_dispatch_codes, name ≠ "" → e = failure name →
      reg.Raises connector action input code ∨ code ∈ post_dispatch_codes := by
    rintro name hmem hname rfl
    rw [failure_code hname] at hcode
    cases hcode
    exact .inr hmem
  have primary : (reg.bounded_output (handler input) spec.max_response_bytes).settled
      = some (.threw e) →
      reg.Raises connector action input code ∨ code ∈ post_dispatch_codes := by
    intro h
    rcases bounded_output_threw.mp h with h | ⟨-, he⟩
    · exact .inl (.handler handler spec haccepts ⟨e, h, hcode⟩)
    · exact own _ (by decide) (by decide) he
  simp only [body] at h
  by_cases hhealth : action = "healthcheck"
  · rw [if_pos hhealth, normalize_healthcheck_output_threw] at h
    rcases enforce_healthcheck_evidence_threw h with h | he
    · exact primary h
    · exact own _ (by decide) (by decide) he
  rw [if_neg hhealth] at h
  cases hobserves : spec.observes with
  | none =>
    rw [apply_reconcile_plain hspec hobserves] at h
    exact primary h
  | some pair =>
    obtain ⟨name, idempotent⟩ := pair
    obtain ⟨observer, hfound⟩ := precheck_observer hcheck hobserves
    rw [apply_reconcile_observes hobserves hfound] at h
    rcases Running.chain_threw.mp h with h | ⟨o, ho, h⟩
    · exact primary h
    · obtain ⟨hreturned, hfits⟩ := bounded_output_returned.mp ho
      rcases run_observe_threw hcode h with ⟨observed, hprojects, hthrows⟩ | hown
      · exact .inl (.observer handler spec haccepts hhealth o hreturned hfits name idempotent
          hobserves observer hfound observed hprojects hthrows)
      · exact .inr hown

theorem Registry.Raises.body (h : reg.Raises connector action input code) :
    ∃ handler spec, reg.Accepts connector action input handler spec ∧
      (reg.body connector action input handler spec).Throws code := by
  cases h with
  | handler handler spec haccepts hthrows =>
    obtain ⟨e, hthrew, hcode⟩ := hthrows
    obtain ⟨hspec, -, hcheck⟩ := checked_ok haccepts.2.2.2
    refine ⟨handler, spec, haccepts, e, ?_, hcode⟩
    have primary : (reg.bounded_output (handler input) spec.max_response_bytes).settled
        = some (.threw e) := bounded_output_threw.mpr (.inl hthrew)
    simp only [Registry.body]
    by_cases hhealth : action = "healthcheck"
    · rw [if_pos hhealth, normalize_healthcheck_output_threw]
      exact enforce_healthcheck_evidence_keeps primary
    rw [if_neg hhealth]
    cases hobserves : spec.observes with
    | none =>
      rw [apply_reconcile_plain hspec hobserves]
      exact primary
    | some pair =>
      obtain ⟨observer, hfound⟩ := precheck_observer hcheck hobserves
      rw [apply_reconcile_observes hobserves hfound]
      exact Running.chain_threw.mpr (.inl primary)
  | observer handler spec haccepts hhealth o hreturned hfits name idempotent hobserves observer
      hfound observed hprojects hthrows =>
    obtain ⟨e, hthrew, hcode⟩ := hthrows
    refine ⟨handler, spec, haccepts, e, ?_, hcode⟩
    simp only [Registry.body, if_neg hhealth, apply_reconcile_observes hobserves hfound]
    refine Running.chain_threw.mpr (.inr ⟨o, bounded_output_returned.mpr ⟨hreturned, hfits⟩, ?_⟩)
    simp only [run_observe, hprojects]
    exact bounded_output_threw.mpr (.inl hthrew)

theorem run_execution_called {timeout_ms : Option ℕ} {fn : Unit → Running}
    (h : run_execution timeout_ms d fn = (r, true)) : (∃ s, fn () = .now s ∧ r = .now s) ∨
      ∃ s, r = .promise (some s) ∧
        (s = .threw timeout_error ∨ (fn ()).settled = some s) := by
  unfold run_execution at h
  split at h
  · cases h
  split at h
  · cases h
  split at h
  · cases h
  split at h
  next s hfn =>
    cases h
    exact .inl ⟨s, hfn, rfl⟩
  next hfn =>
    cases h
    exact .inr ⟨_, rfl, .inl rfl⟩
  next s hfn =>
    cases h
    refine .inr ⟨_, rfl, ?_⟩
    by_cases haborts : d.aborts = true
    · exact .inl (by rw [if_pos haborts])
    · rw [if_neg haborts, hfn]
      exact .inr rfl

/-- A code that a response may carry after the handler was called. -/
def Registry.Reports (reg : Registry) (connector action : String) (input : Value)
    (response : Response) : Prop :=
  ∀ code retry, response.payload = .error code retry →
    (reg.Raises connector action input code ∨ code ∈ post_dispatch_codes) ∧
      (code = "RUNNER_BUSY" → response.status ≠ 503)

theorem reports_error {status : ℕ}
    (hcode : reg.Raises connector action input code ∨ code ∈ post_dispatch_codes)
    (hbusy : code = "RUNNER_BUSY" → status ≠ 503) (fits : Bool) (id : Option String)
    (retry : Option ℕ) :
    reg.Reports connector action input (json_response fits status id (.error code retry)) := by
  intro code' retry' h
  -- a response that does not fit is replaced by one of the runner's own
  cases fits <;> cases h
  · exact ⟨.inr (by decide), fun h => absurd h (by decide)⟩
  · exact ⟨hcode, hbusy⟩

theorem reports_own (hown : code ∈ post_dispatch_codes) (fits : Bool) (status : ℕ)
    (id : Option String) (retry : Option ℕ) :
    reg.Reports connector action input (json_response fits status id (.error code retry)) := by
  refine reports_error (.inr hown) ?_ fits id retry
  rintro rfl
  exact absurd hown (by decide)

theorem reports_thrown (haccepts : reg.Accepts connector action input handler spec)
    (h : (reg.body connector action input handler spec).settled = some (.threw e)) (fits : Bool)
    (id : Option String) : reg.Reports connector action input
      (json_response fits (error_response_for_execution_failure e "INVALID_ACTION_INPUT").1 id
        (error_response_for_execution_failure e "INVALID_ACTION_INPUT").2) := by
  rw [error_response_for_execution_failure]
  cases hcode : e.code with
  | none => exact reports_own (by decide) _ _ _ _
  | some code =>
    refine reports_error (Registry.body_threw haccepts hcode h) ?_ fits id _
    rintro rfl
    show status_for_execution_error_code "RUNNER_BUSY" ≠ 503
    decide

theorem reports_result (fits : Bool) (status : ℕ) (id : Option String) (output : Value) :
    reg.Reports connector action input (json_response fits status id (.result output)) := by
  intro code retry h
  cases fits <;> cases h
  exact ⟨.inr (by decide), fun h => absurd h (by decide)⟩

theorem Registry.execute_action_called {result : ActionResult}
    (h : reg.execute_action connector action input d = (result, true)) :
    ∃ handler spec, reg.checked connector action input = .ok (handler, spec) ∧
      match result with
      | .thrown e => (reg.body connector action input handler spec).settled = some (.threw e)
      | .failed code _ =>
        (reg.body connector action input handler spec).Throws code ∨
          code = "CONNECTOR_UPSTREAM_ERROR"
      | .ok output => ∃ s, output.settled = some s ∧ (s = .threw timeout_error ∨
          (reg.body connector action input handler spec).settled = some s) := by
  rw [execute_action] at h
  cases hchecked : reg.checked connector action input with
  | error code =>
    rw [hchecked] at h
    cases h
  | ok pair =>
    obtain ⟨handler, spec⟩ := pair
    rw [hchecked] at h
    refine ⟨handler, spec, rfl, ?_⟩
    simp only at h
    split at h
    next error called hrun =>
      -- only a body that ends at once throws out of `runExecution`
      have hbody : called = true →
          reg.body connector action input handler spec = .now (.threw error) := by
        rintro rfl
        rcases run_execution_called hrun with ⟨s, hfn, hr⟩ | ⟨s, hr, -⟩
        · cases hr
          exact hfn
        · cases hr
      split at h
      · split at h
        next code hcode =>
          cases h
          exact .inl ⟨error, by rw [hbody rfl]; rfl, hcode⟩
        next =>
          cases h
          exact .inr rfl
      · cases h
        exact by rw [hbody rfl]; rfl
    next output called hnow hrun =>
      cases h
      rcases run_execution_called hrun with ⟨s, hfn, rfl⟩ | ⟨s, rfl, hs⟩
      · exact ⟨s, rfl, .inr (by rw [hfn]; rfl)⟩
      · exact ⟨s, rfl, hs⟩

theorem Registry.handle_called {fits : Bool}
    (h : reg.handle_connector_action_execute envelope d fits = (response, true)) :
    reg.Reports envelope.connector_key envelope.action envelope.input response := by
  rw [handle_connector_action_execute] at h
  simp only at h
  split at h
  · cases h
  next hconnector =>
  split at h
  · cases h
  next haction =>
  have hdescribed : envelope.connector_key ≠ "" ∧
      reg.described envelope.connector_key = true := by
    simpa using hconnector
  have hcalled : (reg.execute_action envelope.connector_key envelope.action envelope.input d).2
      = true := congrArg Prod.snd h
  obtain ⟨result, hexecute⟩ : ∃ result, reg.execute_action envelope.connector_key
      envelope.action envelope.input d = (result, true) := ⟨_, Prod.ext rfl hcalled⟩
  rw [hexecute] at h
  cases h
  obtain ⟨handler, spec, hchecked, hresult⟩ := execute_action_called hexecute
  have haccepts : reg.Accepts envelope.connector_key envelope.action envelope.input handler spec :=
    ⟨hdescribed.1, hdescribed.2, haction, hchecked⟩
  cases result with
  | thrown error => exact reports_thrown haccepts hresult _ _
  | failed code retry =>
    rcases hresult with ⟨e, hthrew, hcode⟩ | rfl
    · refine reports_error (body_threw haccepts hcode hthrew) ?_ _ _ _
      rintro rfl
      decide
    · exact reports_own (by decide) _ _ _ _
  | ok output =>
    obtain ⟨s, hsettled, hs⟩ := hresult
    simp only [action_response, hsettled]
    cases s with
    | threw e =>
      rcases hs with hs | hs
      · cases hs
        exact reports_own (by decide) _ _ _ _
      · exact reports_thrown haccepts hs _ _
    | returned o =>
      simp only
      generalize (if (split_operation_metadata o).is_record = true then
        split_operation_metadata o else Value.object []) = value
      split
      · exact reports_own (by decide) _ _ _ _
      · split
        · exact reports_own (by decide) _ _ _ _
        · exact reports_result _ _ _ _

theorem Registry.fetch_called {admission : Admission} {p : Passage}
    (h : reg.fetch admission envelope p = (response, true)) :
    reg.Reports envelope.connector_key envelope.action envelope.input response := by
  cases admission with
  | unauthorized => cases h
  | busy => cases h
  | admitted =>
    simp only [fetch, handle_rpc] at h
    split at h
    · cases h
    · cases h
    · cases h
    split at h
    · cases h
    split at h
    · obtain ⟨rfl, -⟩ := Prod.mk.inj h
      exact reports_own (by decide) _ _ _ _
    · apply handle_called
      exact h

/-! ## The reading of the client -/

/-- No handler raises a code the client reads as a rejection before dispatch. -/
def Registry.Quiet (reg : Registry) (connector action : String) (input : Value) : Prop :=
  ∀ code, reg.Raises connector action input code → code ∉ pre_dispatch_codes

theorem runner_error_outcome_not_dispatched {status : ℕ}
    (h : runner_error_outcome status code = .NotDispatched) :
    (status = 503 ∧ code = "RUNNER_BUSY") ∨ code ∈ pre_dispatch_codes := by
  rw [runner_error_outcome] at h
  split_ifs at h with hbusy hrejected hpre
  · exact .inl hbusy
  · exact .inr hpre

theorem post_dispatch_codes_disjoint :
    ∀ code ∈ post_dispatch_codes, code ∉ pre_dispatch_codes := by
  decide

theorem rejection_codes_disjoint :
    ∀ code ∈ rejection_codes, code ∉ pre_dispatch_codes := by
  decide

theorem decode_called {id : String} {e : ClientError} (hquiet : reg.Quiet connector action input)
    (hreports : reg.Reports connector action input response)
    (h : client.decode id input response = .error e) : e.outcome ≠ .NotDispatched := by
  rw [RunnerClient.decode] at h
  split at h
  · cases h
    decide
  split at h
  next output hpayload =>
    split_ifs at h
    cases h
    decide
  next code retry hpayload =>
    obtain ⟨hcode, hbusy⟩ := hreports code retry hpayload
    split_ifs at h with hempty hmalformed
    · cases h
      decide
    · cases h
      decide
    · cases h
      intro hout
      rcases runner_error_outcome_not_dispatched hout with ⟨hstatus, hname⟩ | hpre
      · exact hbusy hname hstatus
      · rcases hcode with hraised | hown
        · exact hquiet code hraised hpre
        · exact post_dispatch_codes_disjoint code hown hpre

theorem action_execute_called {context : RequestContext} {e : ClientError}
    (hquiet : reg.Quiet connector action input)
    (h : client.action_execute reg context ⟨connector, action, input⟩ w = (.error e, true)) :
    e.outcome ≠ .NotDispatched := by
  rw [RunnerClient.action_execute] at h
  -- every rejection before the exchange comes without a call
  split at h
  · cases h
  split at h
  · cases h
  simp only at h
  split at h
  · cases h
  split at h
  · cases h
  split at h
  · cases h
  split at h
  · cases h
  split at h
  · cases h
  rcases hexchange : client.exchange reg context.request_id ⟨connector, action, input⟩ w with
    ⟨result, called⟩
  rw [hexchange] at h
  simp only at h
  split at h
  · cases h
    decide
  cases h
  rw [RunnerClient.exchange] at hexchange
  rcases hfetch : reg.fetch w.admission
    (ActionExecuteRequest.envelope ⟨connector, action, input⟩ context.request_id) w.passage with
    ⟨response, reached⟩
  rw [hfetch] at hexchange
  simp only at hexchange
  split at hexchange
  · obtain ⟨hdecode, rfl⟩ := Prod.mk.inj hexchange
    exact decode_called hquiet (Registry.fetch_called hfetch) hdecode
  · obtain ⟨herror, -⟩ := Prod.mk.inj hexchange
    cases herror
    simp [ClientError.new]

theorem to_action_not_dispatched {o : DispatchOutcome} :
    o.to_action = .NotDispatched ↔ o = .NotDispatched := by
  cases o <;> decide

theorem combine_not_dispatched {a b : ActionDispatchOutcome} :
    combine a b = .NotDispatched ↔ a = .NotDispatched ∧ b = .NotDispatched := by
  cases a <;> cases b <;> decide

theorem execute_called {f : RunnerFailure} {called : Bool}
    (hquiet : reg.Quiet a.connector a.action input)
    (h : client.execute reg a input deadline w = (.error f, called))
    (hout : f.outcome = .NotDispatched) : called = false := by
  rw [RunnerClient.execute] at h
  rcases hexecute : client.action_execute reg
    { request_id := a.request_id, deadline_unix_ms := some deadline }
    ⟨a.connector, a.action, input⟩ w with ⟨result, now⟩
  rw [hexecute] at h
  cases result with
  | ok output => cases h
  | error e =>
    cases h
    cases hcalled : called with
    | false => rfl
    | true =>
      rw [hcalled] at hexecute
      exact absurd (to_action_not_dispatched.mp hout) (action_execute_called hquiet hexecute)

theorem execute_combined {f : RunnerFailure} {now called : Bool} {prior : ActionDispatchOutcome}
    (hquiet : reg.Quiet a.connector a.action input)
    (h : client.execute reg a input deadline w = (.error f, now))
    (hprior : prior = .NotDispatched → called = false)
    (hout : combine prior f.outcome = .NotDispatched) : (called || now) = false := by
  obtain ⟨hp, hf⟩ := combine_not_dispatched.mp hout
  rw [hprior hp, execute_called hquiet h hf]
  rfl

theorem attempts_called {turns : ℕ → Turn} (hquiet : reg.Quiet a.connector a.action input)
    (more : ℕ) : ∀ (index : ℕ) (prior : ActionDispatchOutcome) (called : Bool),
      (prior = .NotDispatched → called = false) →
      (client.attempts reg a input deadline turns more index prior called).outcome
        = .NotDispatched →
      (client.attempts reg a input deadline turns more index prior called).called = false := by
  induction more with
  | zero =>
    intro index prior called hprior hout
    rcases hexec : client.execute reg a input deadline (turns index).world with ⟨outcome, now⟩
    rw [RunnerClient.attempts] at hout ⊢
    by_cases hflight : (turns index).cancelled_in_flight = true
    · simp [hexec, hflight] at hout
    simp only [hexec, if_neg hflight] at hout ⊢
    cases outcome with
    | ok output => cases (combine_not_dispatched.mp hout).2
    | error f => exact execute_combined hquiet hexec hprior hout
  | succ more ih =>
    intro index prior called hprior hout
    rcases hexec : client.execute reg a input deadline (turns index).world with ⟨outcome, now⟩
    rw [RunnerClient.attempts] at hout ⊢
    by_cases hflight : (turns index).cancelled_in_flight = true
    · simp [hexec, hflight] at hout
    simp only [hexec, if_neg hflight] at hout ⊢
    cases outcome with
    | ok output => cases (combine_not_dispatched.mp hout).2
    | error f =>
      simp only at hout ⊢
      split_ifs at hout ⊢ with hfinal hpause
      · exact execute_combined hquiet hexec hprior hout
      · exact execute_combined hquiet hexec hprior hout
      · exact ih (index + 1) _ _ (execute_combined hquiet hexec hprior) hout

/-! ## When the evidence is sound -/

theorem Registry.Quiet.evidence_sound (hquiet : reg.Quiet connector action input) :
    EvidenceSound reg connector action input := by
  have hcombined : ∀ (client : RunnerClient) (id : String) (deadline : ℕ) (read_only : Bool)
      (turns : ℕ → Turn),
      (client.dispatch reg ⟨id, connector, action⟩ input deadline read_only turns).outcome
        = .NotDispatched →
      (client.dispatch reg ⟨id, connector, action⟩ input deadline read_only turns).called
        = false := by
    intro client id deadline read_only turns
    apply attempts_called hquiet
    intro _
    rfl
  refine ⟨?_, ?_, ?_, hcombined, ?_, ?_⟩
  · intro client context w e called h hout
    cases called with
    | false => rfl
    | true => exact absurd hout (action_execute_called hquiet h)
  · intro client context w e h
    have hout := action_execute_called hquiet h
    cases he : e.outcome with
    | NotDispatched => exact absurd he hout
    | ResponseReceived => exact .inr rfl
    | Unknown => exact .inl rfl
  · intro client id deadline w f called h hout
    exact execute_called hquiet h hout
  · intro client id deadline read_only turns hcalled
    have hout := mt (hcombined client id deadline read_only turns)
      (by rw [hcalled]; decide)
    cases ho : (client.dispatch reg ⟨id, connector, action⟩ input deadline read_only
        turns).outcome with
    | NotDispatched => exact absurd ho hout
    | ResponseReceived => exact .inr rfl
    | Unknown => exact .inl rfl
  · intro client id deadline read_only turns hreleases
    apply hcombined
    rw [Dispatched.releases] at hreleases
    split at hreleases
    · cases hreleases
    · exact of_decide_eq_true hreleases
    · rw [Bool.and_eq_true] at hreleases
      exact of_decide_eq_true hreleases.2

/-- A passage through the runner in which nothing expires. -/
def Passage.calm : Passage :=
  { body := .read
    request_deadline := { expired := false, aborts := false }
    operation_deadline := { expired := false, aborts := false }
    fits := true }

/-- A world in which a request is admitted and its response arrives. -/
def World.calm : World :=
  { clock := some 0
    request_bytes := some 0
    clock_sent := some 0
    delivery := .intact
    admission := .admitted
    passage := .calm
    expires := false }

/-- A client with a timeout of one second. -/
def RunnerClient.sample : RunnerClient :=
  { timeout_ms := 1000, max_request_bytes := 1024, redact := fun _ code => code }

def RequestContext.sample : RequestContext := { request_id := "req", deadline_unix_ms := none }

theorem run_execution_calm (h : supports_operation_budget spec = true) (fn : Unit → Running)
    {s : Settled} (hs : (fn ()).settled = some s) :
    run_execution spec.timeout_ms { expired := false, aborts := false } fn = (fn (), true) := by
  obtain ⟨ms, hms, hpos, hmax⟩ : ∃ ms, spec.timeout_ms = some ms ∧ 0 < ms ∧
      ms ≤ max_operation_timeout_ms := by
    cases hms : spec.timeout_ms with
    | none => simp [supports_operation_budget, hms] at h
    | some ms =>
      simp only [supports_operation_budget, hms, Bool.and_eq_true, decide_eq_true_eq] at h
      exact ⟨ms, rfl, h.1.1.1, h.1.1.2⟩
  have hbudget : ¬(ms = 0 ∨ ms > max_operation_timeout_ms) := by omega
  unfold run_execution
  rw [hms]
  simp only [if_neg hbudget]
  cases hfn : fn () with
  | now s' => rfl
  | promise s' =>
    rw [hfn] at hs
    cases hs
    rfl

theorem Registry.Raises.handle (h : reg.Raises connector action input code) (id : String) :
    ∃ status retry, reg.fetch .admitted ⟨id, connector, action, input⟩ .calm
      = ({ status, id := some id, payload := .error code retry }, true) := by
  obtain ⟨handler, spec, ⟨hconnector, hdescribed, haction, hchecked⟩, e, hthrew, hcode⟩ := h.body
  have hrun := run_execution_calm (Registry.checked_ok hchecked).2.1
    (fun _ => reg.body connector action input handler spec) hthrew
  have hfound : (connector = "" || !reg.described connector) = false := by
    simp [hconnector, hdescribed]
  simp only [Registry.fetch, Registry.handle_rpc, Passage.calm,
    Registry.handle_connector_action_execute, hfound, if_neg haction, Registry.execute_action,
    hchecked, hrun]
  have hexecution : error_response_for_execution_failure e "INVALID_ACTION_INPUT"
      = (status_for_execution_error_code code, .error code e.retry_after_seconds) := by
    rw [error_response_for_execution_failure, hcode]
  cases hbody : reg.body connector action input handler spec with
  | now s =>
    rw [hbody] at hthrew
    cases hthrew
    by_cases hhealth : action = "healthcheck"
    · refine ⟨status_for_registry_failure code, none, ?_⟩
      simp [hhealth, hcode, Registry.action_response, json_response]
    · refine ⟨status_for_execution_error_code code, e.retry_after_seconds, ?_⟩
      simp [hhealth, Registry.action_response, json_response, hexecution]
  | promise s =>
    rw [hbody] at hthrew
    cases hthrew
    refine ⟨status_for_execution_error_code code, e.retry_after_seconds, ?_⟩
    simp [Registry.action_response, Running.settled, json_response, hexecution]

/-- The evidence about an action is sound exactly if none of the handlers it calls
raises a code the client takes for a rejection before dispatch. -/
theorem evidence_sound_iff (reg : Registry) (connector action : String) (input : Value) :
    EvidenceSound reg connector action input ↔
      ∀ code, reg.Raises connector action input code → code ∉ pre_dispatch_codes := by
  constructor
  · intro hsound code hraises hpre
    -- in a calm world the code arrives, and the client reads it as not dispatched
    obtain ⟨status, retry, hfetch⟩ := hraises.handle "req"
    have hempty : code ≠ "" := by
      rintro rfl
      exact absurd hpre (by decide)
    have hbusy : code ≠ "RUNNER_BUSY" := by
      rintro rfl
      exact absurd hpre (by decide)
    have hrejected : code ∉ rejection_codes := by
      intro hmem
      exact absurd hpre (rejection_codes_disjoint code hmem)
    have houtcome : runner_error_outcome status code = .NotDispatched := by
      simp [runner_error_outcome, hbusy, hrejected, hpre]
    have hcall : RunnerClient.sample.action_execute reg .sample ⟨connector, action, input⟩ .calm
        = (.error ⟨.Runner, .NotDispatched, some code, retry⟩, true) := by
      have hid : is_safe_request_id "req" = true := by decide
      simp [RunnerClient.action_execute, RunnerClient.exchange, RunnerClient.decode,
        ActionExecuteRequest.envelope, RequestContext.sample, World.calm, RunnerClient.sample,
        hid, hfetch, hempty, hbusy, houtcome, u64_max]
    cases hsound.call _ _ _ _ _ hcall rfl
  · exact Registry.Quiet.evidence_sound

namespace Sample

/-- The declared operation of the sample connector: a mutation without an observer. -/
def send_spec : OperationSpec :=
  { kind := some "action"
    timeout_ms := some 1000
    max_input_bytes := some 1024
    max_response_bytes := some 1024
    effect_policy := none
    reconcile := none
    reconcile_input := []
    input_properties := []
    input_required := []
    input_closed := false
    output_properties := [] }

/-- A connector that sends, and whose provider then answers that the message was too
large for one of the recipients. -/
def mailer : Registry where
  described connector := connector = "mail"
  actions connector :=
    if connector = "mail" then
      some (fun action =>
        if action = "send" then
          some (fun _ => .promise (some (.threw (failure "INPUT_TOO_LARGE"))))
        else none)
    else none
  healthchecks _ := none
  syncs _ _ := none
  operation_specs connector operation :=
    if connector = "mail" ∧ operation = "send" then some send_spec else none
  validates _ _ _ := true
  credentialed _ _ := false
  json_byte_length _ := 2
  loadable := by
    intro connector operation spec h
    split_ifs at h
    cases h
    rfl

end Sample

/-- The mailer has sent, and the client reports that nothing was dispatched. -/
theorem mailer_evidence_unsound : ¬EvidenceSound Sample.mailer "mail" "send" (.object []) := by
  intro hsound
  have hcall : RunnerClient.sample.action_execute Sample.mailer .sample
      ⟨"mail", "send", .object []⟩ .calm
      = (.error ⟨.Runner, .NotDispatched, some "INPUT_TOO_LARGE", none⟩, true) := by
    rfl
  cases hsound.call _ _ _ _ _ hcall rfl

end Appcall.Rpc
