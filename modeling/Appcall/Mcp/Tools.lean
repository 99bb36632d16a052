/-
The tools that are listed, and the calls of them: `list_tools` and `call_tool_with_key`.

A tool is listed under the name of its connector and operation, with the connections it can
be called for; the call takes the name apart and looks the operation up again. Both look at
the same connections, so what is listed is found, as long as the name is read back as it was
made.
-/
import Appcall.Mcp.Leaks
import Appcall.Mcp.Names
import Mathlib.Data.List.Destutter

set_option autoImplicit false

namespace Appcall.Mcp

variable {ν ρ : Type}

/-! ## The registry -/

inductive EffectPolicy
  | None | Idempotent | Reconcile
  deriving DecidableEq

/-- An operation of a manifest, with what a listed tool shows of it. -/
structure ManifestOperation (ν : Type) extends Operation ν where
  title : String
  output_schema : Option (Value ν)
  side_effect : String
  effect_policy : EffectPolicy
  reconcile : String

def ManifestOperation.is_read_only (op : ManifestOperation ν) : Bool :=
  decide (op.side_effect = "read")

def ManifestOperation.is_destructive (op : ManifestOperation ν) : Bool :=
  decide (op.side_effect = "destructive")

/-- `key` of `validation.rs`; a byte of a longer character is none of these. -/
def valid_key (value : String) : Bool :=
  !value.isEmpty && value.toList.all (fun c => c.isAlphanum || ['.', '_', '-'].contains c)

/-- A manifest that `validate` accepts: what it says of the key and of the operations, which
are kept in the order of their names. -/
structure Manifest (ν : Type) where
  key : String
  operations : List (String × ManifestOperation ν)
  valid : valid_key key = true
  valid_operations : ∀ row ∈ operations, valid_key row.1 = true ∧ row.2.kind ≠ .Unknown
  sorted : (operations.map Prod.fst).Pairwise (fun a b => a.toList < b.toList)

def Manifest.operation (m : Manifest ν) (name : String) : Option (ManifestOperation ν) :=
  (m.operations.find? (fun row => decide (row.1 = name))).map Prod.snd

/-- `Registry`: the connectors in the order of their keys. -/
structure Registry (ν : Type) where
  connectors : List (Manifest ν)
  sorted : (connectors.map Manifest.key).Pairwise (fun a b => a.toList < b.toList)

namespace Registry

def connector (r : Registry ν) (key : String) : Option (Manifest ν) :=
  r.connectors.find? (fun m => decide (m.key = key))

def operation (r : Registry ν) (connector operation : String) : Option (ManifestOperation ν) :=
  (r.connector connector).bind (fun m => m.operation operation)

def config (r : Registry ν) (sha256 : List UInt8 → List UInt8) : Config ν where
  sha256 := sha256
  operation := fun connector operation =>
    (r.operation connector operation).map ManifestOperation.toOperation

def Has (r : Registry ν) (connector operation : String) : Prop :=
  ∃ m ∈ r.connectors, m.key = connector ∧ operation ∈ m.operations.map Prod.fst

end Registry

/-! ## Tools -/

/-- The connections of a project: `id` is the primary key of its table. -/
structure Connections where
  rows : List Connection
  ids : (rows.map Connection.id).Nodup

/-- `scoped_connections`; `none` is `InfrastructureError`. -/
def scoped_connections (scope : Scope) (connections : Connections) : Option (List Connection) :=
  if scope.project_id = "" then none
  else if scope.account_id = "" then some []
  else some (connections.rows.filter (fun c =>
    decide (c.project_id = scope.project_id) && decide (c.status = "active")
      && connection_visible_to_scope scope c))

def sorted_distinct (l : List String) : List String :=
  (l.insertionSort (fun a b => ¬b.toList < a.toList)).destutter (· ≠ ·)

/-- A tool that is listed: its connector and operation, and the connections it has. -/
structure Listing (ν : Type) where
  connector : String
  operation : String
  op : ManifestOperation ν
  connection_ids : List String

structure Tool (ν : Type) where
  name : String
  input_schema : Option (Value ν)
  read_only_hint : Bool
  destructive_hint : Option Bool
  connection_ids : List String
  effect_policy : Option EffectPolicy
  reconcile : Option String
  title : Option String
  description : Option String
  output_schema : Option (Value ν)

def non_empty (s : String) : Option String := if s = "" then none else some s

/-- The tool of a listing; a read has no effect policy. -/
def Listing.tool (l : Listing ν) : Tool ν where
  name := encode_tool_name l.connector l.operation
  input_schema := l.op.input_schema
  read_only_hint := l.op.is_read_only
  destructive_hint :=
    if l.op.is_read_only = true then none
    else some (decide (l.op.side_effect = "") || l.op.is_destructive)
  connection_ids := l.connection_ids
  effect_policy :=
    if l.op.is_read_only = true ∨ l.op.effect_policy = .None then none
    else some l.op.effect_policy
  reconcile := if l.op.is_read_only = true then none else non_empty l.op.reconcile
  title := non_empty l.op.title
  description := non_empty l.op.description
  output_schema := l.op.output_schema

def connector_listings (profile : String) (m : Manifest ν) (connection_ids : List String) :
    List (Listing ν) :=
  (m.operations.filter (fun row =>
    row.2.has_tool_schema && tool_allowed profile m.key row.1)).map
      (fun row => ⟨m.key, row.1, row.2, connection_ids⟩)

/-- The loop of `list_tools`, over the connectors of the connections in order. -/
def Registry.listings (r : Registry ν) (scope : Scope) (connections : Connections) :
    Option (List (Listing ν)) :=
  (scoped_connections scope connections).map (fun visible =>
    (sorted_distinct (visible.map Connection.connector)).flatMap (fun key =>
      match r.connector key with
      | none => []
      | some m => connector_listings scope.profile m
        (sorted_distinct ((visible.filter (fun c => decide (c.connector = key))).map
          Connection.id))))

def Registry.list_tools (r : Registry ν) (scope : Scope) (connections : Connections) :
    Option (List (Tool ν)) :=
  (r.listings scope connections).map (List.map Listing.tool)

/-! ## Calls of tools -/

def ToolCall.request (q : ToolCall ν) (operation : String) (connection : Connection) :
    ExecuteRequest ν where
  project_id := q.scope.project_id
  connection_id := connection.id
  external_account_id := q.scope.account_id
  admin_scope := false
  action := operation
  idempotency_key := q.idempotency_key.getD ""
  input := q.input
  caller_credential := q.scope.connector_token

/-- `call_tool_with_key` without a request id (`call_tool_for_connection`), up to the
executor: the request it is given. -/
def Config.call_tool (config : Config ν) (q : ToolCall ν) (connections : Connections) :
    Except (Payload ρ) (ExecuteRequest ν) :=
  match config.check_call q with
  | .error payload => .error payload
  | .ok tool =>
    match select_connection q.scope tool.1 q.connection_id connections.rows with
    | .error error => .error (.tool_error error.code error.message)
    | .ok connection => .ok (q.request tool.2 connection)

/-- A call with a request id that nothing comes between. -/
def undisturbed (id : ℕ) (q : ToolCall ν) (connections : Connections) : List (Op ν ρ) :=
  [.call id q, .move id (.selected (some connections.rows)), .move id .advance,
    .move id .advance, .move id .poll, .move id .poll_task]

/-- The call reaches the executor with the request: directly, or when it is registered and
nothing comes between, as the only thing that is invoked. -/
def Reaches (ρ : Type) (config : Config ν) (q : ToolCall ν) (connections : Connections)
    (request : ExecuteRequest ν) : Prop :=
  config.call_tool (ρ := ρ) q connections = .ok request
    ∧ ∀ (s s' : InFlight ν ρ) (id : ℕ), s.calls.find id = none → s.call config id q = .ok s' →
      ∃ c, (Machine.run (step config) s (undisturbed id q connections)).calls.find id = some c
        ∧ c.observed = [.begun, .invoked request]

/-- Every operation is read back from its name, so no two have one name; and a tool that is
listed is called under its name, for each of its connections. -/
structure ToolsCallable (ρ : Type) (r : Registry ν) : Prop where
  decoded : ∀ connector operation, r.Has connector operation →
    decode_tool_name (encode_tool_name connector operation) = some (connector, operation)
  distinct : ∀ connector operation connector' operation', r.Has connector operation →
    r.Has connector' operation' →
    encode_tool_name connector operation = encode_tool_name connector' operation' →
    connector = connector' ∧ operation = operation'
  reached : ∀ (scope : Scope) (connections : Connections) (tools : List (Tool ν)),
    r.list_tools scope connections = some tools → ∀ tool ∈ tools, ∃ l : Listing ν,
    l.tool = tool ∧ r.operation l.connector l.operation = some l.op ∧
    ∀ id ∈ tool.connection_ids, valid_connection_id id = true →
    ∀ (sha256 : List UInt8 → List UInt8) (q : ToolCall ν),
    q.scope = scope → q.name = tool.name → q.connection_id = some id →
    q.idempotency_key.all valid_idempotency_key = true →
    ∃ connection ∈ connections.rows, connection.id = id ∧ connection.connector = l.connector
      ∧ Reaches ρ (r.config sha256) q connections (q.request l.operation connection)

/-! ## What is listed -/

theorem find_of_nodup {α : Type} {f : α → String} {l : List α} (h : (l.map f).Nodup) {x : α}
    (hx : x ∈ l) : l.find? (fun y => decide (f y = f x)) = some x := by
  induction l with
  | nil => exact absurd hx List.not_mem_nil
  | cons y l ih =>
    rw [List.map_cons, List.nodup_cons] at h
    rw [List.find?_cons]
    rcases List.mem_cons.mp hx with rfl | hx
    · rw [decide_eq_true rfl]
    · have hne : f y ≠ f x := by
        intro heq
        apply h.1
        rw [heq]
        exact List.mem_map_of_mem hx
      rw [decide_eq_false hne]
      exact ih h.2 hx

theorem nodup_of_sorted {l : List String} (h : l.Pairwise (fun a b => a.toList < b.toList)) :
    l.Nodup := by
  apply h.imp
  rintro a b hlt rfl
  exact List.lt_irrefl _ hlt

theorem Registry.connector_of_mem (r : Registry ν) {m : Manifest ν} (h : m ∈ r.connectors) :
    r.connector m.key = some m := find_of_nodup (nodup_of_sorted r.sorted) h

theorem Manifest.operation_of_mem (m : Manifest ν) {row : String × ManifestOperation ν}
    (h : row ∈ m.operations) : m.operation row.1 = some row.2 := by
  rw [operation, find_of_nodup (nodup_of_sorted m.sorted) h, Option.map_some]

theorem mem_sorted_distinct {l : List String} {x : String} (h : x ∈ sorted_distinct l) : x ∈ l :=
  (List.mem_insertionSort _).mp ((List.destutter_sublist _ _).mem h)

variable {connections : Connections} {c : Connection} {s : InFlight ν ρ} {config : Config ν}
  {q : ToolCall ν} {tool : String × String}

/-- A tool that is listed is an operation of the registry with a schema that the profile
allows, and its connections are active, visible and for its connector. -/
theorem listing_spec {r : Registry ν} {scope : Scope} {listings : List (Listing ν)}
    (h : r.listings scope connections = some listings) {l : Listing ν} (hl : l ∈ listings) :
    r.Has l.connector l.operation ∧ r.operation l.connector l.operation = some l.op
      ∧ l.op.has_tool_schema = true
      ∧ tool_allowed scope.profile l.connector l.operation = true
      ∧ scope.project_id ≠ "" ∧ scope.account_id ≠ ""
      ∧ ∀ id ∈ l.connection_ids, ∃ c ∈ connections.rows, c.id = id ∧ c.connector = l.connector
        ∧ c.project_id = scope.project_id ∧ c.status = "active"
        ∧ connection_visible_to_scope scope c = true := by
  rw [Registry.listings] at h
  obtain ⟨visible, hvisible, rfl⟩ := Option.map_eq_some_iff.mp h
  obtain ⟨key, hkey, hl⟩ := List.mem_flatMap.mp hl
  rw [scoped_connections] at hvisible
  split at hvisible
  next => cases hvisible
  next hproject =>
    split at hvisible
    next =>
      cases hvisible
      exact absurd (mem_sorted_distinct hkey) List.not_mem_nil
    next haccount =>
      cases hvisible
      split at hl
      next => exact absurd hl List.not_mem_nil
      next m hm =>
        have hmem := List.mem_of_find?_eq_some hm
        have hkeyed := of_decide_eq_true (List.find?_some
          (p := fun m => decide (Manifest.key m = key)) hm)
        subst hkeyed
        obtain ⟨row, hrow, rfl⟩ := List.mem_map.mp hl
        obtain ⟨hrow, hlisted⟩ := List.mem_filter.mp hrow
        rw [Bool.and_eq_true] at hlisted
        refine ⟨⟨m, hmem, rfl, List.mem_map_of_mem hrow⟩, ?_, hlisted.1, hlisted.2, hproject,
          haccount, ?_⟩
        · rw [Registry.operation, r.connector_of_mem hmem]
          exact m.operation_of_mem hrow
        · intro id hid
          obtain ⟨c, hc, rfl⟩ := List.mem_map.mp (mem_sorted_distinct hid)
          obtain ⟨hc, hconnector⟩ := List.mem_filter.mp hc
          obtain ⟨hc, hscoped⟩ := List.mem_filter.mp hc
          rw [Bool.and_eq_true, Bool.and_eq_true, decide_eq_true_eq, decide_eq_true_eq] at hscoped
          exact ⟨c, hc, rfl, of_decide_eq_true hconnector, hscoped.1.1, hscoped.1.2, hscoped.2⟩

/-! ## What is called -/

theorem select_connection_found {scope : Scope} (hc : c ∈ connections.rows)
    (hproject : c.project_id = scope.project_id) (hstatus : c.status = "active")
    (hvisible : connection_visible_to_scope scope c = true) :
    select_connection scope c.connector (some c.id) connections.rows = .ok c := by
  rw [select_connection, find_of_nodup connections.ids hc]
  dsimp only
  rw [if_neg, if_neg (not_not_intro hstatus)]
  rw [hvisible]
  rintro (hne | hne | hne)
  · exact hne hproject
  · exact hne rfl
  · cases hne

theorem find_take {c : Call ν ρ} {t : Turn ν ρ} (h : s.calls.find t.call.id = some c) :
    (s.take t).calls.find t.call.id = some t.call := by
  have hid := (Table.find_eq_some.mp h).2
  rw [InFlight.take, Table.find_modify_self h, hid]

theorem find_moves (moves : List (Move ρ)) {id : ℕ} {c : Call ν ρ} (h : s.calls.find id = some c) :
    (Machine.run (step config) s (moves.map (Op.move id))).calls.find id
      = some (moves.foldl (fun c m => (c.turn m).call) c) := by
  induction moves generalizing s c with
  | nil => exact h
  | cons m moves ih =>
    rw [List.map_cons, Machine.run_cons, List.foldl_cons]
    apply ih
    rw [step, h]
    dsimp only
    have hid : (c.turn m).call.id = id := by
      rw [(turn_moves c m).id_eq]
      exact (Table.find_eq_some.mp h).2
    subst hid
    exact find_take h

theorem new_call_invokes {id : ℕ} {connections : List Connection}
    (hselect : select_connection q.scope tool.1 q.connection_id connections = .ok c) :
    ([.selected (some connections), .advance, .advance, .poll, .poll_task].foldl
        (fun c m => (c.turn m).call) (config.new_call id q tool : Call ν ρ)).observed
      = [.begun, .invoked (q.request tool.2 c)] := by
  by_cases hdurable : q.context.durable_cancellation = true
  · simp [Call.turn, Call.selected, Call.goes, Call.advance, Call.poll, Call.poll_task, Call.stay,
      Call.request, ToolCall.request, Config.new_call, InFlightEntry.new,
      InFlightEntry.set_connection, InFlightEntry.begin_dispatch, InFlightEntry.is_cancelled,
      hselect, hdurable]
  · simp [Call.turn, Call.selected, Call.goes, Call.advance, Call.poll, Call.poll_task, Call.stay,
      Call.request, ToolCall.request, Config.new_call, InFlightEntry.new,
      InFlightEntry.set_connection, InFlightEntry.begin_dispatch, InFlightEntry.is_cancelled,
      hselect, hdurable]

theorem undisturbed_invokes {s' : InFlight ν ρ} {id : ℕ} (hfresh : s.calls.find id = none)
    (hcall : s.call config id q = .ok s') (hcheck : config.check_call (ρ := ρ) q = .ok tool)
    (hselect : select_connection q.scope tool.1 q.connection_id connections.rows = .ok c) :
    ∃ x, (Machine.run (step config) s (undisturbed id q connections)).calls.find id = some x
      ∧ x.observed = [.begun, .invoked (q.request tool.2 c)] := by
  have hnew : s'.calls.find id = some (config.new_call id q tool) := by
    rw [InFlight.call, hcheck] at hcall
    dsimp only at hcall
    split at hcall
    next => cases hcall
    next => cases hcall
    next registry hregister =>
      cases hcall
      cases hinsert : s.calls.insert (config.new_call id q tool) with
      | none =>
        obtain ⟨x, hx⟩ := Table.insert_eq_none hinsert
        have hid : (config.new_call id q tool : Call ν ρ).id = id := rfl
        rw [hid, hfresh] at hx
        cases hx
      | some calls =>
        rw [Option.getD_some, Table.find_insert hinsert]
        exact if_pos rfl
  rw [undisturbed, Machine.run_cons, step, hfresh]
  dsimp only
  rw [hcall]
  have hfind := @find_moves _ _ _ config
    [.selected (some connections.rows), .advance, .advance, .poll, .poll_task] _ _ hnew
  simp only [List.map_cons, List.map_nil] at hfind
  exact ⟨_, hfind, new_call_invokes hselect⟩

theorem check_call_listed {connector operation : String} (hproject : q.scope.project_id ≠ "")
    (haccount : q.scope.account_id ≠ "") (hkey : q.idempotency_key.all valid_idempotency_key = true)
    (hconnection : q.connection_id.all valid_connection_id = true)
    (hname : decode_tool_name q.name = some (connector, operation))
    (hop : (config.operation connector operation).any Operation.has_tool_schema = true)
    (hallowed : tool_allowed q.scope.profile connector operation = true) :
    config.check_call (ρ := ρ) q = .ok (connector, operation) := by
  rw [Config.check_call, if_neg hproject, if_neg haccount, hkey, if_neg (by decide), hconnection,
    if_neg (by decide), hname]
  dsimp only
  rw [hop, if_neg (by decide), hallowed, if_neg (by decide)]

/-- **Every listed tool is callable exactly when every name is read back.** -/
theorem tools_callable_iff (r : Registry ν) : ToolsCallable ρ r ↔
    ∀ connector operation, r.Has connector operation → ReadBack connector operation := by
  constructor
  · intro h connector operation hhas
    exact (decode_encode_iff connector operation).mp (h.decoded connector operation hhas)
  · intro h
    have hdecoded : ∀ connector operation, r.Has connector operation →
        decode_tool_name (encode_tool_name connector operation) = some (connector, operation) :=
      fun connector operation hhas =>
        (decode_encode_iff connector operation).mpr (h connector operation hhas)
    refine ⟨hdecoded, ?_, ?_⟩
    · intro connector operation connector' operation' hhas hhas' hname
      have hsame := hdecoded connector operation hhas
      rw [hname, hdecoded connector' operation' hhas'] at hsame
      injection hsame with hsame
      obtain ⟨hconnector, hoperation⟩ := Prod.mk.inj hsame
      exact ⟨hconnector.symm, hoperation.symm⟩
    · intro scope connections tools htools tool htool
      obtain ⟨listings, hlistings, rfl⟩ := Option.map_eq_some_iff.mp htools
      obtain ⟨l, hl, rfl⟩ := List.mem_map.mp htool
      obtain ⟨hhas, hop, hschema, hallowed, hproject, haccount, hids⟩ := listing_spec hlistings hl
      refine ⟨l, rfl, hop, ?_⟩
      rintro id hid hvalid sha256 q rfl hname hq hkey
      obtain ⟨c, hc, rfl, hconnector, hcproject, hstatus, hvisible⟩ := hids id hid
      have hcheck : (r.config sha256).check_call (ρ := ρ) q = .ok (l.connector, l.operation) := by
        refine check_call_listed hproject haccount hkey ?_ ?_ ?_ hallowed
        · rw [hq]
          exact hvalid
        · rw [hname]
          exact hdecoded l.connector l.operation hhas
        · rw [Registry.config]
          dsimp only
          rw [hop]
          exact hschema
      have hselect : select_connection q.scope l.connector q.connection_id connections.rows
          = .ok c := by
        rw [hq, ← hconnector]
        exact select_connection_found hc hcproject hstatus hvisible
      refine ⟨c, hc, rfl, hconnector, ?_, ?_⟩
      · rw [Config.call_tool, hcheck]
        dsimp only
        rw [hselect]
      · intro s s' id hfresh hcall
        exact undisturbed_invokes hfresh hcall hcheck hselect

namespace Sample

def rows_operation : ManifestOperation ℕ where
  kind := .Action
  description := "Adds a row."
  input_schema := some (.object [])
  title := ""
  output_schema := none
  side_effect := "write"
  effect_policy := .None
  reconcile := ""

/-- A connector with two operations that differ in what stands between their words. -/
def two_rows : Registry ℕ where
  connectors := [{
    key := "demo"
    operations := [("rows.add", rows_operation), ("rows__add", rows_operation)]
    valid := by decide
    valid_operations := by decide
    sorted := by decide }]
  sorted := by decide

/-- Both operations are listed as `demo__rows__add`. -/
theorem two_rows_not_callable : ¬ToolsCallable ℕ two_rows := by
  intro h
  obtain ⟨-, hsame⟩ := h.distinct "demo" "rows.add" "demo" "rows__add"
    ⟨_, List.mem_singleton_self _, rfl, by decide⟩ ⟨_, List.mem_singleton_self _, rfl, by decide⟩
    (by decide)
  exact absurd hsame (by decide)

end Sample

end Appcall.Mcp
