/-
Replay of workflow code against a run's history: `crates/appcall-engine/src/context.rs`.

A workflow of the source is a closure over `&mut Context`. All it can do with the
context is read the input and call the command methods, so the closure is a tree
of such calls: `Program` below has one constructor for each method that issues a
command, with a continuation that receives the `Result` the method returned. A
program may ignore an error and go on (the context then faults), return any
result and panic, as Rust code may. What it cannot do is look at the cursor or at
the history, which are private to the crate.

`Program.run` is one evaluation of the closure. It is structural in the program,
so an evaluation always ends; a closure that loops forever has no counterpart.
-/
import Appcall.Engine.Types

set_option autoImplicit false

namespace Appcall.Durable

inductive WorkflowError where
  | Blocked
  | Nondeterminism
  | Invalid
  deriving DecidableEq

abbrev WorkflowResult := Except WorkflowError PayloadRef

/-- `context::Context`. The input is not repeated here: a workflow is a function
of it. -/
structure Context where
  history : List HistoryEvent
  cursor : ℕ
  pending : Option Command
  blocked : Bool
  faulted : Bool

/-- The context a drive builds before it calls the workflow. -/
def Context.start (history : List HistoryEvent) : Context :=
  { history, cursor := 0, pending := none, blocked := false, faulted := false }

def Context.command (ctx : Context) (command : Command) :
    Except WorkflowError CommandValue × Context :=
  if ctx.blocked || ctx.faulted then
    (.error .Nondeterminism, { ctx with faulted := true })
  else
    match ctx.history[ctx.cursor]? with
    | some event =>
      if event.command ≠ command then
        (.error .Nondeterminism, { ctx with faulted := true })
      else
        let ctx := { ctx with cursor := ctx.cursor + 1, blocked := event.value.isNone }
        match event.value with
        | some value => (.ok value, ctx)
        | none => (.error .Blocked, ctx)
    | none => (.error .Blocked, { ctx with pending := some command, blocked := true })

/-! ## The command methods

Each method issues its command and projects the value. A value of another shape
is the `_ => Err(Nondeterminism)` arm of the source. -/

/-- The `match self.command(..)? { .. }` shape every method shares. -/
def Context.expect {α : Type} (ctx : Context) (command : Command)
    (project : CommandValue → Option α) : Except WorkflowError α × Context :=
  match ctx.command command with
  | (.error e, ctx) => (.error e, ctx)
  | (.ok value, ctx) =>
    match project value with
    | some a => (.ok a, ctx)
    | none => (.error .Nondeterminism, ctx)

/-- `CommandValue::Payload(p) => Ok(p)`. -/
def CommandValue.payload? : CommandValue → Option PayloadRef
  | .Payload p => some p
  | _ => none

/-- `CommandValue::Activity(p) => Ok(p)`. -/
def CommandValue.activity? : CommandValue → Option ActivityHandle
  | .Activity h => some h
  | _ => none

/-- `CommandValue::Unit => Ok(())`. -/
def CommandValue.unit? : CommandValue → Option PUnit
  | .Unit => some ()
  | _ => none

/-- `CommandValue::Child(p) => Ok(p)`. -/
def CommandValue.child? : CommandValue → Option ChildHandle
  | .Child h => some h
  | _ => none

/-- `CommandValue::Selected(p) => Ok(p)`. -/
def CommandValue.selected? : CommandValue → Option Selection
  | .Selected s => some s
  | _ => none

def Context.activity (ctx : Context) (name version : String) (input : PayloadRef)
    (policy : EffectPolicy) : WorkflowResult × Context :=
  ctx.expect (.Activity name version input policy false) CommandValue.payload?

def Context.spawn_activity (ctx : Context) (name version : String) (input : PayloadRef)
    (policy : EffectPolicy) : Except WorkflowError ActivityHandle × Context :=
  ctx.expect (.Activity name version input policy true) CommandValue.activity?

def Context.timer (ctx : Context) (deadline_ms : ℤ) : Except WorkflowError Unit × Context :=
  ctx.expect (.Timer deadline_ms) CommandValue.unit?

def Context.signal (ctx : Context) (name : String) : WorkflowResult × Context :=
  ctx.expect (.Signal name) CommandValue.payload?

def Context.child (ctx : Context) (name version : String) (input : PayloadRef) :
    Except WorkflowError ChildHandle × Context :=
  ctx.expect (.Child name version input) CommandValue.child?

/-- `Context::select`. The bound on the sources is checked before the command is
issued, and a refused list faults the context. -/
def Context.select (ctx : Context) (sources : List WaitSource) :
    Except WorkflowError Selection × Context :=
  if sources.isEmpty || decide (sources.length > 64) then
    (.error .Invalid, { ctx with faulted := true })
  else ctx.expect (.Select sources) CommandValue.selected?

/-- `Context::continue_as_new`: every value is a fault. -/
def Context.continue_as_new (ctx : Context) (input : PayloadRef) : WorkflowResult × Context :=
  ctx.expect (.ContinueAsNew input) (fun _ => none)

/-! ## Workflow code -/

/-- Workflow code after its input is known: the calls it makes on the context,
each with what it does with the answer. -/
inductive Program where
  | ret (result : WorkflowResult)
  | panic
  | activity (name version : String) (input : PayloadRef) (policy : EffectPolicy)
      (next : WorkflowResult → Program)
  | spawn_activity (name version : String) (input : PayloadRef) (policy : EffectPolicy)
      (next : Except WorkflowError ActivityHandle → Program)
  | timer (deadline_ms : ℤ) (next : Except WorkflowError Unit → Program)
  | signal (name : String) (next : WorkflowResult → Program)
  | child (name version : String) (input : PayloadRef)
      (next : Except WorkflowError ChildHandle → Program)
  | select (sources : List WaitSource) (next : Except WorkflowError Selection → Program)
  | continue_as_new (input : PayloadRef) (next : WorkflowResult → Program)

/-- The `.value.ok_or(WorkflowError::Nondeterminism)` of the two joins. -/
def joined : Except WorkflowError Selection → WorkflowResult
  | .error e => .error e
  | .ok selection =>
    match selection.value with
    | some p => .ok p
    | none => .error .Nondeterminism

def Program.join_child (child : ChildHandle) (next : WorkflowResult → Program) : Program :=
  .select [.Child child] (fun r => next (joined r))

def Program.join_activity (activity : ActivityHandle) (next : WorkflowResult → Program) :
    Program :=
  .select [.Activity activity] (fun r => next (joined r))

/-- `?` on an answer of the context. -/
def Program.and_then {α : Type} (next : α → Program) : Except WorkflowError α → Program
  | .error e => .ret (.error e)
  | .ok a => next a

/-- A registered workflow: `Arc<dyn Fn(&mut Context) -> WorkflowResult>`. -/
abbrev Workflow := PayloadRef → Program

/-- One evaluation of workflow code. `none` is a panic, which `catch_unwind`
turns into a refused run. -/
def Program.run : Program → Context → Option WorkflowResult × Context
  | .ret result, ctx => (some result, ctx)
  | .panic, ctx => (none, ctx)
  | .activity name version input policy next, ctx =>
    let (r, ctx) := ctx.activity name version input policy
    (next r).run ctx
  | .spawn_activity name version input policy next, ctx =>
    let (r, ctx) := ctx.spawn_activity name version input policy
    (next r).run ctx
  | .timer deadline_ms next, ctx =>
    let (r, ctx) := ctx.timer deadline_ms
    (next r).run ctx
  | .signal name next, ctx =>
    let (r, ctx) := ctx.signal name
    (next r).run ctx
  | .child name version input next, ctx =>
    let (r, ctx) := ctx.child name version input
    (next r).run ctx
  | .select sources next, ctx =>
    let (r, ctx) := ctx.select sources
    (next r).run ctx
  | .continue_as_new input next, ctx =>
    let (r, ctx) := ctx.continue_as_new input
    (next r).run ctx

end Appcall.Durable
