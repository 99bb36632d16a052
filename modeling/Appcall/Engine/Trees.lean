/-
Workflows as command trees, and their direct meaning.

Workflow code that propagates every error of the context is a tree: a node issues
one command and goes on with the value, a leaf returns. The meaning of such a
workflow needs no cursor and no replay. A history is a walk from the root: each
event carries the command of the node it starts from, and its value leads to the
next node. This file has that meaning, and `Follows.eval`: one evaluation of the
code against a history that follows the tree ends at the node of the history,
with the command of that node pending, or with the output of the leaf.

A select of the source issues its command only for one to sixty-four sources, so a
node carries that bound.
-/
import Appcall.Engine.Runs

set_option autoImplicit false

namespace Appcall.Durable

open Appcall.Refine

/-- A workflow that propagates errors, after its input is known. -/
inductive Tree where
  | leaf (output : PayloadRef)
  | activity (name version : String) (input : PayloadRef) (policy : EffectPolicy)
      (next : PayloadRef → Tree)
  | spawn_activity (name version : String) (input : PayloadRef) (policy : EffectPolicy)
      (next : ActivityHandle → Tree)
  | timer (deadline_ms : ℤ) (next : Tree)
  | signal (name : String) (next : PayloadRef → Tree)
  | child (name version : String) (input : PayloadRef) (next : ChildHandle → Tree)
  | select (sources : List WaitSource) (bounded : 0 < sources.length ∧ sources.length ≤ 64)
      (next : Selection → Tree)
  | join_child (handle : ChildHandle) (next : PayloadRef → Tree)
  | join_activity (handle : ActivityHandle) (next : PayloadRef → Tree)
  | continue_as_new (input : PayloadRef)

/-- The code of a tree: every call is followed by `?`. -/
def Tree.program : Tree → Program
  | .leaf output => .ret (.ok output)
  | .activity name version input policy next =>
    .activity name version input policy (.and_then fun p => (next p).program)
  | .spawn_activity name version input policy next =>
    .spawn_activity name version input policy (.and_then fun handle => (next handle).program)
  | .timer deadline_ms next => .timer deadline_ms (.and_then fun _ => next.program)
  | .signal name next => .signal name (.and_then fun p => (next p).program)
  | .child name version input next =>
    .child name version input (.and_then fun handle => (next handle).program)
  | .select sources _ next =>
    .select sources (.and_then fun selection => (next selection).program)
  | .join_child handle next => .join_child handle (.and_then fun p => (next p).program)
  | .join_activity handle next => .join_activity handle (.and_then fun p => (next p).program)
  | .continue_as_new input => .continue_as_new input .ret

def Tree.command : Tree → Option Command
  | .leaf _ => none
  | .activity name version input policy _ => some (.Activity name version input policy false)
  | .spawn_activity name version input policy _ => some (.Activity name version input policy true)
  | .timer deadline_ms _ => some (.Timer deadline_ms)
  | .signal name _ => some (.Signal name)
  | .child name version input _ => some (.Child name version input)
  | .select sources _ _ => some (.Select sources)
  | .join_child handle _ => some (.Select [.Child handle])
  | .join_activity handle _ => some (.Select [.Activity handle])
  | .continue_as_new input => some (.ContinueAsNew input)

/-- Where a node goes on with the value of its command. -/
def Tree.answer : Tree → CommandValue → Option Tree
  | .activity _ _ _ _ next, .Payload p => some (next p)
  | .spawn_activity _ _ _ _ next, .Activity handle => some (next handle)
  | .timer _ next, .Unit => some next
  | .signal _ next, .Payload p => some (next p)
  | .child _ _ _ next, .Child handle => some (next handle)
  | .select _ _ next, .Selected selection => some (next selection)
  | .join_child _ next, .Selected ⟨_, some p⟩ => some (next p)
  | .join_activity _ next, .Selected ⟨_, some p⟩ => some (next p)
  | _, _ => none

/-- One event of a history leads from a node to the next. -/
def Tree.Step (t : Tree) (event : HistoryEvent) (t' : Tree) : Prop :=
  t.command = some event.command ∧ ∃ value, event.value = some value ∧ t.answer value = some t'

/-- The history leads from the root to the node. -/
abbrev Tree.Walk (root : Tree) (history : List HistoryEvent) (node : Tree) : Prop :=
  Path Tree.Step root history node

/-- **The history is a path of the tree from its root**: each recorded command is
the one the tree issues after the recorded values, and only the last event may have
no value yet. -/
inductive Follows (root : Tree) : List HistoryEvent → Prop where
  | walked {history : List HistoryEvent} {node : Tree} :
      root.Walk history node → Follows root history
  | waiting {history : List HistoryEvent} {node : Tree} {command : Command} :
      root.Walk history node → node.command = some command →
      Follows root (history ++ [{ command, value := none }])

/-! ## The replay -/

/-- The context of a replay that has consumed `cursor` events. -/
def Context.at (history : List HistoryEvent) (cursor : ℕ) : Context :=
  { history, cursor, pending := none, blocked := false, faulted := false }

section Replay

variable {t t' : Tree} {history : List HistoryEvent} {cursor : ℕ} {c : Command}

variable {value : CommandValue}

theorem Context.command_recorded
    (hget : history[cursor]? = some { command := c, value := some value }) :
    (Context.at history cursor).command c = (.ok value, .at history (cursor + 1)) := by
  simp [Context.command, Context.at, hget]

theorem Context.command_open (hget : history[cursor]? = some { command := c, value := none }) :
    (Context.at history cursor).command c
      = (.error .Blocked, { Context.at history (cursor + 1) with blocked := true }) := by
  simp [Context.command, Context.at, hget]

theorem Context.command_new (hget : history[cursor]? = none) :
    (Context.at history cursor).command c
      = (.error .Blocked,
          { Context.at history cursor with pending := some c, blocked := true }) := by
  simp [Context.command, Context.at, hget]

theorem Tree.run_blocked (hc : t.command = some c) {ctx ctx' : Context}
    (h : ctx.command c = (.error .Blocked, ctx')) :
    t.program.run ctx = (some (.error .Blocked), ctx') := by
  cases t with
  | leaf => cases hc
  | select sources bounded next =>
    have hb : (sources.isEmpty || decide (sources.length > 64)) = false := by
      cases sources with
      | nil => exact absurd bounded.1 (by simp)
      | cons s sources => simpa using bounded.2
    cases hc
    simp [Tree.program, Program.run, Context.select, hb, Context.expect, h, Program.and_then]
  | join_child | join_activity =>
    cases hc
    simp [Tree.program, Program.join_child, Program.join_activity, Program.run, Context.select,
      Context.expect, h, joined, Program.and_then]
  | activity | spawn_activity | timer | signal | child | continue_as_new =>
    cases hc
    simp [Tree.program, Program.run, Context.activity, Context.spawn_activity, Context.timer,
      Context.signal, Context.child, Context.continue_as_new, Context.expect, h, Program.and_then]

theorem Tree.run_answered (hc : t.command = some c) (ha : t.answer value = some t')
    {ctx ctx' : Context} (h : ctx.command c = (.ok value, ctx')) :
    t.program.run ctx = t'.program.run ctx' := by
  cases t with
  | leaf => cases hc
  | continue_as_new => cases ha
  | select sources bounded next =>
    have hb : (sources.isEmpty || decide (sources.length > 64)) = false := by
      cases sources with
      | nil => exact absurd bounded.1 (by simp)
      | cons s sources => simpa using bounded.2
    cases hc
    cases value <;> cases ha
    simp [Tree.program, Program.run, Context.select, hb, Context.expect, h, Program.and_then,
      CommandValue.selected?]
  | join_child | join_activity =>
    cases hc
    cases value with
    | Selected selection =>
      obtain ⟨index, p⟩ := selection
      cases p <;> cases ha
      simp [Tree.program, Program.join_child, Program.join_activity, Program.run, Context.select,
        Context.expect, h, joined, Program.and_then, CommandValue.selected?]
    | _ => cases ha
  | activity | spawn_activity | timer | signal | child =>
    cases hc
    cases value <;> cases ha
    simp [Tree.program, Program.run, Context.activity, Context.spawn_activity, Context.timer,
      Context.signal, Context.child, Context.expect, h, Program.and_then, CommandValue.payload?,
      CommandValue.activity?, CommandValue.unit?, CommandValue.child?]

/-- **The replay of a walk** arrives at its node. The induction is on the walk; the
cursor moves along the history. -/
theorem Tree.Walk.run {walked rest : List HistoryEvent} (h : t.Walk walked t')
    (hdrop : history.drop cursor = walked ++ rest) :
    t.program.run (.at history cursor)
      = t'.program.run (.at history (cursor + walked.length)) := by
  induction h generalizing cursor with
  | nil => rfl
  | @cons t t1 t' event walked hstep _ ih =>
    obtain ⟨hc, value, hvalue, ha⟩ := hstep
    have hget : history[cursor]? = some event := by
      have := congrArg List.head? hdrop
      rw [List.head?_drop] at this
      exact this
    have hnext : history.drop (cursor + 1) = walked ++ rest := by
      rw [← List.drop_drop, hdrop]
      rfl
    have hevent : event = { command := event.command, value := some value } := by
      rw [← hvalue]
    rw [hevent] at hget
    rw [Tree.run_answered hc ha (Context.command_recorded hget), ih hnext, List.length_cons,
      Nat.add_assoc, Nat.add_comm 1]

end Replay

def workflow_of (tree : PayloadRef → Tree) : Workflow := fun input => (tree input).program

/-- What one evaluation of the code does against a history that follows the tree. -/
inductive Replays (root : Tree) (history : List HistoryEvent) (eval : Evaluation) : Prop where
  | returns {output : PayloadRef} :
      root.Walk history (.leaf output) →
      eval = { result := some (.ok output), cursor := history.length, pending := none,
               faulted := false } → Replays root history eval
  | asks {node : Tree} {command : Command} :
      root.Walk history node → node.command = some command →
      eval = { result := some (.error .Blocked), cursor := history.length,
               pending := some command, faulted := false } → Replays root history eval
  | waits {walked : List HistoryEvent} {node : Tree} {command : Command} :
      root.Walk walked node → node.command = some command →
      history = walked ++ [{ command, value := none }] →
      eval = { result := some (.error .Blocked), cursor := history.length, pending := none,
               faulted := false } → Replays root history eval

/-- **The replay of a history that follows the tree.** It never faults, consumes the
whole history, and stops at the node of the history. -/
theorem Follows.eval {tree : PayloadRef → Tree} {r : RunRecord}
    (h : Follows (tree r.input) r.history) :
    Replays (tree r.input) r.history (eval_workflow (workflow_of tree) r) := by
  have hrun : ∀ walked node rest, (tree r.input).Walk walked node → r.history = walked ++ rest →
      (tree r.input).program.run (Context.start r.history)
        = node.program.run (.at r.history walked.length) := by
    intro walked node rest hwalk hsplit
    have hat : r.history.drop 0 = walked ++ rest := hsplit
    have := hwalk.run hat
    rw [Nat.zero_add] at this
    exact this
  generalize hh : r.history = history at h
  cases h with
  | @walked _ node hwalk =>
    have hrun' := hrun history node [] hwalk (by rw [List.append_nil]; exact hh)
    cases hnode : node.command with
    | none =>
      cases node with
      | leaf output =>
        refine .returns hwalk ?_
        unfold eval_workflow workflow_of
        simp only [hrun']
        simp [Tree.program, Program.run, Context.at]
      | _ => cases hnode
    | some command =>
      refine .asks hwalk hnode ?_
      have hget : r.history[history.length]? = none := by
        rw [hh]
        exact List.getElem?_eq_none le_rfl
      unfold eval_workflow workflow_of
      simp only [hrun', Tree.run_blocked hnode (Context.command_new hget)]
      simp [Context.at]
  | @waiting walked node command hwalk hnode =>
    refine .waits hwalk hnode rfl ?_
    have hrun' := hrun walked node _ hwalk hh
    have hget : r.history[walked.length]? = some { command, value := none } := by
      rw [hh]
      simp
    unfold eval_workflow workflow_of
    simp only [hrun', Tree.run_blocked hnode (Context.command_open hget)]
    simp [Context.at]

namespace Sample

def note : PayloadRef := ⟨"note", false, by decide⟩

/-- A timer, then an activity, and what it gave. -/
def errand : Tree := .timer 5 (.activity "a" "1" note .Idempotent .leaf)

/-- The timer is over, and the activity has no value yet. -/
def at_work : RunRecord where
  id := "run"
  parent := none
  workflow := "errand"
  version := "1"
  input := note
  state := .Running
  failure_reason := none
  revision := 3
  history := [⟨.Timer 5, some .Unit⟩, ⟨.Activity "a" "1" note .Idempotent false, none⟩]
  tasks := []
  signals := []
  children := []
  output := none
  wakeup := none
  reconciliation_audit := []
  continued_as := none

end Sample

/-- The timer is passed, and the activity is replayed. -/
theorem errand_replayed : Replays Sample.errand Sample.at_work.history
    (eval_workflow (workflow_of fun _ => Sample.errand) Sample.at_work) := by
  have hwalk : Sample.errand.Walk [⟨.Timer 5, some .Unit⟩]
      (.activity "a" "1" Sample.note .Idempotent .leaf) :=
    .cons ⟨rfl, .Unit, rfl, rfl⟩ (.nil _)
  exact @Follows.eval (fun _ => Sample.errand) Sample.at_work (.waiting hwalk rfl)

end Appcall.Durable
