/-
The stored messages of a connection: `list_stored_messages` of
`crates/appcall-sync/src/repository.rs` and `StoredMessageQuery` of its `lib.rs`.

A listing is two statements, and the connection may change between them: the first reads
its generation in one state, the second its messages in a later one.
-/
import Appcall.Sync.Changes
import Mathlib.Data.String.Basic

set_option autoImplicit false

namespace Appcall.Sync

open Chars (is_control)
open Appcall.Oauth (Connection Row)

structure StoredMessageQuery where
  project_id : String
  account_id : String
  connection_id : String
  channel_id : Option String
  cursor : String
  limit : ℕ

structure StoredMessagePage where
  messages : List Message
  next_cursor : String
  has_more : Bool

structure StoredMessageCursor where
  version : ℕ
  project_id : String
  account_id : String
  connection_id : String
  connection_generation : ℤ
  channel_id : Option String
  created_at_micros : ℤ
  id : String

/-- The encoding of a cursor: the hex digits of its JSON. -/
structure CursorCodec where
  parse : String → Option StoredMessageCursor
  render : StoredMessageCursor → String

def valid_identifier (value : String) : Bool :=
  decide (value ≠ "") && decide (value.utf8ByteSize ≤ 512) && !value.toList.any is_control

def StoredMessageQuery.validate (q : StoredMessageQuery) : Except Error Unit :=
  if valid_identifier q.project_id && decide (q.account_id.utf8ByteSize ≤ 512)
      && !q.account_id.toList.any is_control && valid_identifier q.connection_id
      && q.channel_id.all valid_identifier && decide (1 ≤ q.limit) && decide (q.limit ≤ 100)
      && decide (q.cursor.utf8ByteSize ≤ 4096) then .ok ()
  else .error .InvalidInput

def decode_stored_message_cursor (codec : CursorCodec) (q : StoredMessageQuery) :
    Except Error (Option (ℤ × ℤ × String)) :=
  if q.cursor = "" then .ok none
  else
    match codec.parse q.cursor with
    | none => .error .InvalidInput
    | some c =>
      if c.version ≠ 1 ∨ c.project_id ≠ q.project_id ∨ c.account_id ≠ q.account_id
          ∨ c.connection_id ≠ q.connection_id ∨ c.connection_generation ≤ 0
          ∨ c.channel_id ≠ q.channel_id ∨ c.created_at_micros < 0 ∨ c.id = ""
          ∨ 512 < c.id.utf8ByteSize ∨ c.id.toList.any is_control = true then
        .error .InvalidInput
      else .ok (some (c.connection_generation, c.created_at_micros, c.id))

def encode_stored_message_cursor (codec : CursorCodec) (q : StoredMessageQuery)
    (generation : ℕ) (created_at : ℤ) (id : String) : Except Error String :=
  if created_at < 0 then .error .InvalidInput
  else .ok (codec.render ⟨1, q.project_id, q.account_id, q.connection_id, generation,
    q.channel_id, created_at, id⟩)

/-- `ORDER BY m.created_at DESC, m.id DESC`. -/
def newest_first (a b : StoredMessage) : Prop :=
  b.created_at < a.created_at ∨ (a.created_at = b.created_at ∧ b.message.id ≤ a.message.id)

instance : DecidableRel newest_first := fun _ _ => inferInstanceAs (Decidable (_ ∨ _))

/-- The account of a listing sees the connection. -/
def StoredMessageQuery.sees (q : StoredMessageQuery) (c : Row) : Bool :=
  decide (q.account_id = "") || decide (c.connection.external_account_id = q.account_id)
    || decide (c.connection.credential_owner = .Platform)

/-- The condition of the second statement. -/
def Database.listed (db : Database) (q : StoredMessageQuery) (generation : ℕ)
    (after : Option (ℤ × String)) (m : StoredMessage) : Bool :=
  decide (m.project_id = q.project_id)
    && (db.connections.find m.connection_id).any (fun c =>
      decide (c.connection.project_id = m.project_id)
        && decide (m.connection_generation = some c.connection_generation) && q.sees c)
    && decide (m.connection_id = q.connection_id)
    && decide (m.connection_generation = some generation)
    && (decide (q.channel_id.getD "" = "") || decide (m.message.channel_id = q.channel_id.getD ""))
    && after.all (fun a => decide (m.created_at < a.1)
      || (decide (m.created_at = a.1) && decide (m.message.id < a.2)))

/-- The cursor behind the last message of a page that is not the last one. -/
def StoredMessageQuery.next_cursor (q : StoredMessageQuery) (codec : CursorCodec)
    (generation : ℕ) : Option StoredMessage → Except Error String
  | none => .ok ""
  | some m => encode_stored_message_cursor codec q generation m.created_at m.message.id

/-- `list_stored_messages`: the first statement reads `before`, the second `db`. -/
def Database.list_stored_messages (codec : CursorCodec) (before db : Database)
    (q : StoredMessageQuery) : Except Error StoredMessagePage := do
  q.validate
  let cursor ← decode_stored_message_cursor codec q
  match (before.connections.find q.connection_id).filter
      (fun c => decide (c.connection.project_id = q.project_id) && q.sees c) with
  | none => .error .NotFound
  | some c =>
    if cursor.any (fun k => decide (k.1 ≠ (c.connection_generation : ℤ))) then
      .error .StaleGeneration
    else
      let rows := db.synced_messages.select
        (db.listed q c.connection_generation (cursor.map Prod.snd)) newest_first (q.limit + 1)
      let page := rows.take q.limit
      let last := if q.limit < rows.length then page.getLast? else none
      let next_cursor ← q.next_cursor codec c.connection_generation last
      .ok ⟨page.map StoredMessage.message, next_cursor, decide (q.limit < rows.length)⟩

/-- **Only messages of the current generation are listed**, current at the moment the
messages are read. -/
theorem listed_current {codec : CursorCodec} {before db : Database} {q : StoredMessageQuery}
    {page : StoredMessagePage} (h : before.list_stored_messages codec db q = .ok page)
    {m : Message} (hm : m ∈ page.messages) :
    ∃ row c, row ∈ db.synced_messages.rows ∧ row.message = m
      ∧ row.connection_id = q.connection_id ∧ row.project_id = q.project_id
      ∧ db.connections.find q.connection_id = some c
      ∧ row.connection_generation = some c.connection_generation := by
  rw [Database.list_stored_messages] at h
  obtain ⟨⟨⟩, -, h⟩ := bind_eq_ok h
  obtain ⟨cursor, -, h⟩ := bind_eq_ok h
  split at h
  next => cases h
  next c hc =>
    split at h
    next => cases h
    next =>
      obtain ⟨next_cursor, -, h⟩ := bind_eq_ok h
      cases h
      obtain ⟨row, hrow, rfl⟩ := List.mem_map.mp hm
      obtain ⟨hmem, hlisted⟩ := Table.mem_select (List.mem_of_mem_take hrow)
      simp only [Database.listed, Bool.and_eq_true, decide_eq_true_eq, Option.any_eq_true]
        at hlisted
      obtain ⟨⟨⟨⟨⟨hproject, c', hc', hjoined⟩, hconnection⟩, -⟩, -⟩, -⟩ := hlisted
      rw [hconnection] at hc'
      exact ⟨row, c', hmem, rfl, hconnection, hproject, hc', hjoined.1.2⟩

end Appcall.Sync
