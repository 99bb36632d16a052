/-
Stored messages listed to the end: the cursors of `list_stored_messages` of
`crates/appcall-sync/src/repository.rs`, and what is read by following them.

A cursor is the hexadecimal of a JSON object with the last message's id and the words of
the query. Its writer puts any id there; the query's check bounds the cursor, and its
reader refuses long ids and ids with control characters. So a listing goes on behind a page
when its last message is one that a cursor can carry, and it stops for good behind the
first page whose last message is not.
-/
import Appcall.Sync.Messages
import Appcall.Lib.Decimal
import Appcall.Lib.Hex
import Appcall.Lib.Paging
import Mathlib.Data.Prod.Lex
import Mathlib.Order.Lattice

set_option autoImplicit false

namespace Appcall.Sync

open Chars (is_control)
open Appcall.Oauth (Connection Row)

/-! ## The text of a cursor -/

/-- How an `Option<String>` is written. -/
def write_option : Option String → List Char
  | none => "null".toList
  | some s => Json.quote s.toList

/-- A member of an object, and what follows it. -/
def write_member (name : String) (value rest : List Char) : List Char :=
  Json.quote name.toList ++ ':' :: (value ++ rest)

/-- `serde_json::to_vec` of a cursor, as characters. -/
def StoredMessageCursor.text (c : StoredMessageCursor) : List Char :=
  '\x7b' :: write_member "version" (Decimal.write c.version)
  (',' :: write_member "project_id" (Json.quote c.project_id.toList)
  (',' :: write_member "account_id" (Json.quote c.account_id.toList)
  (',' :: write_member "connection_id" (Json.quote c.connection_id.toList)
  (',' :: write_member "connection_generation" (Decimal.write_int c.connection_generation)
  (',' :: write_member "channel_id" (write_option c.channel_id)
  (',' :: write_member "created_at_micros" (Decimal.write_int c.created_at_micros)
  (',' :: write_member "id" (Json.quote c.id.toList) ['\x7d'])))))))

def StoredMessageCursor.to_vec (c : StoredMessageCursor) : List UInt8 := Json.bytes c.text

/-- The numbers are those of the fields' types. -/
structure StoredMessageCursor.Representable (c : StoredMessageCursor) : Prop where
  version : c.version < 2 ^ 8
  generation : -2 ^ 63 ≤ c.connection_generation ∧ c.connection_generation < 2 ^ 63
  created_at : -2 ^ 63 ≤ c.created_at_micros ∧ c.created_at_micros < 2 ^ 63

/-- What the code relies on of `serde_json::from_slice`: it reads what `to_vec` wrote. -/
def ReadsBack (from_slice : List UInt8 → Option StoredMessageCursor) : Prop :=
  ∀ c, c.Representable → from_slice c.to_vec = some c

/-- The cursors of the code, with the reader of JSON. -/
def cursor_codec (from_slice : List UInt8 → Option StoredMessageCursor) : CursorCodec where
  parse text := (Hex.read (Json.bytes text.toList)).bind from_slice
  render c := String.ofList (Hex.write c.to_vec)

section Codec

variable {from_slice : List UInt8 → Option StoredMessageCursor} {c : StoredMessageCursor}

@[simp] theorem cursor_codec_render :
    (cursor_codec from_slice).render c = String.ofList (Hex.write c.to_vec) := rfl

@[simp] theorem cursor_codec_parse (text : String) :
    (cursor_codec from_slice).parse text
      = (Hex.read (Json.bytes text.toList)).bind from_slice := rfl

theorem size_render : ((cursor_codec from_slice).render c).utf8ByteSize = 2 * c.to_vec.length := by
  rw [← Json.length_bytes_toList, cursor_codec_render, String.toList_ofList, Hex.length_write]

theorem parse_render (hread : ReadsBack from_slice) (hc : c.Representable) :
    (cursor_codec from_slice).parse ((cursor_codec from_slice).render c) = some c := by
  rw [cursor_codec_parse, cursor_codec_render, String.toList_ofList, Hex.read_write,
    Option.bind_some, hread c hc]

theorem length_to_vec_pos (c : StoredMessageCursor) : 0 < c.to_vec.length := by
  rw [StoredMessageCursor.to_vec, StoredMessageCursor.text, Json.length_bytes, List.map_cons,
    List.sum_cons]
  exact Nat.add_pos_left (Char.utf8Size_pos _) _

theorem render_ne_empty : (cursor_codec from_slice).render c ≠ "" := by
  intro hempty
  have hsize := @size_render from_slice c
  rw [hempty, String.utf8ByteSize_empty] at hsize
  have hpos := length_to_vec_pos c
  omega

end Codec

/-! ## What a listing is about -/

/-- What commits leave: messages with an id, of a time that a cursor can hold. -/
structure Database.Listable (db : Database) : Prop where
  id : ∀ m ∈ db.synced_messages.rows, m.message.id ≠ ""
  created_at : ∀ m ∈ db.synced_messages.rows, 0 ≤ m.created_at ∧ m.created_at < 2 ^ 63
  generation : ∀ c ∈ db.connections.rows,
    0 < c.connection_generation ∧ c.connection_generation < 2 ^ 63

def StoredMessageQuery.connection (q : StoredMessageQuery) (db : Database) : Option Row :=
  (db.connections.find q.connection_id).filter
    (fun c => decide (c.connection.project_id = q.project_id) && q.sees c)

def StoredMessageQuery.start (q : StoredMessageQuery) (codec : CursorCodec) :
    Option (ℤ × String) :=
  match decode_stored_message_cursor codec q with
  | .ok cursor => cursor.map Prod.snd
  | .error _ => none

/-- A place in the listing: the newest is first. -/
def place (p : ℤ × String) : (ℤ ×ₗ String)ᵒᵈ := OrderDual.toDual (toLex p)

def StoredMessage.position (m : StoredMessage) : (ℤ ×ₗ String)ᵒᵈ :=
  place (m.created_at, m.message.id)

/-- The messages of a listing, the newest first. -/
def Database.listing (db : Database) (q : StoredMessageQuery) (generation : ℕ)
    (after : Option (ℤ × String)) : List StoredMessage :=
  Paging.ordered db.synced_messages (db.listed q generation after) StoredMessage.position

def StoredMessageQuery.cursor_at (q : StoredMessageQuery) (generation : ℕ) (m : StoredMessage) :
    StoredMessageCursor :=
  ⟨1, q.project_id, q.account_id, q.connection_id, generation, q.channel_id, m.created_at,
    m.message.id⟩

/-- The cursor behind a message is one that is taken back. -/
def StoredMessageQuery.carries (q : StoredMessageQuery) (generation : ℕ) (m : StoredMessage) :
    Bool :=
  decide (m.message.id.utf8ByteSize ≤ 512) && !m.message.id.toList.any is_control
    && decide ((q.cursor_at generation m).to_vec.length ≤ 2048)

/-- The last message of each page but the last page is one that a cursor can carry. -/
def StoredMessageQuery.Carried (q : StoredMessageQuery) (generation : ℕ)
    (rows : List StoredMessage) : Prop :=
  ∀ k m, rows[k]? = some m → q.limit ∣ k + 1 → k + 1 < rows.length →
    q.carries generation m = true

def StoredMessageQuery.resume (q : StoredMessageQuery) (cursor : String) : StoredMessageQuery :=
  { q with cursor := cursor }

/-- Pages read one after the other, at most `n` of them; nothing when there are more. -/
def Database.read_pages (codec : CursorCodec) (db : Database) :
    ℕ → StoredMessageQuery → Except Error (Option (List Message))
  | 0, _ => .ok none
  | n + 1, q =>
    match db.list_stored_messages codec db q with
    | .error e => .error e
    | .ok page =>
      if page.next_cursor = "" then .ok (some page.messages)
      else
        match Database.read_pages codec db n (q.resume page.next_cursor) with
        | .error e => .error e
        | .ok messages => .ok (messages.map (fun rest => page.messages ++ rest))

theorem read_pages_succ (codec : CursorCodec) (db : Database) (n : ℕ) (q : StoredMessageQuery) :
    db.read_pages codec (n + 1) q = match db.list_stored_messages codec db q with
    | .error e => .error e
    | .ok page =>
      if page.next_cursor = "" then .ok (some page.messages)
      else
        match db.read_pages codec n (q.resume page.next_cursor) with
        | .error e => .error e
        | .ok messages => .ok (messages.map (fun rest => page.messages ++ rest)) := (rfl)

/-- A listing that can be followed: the cursor of a page is taken back and says where the
page ended, and the pages together are the messages asked for, each once and in order. -/
structure Paginates (codec : CursorCodec) (db : Database) (q : StoredMessageQuery) : Prop where
  resumed : ∀ page, db.list_stored_messages codec db q = .ok page → page.next_cursor ≠ "" →
    (q.resume page.next_cursor).validate = .ok ()
      ∧ ∃ (c : Row) (last : StoredMessage), q.connection db = some c
        ∧ page.messages.getLast? = some last.message
        ∧ encode_stored_message_cursor codec q c.connection_generation last.created_at
            last.message.id = .ok page.next_cursor
        ∧ decode_stored_message_cursor codec (q.resume page.next_cursor)
            = .ok (some (c.connection_generation, last.created_at, last.message.id))
  whole : ∃ (n : ℕ) (rows : List StoredMessage),
    db.read_pages codec n q = .ok (some (rows.map StoredMessage.message))
    ∧ rows.Pairwise (fun a b => b.created_at < a.created_at
        ∨ (a.created_at = b.created_at ∧ b.message.id < a.message.id))
    ∧ ∀ m, m ∈ rows ↔ m ∈ db.synced_messages.rows ∧ ∃ c, q.connection db = some c
        ∧ db.listed q c.connection_generation (q.start codec) m = true

/-! ## The listing -/

section Listing

variable {db : Database} {q : StoredMessageQuery} {generation : ℕ}
  {after : Option (ℤ × String)} {m m' : StoredMessage}

theorem position_le : m.position ≤ m'.position ↔ newest_first m m' := by
  rw [StoredMessage.position, StoredMessage.position, place, place, OrderDual.toDual_le_toDual,
    Prod.Lex.toLex_le_toLex, newest_first]
  constructor
  · rintro (hlt | ⟨heq, hle⟩)
    · exact .inl hlt
    · exact .inr ⟨heq.symm, hle⟩
  · rintro (hlt | ⟨heq, hle⟩)
    · exact .inl hlt
    · exact .inr ⟨heq.symm, hle⟩

theorem position_lt : m.position < m'.position ↔ m'.created_at < m.created_at
    ∨ (m.created_at = m'.created_at ∧ m'.message.id < m.message.id) := by
  rw [StoredMessage.position, StoredMessage.position, place, place, OrderDual.toDual_lt_toDual,
    Prod.Lex.toLex_lt_toLex, eq_comm]

theorem select_newest_first (t : Table StoredMessage.key) (p : StoredMessage → Bool) (limit : ℕ) :
    t.select p newest_first limit = t.select p (fun a b => a.position ≤ b.position) limit := by
  congr! 1
  funext a b
  exact propext position_le.symm

variable (cursor : String)

@[simp] theorem listed_resume :
    db.listed (q.resume cursor) generation after = db.listed q generation after := rfl

@[simp] theorem listing_resume :
    db.listing (q.resume cursor) generation after = db.listing q generation after := rfl

theorem listed_scope (h : db.listed q generation after m = true) :
    m.project_id = q.project_id ∧ m.connection_id = q.connection_id := by
  simp only [Database.listed, Bool.and_eq_true, decide_eq_true_eq] at h
  exact ⟨h.1.1.1.1.1, h.1.1.1.2⟩

theorem listing_separates :
    Paging.Separates db.synced_messages (db.listed q generation after) StoredMessage.position := by
  intro m hm m' hm' hscope hscope' heq
  have hid : m.message.id = m'.message.id := by
    have hpair : (m.created_at, m.message.id) = (m'.created_at, m'.message.id) := heq
    exact congrArg Prod.snd hpair
  obtain ⟨hproject, hconnection⟩ := listed_scope hscope
  obtain ⟨hproject', hconnection'⟩ := listed_scope hscope'
  have hkey : m.key = m'.key := by
    rw [StoredMessage.key, StoredMessage.key, hproject, hproject', hconnection, hconnection', hid]
  exact List.inj_on_of_nodup_map db.synced_messages.nodup hm hm' hkey

theorem listed_iff : db.listed q generation after m = true
    ↔ db.listed q generation none m = true ∧ ∀ p ∈ after, place p < m.position := by
  have hsplit : db.listed q generation after m = (db.listed q generation none m
      && after.all (fun p => decide (m.created_at < p.1)
        || (decide (m.created_at = p.1) && decide (m.message.id < p.2)))) := by
    simp only [Database.listed, Option.all_none, Bool.and_true]
  rw [hsplit, Bool.and_eq_true]
  refine and_congr_right fun _ => ?_
  cases after with
  | none => simp
  | some p =>
    rw [Option.all_some, Bool.or_eq_true, Bool.and_eq_true, decide_eq_true_eq, decide_eq_true_eq,
      decide_eq_true_eq]
    simp only [Option.mem_def, Option.some.injEq, forall_eq']
    rw [StoredMessage.position, place, place, OrderDual.toDual_lt_toDual, Prod.Lex.toLex_lt_toLex]

theorem select_first (limit : ℕ) :
    db.synced_messages.select (db.listed q generation after) newest_first limit
      = (db.listing q generation after).take limit := by
  rw [select_newest_first]
  rfl

theorem select_next {n : ℕ} (h : (db.listing q generation after)[n]? = some m) (limit : ℕ) :
    db.synced_messages.select (db.listed q generation (some (m.created_at, m.message.id)))
        newest_first limit
      = ((db.listing q generation after).drop (n + 1)).take limit := by
  have hsep := @listing_separates db q generation after
  have hlisted : db.listed q generation after m = true :=
    (Paging.mem_ordered.mp (List.mem_of_getElem? h)).2
  have hread : Paging.Reading db.synced_messages (db.listed q generation after)
      StoredMessage.position ((db.listing q generation after).take (n + 1)) :=
    ⟨(Paging.ordered_sorted hsep).take,
      fun r hr => Paging.mem_ordered.mp (List.mem_of_mem_take hr)⟩
  have hlast : ((db.listing q generation after).take (n + 1)).getLast? = some m := by
    rw [List.take_add_one, h, Option.toList_some, List.getLast?_append, List.getLast?_singleton,
      Option.some_or]
  rw [select_newest_first, Database.listing, ← Paging.page_ordered hsep, Paging.page]
  refine Table.select_congr fun r _ => ?_
  rw [Bool.eq_iff_iff, Bool.and_eq_true, decide_eq_true_eq]
  refine Iff.trans ?_ (and_congr_right fun _ => (hread.last hlast r).symm)
  rw [listed_iff, @listed_iff db q generation after r]
  -- behind the message is behind where the listing starts
  have hstart := (listed_iff.mp hlisted).2
  constructor
  · rintro ⟨hscope, hbehind⟩
    have hlt := hbehind _ rfl
    exact ⟨⟨hscope, fun p hp => (hstart p hp).trans hlt⟩, hlt⟩
  · rintro ⟨⟨hscope, -⟩, hlt⟩
    refine ⟨hscope, fun p hp => ?_⟩
    cases hp
    exact hlt

end Listing

/-! ## What commits leave -/

section Commits

variable {t : Table StoredMessage.key} {j : Job} {now : ℤ} {m : Message} {r : StoredMessage}

theorem mem_store_message (h : r ∈ (store_message j now t m).rows) :
    r ∈ t.rows ∨ r = j.message now m ∨ ∃ old ∈ t.rows, r = (j.message now m).overwrite old := by
  simp only [store_message, Table.upsert] at h
  cases hinsert : t.insert (j.message now m) with
  | some t' =>
    rw [hinsert, Option.getD_some, (Table.insert_eq_some hinsert).2, List.mem_append,
      List.mem_singleton] at h
    exact h.imp_right .inl
  | none =>
    rw [hinsert, Option.getD_none] at h
    obtain ⟨old, hold, rfl | rfl⟩ := Table.mem_modify_rows _ h
    · exact .inl hold
    · exact .inr (.inr ⟨old, hold, rfl⟩)

/-- Rows with an id and a time that a cursor can hold. -/
def ListableRows (t : Table StoredMessage.key) : Prop :=
  ∀ r ∈ t.rows, r.message.id ≠ "" ∧ 0 ≤ r.created_at ∧ r.created_at < 2 ^ 63

theorem store_message_listable (hnow : 0 ≤ now ∧ now < 2 ^ 63) (hid : m.id ≠ "")
    (h : ListableRows t) : ListableRows (store_message j now t m) := by
  intro r hr
  rcases mem_store_message hr with hr | rfl | ⟨old, hold, rfl⟩
  · exact h r hr
  · exact ⟨hid, hnow⟩
  · obtain ⟨hid, htime⟩ := h old hold
    refine ⟨hid, ?_⟩
    rw [StoredMessage.overwrite]
    by_cases hgeneration : old.connection_generation ≠ (j.message now m).connection_generation
    · rw [if_pos hgeneration]
      exact hnow
    · rw [if_neg hgeneration]
      exact htime

theorem store_messages_listable {records : List Message} (hnow : 0 ≤ now ∧ now < 2 ^ 63)
    (hids : ∀ m ∈ records, m.id ≠ "") (h : ListableRows t) :
    ListableRows (records.foldl (store_message j now) t) := by
  induction records generalizing t with
  | nil => exact h
  | cons m records ih =>
    exact ih (fun m hm => hids m (List.mem_cons_of_mem _ hm))
      (store_message_listable hnow (hids m List.mem_cons_self) h)

theorem ids_of_validate {page : Page} (h : page.validate = .ok ()) :
    ∀ m ∈ page.records, m.id ≠ "" := by
  intro m hm hempty
  rw [Page.validate] at h
  split at h
  next => cases h
  next =>
    rw [if_pos] at h
    · cases h
    · rw [List.any_eq_true]
      exact ⟨m, hm, by rw [hempty]; rfl⟩

/-- **A commit leaves messages that can be listed.** -/
theorem commit_page_listable {env : Env} {clock : ℤ} {cursor : String} {page : Page}
    {connection : Option Connection} {db db' : Database} (hnow : 0 ≤ now ∧ now < 2 ^ 63)
    (hcommit : db.commit_page_checked env clock now j cursor page connection = .ok ((), db'))
    (h : db.Listable) : db'.Listable := by
  have hvalid : page.validate = .ok () := by
    rw [Database.commit_page_checked] at hcommit
    obtain ⟨⟨⟩, hvalid, -⟩ := bind_eq_ok hcommit
    exact hvalid
  obtain ⟨visits, -, hwritten⟩ := (commit_page_inv hcommit).written
  have hrows : ListableRows db'.synced_messages := by
    rw [hwritten.messages]
    exact store_messages_listable hnow (ids_of_validate hvalid)
      (fun r hr => ⟨h.id r hr, h.created_at r hr⟩)
  refine ⟨fun r hr => (hrows r hr).1, fun r hr => (hrows r hr).2, ?_⟩
  rw [hwritten.connections]
  exact h.generation

end Commits

/-! ## A cursor that is taken back -/

section Carried

variable {from_slice : List UInt8 → Option StoredMessageCursor} {db : Database}
  {q : StoredMessageQuery} {generation : ℕ} {m : StoredMessage}

/-- The cursor behind a message, as it is given out. -/
@[irreducible] def StoredMessageQuery.token (q : StoredMessageQuery)
    (from_slice : List UInt8 → Option StoredMessageCursor) (generation : ℕ) (m : StoredMessage) :
    String :=
  (cursor_codec from_slice).render (q.cursor_at generation m)

theorem token_ne_empty : q.token from_slice generation m ≠ "" := by
  rw [StoredMessageQuery.token]
  exact render_ne_empty

theorem size_token : (q.token from_slice generation m).utf8ByteSize
    = 2 * (q.cursor_at generation m).to_vec.length := by
  rw [StoredMessageQuery.token, size_render]

theorem encode_listed (hm : 0 ≤ m.created_at) :
    encode_stored_message_cursor (cursor_codec from_slice) q generation m.created_at m.message.id
      = .ok (q.token from_slice generation m) := by
  rw [encode_stored_message_cursor, if_neg (by omega), StoredMessageQuery.token,
    StoredMessageQuery.cursor_at]

theorem validate_resume (h : q.validate = .ok ()) (cursor : String) :
    (q.resume cursor).validate
      = if cursor.utf8ByteSize ≤ 4096 then .ok () else .error .InvalidInput := by
  obtain ⟨project_id, account_id, connection_id, channel_id, old, limit⟩ := q
  rw [StoredMessageQuery.validate] at h
  split at h
  next hvalid =>
    rw [Bool.and_eq_true] at hvalid
    rw [StoredMessageQuery.resume, StoredMessageQuery.validate]
    dsimp only at hvalid ⊢
    rw [hvalid.1, Bool.true_and]
    simp only [decide_eq_true_eq]
  next => cases h

theorem decode_token (hread : ReadsBack from_slice) (hdb : db.Listable)
    (hm : m ∈ db.synced_messages.rows) (hgeneration : 0 < generation ∧ generation < 2 ^ 63) :
    decode_stored_message_cursor (cursor_codec from_slice)
        (q.resume (q.token from_slice generation m))
      = if m.message.id.utf8ByteSize ≤ 512 ∧ m.message.id.toList.any is_control = false then
          .ok (some (generation, m.created_at, m.message.id))
        else .error .InvalidInput := by
  have htime := hdb.created_at m hm
  have hrepresentable : (q.cursor_at generation m).Representable := by
    refine ⟨by simp [StoredMessageQuery.cursor_at], ?_, ?_⟩
    · simp only [StoredMessageQuery.cursor_at]
      omega
    · simp only [StoredMessageQuery.cursor_at]
      omega
  have hparse := parse_render hread hrepresentable
  have hid := hdb.id m hm
  simp only [decode_stored_message_cursor, StoredMessageQuery.resume, StoredMessageQuery.token,
    if_neg render_ne_empty, hparse]
  simp only [StoredMessageQuery.cursor_at, ne_eq, not_true_eq_false, false_or, hid]
  by_cases hsize : m.message.id.utf8ByteSize ≤ 512 ∧ m.message.id.toList.any is_control = false
  · rw [if_pos hsize, if_neg]
    rintro (hpositive | hnegative | hlong | hcontrol)
    · omega
    · omega
    · omega
    · rw [hsize.2] at hcontrol
      cases hcontrol
  · rw [if_neg hsize, if_pos]
    by_cases hlong : m.message.id.utf8ByteSize ≤ 512
    · refine .inr (.inr (.inr ?_))
      rw [← Bool.not_eq_false]
      exact fun hplain => hsize ⟨hlong, hplain⟩
    · exact .inr (.inr (.inl (by omega)))

end Carried

/-! ## Pages -/

theorem limit_pos {q : StoredMessageQuery} (h : q.validate = .ok ()) : 1 ≤ q.limit := by
  rw [StoredMessageQuery.validate] at h
  split at h
  next hvalid =>
    simp only [Bool.and_eq_true, decide_eq_true_eq] at hvalid
    exact hvalid.1.1.2
  next => cases h

/-- The query asks for the messages of a listing behind the first `n`. -/
structure Standing (from_slice : List UInt8 → Option StoredMessageCursor) (db : Database)
    (c : Row) (after : Option (ℤ × String)) (q : StoredMessageQuery) (n : ℕ) : Prop where
  valid : q.validate = .ok ()
  connection : q.connection db = some c
  selects : ∃ cursor, decode_stored_message_cursor (cursor_codec from_slice) q = .ok cursor
    ∧ cursor.any (fun k => decide (k.1 ≠ (c.connection_generation : ℤ))) = false
    ∧ ∀ limit, db.synced_messages.select
        (db.listed q c.connection_generation (cursor.map Prod.snd)) newest_first limit
      = ((db.listing q c.connection_generation after).drop n).take limit

section Pages

variable {from_slice : List UInt8 → Option StoredMessageCursor} {db : Database} {c : Row}
  {after : Option (ℤ × String)} {q : StoredMessageQuery} {n : ℕ} {m : StoredMessage}

theorem generation_bounds (hdb : db.Listable) (h : q.connection db = some c) :
    0 < c.connection_generation ∧ c.connection_generation < 2 ^ 63 :=
  hdb.generation c (Table.find_eq_some.mp (Option.filter_eq_some_iff.mp h).1).1

theorem Standing.list (h : Standing from_slice db c after q n) :
    db.list_stored_messages (cursor_codec from_slice) db q
      = (do
        let rows := (db.listing q c.connection_generation after).drop n
        let next_cursor ← q.next_cursor (cursor_codec from_slice) c.connection_generation
          (if q.limit < rows.length then (rows.take q.limit).getLast? else none)
        .ok ⟨(rows.take q.limit).map StoredMessage.message, next_cursor,
          decide (q.limit < rows.length)⟩) := by
  obtain ⟨cursor, hdecode, hgeneration, hselect⟩ := h.selects
  have hconnection := h.connection
  rw [StoredMessageQuery.connection] at hconnection
  rw [Database.list_stored_messages, h.valid, hdecode]
  simp only [bind, Except.bind]
  rw [hconnection]
  simp only [hgeneration, Bool.false_eq_true, if_false, hselect]
  have hlength : ∀ rows : List StoredMessage,
      (q.limit < (rows.take (q.limit + 1)).length) = (q.limit < rows.length) := by
    intro rows
    rw [List.length_take, eq_iff_iff]
    omega
  have htake : ∀ rows : List StoredMessage,
      (rows.take (q.limit + 1)).take q.limit = rows.take q.limit := by
    intro rows
    rw [List.take_take, Nat.min_eq_left (by omega)]
  simp only [hlength, htake]

theorem Standing.list_last (h : Standing from_slice db c after q n)
    (hlast : ((db.listing q c.connection_generation after).drop n).length ≤ q.limit) :
    db.list_stored_messages (cursor_codec from_slice) db q
      = .ok ⟨((db.listing q c.connection_generation after).drop n).map StoredMessage.message, "",
          false⟩ := by
  rw [h.list]
  simp only [if_neg (not_lt.mpr hlast), StoredMessageQuery.next_cursor, bind, Except.bind,
    List.take_of_length_le hlast, decide_eq_false (not_lt.mpr hlast)]

theorem Standing.list_full (hdb : db.Listable) (h : Standing from_slice db c after q n)
    (hmore : q.limit < ((db.listing q c.connection_generation after).drop n).length) :
    ∃ m, ((db.listing q c.connection_generation after).drop n)[q.limit - 1]? = some m
      ∧ (((db.listing q c.connection_generation after).drop n).take q.limit).getLast? = some m
      ∧ m ∈ db.synced_messages.rows
      ∧ db.list_stored_messages (cursor_codec from_slice) db q
        = .ok ⟨(((db.listing q c.connection_generation after).drop n).take q.limit).map
            StoredMessage.message, q.token from_slice c.connection_generation m, true⟩ := by
  have hpos := limit_pos h.valid
  have hlist := h.list
  set rows := (db.listing q c.connection_generation after).drop n with hrows
  obtain ⟨m, hm⟩ : ∃ m, rows[q.limit - 1]? = some m :=
    ⟨_, List.getElem?_eq_getElem (by omega)⟩
  have hlast : (rows.take q.limit).getLast? = some m := by
    rw [List.getLast?_eq_getElem?, List.length_take, Nat.min_eq_left (by omega),
      List.getElem?_take_of_lt (by omega), hm]
  have hstored : m ∈ db.synced_messages.rows :=
    (Paging.mem_ordered.mp (List.mem_of_mem_drop (List.mem_of_getElem? hm))).1
  refine ⟨m, hm, hlast, hstored, ?_⟩
  rw [hlist]
  simp only [if_pos hmore, hlast, StoredMessageQuery.next_cursor,
    encode_listed (hdb.created_at m hstored).1, bind, Except.bind, decide_eq_true hmore]

theorem Standing.resume (hread : ReadsBack from_slice) (hdb : db.Listable)
    (h : Standing from_slice db c after q n)
    (hm : ((db.listing q c.connection_generation after).drop n)[q.limit - 1]? = some m)
    (hcarries : q.carries c.connection_generation m = true) :
    Standing from_slice db c after
      (q.resume (q.token from_slice c.connection_generation m)) (n + q.limit) := by
  have hpos := limit_pos h.valid
  rw [StoredMessageQuery.carries, Bool.and_eq_true, Bool.and_eq_true, decide_eq_true_eq,
    decide_eq_true_eq, Bool.not_eq_true'] at hcarries
  have hstored : m ∈ db.synced_messages.rows :=
    (Paging.mem_ordered.mp (List.mem_of_mem_drop (List.mem_of_getElem? hm))).1
  refine ⟨?_, h.connection, some (c.connection_generation, m.created_at, m.message.id), ?_, ?_, ?_⟩
  · rw [validate_resume h.valid, size_token, if_pos (by omega)]
  · rw [decode_token hread hdb hstored (generation_bounds hdb h.connection), if_pos hcarries.1]
  · simp
  · intro limit
    rw [List.getElem?_drop] at hm
    have hnext := select_next hm limit
    rw [show n + (q.limit - 1) + 1 = n + q.limit by omega] at hnext
    rw [listed_resume, listing_resume]
    exact hnext

theorem Standing.refused (hread : ReadsBack from_slice) (hdb : db.Listable)
    (h : Standing from_slice db c after q n) (hm : m ∈ db.synced_messages.rows)
    (hcarries : q.carries c.connection_generation m = false) :
    db.list_stored_messages (cursor_codec from_slice) db
      (q.resume (q.token from_slice c.connection_generation m)) = .error .InvalidInput := by
  have hvalid := validate_resume h.valid (q.token from_slice c.connection_generation m)
  have hsize := @size_token from_slice q c.connection_generation m
  have hdecode := @decode_token from_slice db q c.connection_generation m hread hdb hm
    (generation_bounds hdb h.connection)
  rw [Database.list_stored_messages, hvalid]
  by_cases hshort : (q.token from_slice c.connection_generation m).utf8ByteSize ≤ 4096
  · rw [if_neg] at hdecode
    · rw [if_pos hshort, hdecode]
      rfl
    · rintro ⟨hid, hplain⟩
      rw [StoredMessageQuery.carries, hplain, decide_eq_true hid,
        decide_eq_true (by omega)] at hcarries
      cases hcarries
  · rw [if_neg hshort]
    rfl

@[simp] theorem carried_resume (cursor : String) (generation : ℕ) (rows : List StoredMessage) :
    (q.resume cursor).Carried generation rows = q.Carried generation rows := rfl

theorem carried_drop {rows : List StoredMessage} {generation : ℕ} (hpos : 1 ≤ q.limit)
    (hmore : q.limit < rows.length) (hm : rows[q.limit - 1]? = some m) :
    q.Carried generation rows
      ↔ q.carries generation m = true ∧ q.Carried generation (rows.drop q.limit) := by
  constructor
  · intro h
    refine ⟨h (q.limit - 1) m hm ?_ (by omega), fun k m' hk hdvd hlt => ?_⟩
    · rw [Nat.sub_add_cancel hpos]
    · rw [List.getElem?_drop] at hk
      rw [List.length_drop] at hlt
      exact h (q.limit + k) m' hk ((Nat.dvd_add_right (dvd_refl _)).mpr hdvd) (by omega)
  · rintro ⟨hcarries, h⟩ k m' hk hdvd hlt
    have hle : q.limit ≤ k + 1 := Nat.le_of_dvd (by omega) hdvd
    by_cases hfirst : k + 1 = q.limit
    · rw [show q.limit - 1 = k by omega, hk] at hm
      cases hm
      exact hcarries
    · obtain ⟨i, rfl⟩ : ∃ i, k = q.limit + i := ⟨k - q.limit, by omega⟩
      refine h i m' (by rw [List.getElem?_drop]; exact hk) ?_ (by rw [List.length_drop]; omega)
      exact (Nat.dvd_add_right (dvd_refl _)).mp hdvd

theorem Standing.read (hread : ReadsBack from_slice) (hdb : db.Listable) (size : ℕ)
    (h : Standing from_slice db c after q n)
    (hsize : ((db.listing q c.connection_generation after).drop n).length ≤ size)
    (hcarried : q.Carried c.connection_generation
      ((db.listing q c.connection_generation after).drop n)) :
    db.read_pages (cursor_codec from_slice) (size + 1) q
      = .ok (some (((db.listing q c.connection_generation after).drop n).map
          StoredMessage.message)) := by
  induction size generalizing q n with
  | zero =>
    rw [read_pages_succ, h.list_last (by omega)]
    rfl
  | succ size ih =>
    have hpos := limit_pos h.valid
    rw [read_pages_succ]
    by_cases hlast : ((db.listing q c.connection_generation after).drop n).length ≤ q.limit
    · rw [h.list_last hlast]
      rfl
    · obtain ⟨m, hm, -, -, hlist⟩ := h.list_full hdb (not_le.mp hlast)
      obtain ⟨hcarries, hrest⟩ := (carried_drop hpos (not_le.mp hlast) hm).mp hcarried
      have hnext := h.resume hread hdb hm hcarries
      rw [List.drop_drop] at hrest
      have hpages := ih hnext
        (by rw [listing_resume, ← List.drop_drop, List.length_drop]; omega)
        (by rw [listing_resume, carried_resume]; exact hrest)
      rw [listing_resume] at hpages
      rw [hlist]
      simp only [if_neg token_ne_empty, hpages]
      rw [Except.ok.injEq, Option.map_some, Option.some.injEq, ← List.map_append,
        ← List.drop_drop, List.take_append_drop]

theorem Standing.of_read (hread : ReadsBack from_slice) (hdb : db.Listable) {fuel : ℕ}
    {messages : List Message} (h : Standing from_slice db c after q n)
    (hpages : db.read_pages (cursor_codec from_slice) fuel q = .ok (some messages)) :
    q.Carried c.connection_generation ((db.listing q c.connection_generation after).drop n) := by
  induction fuel generalizing q n messages with
  | zero => cases hpages
  | succ fuel ih =>
    have hpos := limit_pos h.valid
    by_cases hlast : ((db.listing q c.connection_generation after).drop n).length ≤ q.limit
    · -- the last page has no cursor
      intro k m _ hdvd hlt
      have hle : q.limit ≤ k + 1 := Nat.le_of_dvd (by omega) hdvd
      omega
    · obtain ⟨m, hm, -, hstored, hlist⟩ := h.list_full hdb (not_le.mp hlast)
      rw [read_pages_succ, hlist] at hpages
      simp only [if_neg token_ne_empty] at hpages
      rw [carried_drop hpos (not_le.mp hlast) hm]
      cases hcarries : q.carries c.connection_generation m with
      | false =>
        have hrefused := h.refused hread hdb hstored hcarries
        cases fuel with
        | zero => cases hpages
        | succ fuel =>
          rw [read_pages_succ, hrefused] at hpages
          cases hpages
      | true =>
        refine ⟨rfl, ?_⟩
        have hnext := h.resume hread hdb hm hcarries
        split at hpages
        next => cases hpages
        next rest hrest =>
          cases rest with
          | none => cases hpages
          | some rest =>
            have hbehind := ih hnext hrest
            rw [listing_resume, carried_resume] at hbehind
            rw [List.drop_drop]
            exact hbehind

theorem standing_of_list {page : StoredMessagePage}
    (h : db.list_stored_messages (cursor_codec from_slice) db q = .ok page) :
    ∃ c, Standing from_slice db c (q.start (cursor_codec from_slice)) q 0 := by
  rw [Database.list_stored_messages] at h
  obtain ⟨⟨⟩, hvalid, h⟩ := bind_eq_ok h
  obtain ⟨cursor, hdecode, h⟩ := bind_eq_ok h
  split at h
  next => cases h
  next c hc =>
    split at h
    next => cases h
    next hgeneration =>
      refine ⟨c, hvalid, hc, cursor, hdecode, by simpa using hgeneration, fun limit => ?_⟩
      have hstart : q.start (cursor_codec from_slice) = cursor.map Prod.snd := by
        rw [StoredMessageQuery.start, hdecode]
      rw [hstart, List.drop_zero, select_first]

end Pages

/-! ## Listings that can be followed -/

/-- **A listing can be followed to its end exactly if the last message of each page but the
last has an id of at most 512 bytes without control characters and a cursor of at most
2048 bytes.** -/
theorem paginates_iff_carried {from_slice : List UInt8 → Option StoredMessageCursor}
    (hread : ReadsBack from_slice) {db : Database} (hdb : db.Listable) {q : StoredMessageQuery}
    {first : StoredMessagePage}
    (hfirst : db.list_stored_messages (cursor_codec from_slice) db q = .ok first) :
    Paginates (cursor_codec from_slice) db q
      ↔ ∀ c, q.connection db = some c → q.Carried c.connection_generation
          (db.listing q c.connection_generation (q.start (cursor_codec from_slice))) := by
  obtain ⟨c, hc⟩ := standing_of_list hfirst
  constructor
  · intro h c' hc'
    rw [hc.connection] at hc'
    cases hc'
    obtain ⟨fuel, rows, hpages, -⟩ := h.whole
    exact hc.of_read hread hdb hpages
  · intro h
    have hcarried := h c hc.connection
    refine ⟨fun page hpage hcursor => ?_, ?_⟩
    · by_cases hlast : ((db.listing q c.connection_generation
          (q.start (cursor_codec from_slice))).drop 0).length ≤ q.limit
      · rw [hc.list_last hlast] at hpage
        cases hpage
        exact absurd rfl hcursor
      · obtain ⟨m, hm, hgetLast, hstored, hlist⟩ := hc.list_full hdb (not_le.mp hlast)
        rw [hlist] at hpage
        cases hpage
        have hcarries := ((carried_drop (limit_pos hc.valid) (not_le.mp hlast) hm).mp hcarried).1
        have hnext := hc.resume hread hdb hm hcarries
        refine ⟨hnext.valid, c, m, hc.connection, ?_, encode_listed (hdb.created_at m hstored).1,
          ?_⟩
        · rw [List.getLast?_map, hgetLast]
          rfl
        · rw [StoredMessageQuery.carries, Bool.and_eq_true, Bool.and_eq_true, decide_eq_true_eq,
            Bool.not_eq_true'] at hcarries
          rw [decode_token hread hdb hstored (generation_bounds hdb hc.connection),
            if_pos hcarries.1]
    · refine ⟨_, _, hc.read hread hdb _ le_rfl hcarried, ?_, fun m => ?_⟩
      · exact (Paging.ordered_sorted listing_separates).imp (fun h => position_lt.mp h)
      · rw [List.drop_zero, Database.listing, Paging.mem_ordered]
        refine and_congr_right fun _ => ⟨fun hlisted => ⟨c, hc.connection, hlisted⟩, ?_⟩
        rintro ⟨c', hc', hlisted⟩
        rw [hc.connection] at hc'
        cases hc'
        exact hlisted

namespace Sample

/-! ### A reader of cursors -/

def read_digits (text : List Char) : Option (ℕ × List Char) :=
  (Decimal.read (text.takeWhile Char.isDigit)).map (fun n => (n, text.dropWhile Char.isDigit))

def read_i64 : List Char → Option (ℤ × List Char)
  | '-' :: rest => (read_digits rest).map (fun r => (-(r.1 : ℤ), r.2))
  | text => (read_digits text).map (fun r => ((r.1 : ℤ), r.2))

def read_string (text : List Char) : Option (String × List Char) :=
  (Json.read text).map (fun r => (String.ofList r.1, r.2))

def read_option : List Char → Option (Option String × List Char)
  | 'n' :: 'u' :: 'l' :: 'l' :: rest => some (none, rest)
  | text => (read_string text).map (fun r => (some r.1, r.2))

section Members

variable {α : Type} (read : List Char → Option (α × List Char))

/-- The name of a member, the colon and its value. -/
def read_member (name : String) (text : List Char) : Option (α × List Char) :=
  (Json.strip (Json.quote name.toList ++ [':']) text).bind read

def read_next (name : String) (text : List Char) : Option (α × List Char) :=
  (Json.strip [','] text).bind (read_member read name)

end Members

/-- The members of a cursor in their order. -/
def read_cursor (text : List Char) : Option StoredMessageCursor := do
  let text ← Json.strip ['\x7b'] text
  let (version, text) ← read_member read_digits "version" text
  let (project_id, text) ← read_next read_string "project_id" text
  let (account_id, text) ← read_next read_string "account_id" text
  let (connection_id, text) ← read_next read_string "connection_id" text
  let (connection_generation, text) ← read_next read_i64 "connection_generation" text
  let (channel_id, text) ← read_next read_option "channel_id" text
  let (created_at_micros, text) ← read_next read_i64 "created_at_micros" text
  let (id, text) ← read_next read_string "id" text
  if text = ['\x7d'] then
    some ⟨version, project_id, account_id, connection_id, connection_generation, channel_id,
      created_at_micros, id⟩
  else none

def from_slice (bytes : List UInt8) : Option StoredMessageCursor :=
  (Json.text_of bytes).bind read_cursor

theorem read_digits_write (n : ℕ) {c : Char} (hc : c.isDigit = false) (rest : List Char) :
    read_digits (Decimal.write n ++ c :: rest) = some (n, c :: rest) := by
  have hdigits : ∀ d ∈ Decimal.write n, d.isDigit = true := fun d hd => (Decimal.mem_write hd).1
  rw [read_digits, List.takeWhile_append_of_pos hdigits, List.dropWhile_append_of_pos hdigits,
    List.takeWhile_cons_of_neg (by rw [hc]; decide),
    List.dropWhile_cons_of_neg (by rw [hc]; decide),
    List.append_nil, Decimal.read_write, Option.map_some]

theorem read_i64_write (n : ℤ) {c : Char} (hc : c.isDigit = false) (rest : List Char) :
    read_i64 (Decimal.write_int n ++ c :: rest) = some (n, c :: rest) := by
  rw [Decimal.write_int]
  by_cases hneg : n < 0
  · rw [if_pos hneg, List.cons_append, read_i64, read_digits_write n.natAbs hc, Option.map_some]
    simp only [Option.some.injEq, Prod.mk.injEq, and_true]
    omega
  · rw [if_neg hneg, read_i64, read_digits_write n.natAbs hc, Option.map_some]
    · simp only [Option.some.injEq, Prod.mk.injEq, and_true]
      omega
    · intro tail heq
      -- a number does not begin with a sign
      obtain ⟨d, digits, hwrite⟩ := List.exists_cons_of_ne_nil (Decimal.write_ne_nil n.natAbs)
      rw [hwrite, List.cons_append, List.cons.injEq] at heq
      have hdigit := (@Decimal.mem_write n.natAbs d (by rw [hwrite]; exact List.mem_cons_self)).1
      rw [heq.1] at hdigit
      cases hdigit

theorem read_string_quote (s : String) (rest : List Char) :
    read_string (Json.quote s.toList ++ rest) = some (s, rest) := by
  rw [read_string, Json.read_quote, Option.map_some, String.ofList_toList]

theorem read_option_write (s : Option String) (rest : List Char) :
    read_option (write_option s ++ rest) = some (s, rest) := by
  cases s with
  | none => rfl
  | some s =>
    have hquote : ∃ tail, Json.quote s.toList ++ rest = '"' :: tail := ⟨_, rfl⟩
    have hread := read_string_quote s rest
    obtain ⟨tail, htail⟩ := hquote
    rw [write_option, htail, read_option]
    · rw [← htail, hread, Option.map_some]
    · intro tail' heq
      simp at heq

theorem strip_cons (c : Char) (rest : List Char) : Json.strip [c] (c :: rest) = some rest :=
  Json.strip_append [c] rest

theorem read_member_write {α : Type} {read : List Char → Option (α × List Char)} {name : String}
    {value rest : List Char} {a : α} (h : read (value ++ rest) = some (a, rest)) :
    read_member read name (write_member name value rest) = some (a, rest) := by
  have hsplit : write_member name value rest
      = (Json.quote name.toList ++ [':']) ++ (value ++ rest) := by
    rw [write_member, List.append_assoc]
    rfl
  rw [read_member, hsplit, Json.strip_append, Option.bind_some, h]

theorem read_next_write {α : Type} {read : List Char → Option (α × List Char)} {name : String}
    {value rest : List Char} {a : α} (h : read (value ++ rest) = some (a, rest)) :
    read_next read name (',' :: write_member name value rest) = some (a, rest) := by
  rw [read_next, strip_cons, Option.bind_some, read_member_write h]

theorem from_slice_reads : ReadsBack from_slice := by
  intro c _
  have hcomma : ','.isDigit = false := by decide
  rw [from_slice, StoredMessageCursor.to_vec, Json.text_of_bytes, Option.bind_some, read_cursor,
    StoredMessageCursor.text, strip_cons, Option.bind_eq_bind, Option.bind_some]
  -- each member in its turn
  rw [read_member_write (read_digits_write _ hcomma _), Option.bind_eq_bind, Option.bind_some]
  dsimp only
  rw [read_next_write (read_string_quote _ _), Option.bind_eq_bind, Option.bind_some]
  dsimp only
  rw [read_next_write (read_string_quote _ _), Option.bind_eq_bind, Option.bind_some]
  dsimp only
  rw [read_next_write (read_string_quote _ _), Option.bind_eq_bind, Option.bind_some]
  dsimp only
  rw [read_next_write (read_i64_write _ hcomma _), Option.bind_some]
  dsimp only
  rw [read_next_write (read_option_write _ _), Option.bind_some]
  dsimp only
  rw [read_next_write (read_i64_write _ hcomma _), Option.bind_some]
  dsimp only
  rw [read_next_write (read_string_quote _ _), Option.bind_some]
  dsimp only
  rw [if_pos rfl]

/-! ### Two messages -/

def claimed : JobRow := ((request "j").row 0 1).take 0 "w" 1000 0

def working : Database := { database with sync_jobs := ⟨[claimed], by decide⟩ }

/-- A last page of two messages, one after the other. -/
def two (first second : String) : Page :=
  ⟨[{ message with id := first }, { message with id := second }], "", 2⟩

/-- The database after the commit of a page of two messages. -/
def stored (first second : String) : Database :=
  match working.commit_page_checked env 1 1 claimed.job "" (two first second) none with
  | .ok (_, db) => db
  | .error _ => working

/-- All messages of the connection, one on a page. -/
def query : StoredMessageQuery := ⟨"p", "", "c", none, "", 1⟩

theorem working_listable : working.Listable :=
  ⟨fun _ h => absurd h List.not_mem_nil, fun _ h => absurd h List.not_mem_nil, by decide⟩

theorem stored_committed {first second : String}
    (h : (working.commit_page_checked env 1 1 claimed.job ""
        (two first second) none).toOption.isSome
      = true) :
    working.commit_page_checked env 1 1 claimed.job "" (two first second) none
      = .ok ((), stored first second) := by
  rw [stored]
  split
  next db hcommit => exact hcommit
  next e hcommit =>
    rw [hcommit] at h
    cases h

theorem stored_listable {first second : String}
    (h : (working.commit_page_checked env 1 1 claimed.job ""
        (two first second) none).toOption.isSome
      = true) : (stored first second).Listable :=
  commit_page_listable (by decide) (stored_committed h) working_listable

end Sample

/-- Two plain ids can be listed one by one. -/
theorem plain_ids_paginate :
    Paginates (cursor_codec Sample.from_slice) (Sample.stored "a" "b") Sample.query := by
  have hfirst : ((Sample.stored "a" "b").list_stored_messages (cursor_codec Sample.from_slice)
      (Sample.stored "a" "b") Sample.query).isOk = true := by decide
  have hconnection : Sample.query.connection (Sample.stored "a" "b")
      = some ⟨Sample.connection, 1, 0⟩ := by decide
  have hcarries : ∀ m ∈ (Sample.stored "a" "b").synced_messages.rows,
      Sample.query.carries 1 m = true := by decide +kernel
  cases hlist : (Sample.stored "a" "b").list_stored_messages (cursor_codec Sample.from_slice)
      (Sample.stored "a" "b") Sample.query with
  | error e =>
    rw [hlist] at hfirst
    cases hfirst
  | ok first =>
    refine (paginates_iff_carried Sample.from_slice_reads
      (Sample.stored_listable (by decide)) hlist).mpr ?_
    intro c hc k m hk _ _
    rw [hconnection] at hc
    cases hc
    exact hcarries m (Paging.mem_ordered.mp (List.mem_of_getElem? hk)).1

/-- The cursor behind an id with a line break is refused. -/
theorem line_break_refused :
    Sample.working.commit_page_checked Sample.env 1 1 Sample.claimed.job "" (Sample.two "a" "b\n")
        none = .ok ((), Sample.stored "a" "b\n")
      ∧ Sample.query.validate = .ok ()
      ∧ ¬ Paginates (cursor_codec Sample.from_slice) (Sample.stored "a" "b\n") Sample.query := by
  have hfirst : ((Sample.stored "a" "b\n").list_stored_messages (cursor_codec Sample.from_slice)
      (Sample.stored "a" "b\n") Sample.query).isOk = true := by decide
  have hconnection : Sample.query.connection (Sample.stored "a" "b\n")
      = some ⟨Sample.connection, 1, 0⟩ := by decide
  have hcarries : ((Sample.stored "a" "b\n").listing Sample.query 1
      (Sample.query.start (cursor_codec Sample.from_slice))).map (Sample.query.carries 1)
        = [false, true] := by decide +kernel
  have hstored := @Sample.stored_committed "a" "b\n" (by decide)
  refine ⟨hstored, by decide, fun h => ?_⟩
  cases hlist : (Sample.stored "a" "b\n").list_stored_messages (cursor_codec Sample.from_slice)
      (Sample.stored "a" "b\n") Sample.query with
  | error e =>
    rw [hlist] at hfirst
    cases hfirst
  | ok first =>
    have hlistable := @Sample.stored_listable "a" "b\n" (by decide)
    have hcarried := (paginates_iff_carried Sample.from_slice_reads hlistable hlist).mp h _
      hconnection
    -- the newer message, on the first page, is the one that cannot be carried
    have hhead := congrArg List.head? hcarries
    have hlength := congrArg List.length hcarries
    rw [List.length_map] at hlength
    rw [List.head?_map, List.head?_eq_getElem?] at hhead
    obtain ⟨m, hm, hfalse⟩ := Option.map_eq_some_iff.mp hhead
    have htrue := hcarried 0 m hm (by decide) (by rw [hlength]; decide)
    rw [hfalse] at htrue
    cases htrue

end Appcall.Sync
