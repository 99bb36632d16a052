/-
What a poller of the accepted relations receives.

A client has read, in strict order, rows of its scope, and its cursor is the last of
them. So it receives nothing twice. It has everything up to its cursor as long as
relations commit behind it, which their time does not promise: it is the start of a
transaction that may commit after a later one was read.
-/
import Appcall.Provider.Relations
import Mathlib.Data.Nat.Digits.Lemmas

set_option autoImplicit false

namespace Appcall.Provider

variable {k : Crates} {s : System}

/-! ## Rows and their positions -/

theorem Identifier.ext_text {a b : Identifier} (h : a.text = b.text) : a = b := by
  cases a
  cases b
  cases h
  rfl

variable {project brand : String} {r : Relation} {t : Relations} {rows : List Relation} {c : Client}
  {page : Page}

theorem in_scope_project (h : r.in_scope project brand = true) : r.project_id = project := by
  rw [Relation.in_scope, Bool.and_eq_true, decide_eq_true_eq] at h
  exact h.1

theorem in_scope_brand (h : r.in_scope project brand = true) (hbrand : brand.isEmpty = false) :
    r.external_account_id.text = brand := by
  rw [Relation.in_scope, hbrand, Bool.false_or, Bool.and_eq_true, decide_eq_true_eq,
    decide_eq_true_eq] at h
  exact h.2

theorem row_of_texts {r' : Relation} (hr : r ∈ t.rows) (hr' : r' ∈ t.rows)
    (hproject : r.project_id = r'.project_id)
    (hbrand : r.external_account_id.text = r'.external_account_id.text)
    (hmember : r.provider_member_id.text = r'.provider_member_id.text) : r = r' := by
  refine List.inj_on_of_nodup_map t.nodup hr hr' ?_
  rw [Relation.key, Relation.key, hproject, Identifier.ext_text hbrand,
    Identifier.ext_text hmember]

theorem position_separates (t : Relations) (project brand : String) :
    Paging.Separates t (Relation.in_scope project brand) Relation.position := by
  intro r hr r' hr' hscope hscope' heq
  have hinner := (Prod.ext_iff.mp (toLex.injective heq)).2
  have htexts := Prod.ext_iff.mp (toLex.injective hinner)
  exact row_of_texts hr hr' ((in_scope_project hscope).trans (in_scope_project hscope').symm)
    htexts.1 htexts.2

/-! ## Answers -/

/-- The cursor behind the last of some rows. -/
def cursor_of (k : Crates) (brand : String) (rows : List Relation) : String :=
  rows.getLast?.elim "" (fun r => encode_accepted_cursor k brand r.external_account_id.text
    r.provider_member_id.text r.accepted_at)

/-- The client was given the rows, and its cursor is behind them. -/
structure Client.Follows (k : Crates) (t : Relations) (c : Client) (rows : List Relation) :
    Prop where
  reading : Paging.Reading t (Relation.in_scope c.project c.brand.text) Relation.position rows
  received : c.received = rows.map (Relation.to_value k)
  cursor : c.cursor = cursor_of k c.brand.text rows

theorem foldl_last {α β : Type} (f : α → β) (l : List α) (b : β) :
    l.foldl (fun _ a => f a) b = l.getLast?.elim b f := by
  induction l using List.reverseRecOn with
  | nil => rfl
  | append_singleton l a _ => simp

theorem string_text (a : Identifier) : string (.text a.text) = .ok a := by
  rw [string, dif_pos ⟨a.short, a.no_nul⟩]

theorem cursor_ok {v v' : String} (h : cursor (.text v) = .ok v') : v' = v := by
  rw [cursor] at h
  split at h
  · exact (Except.ok.inj h).symm
  · cases h

theorem before_iff
    (hreading : Paging.Reading t (Relation.in_scope project brand) Relation.position rows)
    {parsed : AcceptedCursor}
    (hparsed : parse_accepted_cursor k (cursor_of k brand rows) brand = .ok parsed) (r : Relation) :
    parsed.before r = decide (∀ r' ∈ rows, r'.position < r.position) := by
  rw [cursor_of] at hparsed
  cases hlast : rows.getLast? with
  | none =>
    rw [hlast] at hparsed
    cases hparsed
    rw [List.getLast?_eq_none_iff.mp hlast]
    simp [AcceptedCursor.before]
  | some last =>
    rw [hlast, Option.elim_some, parse_encode] at hparsed
    split at hparsed
    · cases hparsed
    · split at hparsed
      · cases hparsed
      · cases htime : k.parse_from_rfc3339 (k.to_rfc3339_opts last.accepted_at) with
        | none =>
          rw [htime] at hparsed
          cases hparsed
        | some time =>
          rw [htime] at hparsed
          cases hparsed
          rw [k.parse_sound _ _ htime, AcceptedCursor.before, if_neg Bool.false_ne_true]
          exact decide_eq_decide.mpr (hreading.last hlast r).symm

/-- **A poll goes on behind what the client was given.** -/
theorem answer_page (h : c.Follows k s.relations rows) (hpage : s.answer k c = .ok page) :
    ∃ more, more = Paging.page s.relations (Relation.in_scope c.project c.brand.text)
        Relation.position rows ACCEPTED_RELATIONS_LIMIT
      ∧ page.accepted = more.map (Relation.to_value k)
      ∧ page.nextCursor = cursor_of k c.brand.text (rows ++ more) := by
  rw [System.answer, handle_accepted, string_text] at hpage
  obtain ⟨brand, hbrand, hpage⟩ := bind_eq_ok hpage
  cases hbrand
  obtain ⟨since, hsince, hpage⟩ := bind_eq_ok hpage
  rw [cursor_ok hsince] at hpage
  obtain ⟨parsed, hparsed, hpage⟩ := bind_eq_ok hpage
  have hrows : accepted_rows s.relations c.project c.brand.text parsed
      = Paging.page s.relations (Relation.in_scope c.project c.brand.text)
        Relation.position rows ACCEPTED_RELATIONS_LIMIT := by
    rw [accepted_rows, Paging.page]
    congr 1
    funext r
    rw [h.cursor] at hparsed
    rw [before_iff h.reading hparsed]
  refine ⟨_, rfl, ?_⟩
  rw [← hrows]
  cases hpage
  refine ⟨rfl, ?_⟩
  dsimp only
  rw [foldl_last, h.cursor, cursor_of, cursor_of, List.getLast?_append]
  cases (accepted_rows s.relations c.project c.brand.text parsed).getLast? <;> rfl

/-! ## Steps -/

theorem step_relations (k : Crates) (s : System) (op : Op) :
    (∀ r ∈ s.relations.rows, r ∈ (step k s op).relations.rows)
    ∧ ∀ r ∈ (step k s op).relations.rows, r ∈ s.relations.rows
      ∨ ∃ id w, op = .commit id ∧ s.writers.find id = some w ∧ w.row = some r := by
  have hsame : (step k s op).relations = s.relations →
      (∀ r ∈ s.relations.rows, r ∈ (step k s op).relations.rows)
      ∧ ∀ r ∈ (step k s op).relations.rows, r ∈ s.relations.rows
        ∨ ∃ id w, op = .commit id ∧ s.writers.find id = some w ∧ w.row = some r := by
    intro h
    rw [h]
    exact ⟨fun r hr => hr, fun r hr => .inl hr⟩
  cases op with
  | commit id =>
    rw [step]
    cases hw : s.writers.find id with
    | none => exact ⟨fun r hr => hr, fun r hr => .inl hr⟩
    | some w =>
      dsimp only
      split
      · cases hrow : w.row with
        | none => exact ⟨fun r hr => hr, fun r hr => .inl hr⟩
        | some r =>
          refine ⟨fun r' hr' => ?_, fun r' hr' => ?_⟩
          · exact (Table.find_eq_some.mp
              (Table.find_insert_getD (Table.find_eq_some.mpr ⟨hr', rfl⟩))).1
          · rcases Table.mem_insert_getD hr' with hr' | ⟨rfl, -⟩
            · exact .inl hr'
            · exact .inr ⟨id, w, rfl, hw, hrow⟩
      · exact ⟨fun r hr => hr, fun r hr => .inl hr⟩
  | _ =>
    apply hsame
    simp only [step]
    repeat' (first | rfl | split)

theorem step_clients (k : Crates) (s : System) (op : Op) :
    ∀ c ∈ (step k s op).clients.rows, c ∈ s.clients.rows
      ∨ ((step k s op).relations = s.relations ∧ c.cursor = "" ∧ c.received = [])
      ∨ ∃ c₀ ∈ s.clients.rows, ∃ page, s.answer k c₀ = .ok page ∧ c = c₀.take page
        ∧ (step k s op).relations = s.relations := by
  have hsame : (step k s op).clients = s.clients →
      ∀ c ∈ (step k s op).clients.rows, c ∈ s.clients.rows
        ∨ ((step k s op).relations = s.relations ∧ c.cursor = "" ∧ c.received = [])
        ∨ ∃ c₀ ∈ s.clients.rows, ∃ page, s.answer k c₀ = .ok page ∧ c = c₀.take page
          ∧ (step k s op).relations = s.relations := by
    intro h c hc
    exact .inl (h ▸ hc)
  cases op with
  | client id project brandId =>
    rw [step]
    cases string brandId with
    | error e => exact fun c hc => .inl hc
    | ok brand =>
      intro c hc
      rcases Table.mem_insert_getD hc with hc | ⟨rfl, -⟩
      · exact .inl hc
      · exact .inr (.inl ⟨rfl, rfl, rfl⟩)
  | poll id =>
    rw [step]
    cases hfind : s.clients.find id with
    | none => exact fun c hc => .inl hc
    | some c₀ =>
      cases hpage : s.answer k c₀ with
      | error e =>
        simp only [hpage]
        exact fun c hc => .inl hc
      | ok page =>
        simp only [hpage]
        intro c hc
        rcases Table.mem_modify hfind (f := fun c => c.take page) (fun _ => rfl) hc with
          rfl | ⟨hc, -⟩
        · exact .inr (.inr ⟨c₀, (Table.find_eq_some.mp hfind).1, page, hpage, rfl, trivial⟩)
        · exact .inl hc
  | _ =>
    apply hsame
    simp only [step]
    repeat' (first | rfl | split)

/-! ## Runs -/

def Accepted.ids (a : Accepted) : String × String := (a.brandId, a.memberId)

/-- The relation as a client tells it apart. -/
def Relation.ids (r : Relation) : String × String :=
  (r.external_account_id.text, r.provider_member_id.text)

/-- Every client was given rows of its scope in order. -/
def System.Ordered (k : Crates) (s : System) : Prop :=
  ∀ c ∈ s.clients.rows, ∃ rows, c.Follows k s.relations rows

/-- Every client was given all rows of its scope up to its cursor. -/
def System.Prompt (k : Crates) (s : System) : Prop :=
  ∀ c ∈ s.clients.rows, ∃ rows, c.Follows k s.relations rows
    ∧ Paging.Whole s.relations (Relation.in_scope c.project c.brand.text) Relation.position rows

/-- A relation commits behind all that a client of its scope was given. -/
def Op.timely (s : System) : Op → Prop
  | .commit id => ∀ w r, s.writers.find id = some w → w.row = some r →
    ∀ c ∈ s.clients.rows, r.in_scope c.project c.brand.text = true →
      ∀ r' ∈ s.relations.rows, r'.in_scope c.project c.brand.text = true →
        r'.ids ∈ c.received.map Accepted.ids → r'.position < r.position
  | _ => True

theorem follows_nil (hcursor : c.cursor = "") (hreceived : c.received = []) : c.Follows k t [] :=
  ⟨Paging.reading_nil, hreceived, hcursor⟩

theorem Client.Follows.grow {t' : Relations} (h : c.Follows k t rows)
    (hrows : ∀ r ∈ t.rows, r ∈ t'.rows) : c.Follows k t' rows :=
  ⟨h.reading.grow hrows, h.received, h.cursor⟩

theorem follows_take (h : c.Follows k s.relations rows) (hpage : s.answer k c = .ok page) :
    (c.take page).Follows k s.relations
      (rows ++ Paging.page s.relations (Relation.in_scope c.project c.brand.text)
        Relation.position rows ACCEPTED_RELATIONS_LIMIT) := by
  obtain ⟨more, rfl, haccepted, hnext⟩ := answer_page h hpage
  refine ⟨h.reading.append_page (position_separates _ _ _), ?_, hnext⟩
  rw [Client.take, h.received, haccepted, List.map_append]

theorem step_ordered (s : System) (op : Op) (h : s.Ordered k) : (step k s op).Ordered k := by
  have hgrow := (step_relations k s op).1
  intro c hc
  rcases step_clients k s op c hc with hc | ⟨hsame, hcursor, hreceived⟩
    | ⟨c₀, hc₀, page, hpage, rfl, hsame⟩
  · obtain ⟨rows, hrows⟩ := h c hc
    exact ⟨rows, hrows.grow hgrow⟩
  · exact ⟨[], follows_nil hcursor hreceived⟩
  · obtain ⟨rows, hrows⟩ := h c₀ hc₀
    rw [hsame]
    exact ⟨_, follows_take hrows hpage⟩

theorem step_prompt {op : Op} (hop : op.timely s) (h : s.Prompt k) : (step k s op).Prompt k := by
  obtain ⟨hgrow, hnew⟩ := step_relations k s op
  intro c hc
  rcases step_clients k s op c hc with hkept | ⟨hsame, hcursor, hreceived⟩
    | ⟨c₀, hc₀, page, hpage, rfl, hsame⟩
  · obtain ⟨rows, hrows, hwhole⟩ := h c hkept
    refine ⟨rows, hrows.grow hgrow, hwhole.grow (fun r hr hscope => ?_)⟩
    rcases hnew r hr with hold | ⟨id, w, rfl, hw, hrow⟩
    · exact .inl hold
    · -- the new one is behind all that the client was given
      right
      intro r' hr'
      obtain ⟨hmem, hscope'⟩ := hrows.reading.stored r' hr'
      refine hop w r hw hrow c hkept hscope r' hmem hscope' ?_
      rw [hrows.received, List.map_map]
      exact List.mem_map_of_mem hr'
  · exact ⟨[], follows_nil hcursor hreceived, Paging.whole_nil⟩
  · obtain ⟨rows, hrows, hwhole⟩ := h c₀ hc₀
    rw [hsame]
    exact ⟨_, follows_take hrows hpage, hwhole.append_page (fun _ h => h)
      (position_separates _ _ _)⟩

/-- Members are not empty, in the table and under way. -/
structure System.Named (s : System) : Prop where
  stored : ∀ r ∈ s.relations.rows, r.provider_member_id.text.isEmpty = false
  writing : ∀ w ∈ s.writers.rows, w.member.text.isEmpty = false
    ∧ ∀ r, w.row = some r → r.provider_member_id = w.member

theorem write_named {id : ℕ} {w : Writer} (h : s.Named) (hw : s.writers.find id = some w)
    {row : Option Relation} (hrow : ∀ r, row = some r → r.provider_member_id = w.member) :
    (s.write id row).Named := by
  refine ⟨h.stored, fun w' hw' => ?_⟩
  rcases Table.mem_modify hw (f := fun w => { w with row, executed := true }) (fun _ => rfl) hw'
    with rfl | ⟨hw', -⟩
  · exact ⟨(h.writing w (Table.find_eq_some.mp hw).1).1, hrow⟩
  · exact h.writing w' hw'

/-- No step puts an empty member in. -/
theorem step_named (s : System) (op : Op) (h : s.Named) : (step k s op).Named := by
  cases op with
  | relations id project account_id user_provider_id =>
    rw [step]
    cases string account_id with
    | error e => exact h
    | ok account =>
      cases string user_provider_id with
      | error e => exact h
      | ok member =>
        dsimp only
        split
        · exact h
        next hnamed =>
          rw [Bool.or_eq_true, not_or, Bool.not_eq_true, Bool.not_eq_true] at hnamed
          refine ⟨h.stored, fun w hw => ?_⟩
          rcases Table.mem_insert_getD hw with hw | ⟨rfl, -⟩
          · exact h.writing w hw
          · exact ⟨hnamed.2, fun r hr => by cases hr⟩
  | execute id =>
    rw [step]
    cases hw : s.writers.find id with
    | none => exact h
    | some w =>
      dsimp only
      split
      · exact h
      · cases hselected : s.selected w with
        | none => exact write_named h hw (fun r hr => by cases hr)
        | some r =>
          have hmember : r.provider_member_id = w.member := by
            rw [System.selected] at hselected
            obtain ⟨o, -, rfl⟩ := Option.map_eq_some_iff.mp hselected
            rfl
          dsimp only
          split
          · exact h
          · split
            · exact write_named h hw (fun r hr => by cases hr)
            · refine write_named h hw (fun r' hr' => ?_)
              cases hr'
              exact hmember
  | commit id =>
    refine ⟨fun r hr => ?_, ?_⟩
    · rcases (step_relations k s (.commit id)).2 r hr with hr | ⟨id', w, -, hw, hrow⟩
      · exact h.stored r hr
      · obtain ⟨hnamed, hmember⟩ := h.writing w (Table.find_eq_some.mp hw).1
        rw [hmember r hrow]
        exact hnamed
    · rw [step]
      cases s.writers.find id with
      | none => exact h.writing
      | some w =>
        dsimp only
        split
        · exact fun w hw => h.writing w (List.mem_of_mem_filter hw)
        · exact h.writing
  | rollback id => exact ⟨h.stored, fun w hw => h.writing w (List.mem_of_mem_filter hw)⟩
  | poll id =>
    rw [step]
    cases s.clients.find id with
    | none => exact h
    | some c =>
      dsimp only
      split
      · exact h
      · exact ⟨h.stored, h.writing⟩
  | client id project brandId =>
    rw [step]
    cases string brandId with
    | error e => exact h
    | ok brand => exact ⟨h.stored, h.writing⟩
  | _ => exact ⟨h.stored, h.writing⟩

/-- **The cursor of an answer.** Behind an answer that is not empty stands the cursor of its
last row, which the request path accepts; under the scope it was given for it is parsed to
that row, and under another it is refused. -/
theorem next_cursor_parsed (h : s.Named) {brandId since : Field} {brand : Identifier}
    (hbrand : string brandId = .ok brand)
    (hpage : handle_accepted k s.relations project brandId since = .ok page)
    (hne : page.accepted ≠ []) : ∃ r ∈ s.relations.rows, r.in_scope project brand.text = true
      ∧ page.accepted.getLast? = some (r.to_value k)
      ∧ ((r.accepted_at : ℤ) < year_10000 →
        cursor (.text page.nextCursor) = .ok page.nextCursor
        ∧ parse_accepted_cursor k page.nextCursor brand.text
          = .ok ⟨r.accepted_at, r.external_account_id.text, r.provider_member_id.text, false⟩)
      ∧ ∀ scope, scope ≠ brand.text →
        parse_accepted_cursor k page.nextCursor scope = .error invalid_accepted_cursor := by
  rw [handle_accepted, hbrand] at hpage
  obtain ⟨brand', hbrand', hpage⟩ := bind_eq_ok hpage
  cases hbrand'
  obtain ⟨text, -, hpage⟩ := bind_eq_ok hpage
  obtain ⟨parsed, -, hpage⟩ := bind_eq_ok hpage
  cases hpage
  dsimp only at hne ⊢
  rw [foldl_last, List.getLast?_map]
  cases hlast : (accepted_rows s.relations project brand.text parsed).getLast? with
  | none =>
    rw [List.getLast?_eq_none_iff.mp hlast] at hne
    exact absurd rfl hne
  | some r =>
    obtain ⟨hmem, hselected⟩ := Table.mem_select (List.mem_of_getLast? hlast)
    have hscope := (Bool.and_eq_true _ _).mp hselected |>.1
    rw [Option.elim_some, Option.map_some]
    refine ⟨r, hmem, hscope, rfl, fun htime => ?_, fun scope hother => ?_⟩
    · have hpos : (0 : ℤ) ≤ r.accepted_at := Int.natCast_nonneg _
      have haccount := r.external_account_id.short
      have hmember := r.provider_member_id.short
      refine ⟨cursor_encode hpos htime haccount hmember, ?_⟩
      have hsize : (encode_accepted_cursor k brand.text r.external_account_id.text
          r.provider_member_id.text r.accepted_at).utf8ByteSize ≤ ACCEPTED_CURSOR_MAX_LEN :=
        size_encode_le hpos htime haccount hmember
      rw [parse_encode, if_neg (not_lt.mpr hsize), if_neg, k.parse_complete _ hpos htime]
      rintro (hflag | hid | hid | ⟨hone, hid⟩)
      · exact hflag rfl
      · -- of one brand it is the brand of the request, of all brands it may be empty
        rw [valid_cursor_identifier, decide_eq_true haccount, r.external_account_id.no_nul] at hid
        cases hone : brand.text.isEmpty with
        | true =>
          rw [hone] at hid
          cases hid
        | false =>
          rw [in_scope_brand hscope hone, hone] at hid
          cases hid
      · rw [valid_cursor_identifier, decide_eq_true hmember, r.provider_member_id.no_nul,
          h.stored r hmem] at hid
        cases hid
      · exact hid (in_scope_brand hscope hone)
    · rw [parse_encode]
      split
      · rfl
      · rw [if_pos]
        by_cases hflag : brand.text.isEmpty = scope.isEmpty
        · right; right; right
          have hone : scope.isEmpty = false := by
            by_contra hall
            rw [Bool.not_eq_false] at hall
            rw [hall] at hflag
            exact hother ((String.isEmpty_iff.mp hall).trans (String.isEmpty_iff.mp hflag).symm)
          refine ⟨hone, ?_⟩
          rw [in_scope_brand hscope (hflag.trans hone)]
          exact Ne.symm hother
        · exact .inl hflag

/-- **A poller receives the relations of its scope once, and all of them that commit behind
what it was given.** In every run: no client is given a relation twice; a poll that
answers with fewer rows than its limit completes what is committed in its scope, if every
relation commits behind all that a client of its scope was given; and the cursor of every
answer is that of its last row. -/
theorem poller_receives_relations (k : Crates) (ops : List Op) :
    let s := Machine.run (step k) System.init ops
    (∀ c ∈ s.clients.rows, (c.received.map Accepted.ids).Nodup)
    ∧ (Machine.Meets (step k) (fun s op => op.timely s) System.init ops →
      ∀ c ∈ s.clients.rows, ∀ page, s.answer k c = .ok page →
        page.accepted.length < ACCEPTED_RELATIONS_LIMIT →
        ∀ r ∈ s.relations.rows, r.in_scope c.project c.brand.text = true →
          r.ids ∈ (c.received ++ page.accepted).map Accepted.ids)
    ∧ ∀ project brandId since brand page, string brandId = .ok brand →
      handle_accepted k s.relations project brandId since = .ok page → page.accepted ≠ [] →
      ∃ r ∈ s.relations.rows, r.in_scope project brand.text = true
        ∧ page.accepted.getLast? = some (r.to_value k)
        ∧ ((r.accepted_at : ℤ) < year_10000 →
          cursor (.text page.nextCursor) = .ok page.nextCursor
          ∧ parse_accepted_cursor k page.nextCursor brand.text = .ok
            ⟨r.accepted_at, r.external_account_id.text, r.provider_member_id.text, false⟩)
        ∧ ∀ scope, scope ≠ brand.text →
          parse_accepted_cursor k page.nextCursor scope = .error invalid_accepted_cursor := by
  intro s
  refine ⟨?_, ?_, ?_⟩
  · have h : s.Ordered k := Machine.run_keeps step_ordered
      (fun c hc => by cases hc) ops
    intro c hc
    obtain ⟨rows, hrows⟩ := h c hc
    rw [hrows.received, List.map_map]
    refine List.Nodup.map_on ?_ hrows.reading.nodup
    intro r hr r' hr' heq
    obtain ⟨hmem, hscope⟩ := hrows.reading.stored r hr
    obtain ⟨hmem', hscope'⟩ := hrows.reading.stored r' hr'
    have htexts := Prod.ext_iff.mp heq
    exact row_of_texts hmem hmem'
      ((in_scope_project hscope).trans (in_scope_project hscope').symm) htexts.1 htexts.2
  · intro hops c hc page hpage hshort r hr hscope
    have h : s.Prompt k := hops.keeps (I := System.Prompt k)
      (fun _ _ hop h => step_prompt hop h) (fun c hc => by cases hc)
    obtain ⟨rows, hrows, hwhole⟩ := h c hc
    obtain ⟨more, rfl, haccepted, -⟩ := answer_page hrows hpage
    rw [haccepted, List.length_map] at hshort
    rw [hrows.received, haccepted, ← List.map_append, List.map_map]
    exact List.mem_map_of_mem (hwhole.rest (fun _ h => h) hshort hr hscope)
  · intro project brandId since brand page hbrand hpage hne
    have h : s.Named := Machine.run_keeps step_named
      ⟨(fun r hr => by cases hr), (fun w hw => by cases hw)⟩ ops
    exact next_cursor_parsed h hbrand hpage hne

namespace Sample

def read_word (text : List Char) : Option (Bool × List Char) :=
  match Json.strip (word true) text with
  | some rest => some (true, rest)
  | none => (Json.strip (word false) text).map (fun rest => (false, rest))

theorem read_word_append (b : Bool) (rest : List Char) :
    read_word (word b ++ rest) = some (b, rest) := by
  cases b with
  | true => rw [read_word, Json.strip_append]
  | false =>
    have hother : Json.strip (word true) (word false ++ rest) = none := by
      rw [Json.strip, if_neg]
      rintro ⟨tail, heq⟩
      cases (List.cons.inj heq).1
    rw [read_word, hother, Json.strip_append]
    rfl

/-- What `serde_json` reads of a payload, given the texts of its frame. -/
def read_frame (a b c d e : List Char) (text : List Char) : Option EncodedAcceptedCursor := do
  let rest ← Json.strip a text
  let (accepted_at, rest) ← Json.read rest
  let rest ← Json.strip b rest
  let (account_id, rest) ← Json.read rest
  let rest ← Json.strip c rest
  let (all_brands, rest) ← read_word rest
  let rest ← Json.strip d rest
  let (member_id, rest) ← Json.read rest
  let _ ← Json.strip e rest
  some ⟨1, all_brands, String.ofList accepted_at, String.ofList account_id,
    String.ofList member_id⟩

theorem read_frame_append (a b c d e : List Char) (all_brands : Bool)
    (accepted_at account_id member_id : String) :
    read_frame a b c d e (a ++ Json.quote accepted_at.toList ++ b ++ Json.quote account_id.toList
      ++ c ++ word all_brands ++ d ++ Json.quote member_id.toList ++ e)
      = some ⟨1, all_brands, accepted_at, account_id, member_id⟩ := by
  have hend : Json.strip e e = some [] := by
    have h := Json.strip_append e []
    rwa [List.append_nil] at h
  simp only [read_frame, List.append_assoc, Json.strip_append, Json.read_quote, bind,
    Option.bind, read_word_append, hend, String.ofList_toList]

theorem read_payload (all_brands : Bool) (accepted_at account_id member_id : String) :
    read_frame "\x7b\"accepted_at\":".toList ",\"account_id\":".toList ",\"all_brands\":".toList
      ",\"member_id\":".toList ",\"v\":1\x7d".toList
      (payload all_brands accepted_at account_id member_id)
      = some ⟨1, all_brands, accepted_at, account_id, member_id⟩ := by
  unfold payload
  exact read_frame_append _ _ _ _ _ all_brands accepted_at account_id member_id

theorem read_bytes {α : Type} {read : List Char → Option α} {text : List Char} {v : Option α}
    (h : read text = v) : (Json.text_of (Json.bytes text)).bind read = v := by
  rw [Json.text_of_bytes, Option.bind_some, h]

def digits (n : ℕ) : List Char := (Nat.digits 10 n).map (fun d => Char.ofNat (48 + d))

def of_digits (text : List Char) : ℕ := Nat.ofDigits 10 (text.map (fun c => c.toNat - 48))

theorem of_digits_digits (n : ℕ) : of_digits (digits n) = n := by
  rw [of_digits, digits, List.map_map]
  have hdigit : ∀ d ∈ Nat.digits 10 n, ((fun c : Char => c.toNat - 48)
      ∘ fun d => Char.ofNat (48 + d)) d = d := by
    intro d hd
    have hlt : d < 10 := Nat.digits_lt_base (by omega) hd
    have hall : ∀ d : Fin 10, (Char.ofNat (48 + d.val)).toNat - 48 = d.val := by decide
    exact hall ⟨d, hlt⟩
  rw [List.map_congr_left hdigit, List.map_id', Nat.ofDigits_digits]

/-- The texts of the first two seconds; other times have texts of their own. -/
def rfc3339 (t : ℤ) : String :=
  if t = 0 then "1970-01-01T00:00:00Z"
  else if t = 1000000 then "1970-01-01T00:00:01Z"
  else if t < 0 then ""
  else String.ofList (digits t.toNat)

def of_rfc3339 (text : String) : Option ℤ :=
  if text = "1970-01-01T00:00:00Z" then some 0
  else if text = "1970-01-01T00:00:01Z" then some 1000000
  else if text = "" then none
  else some (of_digits text.toList)

theorem mem_digits {n : ℕ} {c : Char} (h : c ∈ digits n) : c.utf8Size = 1 ∧ c ≠ 'T' := by
  obtain ⟨d, hd, rfl⟩ := List.mem_map.mp h
  have hlt : d < 10 := Nat.digits_lt_base (by omega) hd
  have hall : ∀ d : Fin 10, (Char.ofNat (48 + d.val)).utf8Size = 1
      ∧ Char.ofNat (48 + d.val) ≠ 'T' := by decide
  exact hall ⟨d, hlt⟩

theorem digits_ne {n : ℕ} {text : String} (h : 'T' ∈ text.toList) :
    String.ofList (digits n) ≠ text := by
  rintro rfl
  rw [String.toList_ofList] at h
  exact (mem_digits h).2 rfl

theorem of_rfc3339_rfc3339 {t : ℤ} (h : 0 ≤ t) : of_rfc3339 (rfc3339 t) = some t := by
  rw [rfc3339]
  split
  next hzero => rw [hzero]; rfl
  next hzero =>
    split
    next hone => rw [hone]; rfl
    next =>
      have hempty : String.ofList (digits t.toNat) ≠ "" := by
        intro hempty
        have hnil : digits t.toNat = [] := by
          rw [← String.toList_ofList (l := digits t.toNat), hempty]
          rfl
        rw [digits, List.map_eq_nil_iff, Nat.digits_eq_nil_iff_eq_zero] at hnil
        omega
      rw [if_neg (not_lt.mpr h), of_rfc3339, if_neg (digits_ne (by decide)),
        if_neg (digits_ne (by decide)), if_neg hempty, String.toList_ofList, of_digits_digits,
        Int.toNat_of_nonneg h]

theorem of_rfc3339_sound (t t' : ℤ) (h : of_rfc3339 (rfc3339 t) = some t') : t' = t := by
  by_cases hneg : t < 0
  · rw [rfc3339, if_neg (by omega), if_neg (by omega), if_pos hneg] at h
    cases h
  · rw [of_rfc3339_rfc3339 (not_lt.mp hneg)] at h
    exact (Option.some.inj h).symm

theorem of_rfc3339_complete (t : ℤ) (h : 0 ≤ t) (_ : t < year_10000) :
    of_rfc3339 (rfc3339 t) = some t := of_rfc3339_rfc3339 h

theorem rfc3339_size (t : ℤ) (h : 0 ≤ t) (h' : t < year_10000) :
    (rfc3339 t).utf8ByteSize ≤ 64 := by
  rw [rfc3339]
  split
  · decide
  · split
    · decide
    · rw [if_neg (not_lt.mpr h), ← Json.length_bytes_toList, String.toList_ofList,
        Json.length_bytes, List.map_congr_left (fun c hc => (mem_digits hc).1)]
      have hlength : (Nat.digits 10 t.toNat).length ≤ 18 := by
        rw [Nat.digits_length_le_iff (by omega)]
        rw [year_10000] at h'
        omega
      rw [List.map_const', List.sum_replicate, digits, List.length_map, Nat.nsmul_eq_mul]
      omega

/-- The crates on what the samples write. -/
def crates : Crates where
  from_slice b := (Json.text_of b).bind (read_frame "\x7b\"accepted_at\":".toList
    ",\"account_id\":".toList ",\"all_brands\":".toList ",\"member_id\":".toList
    ",\"v\":1\x7d".toList)
  to_rfc3339_opts := rfc3339
  parse_from_rfc3339 := of_rfc3339
  from_slice_payload all_brands accepted_at account_id member_id :=
    read_bytes (read_payload all_brands accepted_at account_id member_id)
  parse_sound := of_rfc3339_sound
  parse_complete := of_rfc3339_complete
  rfc3339_short := rfc3339_size

/-- An account of a brand, and two of its relations. -/
def owners : Table Owner.key :=
  ⟨[⟨"p", ⟨"account", by decide, by decide⟩, ⟨"brand", by decide, by decide⟩⟩],
    List.nodup_singleton _⟩

def early : Relation :=
  ⟨"p", ⟨"brand", by decide, by decide⟩, ⟨"early", by decide, by decide⟩, 0⟩

def late : Relation :=
  ⟨"p", ⟨"brand", by decide, by decide⟩, ⟨"late", by decide, by decide⟩, 1000000⟩

/-- Two notifications begin, a second apart; the later one commits and is polled, and then
the earlier one commits. -/
def overtaken : List Op :=
  [.bind owners, .client 1 "p" (.text "brand"),
   .relations 1 "p" (.text "account") (.text "early"), .execute 1,
   .tick 1000000,
   .relations 2 "p" (.text "account") (.text "late"), .execute 2, .commit 2,
   .poll 1, .commit 1]

def client : Client where
  id := 1
  project := "p"
  brand := ⟨"brand", by decide, by decide⟩
  cursor := encode_accepted_cursor crates "brand" "brand" "late" 1000000
  received := [⟨"brand", "late", "1970-01-01T00:00:01Z"⟩]

/-- A client with the cursor of a relation is given the rows behind it. -/
theorem answer_behind {s : System} {c : Client} {r : Relation} (hr : r = early ∨ r = late)
    (hproject : c.project = "p") (hbrand : c.brand = ⟨"brand", by decide, by decide⟩)
    (hcursor : c.cursor
      = encode_accepted_cursor crates "brand" "brand" r.provider_member_id.text r.accepted_at) :
    ∃ next, s.answer crates c = .ok ⟨(accepted_rows s.relations "p" "brand"
      ⟨r.accepted_at, "brand", r.provider_member_id.text, false⟩).map (Relation.to_value crates),
      next⟩ := by
  have hplain : (r.accepted_at : ℤ) < year_10000
      ∧ r.provider_member_id.text.utf8ByteSize ≤ INPUT_STRING_MAX_BYTES
      ∧ valid_cursor_identifier r.provider_member_id.text false = true := by
    rcases hr with rfl | rfl <;> decide
  have hsize : c.cursor.utf8ByteSize ≤ ACCEPTED_CURSOR_MAX_LEN := by
    rw [hcursor]
    exact size_encode_le (Int.natCast_nonneg _) hplain.1 (by decide) hplain.2.1
  have hgiven : cursor (.text c.cursor) = .ok c.cursor := by
    rw [hcursor]
    exact cursor_encode (Int.natCast_nonneg _) hplain.1 (by decide) hplain.2.1
  have hparsed : parse_accepted_cursor crates c.cursor "brand"
      = .ok ⟨r.accepted_at, "brand", r.provider_member_id.text, false⟩ := by
    rw [hcursor] at hsize ⊢
    rw [parse_encode, if_neg (not_lt.mpr hsize), hplain.2.2, if_neg (by decide),
      crates.parse_complete r.accepted_at (Int.natCast_nonneg _) hplain.1]
  have hname : string (.text c.brand.text) = .ok c.brand := string_text _
  rw [System.answer, handle_accepted, hname, hgiven, hproject, hbrand]
  simp only [accepted, bind, Except.bind, hparsed]
  exact ⟨_, rfl⟩

end Sample

/-- The earlier relation is committed behind the cursor of the client, and the poll that
says that there is no more does not give it. -/
theorem overtaken_relation_lost :
    let s := Machine.run (step Sample.crates) System.init Sample.overtaken
    ¬∀ c ∈ s.clients.rows, ∀ page, s.answer Sample.crates c = .ok page →
      page.accepted.length < ACCEPTED_RELATIONS_LIMIT →
      ∀ r ∈ s.relations.rows, r.in_scope c.project c.brand.text = true →
        r.ids ∈ (c.received ++ page.accepted).map Accepted.ids := by
  intro s hall
  have hclients : s.clients.rows = [Sample.client] := rfl
  have hclient : Sample.client ∈ s.clients.rows := hclients ▸ List.mem_singleton_self _
  have hearly : Sample.early ∈ s.relations.rows := by decide
  have hrows : accepted_rows s.relations "p" "brand" ⟨1000000, "brand", "late", false⟩ = [] := by
    decide
  clear_value s
  obtain ⟨next, hanswer⟩ := @Sample.answer_behind s Sample.client _ (.inr rfl) rfl rfl rfl
  rw [show accepted_rows s.relations "p" "brand" ⟨Sample.late.accepted_at, "brand",
    Sample.late.provider_member_id.text, false⟩ = [] from hrows] at hanswer
  have hmissing : Sample.early.ids ∈ Sample.client.received.map Accepted.ids :=
    hall Sample.client hclient _ hanswer (show 0 < ACCEPTED_RELATIONS_LIMIT by decide)
      Sample.early hearly (by decide)
  revert hmissing
  decide

namespace Sample

/-- The earlier relation commits and is polled before the later one commits. -/
def punctual : List Op :=
  [.bind owners, .client 1 "p" (.text "brand"),
   .relations 1 "p" (.text "account") (.text "early"), .execute 1, .commit 1, .poll 1,
   .tick 1000000,
   .relations 2 "p" (.text "account") (.text "late"), .execute 2, .commit 2]

def reader : Client where
  id := 1
  project := "p"
  brand := ⟨"brand", by decide, by decide⟩
  cursor := encode_accepted_cursor crates "brand" "brand" "early" 0
  received := [⟨"brand", "early", "1970-01-01T00:00:00Z"⟩]

end Sample

/-- The poll after the second relation gives it, behind the first. -/
theorem punctual_relation_received :
    let s := Machine.run (step Sample.crates) System.init Sample.punctual
    ∃ page, s.answer Sample.crates Sample.reader = .ok page
      ∧ Sample.late.ids ∈ (Sample.reader.received ++ page.accepted).map Accepted.ids := by
  intro s
  have hclients : s.clients.rows = [Sample.reader] := rfl
  have hreader : Sample.reader ∈ s.clients.rows := hclients ▸ List.mem_singleton_self _
  have hrows : accepted_rows s.relations "p" "brand" ⟨Sample.early.accepted_at, "brand",
      Sample.early.provider_member_id.text, false⟩ = [Sample.late] := by decide
  obtain ⟨next, hanswer⟩ := @Sample.answer_behind s Sample.reader _ (.inl rfl) rfl rfl rfl
  rw [hrows] at hanswer
  refine ⟨_, hanswer, ?_⟩
  refine (poller_receives_relations Sample.crates Sample.punctual).2.1
    ⟨trivial, trivial, trivial, trivial, ?_, trivial, trivial, trivial, trivial, ?_, trivial⟩
    Sample.reader hreader _ hanswer (show 1 < ACCEPTED_RELATIONS_LIMIT by decide) Sample.late
    (by decide) (by decide)
  · intro w r _ _ c hc _ r' hr' _ _
    have hnone : (Machine.run (step Sample.crates) System.init
        (Sample.punctual.take 4)).relations.rows = [] := by decide
    exact absurd (hnone ▸ hr') List.not_mem_nil
  -- the second relation commits a second behind the one that the client was given
  · intro w r hw hr c hc _ r' hr' _ _
    have hlate : ((Machine.run (step Sample.crates) System.init
        (Sample.punctual.take 9)).writers.find 2).bind Writer.row = some Sample.late := by decide
    have hone : (Machine.run (step Sample.crates) System.init
        (Sample.punctual.take 9)).relations.rows = [Sample.early] := by decide
    have hsame : some r = some Sample.late := hlate ▸ (Option.bind_eq_some_iff.mpr ⟨w, hw, hr⟩).symm
    cases hsame
    cases List.mem_singleton.mp (hone ▸ hr')
    decide

end Appcall.Provider
