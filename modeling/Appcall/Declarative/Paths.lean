/-
Paths of requests: `renderPath` and `renderRequestPath`.

Nothing that a value is rendered to has a separator, so a path keeps its segments. Whether a
value is there is asked of the value and not of its text: an array without items, or with one
item that has no text, is one, and leaves its place empty. `fill_spec` follows the placeholders
one by one; `path_kept_iff` says that a path is kept if and only if no place is left empty.
-/
import Appcall.Declarative.Parameters

set_option autoImplicit false

namespace Appcall.Declarative

variable {ν : Type}

/-! ## The source -/

/-- `value === undefined || value === null || value === ""` -/
def Js.missing : Js ν → Bool
  | .undefined => true
  | .value .null => true
  | .value (.string s) => s.isEmpty
  | _ => false

def required (expression : List Char) : Thrown :=
  .error (last_segment expression ++ " is required".toList)

def dot_segment : Thrown := .error "dot path segment is not allowed".toList

def is_dots (segment : List Char) : Bool := segment == ['.'] || segment == ['.', '.']

def assert_safe_path_segment (whole : Bool) (value : List Char) : Except Thrown Unit :=
  if whole && is_dots value then .error dot_segment else .ok ()

/-- `assertSafePathSegments`. A segment with a malformed escape is taken as it is. -/
def assert_safe_path_segments (path : List Char) : Except Thrown Unit :=
  if (path.splitOn '/').any (fun segment => is_dots ((Percent.decode segment).getD segment)) then
    .error dot_segment
  else .ok ()

section Engine

variable (E : Engine ν)

/-- `encodeURIComponent(String(value))` -/
def encode_value (value : Js ν) : Except Thrown (List Char) := do
  let text ← value.text E
  .ok (encodeURIComponent text)

/-- What `renderPath` puts in place of a placeholder. -/
def path_replacer (context : Fields ν) (expression : List Char) (whole : Bool) :
    Except Thrown (List Char) :=
  let value := resolve_path E expression context
  if value.missing = true then .error (required expression)
  else do
    let rendered ← encode_value E value
    assert_safe_path_segment whole rendered
    .ok rendered

def render_path (path : List Char) (context : Fields ν) : Except Thrown (List Char) := do
  let rendered ← fill (path_replacer E context) (pieces path)
  assert_safe_path_segments rendered
  .ok rendered

def path_items (parameter : Parameter) (name : List Char) (items : List (List Char)) :
    List Char :=
  match parameter.style with
  | .matrix =>
    if parameter.explode then (items.map fun item => ';' :: name ++ '=' :: item).flatten
    else ';' :: name ++ '=' :: List.intercalate [','] items
  | .label => '.' :: List.intercalate ['.'] items
  | _ => List.intercalate [','] items

/-- The names and values of an object in a path. -/
def path_pairs (parameter : Parameter) (name : List Char)
    (pairs : List (List Char × List Char)) : List Char :=
  let equations := pairs.map fun pair => pair.1 ++ '=' :: pair.2
  let parts := pairs.flatMap fun pair => [pair.1, pair.2]
  match parameter.style with
  | .matrix =>
    if parameter.explode then (equations.map fun equation => ';' :: equation).flatten
    else ';' :: name ++ '=' :: List.intercalate [','] parts
  | .label => '.' :: List.intercalate ['.'] (if parameter.explode then equations else parts)
  | _ => List.intercalate [','] (if parameter.explode then equations else parts)

def serialize_path_parameter (parameter : Parameter) (value : Js ν) :
    Except Thrown (List Char) :=
  match parameter.content with
  | some type => do
    let text ← serialize_content_parameter E type value
    .ok (encodeURIComponent text)
  | none =>
    let name := encodeURIComponent parameter.wire_name.toList
    match value with
    | .value (.array items) => do
      let encoded_items ← encode_items E encodeURIComponent items
      .ok (path_items parameter name encoded_items)
    | value =>
      match value.record with
      | some object => do
        let encoded_pairs ← encode_pairs E encodeURIComponent encodeURIComponent object
        .ok (path_pairs parameter name encoded_pairs)
      | none => do
        let text ← parameter_part E value
        .ok (match parameter.style with
          | .matrix => ';' :: name ++ '=' :: encodeURIComponent text
          | .label => '.' :: encodeURIComponent text
          | _ => encodeURIComponent text)

/-- The parameter that a placeholder names. -/
def parameter_of (parameters : List Parameter) (expression : List Char) : Option Parameter :=
  parameters.find? fun candidate =>
    candidate.input_name.toList == expression || candidate.wire_name.toList == expression

/-- The value that a placeholder takes. -/
def value_of (parameters : List Parameter) (input : Fields ν) (expression : List Char) : Js ν :=
  match parameter_of parameters expression with
  | some parameter => parameter_input E parameter input
  | none => resolve_path E expression input

/-- What `renderRequestPath` puts in place of a placeholder. -/
def request_replacer (path_parameters : List Parameter) (input : Fields ν)
    (expression : List Char) (whole : Bool) : Except Thrown (List Char) :=
  let parameter := parameter_of path_parameters expression
  let value := value_of E path_parameters input expression
  if value.missing = true then
    .error (required ((parameter.map fun p => p.input_name.toList).getD expression))
  else do
    let rendered ← (match parameter with
      | some parameter => serialize_path_parameter E parameter value
      | none => encode_value E value)
    assert_safe_path_segment whole rendered
    .ok rendered

def render_request_path (path : List Char) (parameters : List Parameter) (input : Fields ν) :
    Except Thrown (List Char) :=
  let path_parameters := parameters.filter (·.place = .path)
  if path_parameters.isEmpty then render_path E path input
  else do
    let rendered ← fill (request_replacer E path_parameters input) (pieces path)
    assert_safe_path_segments rendered
    .ok rendered

end Engine

/-! ## What a rendered path is -/

/-- No separator, and nothing that a URL would end a path with or rewrite. -/
def Safe (c : Char) : Prop :=
  c ≠ '/' ∧ c ≠ '?' ∧ c ≠ '#' ∧ c ≠ '\\' ∧ 32 ≤ c.toNat ∧ c.toNat < 127

instance (c : Char) : Decidable (Safe c) := inferInstanceAs (Decidable (_ ∧ _))

/-- Decided along the text, not along all characters. -/
local instance (priority := 2000) {text : List Char} : Decidable (∀ c ∈ text, Safe c) :=
  List.decidableBAll Safe text

/-- The path has the segments of its template, none of them `.` or `..`, and no character with a
meaning more often than the template has it. -/
structure Shape (path rendered : List Char) : Prop where
  separators : rendered.count '/' = path.count '/'
  dots : ∀ segment ∈ rendered.splitOn '/',
    Percent.decode segment ≠ some ['.'] ∧ Percent.decode segment ≠ some ['.', '.']
  plain : ∀ c, c = '?' ∨ c = '#' ∨ c = '\\' ∨ c.toNat < 32 ∨ (127 ≤ c.toNat ∧ c.toNat < 160) →
    rendered.count c ≤ path.count c

/-- Nothing is put in place of no placeholder. -/
def Filled (replacer : List Char → Bool → Except Thrown (List Char)) (path : List Char) : Prop :=
  ∀ expression whole, .placeholder expression whole ∈ pieces path →
    replacer expression whole ≠ .ok []

/-! ## What values are rendered to -/

theorem safe_encode {text : List Char} {c : Char} (h : c ∈ encodeURIComponent text) : Safe c := by
  have hbyte : ∀ b : UInt8, ∀ d ∈ Percent.encode_byte unreserved b, Safe d :=
    Chars.byte_cases (by decide +kernel)
  rw [encodeURIComponent, Percent.encode] at h
  obtain ⟨b, -, hc⟩ := List.mem_flatMap.mp h
  exact hbyte b c hc

variable {texts : List (List Char)} (parameter : Parameter)

theorem safe_intercalate {d : Char} (hd : Safe d) (h : ∀ text ∈ texts, ∀ c ∈ text, Safe c) :
    ∀ c ∈ List.intercalate [d] texts, Safe c := by
  induction texts with
  | nil =>
    intro c hc
    rw [List.intercalate_nil] at hc
    exact absurd hc List.not_mem_nil
  | cons text texts ih =>
    intro c hc
    cases texts with
    | nil =>
      rw [List.intercalate_singleton] at hc
      exact h text List.mem_cons_self c hc
    | cons text' texts =>
      rw [List.intercalate_cons_cons, List.append_assoc, List.mem_append, List.mem_append,
        List.mem_singleton] at hc
      rcases hc with hc | rfl | hc
      · exact h text List.mem_cons_self c hc
      · exact hd
      · exact ih (fun t ht => h t (List.mem_cons_of_mem _ ht)) c hc

theorem safe_cons {d : Char} (hd : Safe d) {text : List Char} (h : ∀ c ∈ text, Safe c) :
    ∀ c ∈ d :: text, Safe c := List.forall_mem_cons.mpr ⟨hd, h⟩

theorem safe_append {a b : List Char} (ha : ∀ c ∈ a, Safe c) (hb : ∀ c ∈ b, Safe c) :
    ∀ c ∈ a ++ b, Safe c := List.forall_mem_append.mpr ⟨ha, hb⟩

theorem safe_flatten (h : ∀ text ∈ texts, ∀ c ∈ text, Safe c) : ∀ c ∈ texts.flatten, Safe c := by
  intro c hc
  obtain ⟨text, htext, hc⟩ := List.mem_flatten.mp hc
  exact h text htext c hc

theorem safe_path_items {name : List Char} (hname : ∀ c ∈ name, Safe c) {items : List (List Char)}
    (h : ∀ text ∈ items, ∀ c ∈ text, Safe c) : ∀ c ∈ path_items parameter name items, Safe c := by
  have hlead : ∀ text : List Char, (∀ c ∈ text, Safe c) →
      ∀ c ∈ ';' :: name ++ '=' :: text, Safe c :=
    fun text htext => safe_append (safe_cons (by decide) hname) (safe_cons (by decide) htext)
  rw [path_items]
  split
  · split
    · refine safe_flatten fun text htext => ?_
      obtain ⟨item, hitem, rfl⟩ := List.mem_map.mp htext
      exact hlead item (h item hitem)
    · exact hlead _ (safe_intercalate (by decide) h)
  · exact safe_cons (by decide) (safe_intercalate (by decide) h)
  · exact safe_intercalate (by decide) h

theorem safe_path_pairs {name : List Char} (hname : ∀ c ∈ name, Safe c)
    {pairs : List (List Char × List Char)}
    (h : ∀ pair ∈ pairs, (∀ c ∈ pair.1, Safe c) ∧ ∀ c ∈ pair.2, Safe c) :
    ∀ c ∈ path_pairs parameter name pairs, Safe c := by
  have hequations : ∀ text ∈ pairs.map fun pair => pair.1 ++ '=' :: pair.2, ∀ c ∈ text, Safe c := by
    intro text htext
    obtain ⟨pair, hpair, rfl⟩ := List.mem_map.mp htext
    exact safe_append (h pair hpair).1 (safe_cons (by decide) (h pair hpair).2)
  have hparts : ∀ text ∈ pairs.flatMap fun pair => [pair.1, pair.2], ∀ c ∈ text, Safe c := by
    intro text htext
    obtain ⟨pair, hpair, htext⟩ := List.mem_flatMap.mp htext
    rcases List.mem_pair.mp htext with rfl | rfl
    · exact (h pair hpair).1
    · exact (h pair hpair).2
  have heither : ∀ text ∈ (if parameter.explode then pairs.map fun pair => pair.1 ++ '=' :: pair.2
      else pairs.flatMap fun pair => [pair.1, pair.2]), ∀ c ∈ text, Safe c := by
    split
    · exact hequations
    · exact hparts
  rw [path_pairs]
  split
  · split
    · refine safe_flatten fun text htext => ?_
      obtain ⟨equation, hequation, rfl⟩ := List.mem_map.mp htext
      exact safe_cons (by decide) (hequations equation hequation)
    · exact safe_append (safe_cons (by decide) hname)
        (safe_cons (by decide) (safe_intercalate (by decide) hparts))
  · exact safe_cons (by decide) (safe_intercalate (by decide) heither)
  · exact safe_intercalate (by decide) heither

section Engine

variable {E : Engine ν}

variable {encode : List Char → List Char} {replacer : List Char → Bool → Except Thrown (List Char)}
  {rendered : List Char}

theorem encode_items_mem {items : List (Value ν)} {texts : List (List Char)}
    (h : encode_items E encode items = .ok texts) : ∀ text ∈ texts, ∃ t, text = encode t := by
  induction items generalizing texts with
  | nil =>
    cases h
    exact fun _ ht => absurd ht List.not_mem_nil
  | cons item items ih =>
    rw [encode_items] at h
    obtain ⟨t, -, h⟩ := bind_eq_ok h
    obtain ⟨rest, hrest, hok⟩ := bind_eq_ok h
    cases hok
    exact List.forall_mem_cons.mpr ⟨⟨t, rfl⟩, ih hrest⟩

theorem encode_pairs_mem {encode_key : List Char → List Char} {object : Fields ν}
    {pairs : List (List Char × List Char)}
    (h : encode_pairs E encode_key encode object = .ok pairs) :
    ∀ pair ∈ pairs, (∃ t, pair.1 = encode_key t) ∧ ∃ t, pair.2 = encode t := by
  induction object generalizing pairs with
  | nil =>
    cases h
    exact fun _ ht => absurd ht List.not_mem_nil
  | cons field object ih =>
    rw [encode_pairs] at h
    obtain ⟨t, -, h⟩ := bind_eq_ok h
    obtain ⟨rest, hrest, hok⟩ := bind_eq_ok h
    cases hok
    exact List.forall_mem_cons.mpr ⟨⟨⟨_, rfl⟩, t, rfl⟩, ih hrest⟩

theorem safe_encode_value {value : Js ν} {text : List Char} (h : encode_value E value = .ok text) :
    ∀ c ∈ text, Safe c := by
  obtain ⟨t, -, hok⟩ := bind_eq_ok h
  cases hok
  exact fun _ => safe_encode

theorem safe_serialize {parameter : Parameter} {value : Js ν} {text : List Char}
    (h : serialize_path_parameter E parameter value = .ok text) : ∀ c ∈ text, Safe c := by
  have hencode : ∀ (t : List Char), ∀ c ∈ encodeURIComponent t, Safe c := fun t c => safe_encode
  rw [serialize_path_parameter] at h
  split at h
  · obtain ⟨t, -, hok⟩ := bind_eq_ok h
    cases hok
    exact hencode t
  · dsimp only at h
    split at h
    next items =>
      obtain ⟨texts, htexts, hok⟩ := bind_eq_ok h
      cases hok
      refine safe_path_items parameter (hencode _) fun t ht => ?_
      obtain ⟨u, rfl⟩ := encode_items_mem htexts t ht
      exact hencode u
    next =>
      split at h
      next object _ =>
        obtain ⟨pairs, hpairs, hok⟩ := bind_eq_ok h
        cases hok
        refine safe_path_pairs parameter (hencode _) fun pair hpair => ?_
        obtain ⟨⟨t, ht⟩, u, hu⟩ := encode_pairs_mem hpairs pair hpair
        rw [ht, hu]
        exact ⟨hencode t, hencode u⟩
      next =>
        obtain ⟨t, -, hok⟩ := bind_eq_ok h
        cases hok
        split
        · exact safe_append (safe_cons (by decide) (hencode _)) (safe_cons (by decide) (hencode t))
        · exact safe_cons (by decide) (hencode t)
        · exact hencode t

/-! ## Placeholders -/

theorem fill_spec
    (hsafe : ∀ expression whole text, replacer expression whole = .ok text → ∀ c ∈ text, Safe c)
    {ps : List Piece} (h : fill replacer ps = .ok rendered) :
    (∀ c, ¬Safe c → rendered.count c = (literals ps).count c)
      ∧ ∀ expression whole, .placeholder expression whole ∈ ps →
        ∃ text, replacer expression whole = .ok text := by
  induction ps generalizing rendered with
  | nil =>
    cases h
    exact ⟨fun _ _ => rfl, fun _ _ hp => absurd hp List.not_mem_nil⟩
  | cons p ps ih =>
    cases p with
    | literal c =>
      rw [fill] at h
      obtain ⟨rest, hrest, hok⟩ := bind_eq_ok h
      cases hok
      obtain ⟨hcount, hasked⟩ := ih hrest
      refine ⟨fun d hd => ?_, ?_⟩
      · rw [literals, List.count_cons, List.count_cons, hcount d hd]
      · intro expression whole hp
        rcases List.mem_cons.mp hp with heq | hp
        · cases heq
        · exact hasked expression whole hp
    | placeholder expression whole =>
      rw [fill] at h
      obtain ⟨value, hvalue, h⟩ := bind_eq_ok h
      obtain ⟨rest, hrest, hok⟩ := bind_eq_ok h
      cases hok
      obtain ⟨hcount, hasked⟩ := ih hrest
      refine ⟨fun d hd => ?_, ?_⟩
      · have hnone : value.count d = 0 :=
          List.count_eq_zero.mpr fun hmem => hd (hsafe expression whole value hvalue d hmem)
        rw [literals, List.count_append, hcount d hd, hnone, Nat.zero_add]
      · intro expression' whole' hp
        rcases List.mem_cons.mp hp with heq | hp
        · cases heq
          exact ⟨value, hvalue⟩
        · exact hasked expression' whole' hp

theorem not_inside_slash : ¬Inside '/' := by decide

/-- **A path that passes the last check keeps its shape.** -/
theorem shape_of_fill
    (hsafe : ∀ expression whole text, replacer expression whole = .ok text → ∀ c ∈ text, Safe c)
    {path : List Char} (h : fill replacer (pieces path) = .ok rendered)
    (hlast : assert_safe_path_segments rendered = .ok ()) : Shape path rendered := by
  obtain ⟨hcount, -⟩ := fill_spec hsafe h
  refine ⟨?_, ?_, ?_⟩
  · rw [hcount '/' (by decide), count_literals not_inside_slash]
  · intro segment hsegment
    have hdots : is_dots ((Percent.decode segment).getD segment) = false := by
      rw [assert_safe_path_segments] at hlast
      split at hlast
      · cases hlast
      next hany =>
        exact Bool.eq_false_iff.mpr fun hd =>
          hany (List.any_eq_true.mpr ⟨segment, hsegment, hd⟩)
    constructor
    · intro heq
      rw [heq] at hdots
      cases hdots
    · intro heq
      rw [heq] at hdots
      cases hdots
  · intro c hspecial
    rw [hcount c ?_]
    · exact (literals_sublist path).count_le c
    rintro ⟨-, hquestion, hhash, hback, hlow, hhigh⟩
    rcases hspecial with heq | heq | heq | hlt | hlt
    · exact hquestion heq
    · exact hhash heq
    · exact hback heq
    · omega
    · omega

/-! ## Empty places -/

end Engine

/-- An array of which `join` makes an empty text. -/
def Js.hollow : Js ν → Bool
  | .value (.array items) => Declarative.hollow items
  | _ => false

def nothing_between : List (Value ν) → Bool
  | [] => true
  | [item] => blank item
  | _ => false

section Engine

variable (E : Engine ν)

/-- Nothing is put in place of a value that is there. -/
def vanishes (parameter : Option Parameter) (value : Js ν) : Bool :=
  match parameter with
  | none => value.hollow
  | some parameter =>
    match parameter.content with
    | some type => !is_json E type && value.hollow
    | none =>
      match value with
      | .value (.array items) =>
        match parameter.style with
        | .matrix => parameter.explode && items.isEmpty
        | .label => false
        | _ => nothing_between items
      | value =>
        value.record.any List.isEmpty && match parameter.style with
          | .matrix => parameter.explode
          | .label => false
          | _ => true

def Solid (path : List Char) (parameters : List Parameter) (input : Fields ν) : Prop :=
  ∀ expression whole, .placeholder expression whole ∈ pieces path →
    vanishes E (parameter_of parameters expression) (value_of E parameters input expression)
      = false

end Engine

section Engine

variable {E : Engine ν}

variable {text : List Char} {value : Js ν} {items : List (Value ν)} {texts : List (List Char)}
  {pairs : List (List Char × List Char)} {parameter : Parameter} {parameters : List Parameter}

theorem encode_eq_nil : encodeURIComponent text = [] ↔ text = [] :=
  Percent.encode_eq_nil

theorem part_eq_nil {v : Value ν} (h : part E v = .ok text) : text = [] ↔ blank v = true := by
  cases v with
  | object fields =>
    cases h
    rw [stringify]
    exact iff_of_false (List.cons_ne_nil _ _) Bool.false_ne_true
  | _ => exact to_string_eq_nil (E := E) h

theorem text_eq_nil (h : value.text E = .ok text) (hthere : value.missing = false) :
    text = [] ↔ value.hollow = true := by
  cases value with
  | undefined => cases hthere
  | value v =>
    rw [to_string_eq_nil h]
    cases v with
    | string s =>
      rw [blank]
      exact iff_of_false (Bool.eq_false_iff.mp hthere) Bool.false_ne_true
    | array items => rfl
    | _ => rfl
  | prototype =>
    cases h
    exact iff_of_false (by decide) Bool.false_ne_true
  | builtin name =>
    cases h
    exact iff_of_false (E.native_ne name) Bool.false_ne_true

theorem parameter_part_eq_nil (h : parameter_part E value = .ok text)
    (hthere : value.missing = false) : text = [] ↔ value.hollow = true := by
  cases value with
  | undefined => cases hthere
  | value v =>
    cases v with
    | object fields =>
      cases h
      rw [stringify]
      exact iff_of_false (List.cons_ne_nil _ _) Bool.false_ne_true
    | _ => exact text_eq_nil (E := E) h hthere
  | prototype =>
    cases h
    exact iff_of_false (by decide) Bool.false_ne_true
  | builtin name => exact text_eq_nil (E := E) h hthere

theorem stringify_ne (v : Value ν) : stringify E v ≠ [] := by
  cases v with
  | null =>
    rw [stringify]
    decide
  | bool b =>
    rw [stringify]
    cases b <;> decide
  | number n =>
    rw [stringify]
    exact E.number_json_ne n
  | _ =>
    rw [stringify]
    exact List.cons_ne_nil _ _

theorem content_eq_nil {type : List Char} (h : serialize_content_parameter E type value = .ok text)
    (hthere : value.missing = false) : text = [] ↔ (!is_json E type && value.hollow) = true := by
  by_cases hjson : is_json E type = true
  · rw [hjson]
    refine iff_of_false ?_ Bool.false_ne_true
    rw [serialize_content_parameter.eq_def, if_pos hjson] at h
    cases value with
    | undefined => cases hthere
    | value v =>
      cases h
      exact stringify_ne v
    | prototype =>
      cases h
      decide
    | builtin name =>
      cases h
      exact E.native_ne name
  · rw [serialize_content_parameter.eq_def, if_neg hjson] at h
    rw [Bool.eq_false_iff.mpr hjson]
    exact parameter_part_eq_nil h hthere

theorem encode_items_eq_nil (h : encode_items E encodeURIComponent items = .ok texts) :
    texts = [] ↔ items = [] := by
  cases items with
  | nil =>
    cases h
    exact iff_of_true rfl rfl
  | cons item items =>
    obtain ⟨t, -, h⟩ := bind_eq_ok h
    obtain ⟨rest, -, hok⟩ := bind_eq_ok h
    cases hok
    exact iff_of_false (List.cons_ne_nil _ _) (List.cons_ne_nil _ _)

theorem items_eq_nil (h : encode_items E encodeURIComponent items = .ok texts) :
    List.intercalate [','] texts = [] ↔ nothing_between items = true := by
  rw [intercalate_eq_nil]
  cases items with
  | nil =>
    cases h
    simp [nothing_between]
  | cons item items =>
    obtain ⟨t, ht, h⟩ := bind_eq_ok h
    obtain ⟨rest, hrest, hok⟩ := bind_eq_ok h
    cases hok
    have hrest_nil := encode_items_eq_nil hrest
    cases items with
    | nil => simp [hrest_nil.mpr rfl, encode_eq_nil, part_eq_nil ht, nothing_between]
    | cons item' items =>
      have hne : rest ≠ [] := fun heq => List.cons_ne_nil _ _ (hrest_nil.mp heq)
      simp [hne, nothing_between]

theorem encode_pairs_eq_nil {object : Fields ν}
    (h : encode_pairs E encodeURIComponent encodeURIComponent object = .ok pairs) :
    pairs = [] ↔ object = [] := by
  cases object with
  | nil =>
    cases h
    exact iff_of_true rfl rfl
  | cons field object =>
    obtain ⟨t, -, h⟩ := bind_eq_ok h
    obtain ⟨rest, -, hok⟩ := bind_eq_ok h
    cases hok
    exact iff_of_false (List.cons_ne_nil _ _) (List.cons_ne_nil _ _)

theorem path_items_eq_nil {name : List Char}
    (h : encode_items E encodeURIComponent items = .ok texts) :
    path_items parameter name texts = [] ↔ (match parameter.style with
      | .matrix => parameter.explode && items.isEmpty
      | .label => false
      | _ => nothing_between items) = true := by
  have hnil := encode_items_eq_nil h
  rw [path_items]
  split
  · split
    next hexplode =>
      rw [hexplode, Bool.true_and, List.isEmpty_iff, ← hnil]
      cases texts with
      | nil => simp
      | cons text texts => simp
    next hexplode =>
      rw [Bool.eq_false_iff.mpr hexplode]
      simp
  · exact iff_of_false (List.cons_ne_nil _ _) Bool.false_ne_true
  · exact items_eq_nil h

theorem path_pairs_eq_nil {name : List Char} :
    path_pairs parameter name pairs = [] ↔ pairs = [] ∧ (match parameter.style with
      | .matrix => parameter.explode
      | .label => false
      | _ => true) = true := by
  have hparts : List.intercalate [','] (pairs.flatMap fun pair => [pair.1, pair.2]) = []
      ↔ pairs = [] := by
    rw [intercalate_eq_nil]
    cases pairs with
    | nil => simp
    | cons pair pairs => simp
  have hequations : List.intercalate [','] (pairs.map fun pair => pair.1 ++ '=' :: pair.2) = []
      ↔ pairs = [] := by
    rw [intercalate_eq_nil]
    cases pairs with
    | nil => simp
    | cons pair pairs => simp
  rw [path_pairs]
  split
  · split
    next hexplode =>
      rw [hexplode]
      cases pairs with
      | nil => simp
      | cons pair pairs => simp
    next hexplode =>
      rw [Bool.eq_false_iff.mpr hexplode]
      simp
  · exact iff_of_false (List.cons_ne_nil _ _) (fun h => Bool.false_ne_true h.2)
  · split
    · simpa using hequations
    · simpa using hparts

theorem vanishes_items (hcontent : parameter.content = none) (items : List (Value ν)) :
    vanishes E (some parameter) (.value (.array items)) = match parameter.style with
      | .matrix => parameter.explode && items.isEmpty
      | .label => false
      | _ => nothing_between items := by
  rw [vanishes.eq_def]
  dsimp only
  rw [hcontent]

theorem vanishes_other (hcontent : parameter.content = none)
    (h : ∀ items, value ≠ .value (.array items)) :
    vanishes E (some parameter) value = (value.record.any List.isEmpty
      && match parameter.style with
        | .matrix => parameter.explode
        | .label => false
        | _ => true) := by
  rw [vanishes.eq_def]
  dsimp only
  rw [hcontent]
  cases value with
  | value v =>
    cases v with
    | array items => exact absurd rfl (h items)
    | _ => rfl
  | _ => rfl

/-- **What leaves its place in a path empty.** -/
theorem serialize_eq_nil (h : serialize_path_parameter E parameter value = .ok text)
    (hthere : value.missing = false) : text = [] ↔ vanishes E (some parameter) value = true := by
  rw [serialize_path_parameter.eq_def] at h
  cases hcontent : parameter.content with
  | some type =>
    rw [hcontent] at h
    obtain ⟨t, ht, hok⟩ := bind_eq_ok h
    cases hok
    rw [encode_eq_nil, vanishes.eq_def]
    dsimp only
    rw [hcontent]
    exact content_eq_nil ht hthere
  | none =>
    rw [hcontent] at h
    dsimp only at h
    split at h
    next items =>
      obtain ⟨texts, htexts, hok⟩ := bind_eq_ok h
      cases hok
      rw [vanishes_items hcontent]
      exact path_items_eq_nil htexts
    next hitems =>
      rw [vanishes_other hcontent hitems]
      split at h
      next object hobject =>
        obtain ⟨pairs, hpairs, hok⟩ := bind_eq_ok h
        cases hok
        rw [path_pairs_eq_nil, encode_pairs_eq_nil hpairs, hobject, Option.any_some,
          Bool.and_eq_true, List.isEmpty_iff]
      next hobject =>
        obtain ⟨t, ht, hok⟩ := bind_eq_ok h
        cases hok
        -- no array and no record: a value with a text
        have hnot : value.hollow = false := by
          rw [Js.hollow.eq_def]
          split
          next items => exact absurd rfl (hitems items)
          next => rfl
        have hne : t ≠ [] := by
          rw [Ne, parameter_part_eq_nil ht hthere, hnot]
          exact Bool.false_ne_true
        rw [hobject]
        refine iff_of_false ?_ Bool.false_ne_true
        split
        · exact List.cons_ne_nil _ _
        · exact List.cons_ne_nil _ _
        · rwa [encode_eq_nil]

theorem encode_value_eq_nil (h : encode_value E value = .ok text) (hthere : value.missing = false) :
    text = [] ↔ vanishes E none value = true := by
  obtain ⟨t, ht, hok⟩ := bind_eq_ok h
  cases hok
  rw [encode_eq_nil]
  exact text_eq_nil ht hthere

/-! ## Both functions -/

theorem request_replacer_spec {input : Fields ν} {expression : List Char} {whole : Bool}
    (h : request_replacer E parameters input expression whole = .ok text) :
    (∀ c ∈ text, Safe c) ∧ (text = [] ↔ vanishes E (parameter_of parameters expression)
      (value_of E parameters input expression) = true) := by
  rw [request_replacer] at h
  split at h
  · cases h
  next hthere =>
    rw [Bool.not_eq_true] at hthere
    obtain ⟨rendered, hrendered, h⟩ := bind_eq_ok h
    obtain ⟨-, -, hok⟩ := bind_eq_ok h
    cases hok
    cases hparameter : parameter_of parameters expression with
    | some parameter =>
      rw [hparameter] at hrendered
      exact ⟨safe_serialize hrendered, serialize_eq_nil hrendered hthere⟩
    | none =>
      rw [hparameter] at hrendered
      exact ⟨safe_encode_value hrendered, encode_value_eq_nil hrendered hthere⟩

theorem request_replacer_nil (input : Fields ν) :
    request_replacer E [] input = path_replacer E input := rfl

theorem render_request_path_eq (path : List Char) (parameters : List Parameter)
    (input : Fields ν) :
    render_request_path E path parameters input = (do
      let rendered ← fill (request_replacer E (parameters.filter (·.place = .path)) input)
        (pieces path)
      assert_safe_path_segments rendered
      .ok rendered) := by
  rw [render_request_path]
  split
  next hempty =>
    rw [List.isEmpty_iff.mp hempty, request_replacer_nil]
    rfl
  next => rfl

theorem rendered_spec (parameters : List Parameter) {path : List Char} {input : Fields ν}
    {rendered : List Char} (h : (do
      let rendered ← fill (request_replacer E parameters input) (pieces path)
      assert_safe_path_segments rendered
      .ok rendered) = Except.ok rendered) : Shape path rendered
      ∧ (Filled (request_replacer E parameters input) path ↔ Solid E path parameters input) := by
  obtain ⟨text, htext, h⟩ := bind_eq_ok h
  obtain ⟨⟨⟩, hlast, hok⟩ := bind_eq_ok h
  cases hok
  have hsafe : ∀ expression whole text,
      request_replacer E parameters input expression whole = .ok text → ∀ c ∈ text, Safe c :=
    fun _ _ _ h => (request_replacer_spec h).1
  refine ⟨shape_of_fill hsafe htext hlast, ?_⟩
  have hasked := (fill_spec hsafe htext).2
  constructor
  · intro hfilled expression whole hp
    obtain ⟨value, hvalue⟩ := hasked expression whole hp
    refine Bool.eq_false_iff.mpr fun hvanishes => hfilled expression whole hp ?_
    rw [hvalue, (request_replacer_spec hvalue).2.mpr hvanishes]
  · intro hsolid expression whole hp hnil
    have hvanishes := (request_replacer_spec hnil).2.mp rfl
    rw [hsolid expression whole hp] at hvanishes
    cases hvanishes

/-- **A rendered path has the shape of its template**; all of its places are filled exactly if
no value vanishes. -/
theorem path_kept_iff (E : Engine ν) (path : List Char) (parameters : List Parameter)
    (input : Fields ν) :
    (∀ rendered, render_path E path input = .ok rendered →
        (Shape path rendered ∧ Filled (path_replacer E input) path
          ↔ Solid E path [] input))
      ∧ ∀ rendered, render_request_path E path parameters input = .ok rendered →
        (Shape path rendered
            ∧ Filled (request_replacer E (parameters.filter (·.place = .path)) input) path
          ↔ Solid E path (parameters.filter (·.place = .path)) input) := by
  constructor
  · intro rendered h
    obtain ⟨hshape, hfilled⟩ := rendered_spec [] h
    exact (and_iff_right hshape).trans hfilled
  · intro rendered h
    rw [render_request_path_eq] at h
    obtain ⟨hshape, hfilled⟩ := rendered_spec _ h
    exact (and_iff_right hshape).trans hfilled

end Engine

namespace Sample

def items_path : List Char := "/items/\x7b\x7b ids \x7d\x7d".toList

theorem items_pieces : pieces items_path
    = "/items/".toList.map Piece.literal ++ [.placeholder "ids".toList true] := by
  decide

theorem items_placeholder {expression : List Char} {whole : Bool}
    (h : .placeholder expression whole ∈ pieces items_path) :
    expression = "ids".toList ∧ whole = true := by
  rw [items_pieces, List.mem_append, List.mem_singleton] at h
  rcases h with h | h
  · obtain ⟨c, -, hc⟩ := List.mem_map.mp h
    cases hc
  · cases h
    exact ⟨rfl, rfl⟩

def two : Fields ℕ := [("ids", .array [.number 7, .number 12])]

/-- Two items are put in place of the placeholder, in one segment. -/
theorem two_kept : Shape items_path "/items/7%2C12".toList
    ∧ Filled (path_replacer engine two) items_path := by
  have h : render_path engine items_path two = .ok "/items/7%2C12".toList := by decide
  refine ((path_kept_iff engine items_path [] two).1 _ h).mpr ?_
  intro expression whole hp
  obtain ⟨rfl, rfl⟩ := items_placeholder hp
  decide

/-- An array without items leaves the path of the whole collection. -/
theorem no_items_retarget :
    render_path engine items_path [("ids", .array [])] = .ok "/items/".toList
      ∧ ¬Filled (path_replacer engine [("ids", .array [])]) items_path := by
  refine ⟨by decide, fun h => h "ids".toList true ?_ ?_⟩
  · rw [items_pieces]
    exact List.mem_append_right _ List.mem_cons_self
  · decide

end Sample

end Appcall.Declarative
