/-
Schemas that both sides accept.

Such a schema is a record whose keywords have values of their type on both sides, whose
bounds are in the range of the safe integers, and whose subschemas both sides accept.
-/
import Appcall.Connectors.Accepted
import Appcall.Runner.Interchange

set_option autoImplicit false

namespace Appcall.Parity

open Connectors (Number to_js Keyword Accepted Passed check_schema as_u64)
open Strict (Js)
open Value (lookup)

/-- The fields of a document, as the runner reads them. -/
def fields_to_js (fields : List (String × Value Number)) : List (String × Js) :=
  Value.map_fields Number.to_js fields

/-- The runner's check passes through the schema. -/
def Asserted (levels : ℕ) (schema : Js) : Prop :=
  ∃ nodes nodes', Strict.assert_strict_schema true levels schema nodes = .ok nodes'

/-- Both sides accept the schema, as a whole or within a larger one. -/
def Both (schema : Value Number) : Prop :=
  (∃ levels flag, Passed (check_schema levels) flag schema)
    ∧ ∃ levels, Asserted levels (to_js schema)

/-- What is known of the keywords of a schema that both sides accept. -/
structure Shared (map : List (String × Value Number)) : Prop extends Connectors.Typed map where
  properties : Keyword map "properties" fun given =>
    ∃ properties, given = .object properties ∧ ∀ f ∈ properties, Both f.2
  items : Keyword map "items" fun given => (∃ m, given = .object m) ∧ Both given
  additional : Keyword map "additionalProperties" fun given =>
    (∃ b, given = .bool b) ∨ (∃ m, given = .object m) ∧ Both given
  branches : ∀ key ∈ Connectors.COMBINATORS, Keyword map key fun given =>
    ∃ branches, given = .array branches ∧ ∀ branch ∈ branches, Both branch
  bounds : ∀ key ∈ ["minimum", "maximum", "exclusiveMinimum", "exclusiveMaximum"],
    Keyword map key fun given => ∃ n : Number, given = .number n ∧ n.InRange

/-! ## What the runner has checked -/

theorem lookup_js {map : List (String × Value Number)} {key : String} {given : Value Number}
    (h : lookup map key = some given) : lookup (fields_to_js map) key = some (to_js given) := by
  rw [fields_to_js, Value.lookup_map, h]
  rfl

theorem assure_ok {condition : Bool} {message : String}
    (h : Strict.assure condition message = .ok ()) : condition = true := by
  rw [Strict.assure] at h
  split at h
  · assumption
  · cases h

theorem fold_ok {σ α ε : Type} {f : σ → α → Except ε σ} {l : List α} {s s' : σ}
    (h : l.foldlM f s = .ok s') : ∀ a ∈ l, ∃ t t', f t a = .ok t' := by
  intro a ha
  obtain ⟨t, t', hstep, _⟩ := (foldlM_ok (R := fun _ _ => True) (fun _ => trivial)
    (fun _ _ _ _ _ => trivial) (fun _ _ _ _ _ => trivial) h).2 a ha
  exact ⟨t, t', hstep⟩

section Record

variable {assert : Js → ℕ → Except String ℕ} {map : List (String × Js)} {nodes nodes' : ℕ}

theorem assert_values_ok (h : Strict.assert_values map = .ok ()) :
    (∀ key ∈ ["minimum", "maximum", "exclusiveMinimum", "exclusiveMaximum"], ∀ given,
        lookup map key = some given → Strict.is_safe_number given = true)
      ∧ ∀ given, lookup map "additionalProperties" = some given →
        (∃ b, given = .bool b) ∨ ∃ m, given = .object m := by
  rw [Strict.assert_values] at h
  obtain ⟨_, _, h⟩ := bind_eq_ok h
  obtain ⟨_, hbounds, h⟩ := bind_eq_ok h
  obtain ⟨_, _, h⟩ := bind_eq_ok h
  obtain ⟨_, _, h⟩ := bind_eq_ok h
  obtain ⟨_, _, hadditional⟩ := bind_eq_ok h
  refine ⟨fun key hkey given hgiven => ?_, fun given hgiven => ?_⟩
  · have hall := assure_ok (forM_ok hbounds key hkey)
    rwa [hgiven, Option.all_some] at hall
  · have hall := assure_ok hadditional
    rw [hgiven, Option.all_some] at hall
    cases given with
    | bool b => exact .inl ⟨b, rfl⟩
    | object m => exact .inr ⟨m, rfl⟩
    | _ => cases hall

theorem assert_properties_ok (h : Strict.assert_properties assert map nodes = .ok nodes')
    {properties : List (String × Js)} (hlookup : lookup map "properties" = some
      (.object properties))
    {f : String × Js} (hf : f ∈ properties) : ∃ n n', assert f.2 n = .ok n' := by
  rw [Strict.assert_properties, hlookup] at h
  obtain ⟨t, t', hstep⟩ := fold_ok h f (Strict.mem_entries.mpr hf)
  split at hstep
  · cases hstep
  · exact ⟨t, t', hstep⟩

theorem assert_items_ok (h : Strict.assert_items assert map nodes = .ok nodes') {given : Js}
    (hlookup : lookup map "items" = some given) :
    (∃ m, given = .object m) ∧ ∃ n n', assert given n = .ok n' := by
  rw [Strict.assert_items, hlookup] at h
  cases given with
  | object m => exact ⟨⟨m, rfl⟩, _, _, h⟩
  | _ => cases h

theorem assert_additional_ok (h : Strict.assert_additional assert map nodes = .ok nodes')
    {m : List (String × Js)} (hlookup : lookup map "additionalProperties" = some (.object m)) :
    ∃ n n', assert (.object m) n = .ok n' := by
  rw [Strict.assert_additional, hlookup] at h
  exact ⟨_, _, h⟩

theorem assert_branches_ok (h : Strict.assert_branches assert map nodes = .ok nodes')
    {key : String} (hkey : key ∈ Strict.COMBINATORS) {branches : List Js}
    (hlookup : lookup map key = some (.array branches)) {branch : Js} (hmem : branch ∈ branches) :
    ∃ n n', assert branch n = .ok n' := by
  obtain ⟨t, t', hstep⟩ := fold_ok h key hkey
  rw [hlookup] at hstep
  dsimp only at hstep
  split at hstep
  · cases hstep
  · obtain ⟨u, u', hbranch⟩ := fold_ok hstep branch hmem
    split at hbranch
    · exact ⟨u, u', hbranch⟩
    · cases hbranch

end Record

/-! ## Both sides together -/

variable {schema : Value Number} {m : List (String × Js)}

theorem to_js_record (h : Strict.as_record (to_js schema) = some m) :
    ∃ map, schema = .object map ∧ m = fields_to_js map := by
  cases schema with
  | object map => exact ⟨map, rfl, (Option.some.inj h).symm⟩
  | _ => cases h

theorem to_js_object (h : to_js schema = .object m) : ∃ map, schema = .object map := by
  cases schema with
  | object map => exact ⟨map, rfl⟩
  | _ => cases h

theorem to_js_bool {b : Bool} (h : to_js schema = .bool b) : schema = .bool b := by
  cases schema with
  | bool b' =>
    cases h
    rfl
  | _ => cases h

theorem asserted_record {levels : ℕ} (h : Asserted levels (to_js schema)) :
    ∃ map below nodes nodes', schema = .object map
      ∧ Strict.assert_record (Strict.assert_strict_schema true below) true (fields_to_js map) nodes
        = .ok nodes' := by
  obtain ⟨nodes, nodes', h⟩ := h
  unfold Strict.assert_strict_schema at h
  split at h
  · cases h
  next m hm =>
    obtain ⟨map, rfl, rfl⟩ := to_js_record hm
    cases levels with
    | zero => cases h
    | succ below =>
      dsimp only at h
      split at h
      · cases h
      · exact ⟨map, below, _, _, rfl, h⟩

theorem both_cases (h : Both schema) : ∃ map, schema = .object map ∧ Shared map := by
  obtain ⟨⟨levels, flag, hpassed⟩, strict, hasserted⟩ := h
  obtain ⟨map, below, nodes, nodes', rfl, hrecord⟩ := asserted_record hasserted
  rw [Strict.assert_record] at hrecord
  obtain ⟨_, _, hrecord⟩ := bind_eq_ok hrecord
  obtain ⟨_, _, hrecord⟩ := bind_eq_ok hrecord
  obtain ⟨_, hvalues, hrecord⟩ := bind_eq_ok hrecord
  obtain ⟨_, hproperties, hrecord⟩ := bind_eq_ok hrecord
  obtain ⟨_, hitems, hrecord⟩ := bind_eq_ok hrecord
  obtain ⟨_, hadditional, hbranches⟩ := bind_eq_ok hrecord
  obtain ⟨hbounds, hkind⟩ := assert_values_ok hvalues
  cases levels with
  | zero => exact (Connectors.passed_level hpassed).elim
  | succ levels =>
    rcases Connectors.passed_cases hpassed with ⟨b, hb⟩ | ⟨_, hmap, h⟩
    · cases hb
    · cases hmap
      refine ⟨map, rfl, ?_⟩
      exact {
        toTyped := h.toTyped
        properties := fun given hgiven => by
          obtain ⟨properties, rfl, hpassed⟩ := h.properties given hgiven
          refine ⟨properties, rfl, fun f hf => ⟨⟨levels, flag, hpassed f hf⟩, below, ?_⟩⟩
          have hmem : (f.1, to_js f.2) ∈ fields_to_js properties := by
            rw [fields_to_js, Value.map_fields_eq]
            exact List.mem_map_of_mem hf
          exact assert_properties_ok hproperties (lookup_js hgiven) hmem
        items := fun given hgiven => by
          obtain ⟨⟨m, hm⟩, hasserted⟩ := assert_items_ok hitems (lookup_js hgiven)
          exact ⟨to_js_object hm, ⟨levels, flag, h.items given hgiven⟩, below, hasserted⟩
        additional := fun given hgiven => by
          rcases hkind _ (lookup_js hgiven) with ⟨b, hb⟩ | ⟨m, hm⟩
          · exact .inl ⟨b, to_js_bool hb⟩
          · refine .inr ⟨to_js_object hm, ⟨levels, flag, h.additional given hgiven⟩, below, ?_⟩
            have hlookup := lookup_js hgiven
            rw [hm] at hlookup
            rw [hm]
            exact assert_additional_ok hadditional hlookup
        branches := fun key hkey given hgiven => by
          obtain ⟨_, branches, rfl, hpassed⟩ := h.branches key hkey given hgiven
          refine ⟨branches, rfl, fun branch hmem =>
            ⟨⟨levels, flag, hpassed branch hmem⟩, below, ?_⟩⟩
          have hmem' : to_js branch ∈ Value.map_items Number.to_js branches := by
            rw [Value.map_items_eq]
            exact List.mem_map_of_mem hmem
          exact assert_branches_ok hbranches hkey (lookup_js hgiven) hmem'
        bounds := fun key hkey given hgiven => by
          obtain ⟨n, rfl⟩ := h.bounds key hkey given hgiven
          have hsafe : decide (n.to_js.magnitude ≤ Strict.MAX_SAFE_INTEGER) = true :=
            hbounds key hkey _ (lookup_js hgiven)
          rw [decide_eq_true_iff] at hsafe
          exact ⟨n, rfl, hsafe⟩ }

theorem both_empty : Both (.object []) :=
  ⟨⟨1, false, (0, false), (1, false), by rfl, fun h => h⟩, 1, 0, 1, by rfl⟩

end Appcall.Parity
