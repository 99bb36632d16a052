/-
The names of tools: `encode_tool_name` in `crates/appcall-mcp/src/lib.rs`.

A name is the connector and the pieces of the operation between its dots, put together
with two underscores. Splitting the name gives these parts back when no part is mistaken
for the end of another: a part that another one follows has no two underscores in a row and
does not end with one, the last part has no two in a row. Keys may have any of the two, so
not every name is read back.
-/
import Appcall.Mcp.Calls

set_option autoImplicit false

namespace Appcall.Mcp

/-! ## Splitting -/

/-- No two underscores are next to each other. -/
def single : List Char → Bool
  | '_' :: '_' :: _ => false
  | _ :: rest => single rest
  | [] => true

/-- Every part ends where the next one is put to it. -/
def Separate : List (List Char) → Prop
  | [] => False
  | [part] => single part = true
  | part :: parts => single (part ++ ['_']) = true ∧ Separate parts

instance decidable_separate : (parts : List (List Char)) → Decidable (Separate parts)
  | [] => isFalse id
  | [part] => inferInstanceAs (Decidable (single part = true))
  | _ :: part' :: parts =>
    have := decidable_separate (part' :: parts)
    inferInstanceAs (Decidable (_ ∧ _))

variable {rest part : List Char} {parts : List (List Char)} (operation : List Char)
  (connector : String)

theorem single_cons {c : Char} :
    single (c :: rest) = true ↔ ¬(c = '_' ∧ rest.head? = some '_') ∧ single rest = true := by
  rw [single.eq_def]
  split
  next heq =>
    cases heq
    simp
  next hne heq =>
    cases heq
    refine ⟨fun h => ⟨fun hboth => ?_, h⟩, fun h => h.2⟩
    obtain ⟨rfl, hhead⟩ := hboth
    obtain ⟨tail, rfl⟩ := List.head?_eq_some_iff.mp hhead
    exact hne tail rfl rfl
  next heq => cases heq

theorem split_name_cons {c : Char} (h : ¬(c = '_' ∧ rest.head? = some '_'))
    (hrest : split_name rest = part :: parts) : split_name (c :: rest) = (c :: part) :: parts := by
  rw [split_name.eq_def]
  split
  next heq => cases heq
  next heq =>
    cases heq
    exact absurd ⟨rfl, rfl⟩ h
  next heq =>
    cases heq
    rw [hrest]

theorem split_name_single (h : single part = true) : split_name part = [part] := by
  induction part with
  | nil => rfl
  | cons c rest ih =>
    obtain ⟨hhead, hrest⟩ := single_cons.mp h
    exact split_name_cons hhead (ih hrest)

theorem split_name_append (h : single (part ++ ['_']) = true) :
    split_name (part ++ '_' :: '_' :: rest) = part :: split_name rest := by
  induction part with
  | nil => rfl
  | cons c part ih =>
    rw [List.cons_append] at h
    obtain ⟨hhead, hrest⟩ := single_cons.mp h
    refine split_name_cons (fun hboth => hhead ⟨hboth.1, ?_⟩) (ih hrest)
    cases part with
    | nil => rfl
    | cons d part => exact hboth.2

theorem split_join (h : Separate parts) :
    split_name (List.intercalate ['_', '_'] parts) = parts := by
  induction parts with
  | nil => exact h.elim
  | cons part parts ih =>
    cases parts with
    | nil =>
      rw [List.intercalate_singleton]
      exact split_name_single h
    | cons part' parts =>
      rw [List.intercalate_cons_cons, List.append_assoc]
      have hfirst := @split_name_append (List.intercalate ['_', '_'] (part' :: parts)) _ h.1
      rw [ih h.2] at hfirst
      exact hfirst

theorem split_spec (s : List Char) :
    Separate (split_name s) ∧ List.intercalate ['_', '_'] (split_name s) = s := by
  induction s using split_name.induct with
  | case1 => exact ⟨rfl, rfl⟩
  | case2 rest ih =>
    obtain ⟨hseparate, hjoin⟩ := ih
    rw [split_name]
    cases hrest : split_name rest with
    | nil =>
      rw [hrest] at hseparate
      exact hseparate.elim
    | cons part parts =>
      rw [hrest] at hseparate hjoin
      refine ⟨⟨rfl, hseparate⟩, ?_⟩
      rw [List.intercalate_cons_cons, hjoin]
      rfl
  | case3 c rest hne part parts hrest ih =>
    obtain ⟨hseparate, hjoin⟩ := ih
    rw [hrest] at hseparate hjoin
    have hhead : ¬(c = '_' ∧ rest.head? = some '_') := by
      rintro ⟨rfl, hhead⟩
      obtain ⟨tail, rfl⟩ := List.head?_eq_some_iff.mp hhead
      exact hne tail rfl rfl
    rw [split_name_cons hhead hrest]
    constructor
    · cases parts with
      | nil =>
        rw [List.intercalate_singleton] at hjoin
        subst hjoin
        exact single_cons.mpr ⟨hhead, hseparate⟩
      | cons part' parts =>
        refine ⟨single_cons.mpr ⟨fun hboth => hhead ⟨hboth.1, ?_⟩, hseparate.1⟩, hseparate.2⟩
        -- what stands after the first character is the same in front of the separator
        rw [← hjoin, List.intercalate_cons_cons]
        cases part with
        | nil => rfl
        | cons d part => exact hboth.2
    · rw [List.intercalate_cons_cons_left, hjoin]
  | case4 c rest hne hrest ih =>
    rw [hrest] at ih
    exact ih.1.elim

/-! ## Encoding -/

/-- `operation.replace('.', "__")` -/
def replace_dots (operation : List Char) : List Char :=
  operation.flatMap (fun c => if c = '.' then ['_', '_'] else [c])

def encode_tool_name (connector operation : String) : String :=
  String.ofList (connector.toList ++ ['_', '_'] ++ replace_dots operation.toList)

def name_parts (connector operation : String) : List (List Char) :=
  connector.toList :: operation.toList.splitOn '.'

/-- The name is read back: no part is empty, and they are separate. -/
def ReadBack (connector operation : String) : Prop :=
  (∀ part ∈ name_parts connector operation, part ≠ [])
    ∧ Separate (name_parts connector operation)

instance (connector operation : String) : Decidable (ReadBack connector operation) :=
  inferInstanceAs (Decidable (_ ∧ _))

theorem replace_dots_eq :
    replace_dots operation = List.intercalate ['_', '_'] (operation.splitOn '.') := by
  induction operation with
  | nil => rfl
  | cons c rest ih =>
    rw [replace_dots, List.flatMap_cons, ← replace_dots, ih, List.splitOn_cons_eq_if_modifyHead]
    cases hrest : rest.splitOn '.' with
    | nil => exact absurd hrest (List.splitOn_ne_nil _ _)
    | cons part parts =>
      by_cases hdot : c = '.'
      · subst hdot
        rw [if_pos rfl, if_pos (beq_self_eq_true '.'), List.intercalate_cons_cons]
        rfl
      · rw [if_neg hdot, if_neg (by simpa using hdot), List.modifyHead_cons,
          List.intercalate_cons_cons_left]
        rfl

theorem encode_eq (operation : String) : (encode_tool_name connector operation).toList
    = List.intercalate ['_', '_'] (name_parts connector operation) := by
  rw [encode_tool_name, String.toList_ofList, replace_dots_eq, name_parts,
    List.intercalate_cons_of_ne_nil (List.splitOn_ne_nil _ _)]

theorem dot_not_mem_replace : '.' ∉ replace_dots operation := by
  intro h
  obtain ⟨c, -, hc⟩ := List.mem_flatMap.mp h
  split at hc
  next => simp at hc
  next hne => exact hne (List.mem_singleton.mp hc).symm

theorem mem_join {sep : List Char} {c : Char} (hpart : part ∈ parts) (hc : c ∈ part) :
    c ∈ List.intercalate sep parts := by
  induction parts with
  | nil => exact absurd hpart List.not_mem_nil
  | cons part' parts ih =>
    cases parts with
    | nil =>
      rw [List.intercalate_singleton]
      rwa [List.mem_singleton.mp hpart] at hc
    | cons next parts =>
      rw [List.intercalate_cons_cons, List.append_assoc]
      rcases List.mem_cons.mp hpart with rfl | hpart
      · exact List.mem_append_left _ hc
      · exact List.mem_append_right _ (List.mem_append_right _ (ih hpart))

/-- **The name of a tool is read back exactly when its parts are separate.** -/
theorem decode_encode_iff (operation : String) :
    decode_tool_name (encode_tool_name connector operation) = some (connector, operation)
      ↔ ReadBack connector operation := by
  rw [decode_tool_name]
  constructor
  · intro h
    split at h
    next first part parts hsplit =>
      split at h
      next => cases h
      next hempty =>
        injection h with h
        obtain ⟨hfirst, hrest⟩ := Prod.mk.inj h
        -- the operation is the rest, put together with dots
        have hfirst : first = connector.toList := by rw [← hfirst, String.toList_ofList]
        have hrest : List.intercalate ['.'] (part :: parts) = operation.toList := by
          rw [← hrest, String.toList_ofList]
        subst hfirst
        have hjoin := (split_spec (encode_tool_name connector operation).toList).2
        rw [hsplit, List.intercalate_cons_cons, encode_tool_name, String.toList_ofList] at hjoin
        have hrest' := List.append_cancel_left hjoin
        have hdots : ∀ l ∈ part :: parts, '.' ∉ l := by
          intro l hl hmem
          apply dot_not_mem_replace operation.toList
          rw [← hrest']
          exact mem_join hl hmem
        have hparts := List.splitOn_intercalate '.' hdots (List.cons_ne_nil _ _)
        rw [hrest] at hparts
        have hname : name_parts connector operation = connector.toList :: part :: parts := by
          rw [name_parts, hparts]
        rw [ReadBack, hname]
        constructor
        · intro l hl hnil
          apply hempty
          exact List.any_eq_true.mpr ⟨l, hl, List.isEmpty_iff.mpr hnil⟩
        · rw [← hsplit]
          exact (split_spec _).1
    next => cases h
  · rintro ⟨hempty, hseparate⟩
    rw [encode_eq, split_join hseparate, name_parts]
    have hjoin : ['.'].intercalate (operation.toList.splitOn '.') = operation.toList :=
      List.intercalate_splitOn '.'
    cases hsplit : operation.toList.splitOn '.' with
    | nil => exact absurd hsplit (List.splitOn_ne_nil _ _)
    | cons part parts =>
      dsimp only
      rw [← hsplit, hjoin, String.ofList_toList, String.ofList_toList, if_neg]
      intro hany
      obtain ⟨l, hl, hnil⟩ := List.any_eq_true.mp hany
      exact hempty l hl (List.isEmpty_iff.mp hnil)

end Appcall.Mcp
