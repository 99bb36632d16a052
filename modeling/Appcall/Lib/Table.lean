/-
Keyed tables.

A table is a list of rows no two of which have the same key, with the writes a database
makes on one row: update it, insert it, insert it or update it, delete it. What the
writes do to a sum over the rows is what ledgers are about: a sum changes by what the
one row contributes before and after.
-/
import Mathlib.Algebra.Order.BigOperators.Group.List
import Mathlib.Algebra.Order.Ring.Int
import Mathlib.Data.List.Nodup
import Mathlib.Tactic.Cases

set_option autoImplicit false

namespace Appcall

structure Table {ρ κ : Type} (key : ρ → κ) where
  rows : List ρ
  nodup : (rows.map key).Nodup

namespace Table

variable {ρ κ : Type} {key : ρ → κ}

def empty : Table key := ⟨[], List.nodup_nil⟩

/-- The sum of a quantity over the rows. -/
def sum (t : Table key) (w : ρ → ℤ) : ℤ := (t.rows.map w).sum

/-- The table without the rows that meet a condition. -/
def delete (t : Table key) (p : ρ → Bool) : Table key :=
  ⟨t.rows.filter (fun r => !p r), t.nodup.sublist (List.filter_sublist.map key)⟩

variable [DecidableEq κ]

def find (t : Table key) (k : κ) : Option ρ := t.rows.find? (fun r => decide (key r = k))

/-- The table with the row of a key rewritten. -/
def modify (t : Table key) (k : κ) (f : ρ → ρ) (hf : ∀ r, key (f r) = key r) : Table key :=
  ⟨t.rows.map (fun r => if key r = k then f r else r), by
    have hkeys : (t.rows.map (fun r => if key r = k then f r else r)).map key
        = t.rows.map key := by
      rw [List.map_map]
      apply List.map_congr_left
      intro r _
      by_cases h : key r = k
      · simp [h, hf]
      · simp [h]
    rw [hkeys]
    exact t.nodup⟩

variable {t : Table key} {k : κ} {r : ρ} {t' : Table key}

theorem find_none_iff : t.find k = none ↔ k ∉ t.rows.map key := by
  simp [find, List.find?_eq_none]

/-- The table with a new row; there is none when the key is taken. -/
def insert (t : Table key) (r : ρ) : Option (Table key) :=
  if h : t.find (key r) = none then
    some ⟨t.rows ++ [r], by
      rw [List.map_append, List.nodup_append]
      refine ⟨t.nodup, List.nodup_singleton _, ?_⟩
      intro k hk k' hk' heq
      rw [List.map_singleton, List.mem_singleton] at hk'
      rw [heq, hk'] at hk
      exact find_none_iff.mp h hk⟩
  else none

/-- The table with a new row, or with the row of its key rewritten. -/
def upsert (t : Table key) (r : ρ) (f : ρ → ρ) (hf : ∀ r, key (f r) = key r) : Table key :=
  (t.insert r).getD (t.modify (key r) f hf)

/-! ## Rows -/

theorem find_eq_some : t.find k = some r ↔ r ∈ t.rows ∧ key r = k := by
  have hsound : ∀ {r'}, t.find k = some r' → r' ∈ t.rows ∧ key r' = k := by
    intro r' hfind
    refine ⟨List.mem_of_find?_eq_some hfind, ?_⟩
    simpa using List.find?_some hfind
  refine ⟨hsound, ?_⟩
  rintro ⟨hr, hk⟩
  cases hfind : t.find k with
  | none =>
    apply absurd _ (find_none_iff.mp hfind)
    rw [← hk]
    exact List.mem_map_of_mem hr
  | some r' =>
    -- a second row of the key would be a second occurrence of it
    obtain ⟨hr', hk'⟩ := hsound hfind
    rw [List.inj_on_of_nodup_map t.nodup hr' hr (hk'.trans hk.symm)]

theorem find_modify (t : Table key) (k : κ) (f : ρ → ρ) (hf : ∀ r, key (f r) = key r) (k' : κ) :
    (t.modify k f hf).find k' = if k' = k then (t.find k).map f else t.find k' := by
  have hpred : (fun r => decide (key r = k')) ∘ (fun r => if key r = k then f r else r)
      = fun r => decide (key r = k') := by
    funext r
    by_cases h : key r = k
    · simp [h, hf]
    · simp [h]
  rw [find, modify, List.find?_map, hpred]
  change Option.map _ (t.find k') = _
  by_cases hk : k' = k
  · subst hk
    rw [if_pos rfl]
    cases h : t.find k' with
    | none => rfl
    | some r => simp [(find_eq_some.mp h).2]
  · rw [if_neg hk]
    cases h : t.find k' with
    | none => rfl
    | some r =>
      have hne : key r ≠ k := by rw [(find_eq_some.mp h).2]; exact hk
      simp [hne]

theorem find_modify_self (h : t.find k = some r) (f : ρ → ρ) (hf : ∀ r, key (f r) = key r) :
    (t.modify k f hf).find k = some (f r) := by
  rw [find_modify, if_pos rfl, h]
  rfl

theorem find_modify_other (t : Table key) {k' : κ} (f : ρ → ρ) (hf : ∀ r, key (f r) = key r)
    (hk : k' ≠ k) : (t.modify k f hf).find k' = t.find k' := by
  rw [find_modify, if_neg hk]

theorem mem_modify {r₀ : ρ} (h : t.find k = some r₀) {f : ρ → ρ} (hf : ∀ r, key (f r) = key r)
    (hr : r ∈ (t.modify k f hf).rows) : r = f r₀ ∨ (r ∈ t.rows ∧ key r ≠ k) := by
  have hfind := find_eq_some.mpr ⟨hr, rfl⟩
  by_cases hk : key r = k
  · rw [hk, find_modify_self h f hf] at hfind
    cases hfind
    exact .inl rfl
  · rw [find_modify_other t f hf hk] at hfind
    exact .inr ⟨(find_eq_some.mp hfind).1, hk⟩

theorem mem_modify_rows {f : ρ → ρ} (hf : ∀ r, key (f r) = key r)
    (hr : r ∈ (t.modify k f hf).rows) :
    ∃ r₀ ∈ t.rows, r = r₀ ∨ r = f r₀ := by
  obtain ⟨r₀, hr₀, heq⟩ := List.mem_map.mp hr
  refine ⟨r₀, hr₀, ?_⟩
  split at heq
  next => exact .inr heq.symm
  next => exact .inl heq.symm

theorem find_delete (t : Table key) (p : ρ → Bool) (k : κ) :
    (t.delete p).find k = (t.find k).filter (fun r => !p r) := by
  cases hfind : t.find k with
  | none =>
    rw [Option.filter_none, find_none_iff]
    intro hmem
    apply find_none_iff.mp hfind
    exact (List.filter_sublist.map key).subset hmem
  | some r =>
    obtain ⟨hr, hk⟩ := find_eq_some.mp hfind
    by_cases hp : p r = true
    · rw [Option.filter_some, if_neg (by rw [hp]; decide), find_none_iff]
      intro hmem
      -- the row of the key was deleted, and there was no other
      obtain ⟨r', hr', hk'⟩ := List.mem_map.mp hmem
      obtain ⟨hmem', hkept⟩ := List.mem_filter.mp hr'
      rw [List.inj_on_of_nodup_map t.nodup hmem' hr (hk'.trans hk.symm), hp] at hkept
      cases hkept
    · rw [Bool.not_eq_true] at hp
      rw [Option.filter_some, if_pos (by rw [hp]; rfl), find_eq_some]
      exact ⟨List.mem_filter.mpr ⟨hr, by rw [hp]; rfl⟩, hk⟩

theorem insert_eq_some (h : t.insert r = some t') :
    t.find (key r) = none ∧ t'.rows = t.rows ++ [r] := by
  rw [insert] at h
  split at h
  next hnone =>
    cases h
    exact ⟨hnone, rfl⟩
  next => cases h

theorem find_insert (h : t.insert r = some t') (k : κ) :
    t'.find k = if k = key r then some r else t.find k := by
  obtain ⟨hnone, hrows⟩ := insert_eq_some h
  rw [find, hrows, List.find?_append]
  by_cases hk : k = key r
  · subst hk
    have hold : List.find? (fun r' => decide (key r' = key r)) t.rows = none := hnone
    rw [if_pos rfl, hold]
    simp
  · rw [if_neg hk]
    have hne : ¬key r = k := fun heq => hk heq.symm
    simp [hne, find]

theorem mem_insert_getD {r' : ρ} (h : r' ∈ ((t.insert r).getD t).rows) :
    r' ∈ t.rows ∨ (r' = r ∧ t.find (key r) = none) := by
  cases hinsert : t.insert r with
  | none =>
    rw [hinsert] at h
    exact .inl h
  | some t' =>
    obtain ⟨hnone, hrows⟩ := insert_eq_some hinsert
    rw [hinsert, Option.getD_some, hrows, List.mem_append, List.mem_singleton] at h
    exact h.imp_right fun heq => ⟨heq, hnone⟩

theorem find_insert_getD {r₀ : ρ} (h : t.find k = some r₀) :
    ((t.insert r).getD t).find k = some r₀ := by
  cases hinsert : t.insert r with
  | none => exact h
  | some t' =>
    have hne : k ≠ key r := by
      rintro rfl
      rw [(insert_eq_some hinsert).1] at h
      cases h
    rw [Option.getD_some, find_insert hinsert, if_neg hne, h]

theorem insert_eq_none (h : t.insert r = none) : ∃ r', t.find (key r) = some r' := by
  cases hfind : t.find (key r) with
  | none =>
    rw [insert, dif_pos hfind] at h
    cases h
  | some r' => exact ⟨r', rfl⟩

theorem find_upsert (t : Table key) (r : ρ) (f : ρ → ρ) (hf : ∀ r, key (f r) = key r) (k : κ) :
    (t.upsert r f hf).find k
      = if k = key r then some ((t.find k).elim r f) else t.find k := by
  rw [upsert]
  cases h : t.insert r with
  | some t' =>
    rw [Option.getD_some, find_insert h]
    by_cases hk : k = key r
    · rw [if_pos hk, if_pos hk, hk, (insert_eq_some h).1]
      rfl
    · rw [if_neg hk, if_neg hk]
  | none =>
    obtain ⟨r', hfind⟩ := insert_eq_none h
    rw [Option.getD_none, find_modify]
    by_cases hk : k = key r
    · rw [if_pos hk, if_pos hk, hk, hfind]
      rfl
    · rw [if_neg hk, if_neg hk]

theorem find_upsert_self (t : Table key) (r : ρ) (f : ρ → ρ) (hf : ∀ r, key (f r) = key r) :
    (t.upsert r f hf).find (key r) = some ((t.find (key r)).elim r f) := by
  rw [find_upsert, if_pos rfl]

theorem find_upsert_other (t : Table key) (r : ρ) (f : ρ → ρ) (hf : ∀ r, key (f r) = key r)
    (hk : k ≠ key r) : (t.upsert r f hf).find k = t.find k := by
  rw [find_upsert, if_neg hk]

theorem upsert_rows_of_none (h : t.find (key r) = none) (f : ρ → ρ) (hf : ∀ r, key (f r) = key r) :
    (t.upsert r f hf).rows = t.rows ++ [r] := by
  rw [upsert, insert, dif_pos h, Option.getD_some]

/-! ## Sums -/

theorem sum_map_modify {l : List ρ} {f : ρ → ρ} (w : ρ → ℤ) (hnodup : (l.map key).Nodup)
    (hr : r ∈ l) (hk : key r = k) : ((l.map (fun r => if key r = k then f r else r)).map w).sum
      = (l.map w).sum + (w (f r) - w r) := by
  induction l with
  | nil => cases hr
  | cons a l ih =>
    rw [List.map_cons, List.nodup_cons] at hnodup
    simp only [List.map_cons, List.sum_cons]
    rcases List.mem_cons.mp hr with rfl | hr
    · -- the other rows have other keys, and stay
      have hfixed : ∀ b ∈ l, (if key b = k then f b else b) = id b := by
        intro b hb
        apply if_neg
        intro heq
        apply hnodup.1
        rw [hk, ← heq]
        exact List.mem_map_of_mem hb
      rw [List.map_congr_left hfixed, List.map_id, if_pos hk]
      omega
    · have hne : key a ≠ k := by
        intro heq
        apply hnodup.1
        rw [heq, ← hk]
        exact List.mem_map_of_mem hr
      rw [ih hnodup.2 hr, if_neg hne]
      omega

theorem sum_modify (h : t.find k = some r) (f : ρ → ρ) (hf : ∀ r, key (f r) = key r) (w : ρ → ℤ) :
    (t.modify k f hf).sum w = t.sum w + (w (f r) - w r) := by
  obtain ⟨hr, hk⟩ := find_eq_some.mp h
  exact sum_map_modify w t.nodup hr hk

theorem modify_of_none (h : t.find k = none) (f : ρ → ρ) (hf : ∀ r, key (f r) = key r) :
    (t.modify k f hf).rows = t.rows := by
  have hfixed : ∀ r ∈ t.rows, (if key r = k then f r else r) = id r := by
    intro r hr
    apply if_neg
    rintro rfl
    exact find_none_iff.mp h (List.mem_map_of_mem hr)
  rw [modify]
  exact (List.map_congr_left hfixed).trans (List.map_id _)

theorem sum_insert (h : t.insert r = some t') (w : ρ → ℤ) : t'.sum w = t.sum w + w r := by
  rw [sum, (insert_eq_some h).2, List.map_append, List.sum_append]
  simp [sum]

theorem sum_upsert (t : Table key) (r : ρ) (f : ρ → ρ) (hf : ∀ r, key (f r) = key r)
    (w : ρ → ℤ) : (t.upsert r f hf).sum w
      = t.sum w + (t.find (key r)).elim (w r) (fun r' => w (f r') - w r') := by
  rw [upsert]
  cases h : t.insert r with
  | some t' =>
    rw [Option.getD_some, sum_insert h, (insert_eq_some h).1]
    rfl
  | none =>
    obtain ⟨r', hfind⟩ := insert_eq_none h
    rw [Option.getD_none, sum_modify hfind, hfind]
    rfl

omit [DecidableEq κ] in
theorem sum_delete_le (t : Table key) (p : ρ → Bool) {w : ρ → ℤ} (hw : ∀ r, 0 ≤ w r) :
    (t.delete p).sum w ≤ t.sum w := by
  change ((t.rows.filter (fun r => !p r)).map w).sum ≤ (t.rows.map w).sum
  induction t.rows with
  | nil => exact le_rfl
  | cons r rows ih =>
    have hr := hw r
    rw [List.filter_cons, List.map_cons, List.sum_cons]
    split
    · rw [List.map_cons, List.sum_cons]
      omega
    · omega

theorem le_sum (h : t.find k = some r) {w : ρ → ℤ} (hw : ∀ r, 0 ≤ w r) : w r ≤ t.sum w := by
  apply List.single_le_sum
  · intro x hx
    obtain ⟨r', -, rfl⟩ := List.mem_map.mp hx
    exact hw r'
  · exact List.mem_map_of_mem (find_eq_some.mp h).1

/-! ## Readings -/

/-- What the row of a key says, and 0 without one. -/
def read (t : Table key) (k : κ) (m : ρ → ℤ) : ℤ := (t.find k).elim 0 m

theorem read_modify (h : t.find k = some r) (f : ρ → ρ) (hf : ∀ r, key (f r) = key r) {m : ρ → ℤ}
    {d : ℤ} (hd : m (f r) = m r + d) (k' : κ) :
    (t.modify k f hf).read k' m = t.read k' m + (if k' = k then d else 0) := by
  rw [read, read, find_modify]
  by_cases hk : k' = k
  · subst hk
    rw [if_pos rfl, if_pos rfl, h]
    exact hd
  · rw [if_neg hk, if_neg hk]
    omega

theorem read_upsert (t : Table key) (r : ρ) (f : ρ → ρ) (hf : ∀ r, key (f r) = key r)
    {m : ρ → ℤ} {d : ℤ} (hnew : m r = d) (hold : ∀ r', m (f r') = m r' + d) (k' : κ) :
    (t.upsert r f hf).read k' m = t.read k' m + (if k' = key r then d else 0) := by
  rw [read, read, find_upsert]
  by_cases hk : k' = key r
  · subst hk
    rw [if_pos rfl, if_pos rfl, Option.elim_some]
    cases t.find (key r) with
    | none => exact hnew.trans (Int.zero_add d).symm
    | some r' => exact hold r'
  · rw [if_neg hk, if_neg hk]
    omega

theorem modify_congr {f g : ρ → ρ} (hf : ∀ r, key (f r) = key r) (hg : ∀ r, key (g r) = key r)
    (h : ∀ r, t.find k = some r → f r = g r) : t.modify k f hf = t.modify k g hg := by
  rw [modify, modify, mk.injEq]
  apply List.map_congr_left
  intro r hr
  by_cases hk : key r = k
  · rw [if_pos hk, if_pos hk, h r (find_eq_some.mpr ⟨hr, hk⟩)]
  · rw [if_neg hk, if_neg hk]

end Table

end Appcall
