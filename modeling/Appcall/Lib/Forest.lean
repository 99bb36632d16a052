/-
Tables whose rows list other rows, and which only ever grow.

A row may list another one any number of times. The table is grown by two operations: a
row that nobody lists is planted, and a row that is new is adopted by one that is there.
`IsForest` is what holds of every table grown this way from the empty one: a planted row
is listed by nobody, every other row is listed once, by one row, and a row comes after the
one that lists it (`ranked`), so that no walk along the lists comes back to where it was
and none is longer than there are rows.
-/
import Mathlib.Data.Finset.Card
import Mathlib.Logic.Relation

set_option autoImplicit false

namespace Appcall.Forest

variable {α : Type*}

/-- The rows that are there, and how often each lists each. -/
@[ext]
structure Listing (α : Type*) where
  stored : α → Prop
  lists : α → α → ℕ

/-- What holds of a table that grew from roots. -/
structure IsForest (g : Listing α) (roots : α → Prop) : Prop where
  root : ∀ x, roots x → g.stored x ∧ ∀ a, g.lists a x = 0
  /-- Every other row is listed once. -/
  adopted : ∀ x, g.stored x → ¬ roots x →
    ∃ a, g.lists a x = 1 ∧ ∀ b, b ≠ a → g.lists b x = 0
  /-- Only rows list, and only rows are listed. -/
  closed : ∀ a x, g.lists a x ≠ 0 → g.stored a ∧ g.stored x
  /-- A row comes after the one that lists it. -/
  ranked : ∃ rank : α → ℕ, ∀ a x, g.lists a x ≠ 0 → rank a < rank x

/-! ## Growing -/

def Listing.plant (g : Listing α) (x : α) : Listing α :=
  { g with stored := fun y => g.stored y ∨ y = x }

/-- A new row that `a` lists. -/
def Listing.adopt [DecidableEq α] (g : Listing α) (a x : α) : Listing α :=
  { stored := fun y => g.stored y ∨ y = x
    lists := fun b y => g.lists b y + if b = a ∧ y = x then 1 else 0 }

section Grow

variable {g : Listing α} {roots : α → Prop}

theorem IsForest.empty (hnone : ∀ x, ¬ g.stored x) (hlists : ∀ a x, g.lists a x = 0) :
    IsForest g (fun _ => False) := by
  refine ⟨fun x h => h.elim, fun x hx => absurd hx (hnone x), fun a x h => ?_,
    fun _ => 0, fun a x h => ?_⟩ <;> exact absurd (hlists a x) h

theorem IsForest.absent (h : IsForest g roots) {x : α} (hx : ¬ g.stored x) (a : α) :
    g.lists a x = 0 ∧ g.lists x a = 0 :=
  ⟨by_contra fun hl => hx (h.closed a x hl).2, by_contra fun hl => hx (h.closed x a hl).1⟩

theorem IsForest.plant (h : IsForest g roots) {x : α} (hx : ¬ g.stored x) :
    IsForest (g.plant x) (fun y => roots y ∨ y = x) := by
  refine ⟨?_, ?_, ?_, h.ranked⟩
  · rintro y (hy | rfl)
    · exact ⟨.inl (h.root y hy).1, (h.root y hy).2⟩
    · exact ⟨.inr rfl, fun a => (h.absent hx a).1⟩
  · rintro y (hy | rfl) hroot
    · exact h.adopted y hy (fun hr => hroot (.inl hr))
    · exact absurd (.inr rfl) hroot
  · intro a y hl
    obtain ⟨ha, hy⟩ := h.closed a y hl
    exact ⟨.inl ha, .inl hy⟩

theorem IsForest.adopt [DecidableEq α] (h : IsForest g roots) {a x : α} (ha : g.stored a)
    (hx : ¬ g.stored x) : IsForest (g.adopt a x) roots := by
  have hne : a ≠ x := by
    rintro rfl
    exact hx ha
  -- of an older row nothing has changed
  have hold : ∀ b y, y ≠ x → (g.adopt a x).lists b y = g.lists b y := by
    intro b y hy
    show g.lists b y + (if b = a ∧ y = x then 1 else 0) = g.lists b y
    rw [if_neg (fun hc => hy hc.2), Nat.add_zero]
  have hnew : ∀ b, (g.adopt a x).lists b x = if b = a then 1 else 0 := by
    intro b
    show g.lists b x + (if b = a ∧ x = x then 1 else 0) = if b = a then 1 else 0
    rw [(h.absent hx b).1, Nat.zero_add]
    simp only [and_true]
  refine ⟨fun y hy => ?_, ?_, fun b y hl => ?_, ?_⟩
  · have hyx : y ≠ x := by
      rintro rfl
      exact hx (h.root y hy).1
    refine ⟨.inl (h.root y hy).1, fun b => ?_⟩
    rw [hold b y hyx]
    exact (h.root y hy).2 b
  · rintro y hy hroot
    by_cases hyx : y = x
    · subst hyx
      refine ⟨a, ?_, fun b hb => ?_⟩
      · rw [hnew a, if_pos rfl]
      · rw [hnew b, if_neg hb]
    · obtain ⟨b, hb, hother⟩ := h.adopted y (hy.resolve_right hyx) hroot
      refine ⟨b, ?_, fun c hc => ?_⟩
      · rw [hold b y hyx]
        exact hb
      · rw [hold c y hyx]
        exact hother c hc
  · by_cases hyx : y = x
    · subst hyx
      rw [hnew b] at hl
      have hb : b = a := by_contra fun hb => hl (if_neg hb)
      subst hb
      exact ⟨.inl ha, .inr rfl⟩
    · rw [hold b y hyx] at hl
      obtain ⟨hb, hy⟩ := h.closed b y hl
      exact ⟨.inl hb, .inl hy⟩
  · obtain ⟨rank, hrank⟩ := h.ranked
    refine ⟨Function.update rank x (rank a + 1), fun b y hl => ?_⟩
    by_cases hyx : y = x
    · subst hyx
      rw [hnew b] at hl
      have hb : b = a := by_contra fun hb => hl (if_neg hb)
      subst hb
      rw [Function.update_self, Function.update_of_ne hne]
      exact Nat.lt_succ_self _
    · rw [hold b y hyx] at hl
      have hbx : b ≠ x := by
        rintro rfl
        exact hl (h.absent hx y).2
      rw [Function.update_of_ne hyx, Function.update_of_ne hbx]
      exact hrank b y hl

end Grow

/-! ## Walking -/

section Walk

variable {g : Listing α} {roots : α → Prop}

theorem IsForest.acyclic (h : IsForest g roots) (x : α) :
    ¬ Relation.TransGen (fun a b => g.lists a b ≠ 0) x x := by
  obtain ⟨rank, hrank⟩ := h.ranked
  have hlt : ∀ a b, Relation.TransGen (fun a b => g.lists a b ≠ 0) a b → rank a < rank b := by
    intro a b hab
    induction hab with
    | single hl => exact hrank _ _ hl
    | tail _ hl ih => exact ih.trans (hrank _ _ hl)
  exact fun hx => lt_irrefl _ (hlt x x hx)

theorem IsForest.descends (h : IsForest g roots) (rows : Finset α)
    (hrows : ∀ x, g.stored x → x ∈ rows) :
    ∃ height : α → ℕ, (∀ x, height x ≤ rows.card)
      ∧ ∀ a x, g.lists a x ≠ 0 → height x < height a := by
  obtain ⟨rank, hrank⟩ := h.ranked
  -- the height of a row is the number of rows that come after it
  refine ⟨fun x => (rows.filter (fun y => rank x < rank y)).card,
    fun x => Finset.card_filter_le _ _, fun a x hl => ?_⟩
  have hax := hrank a x hl
  refine Finset.card_lt_card (Finset.ssubset_iff_of_subset ?_ |>.mpr ⟨x, ?_, ?_⟩)
  · intro y hy
    obtain ⟨hmem, hlt⟩ := Finset.mem_filter.mp hy
    exact Finset.mem_filter.mpr ⟨hmem, hax.trans hlt⟩
  · exact Finset.mem_filter.mpr ⟨hrows x (h.closed a x hl).2, hax⟩
  · intro hx
    exact lt_irrefl _ (Finset.mem_filter.mp hx).2

end Walk

end Appcall.Forest
