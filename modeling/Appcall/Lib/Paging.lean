/-
Reading a table page by page.

The rows of a scope are read in the order of a position that tells them apart, from the
position of the last row read, up to a limit at a time. What was read is strictly
increasing, so no row is read twice. If rows appear only behind what was read, it is all
there is up to its last row, and with a page that is not full it is all there is.
-/
import Appcall.Lib.Query

set_option autoImplicit false

namespace Appcall.Paging

variable {ρ κ P : Type} {key : ρ → κ} [LinearOrder P]

/-- The rows of the scope behind what was read, in order, up to the limit. -/
def page (t : Table key) (scope : ρ → Bool) (pos : ρ → P) (got : List ρ) (limit : ℕ) : List ρ :=
  t.select (fun r => scope r && decide (∀ r' ∈ got, pos r' < pos r))
    (fun r r' => pos r ≤ pos r') limit

/-- The position tells the rows of the scope apart. -/
def Separates (t : Table key) (scope : ρ → Bool) (pos : ρ → P) : Prop :=
  ∀ r ∈ t.rows, ∀ r' ∈ t.rows, scope r = true → scope r' = true → pos r = pos r' → r = r'

/-- Rows of the scope, in strict order. -/
structure Reading (t : Table key) (scope : ρ → Bool) (pos : ρ → P) (got : List ρ) : Prop where
  sorted : got.Pairwise (fun r r' => pos r < pos r')
  stored : ∀ r ∈ got, r ∈ t.rows ∧ scope r = true

/-- Nothing of the scope was left out up to the last row. -/
def Whole (t : Table key) (scope : ρ → Bool) (pos : ρ → P) (got : List ρ) : Prop :=
  ∀ r ∈ t.rows, scope r = true → (∃ r' ∈ got, pos r ≤ pos r') → r ∈ got

variable {t t' : Table key} {scope : ρ → Bool} {pos : ρ → P} {got : List ρ} {limit : ℕ}

theorem reading_nil : Reading t scope pos [] := ⟨.nil, fun _ h => by cases h⟩

theorem whole_nil : Whole t scope pos [] := fun _ _ _ h => by
  obtain ⟨r', h, -⟩ := h
  cases h

theorem Reading.nodup (h : Reading t scope pos got) : got.Nodup :=
  h.sorted.imp (fun hlt => by
    rintro rfl
    exact lt_irrefl _ hlt)

variable {r : ρ}

theorem mem_page (h : r ∈ page t scope pos got limit) :
    r ∈ t.rows ∧ scope r = true ∧ ∀ r' ∈ got, pos r' < pos r := by
  obtain ⟨hmem, hp⟩ := Table.mem_select h
  rw [Bool.and_eq_true, decide_eq_true_eq] at hp
  exact ⟨hmem, hp⟩

theorem page_sorted (hsep : Separates t scope pos) :
    (page t scope pos got limit).Pairwise (fun r r' => pos r < pos r') := by
  have hle : (page t scope pos got limit).Pairwise (fun r r' => pos r ≤ pos r') :=
    List.Pairwise.sublist (List.take_sublist _ _) (List.pairwise_insertionSort _ _)
  have hnodup : (page t scope pos got limit).Nodup := by
    refine List.Nodup.sublist (List.take_sublist _ _) ?_
    rw [List.Perm.nodup_iff (List.perm_insertionSort _ _)]
    exact (List.Nodup.of_map key t.nodup).filter _
  refine (hle.and hnodup).imp_of_mem ?_
  rintro r r' hr hr' ⟨hle, hne⟩
  refine lt_of_le_of_ne hle (fun heq => hne ?_)
  obtain ⟨hmem, hscope, -⟩ := mem_page hr
  obtain ⟨hmem', hscope', -⟩ := mem_page hr'
  exact hsep r hmem r' hmem' hscope hscope' heq

theorem page_cases (limit : ℕ) (hmem : r ∈ t.rows) (hscope : scope r = true)
    (hafter : ∀ r' ∈ got, pos r' < pos r) : r ∈ page t scope pos got limit
      ∨ ((page t scope pos got limit).length = limit
        ∧ ∀ r' ∈ page t scope pos got limit, pos r' ≤ pos r) := by
  set rows := (t.rows.filter (fun r => scope r && decide (∀ r' ∈ got, pos r' < pos r))) with hrows
  set sorted := rows.insertionSort (fun r r' => pos r ≤ pos r') with hsorted
  have hr : r ∈ sorted := by
    rw [hsorted, List.mem_insertionSort, hrows, List.mem_filter]
    exact ⟨hmem, by rw [hscope, Bool.true_and, decide_eq_true_eq]; exact hafter⟩
  have hpage : page t scope pos got limit = sorted.take limit := rfl
  have hpairwise : sorted.Pairwise (fun r r' => pos r ≤ pos r') :=
    List.pairwise_insertionSort _ _
  rw [← List.take_append_drop limit sorted] at hr hpairwise
  rw [List.pairwise_append] at hpairwise
  rcases List.mem_append.mp hr with hr | hr
  · exact .inl (hpage ▸ hr)
  · refine .inr ⟨?_, fun r' hr' => hpairwise.2.2 r' (hpage ▸ hr') r hr⟩
    have hlong : limit < sorted.length := by
      by_contra hshort
      rw [List.drop_eq_nil_of_le (by omega)] at hr
      cases hr
    rw [hpage, List.length_take]
    omega

/-- **A page goes on from what was read.** -/
theorem Reading.append_page (h : Reading t scope pos got) (hsep : Separates t scope pos) :
    Reading t scope pos (got ++ page t scope pos got limit) := by
  refine ⟨List.pairwise_append.mpr ⟨h.sorted, page_sorted hsep, ?_⟩, ?_⟩
  · exact fun r hr r' hr' => (mem_page hr').2.2 r hr
  · intro r hr
    rcases List.mem_append.mp hr with hr | hr
    · exact h.stored r hr
    · exact ⟨(mem_page hr).1, (mem_page hr).2.1⟩

theorem Whole.mem_or_after (h : Whole t scope pos got) (hmem : r ∈ t.rows)
    (hscope : scope r = true) :
    r ∈ got ∨ ∀ r' ∈ got, pos r' < pos r := by
  by_cases hbehind : ∃ r' ∈ got, pos r ≤ pos r'
  · exact .inl (h r hmem hscope hbehind)
  · right
    intro r' hr'
    by_contra hle
    exact hbehind ⟨r', hr', not_lt.mp hle⟩

theorem Whole.append_page {scope' : ρ → Bool} (h : Whole t scope' pos got)
    (hsub : ∀ r, scope' r = true → scope r = true) (hsep : Separates t scope pos) :
    Whole t scope' pos (got ++ page t scope pos got limit) := by
  intro r hmem hscope hbehind
  rw [List.mem_append]
  rcases h.mem_or_after hmem hscope with hgot | hafter
  · exact .inl hgot
  · right
    rcases page_cases limit hmem (hsub r hscope) hafter with hpage | ⟨-, hbefore⟩
    · exact hpage
    · -- the page is full of earlier rows, so the row behind which it is is itself
      obtain ⟨r', hr', hle⟩ := hbehind
      rcases List.mem_append.mp hr' with hr' | hr'
      · exact absurd hle (not_le.mpr (hafter r' hr'))
      · have heq := le_antisymm hle (hbefore r' hr')
        obtain ⟨hmem', hscope', -⟩ := mem_page hr'
        rw [hsep r hmem r' hmem' (hsub r hscope) hscope' heq]
        exact hr'

/-- **A page that is not full is the rest.** -/
theorem Whole.rest {scope' : ρ → Bool} (h : Whole t scope' pos got)
    (hsub : ∀ r, scope' r = true → scope r = true)
    (hshort : (page t scope pos got limit).length < limit) (hmem : r ∈ t.rows)
    (hscope : scope' r = true) : r ∈ got ++ page t scope pos got limit := by
  rw [List.mem_append]
  rcases h.mem_or_after hmem hscope with hgot | hafter
  · exact .inl hgot
  · rcases page_cases limit hmem (hsub r hscope) hafter with hpage | ⟨hfull, -⟩
    · exact .inr hpage
    · omega

theorem Reading.grow (h : Reading t scope pos got) (hrows : ∀ r ∈ t.rows, r ∈ t'.rows) :
    Reading t' scope pos got :=
  ⟨h.sorted, fun r hr => ⟨hrows r (h.stored r hr).1, (h.stored r hr).2⟩⟩

theorem Whole.grow (h : Whole t scope pos got)
    (hrows : ∀ r ∈ t'.rows, scope r = true → r ∈ t.rows ∨ ∀ r' ∈ got, pos r' < pos r) :
    Whole t' scope pos got := by
  intro r hmem hscope hbehind
  rcases hrows r hmem hscope with hold | hafter
  · exact h r hold hscope hbehind
  · obtain ⟨r', hr', hle⟩ := hbehind
    exact absurd hle (not_le.mpr (hafter r' hr'))

theorem Reading.last (h : Reading t scope pos got) {last : ρ} (hlast : got.getLast? = some last)
    (r : ρ) : (∀ r' ∈ got, pos r' < pos r) ↔ pos last < pos r := by
  have hmem := List.mem_of_getLast? hlast
  refine ⟨fun hall => hall last hmem, fun hlt r' hr' => ?_⟩
  refine lt_of_le_of_lt ?_ hlt
  obtain ⟨front, rfl⟩ := List.getLast?_eq_some_iff.mp hlast
  rcases List.mem_append.mp hr' with hr' | hr'
  · exact ((List.pairwise_append.mp h.sorted).2.2 r' hr' last
      (List.mem_singleton_self _)).le
  · rw [List.mem_singleton.mp hr']

/-! ## Everything there is, page by page -/

def ordered (t : Table key) (scope : ρ → Bool) (pos : ρ → P) : List ρ :=
  (t.rows.filter scope).insertionSort (fun r r' => pos r ≤ pos r')

theorem mem_ordered : r ∈ ordered t scope pos ↔ r ∈ t.rows ∧ scope r = true := by
  rw [ordered, List.mem_insertionSort, List.mem_filter]

theorem ordered_sorted (hsep : Separates t scope pos) :
    (ordered t scope pos).Pairwise (fun r r' => pos r < pos r') := by
  have hnodup : (ordered t scope pos).Nodup := by
    rw [ordered, List.Perm.nodup_iff (List.perm_insertionSort _ _)]
    exact (List.Nodup.of_map key t.nodup).filter _
  refine ((List.pairwise_insertionSort _ _).and hnodup).imp_of_mem ?_
  rintro r r' hr hr' ⟨hle, hne⟩
  obtain ⟨hmem, hscope⟩ := mem_ordered.mp hr
  obtain ⟨hmem', hscope'⟩ := mem_ordered.mp hr'
  exact lt_of_le_of_ne hle (fun heq => hne (hsep r hmem r' hmem' hscope hscope' heq))

theorem filter_behind (hsep : Separates t scope pos) (n : ℕ) :
    (ordered t scope pos).filter
        (fun r => decide (∀ r' ∈ (ordered t scope pos).take n, pos r' < pos r))
      = (ordered t scope pos).drop n := by
  have hsorted := ordered_sorted hsep
  set all := ordered t scope pos with hall
  rw [← List.take_append_drop n all, List.pairwise_append] at hsorted
  obtain ⟨-, -, hbehind⟩ := hsorted
  conv_lhs =>
    arg 2
    rw [← List.take_append_drop n all]
  rw [List.filter_append, List.filter_eq_nil_iff.mpr, List.filter_eq_self.mpr, List.nil_append]
  · intro r hr
    rw [decide_eq_true_eq]
    exact fun r' hr' => hbehind r' hr' r hr
  · intro r hr hlt
    rw [decide_eq_true_eq] at hlt
    exact lt_irrefl _ (hlt r hr)

/-- **The page behind the first rows has the next ones.** -/
theorem page_ordered (hsep : Separates t scope pos) (n limit : ℕ) :
    page t scope pos ((ordered t scope pos).take n) limit
      = ((ordered t scope pos).drop n).take limit := by
  set got := (ordered t scope pos).take n with hgot
  have hperm : ((t.rows.filter
      (fun r => scope r && decide (∀ r' ∈ got, pos r' < pos r))).insertionSort
        (fun r r' => pos r ≤ pos r')).Perm ((ordered t scope pos).drop n) := by
    rw [← filter_behind hsep n, ← hgot]
    refine (List.perm_insertionSort _ _).trans ?_
    have hsplit : t.rows.filter (fun r => scope r && decide (∀ r' ∈ got, pos r' < pos r))
        = (t.rows.filter scope).filter (fun r => decide (∀ r' ∈ got, pos r' < pos r)) := by
      rw [List.filter_filter]
      exact List.filter_congr fun r _ => Bool.and_comm _ _
    rw [hsplit]
    exact ((List.perm_insertionSort _ _).filter _).symm
  rw [page, Table.select]
  congr 1
  refine hperm.eq_of_pairwise ?_ (List.pairwise_insertionSort _ _)
    ((ordered_sorted hsep).drop.imp le_of_lt)
  intro r r' hr hr' hle hle'
  obtain ⟨hmem', hscope'⟩ := mem_ordered.mp (List.mem_of_mem_drop hr')
  obtain ⟨hmem, hscope⟩ := mem_ordered.mp (List.mem_of_mem_drop (hperm.mem_iff.mp hr))
  exact hsep r hmem r' hmem' hscope hscope' (le_antisymm hle hle')

end Appcall.Paging
