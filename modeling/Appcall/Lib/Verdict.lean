/-
Checks that decide a property.

A check either passes or fails with one error. It decides a property when it passes
exactly if the property holds, and fails with no other error; checks that are run one
after the other decide the conjunction, and each is only asked to where those before it have
passed. A check may also give up, for a reason that says nothing about the property. A loop
over a list comes to its elements one by one, up to the first that ends it.
-/
import Mathlib.Data.List.Basic

set_option autoImplicit false

namespace Appcall

variable {ε : Type} {code : ε}

/-- The check passes if the property holds, and fails with `code` if it does not. -/
def Decides (code : ε) (check : Except ε Unit) (p : Prop) : Prop :=
  (check = .ok () ∧ p) ∨ (check = .error code ∧ ¬p)

namespace Decides

variable {check check' : Except ε Unit} {p q : Prop}

theorem ok_iff (h : Decides code check p) : check = .ok () ↔ p := by
  rcases h with ⟨hcheck, hp⟩ | ⟨hcheck, hp⟩ <;> simp [hcheck, hp]

theorem outcome (h : Decides code check p) : check = .ok () ∨ check = .error code :=
  h.imp And.left And.left

theorem congr (h : Decides code check p) (hpq : p ↔ q) : Decides code check q := by
  rwa [Decides, ← hpq]

theorem skip (hp : p) : Decides code (.ok ()) p := .inl ⟨rfl, hp⟩

theorem ite (condition : Bool) :
    Decides code (if condition then .ok () else .error code) (condition = true) := by
  cases condition with
  | true => exact .inl ⟨rfl, rfl⟩
  | false => exact .inr ⟨rfl, Bool.false_ne_true⟩

theorem bind (h : Decides code check p) (h' : p → Decides code check' q) :
    Decides code (check >>= fun _ => check') (p ∧ q) := by
  rcases h with ⟨rfl, hp⟩ | ⟨rfl, hp⟩
  · rcases h' hp with ⟨rfl, hq⟩ | ⟨rfl, hq⟩
    · exact .inl ⟨rfl, hp, hq⟩
    · exact .inr ⟨rfl, fun h => hq h.2⟩
  · exact .inr ⟨rfl, fun h => hp h.1⟩

theorem forM {α : Type} {l : List α} {f : α → Except ε Unit} {P : α → Prop}
    (h : ∀ a ∈ l, Decides code (f a) (P a)) : Decides code (l.forM f) (∀ a ∈ l, P a) := by
  induction l with
  | nil => exact skip fun a ha => nomatch ha
  | cons a l ih =>
    change Decides code (f a >>= fun _ => l.forM f) _
    have hl := ih fun b hb => h b (List.mem_cons_of_mem a hb)
    refine ((h a List.mem_cons_self).bind fun _ => hl).congr ?_
    rw [List.forall_mem_cons]

end Decides

/-! ## Loops -/

/-- What holds of the elements that a loop comes to, which goes on past those where `go` holds. -/
def Loops {α : Type} (go P : α → Prop) : List α → Prop
  | [] => True
  | a :: l => P a ∧ (go a → Loops go P l)

namespace Loops

variable {α : Type} {go P Q : α → Prop} {l : List α}

theorem of_forall (h : ∀ a ∈ l, P a) : Loops go P l := by
  induction l with
  | nil => trivial
  | cons a l ih => exact ⟨h a List.mem_cons_self, fun _ => ih fun b hb => h b (.tail a hb)⟩

theorem imp (h : Loops go P l) (hPQ : ∀ a ∈ l, P a → Q a) : Loops go Q l := by
  induction l with
  | nil => trivial
  | cons a l ih =>
    exact ⟨hPQ a List.mem_cons_self h.1, fun hgo => ih (h.2 hgo) fun b hb => hPQ b (.tail a hb)⟩

/-- A loop that goes on past every element comes to all of them. -/
theorem through (h : Loops go P l) (hstep : ∀ a ∈ l, P a → Q a ∧ go a) : ∀ a ∈ l, Q a := by
  induction l with
  | nil => exact fun a ha => nomatch ha
  | cons a l ih =>
    obtain ⟨hq, hgo⟩ := hstep a List.mem_cons_self h.1
    exact List.forall_mem_cons.mpr ⟨hq, ih (h.2 hgo) fun b hb => hstep b (.tail a hb)⟩

/-- A search stops at the first element that it finds. -/
theorem any_iff {f : α → Bool} (h : Loops (fun a => ¬Q a) (fun a => f a = true ↔ Q a) l) :
    l.any f = true ↔ ∃ a ∈ l, Q a := by
  induction l with
  | nil => simp
  | cons a l ih =>
    have hfirst : f a = true ↔ Q a := h.1
    rw [List.any_cons, Bool.or_eq_true, hfirst]
    simp only [List.mem_cons, exists_eq_or_imp]
    by_cases hfound : Q a
    · exact iff_of_true (.inl hfound) (.inl hfound)
    · rw [ih (h.2 hfound)]

end Loops

/-! ## Checks that may give up -/

/-- The check passes and the property holds, or it fails with a mismatch and the property does
not hold, or it gives up. -/
def Tells (mismatch gives_up : ε → Prop) (check : Except ε Unit) (p : Prop) : Prop :=
  (check = .ok () ∧ p) ∨ ∃ e, check = .error e ∧ (mismatch e ∧ ¬p ∨ gives_up e)

namespace Tells

variable {mismatch gives_up : ε → Prop} {check check' : Except ε Unit} {p q : Prop}

theorem congr (h : Tells mismatch gives_up check p) (hpq : p ↔ q) :
    Tells mismatch gives_up check q := by
  rwa [Tells, ← hpq]

theorem skip (hp : p) : Tells mismatch gives_up (.ok ()) p := .inl ⟨rfl, hp⟩

theorem of_ok (h : Tells mismatch gives_up check p) (hok : check = .ok ()) : p := by
  rcases h with ⟨_, hp⟩ | ⟨e, he, _⟩
  · exact hp
  · cases hok.symm.trans he

theorem ite {condition : Bool} {e : ε} (he : mismatch e) (h : condition = true ↔ p) :
    Tells mismatch gives_up (if condition then .ok () else .error e) p := by
  cases condition with
  | true => exact skip (h.mp rfl)
  | false => exact .inr ⟨e, rfl, .inl ⟨he, fun hp => Bool.false_ne_true (h.mpr hp)⟩⟩

theorem bind (h : Tells mismatch gives_up check p) (h' : p → Tells mismatch gives_up check' q) :
    Tells mismatch gives_up (check >>= fun _ => check') (p ∧ q) := by
  rcases h with ⟨rfl, hp⟩ | ⟨e, rfl, he⟩
  · rcases h' hp with ⟨rfl, hq⟩ | ⟨e, rfl, he⟩
    · exact .inl ⟨rfl, hp, hq⟩
    · exact .inr ⟨e, rfl, he.imp_left fun h => ⟨h.1, fun hpq => h.2 hpq.2⟩⟩
  · exact .inr ⟨e, rfl, he.imp_left fun h => ⟨h.1, fun hpq => h.2 hpq.1⟩⟩

theorem forM {α : Type} {l : List α} {f : α → Except ε Unit} {P : α → Prop}
    (h : Loops P (fun a => Tells mismatch gives_up (f a) (P a)) l) :
    Tells mismatch gives_up (l.forM f) (∀ a ∈ l, P a) := by
  induction l with
  | nil => exact skip fun a ha => nomatch ha
  | cons a l ih =>
    refine (h.1.bind fun hp => ih (h.2 hp)).congr ?_
    rw [List.forall_mem_cons]

end Tells

/-! ## Folds that may fail -/

theorem foldlM_ok {σ α : Type} {R : σ → σ → Prop} (hrefl : ∀ s, R s s)
    (htrans : ∀ s t u, R s t → R t u → R s u) {f : σ → α → Except ε σ} {l : List α}
    (hstep : ∀ a ∈ l, ∀ s s', f s a = .ok s' → R s s') {s s' : σ}
    (h : l.foldlM f s = .ok s') :
    R s s' ∧ ∀ a ∈ l, ∃ t t', f t a = .ok t' ∧ R t' s' := by
  induction l generalizing s with
  | nil =>
    cases h
    exact ⟨hrefl _, fun a ha => nomatch ha⟩
  | cons a l ih =>
    rw [List.foldlM_cons] at h
    cases hfirst : f s a with
    | error e =>
      rw [hfirst] at h
      cases h
    | ok t =>
      rw [hfirst] at h
      obtain ⟨hrest, heach⟩ := ih (fun b hb => hstep b (List.mem_cons_of_mem a hb)) h
      refine ⟨htrans _ _ _ (hstep a List.mem_cons_self s t hfirst) hrest, fun b hb => ?_⟩
      rcases List.mem_cons.mp hb with rfl | hb
      · exact ⟨s, t, hfirst, hrest⟩
      · exact heach b hb

end Appcall
