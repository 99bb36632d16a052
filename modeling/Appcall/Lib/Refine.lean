/-
Programs with a state and failures, against a labelled transition system.

A program of this library is `ExceptT ε (StateM σ) α`: it reads and writes a
state, may stop with an error, and keeps what it wrote when it stops. Such a
program is specified by the steps it takes in an abstract system: `Spec m t Q`
says that from any state that stands for `t`, whatever `m` does is a path of the
abstract system from `t`, the state it ends in is well formed again, and `Q`
holds of its result, of the labels of the path and of the abstract state reached.

The rules are those of a program logic: one per way of building a program
(`pure`, `throw`, `bind`, reading and writing the state), and the rule of
consequence. Nothing here knows what the program is about; the abstract system,
the abstraction and the well-formedness of a concrete state are parameters.
-/
import Mathlib.Logic.Basic
import Mathlib.Tactic.Cases

set_option autoImplicit false

namespace Appcall.Refine

/-! ## Paths of a labelled transition system -/

section Path

variable {τ ℓ : Type*} {step : τ → ℓ → τ → Prop}

inductive Path (step : τ → ℓ → τ → Prop) : τ → List ℓ → τ → Prop where
  | nil (t : τ) : Path step t [] t
  | cons {t t' t'' : τ} {l : ℓ} {ls : List ℓ} :
      step t l t' → Path step t' ls t'' → Path step t (l :: ls) t''

variable {t t' : τ} {ls : List ℓ}

theorem Path.single {l : ℓ} (h : step t l t') : Path step t [l] t' :=
  .cons h (.nil t')

theorem Path.append {t'' : τ} {ls' : List ℓ} (h : Path step t ls t') (h' : Path step t' ls' t'') :
    Path step t (ls ++ ls') t'' := by
  induction h with
  | nil => exact h'
  | cons hs _ ih => exact .cons hs (ih h')

theorem Path.split {t'' : τ} {ls' : List ℓ} (h : Path step t (ls ++ ls') t'') :
    ∃ t', Path step t ls t' ∧ Path step t' ls' t'' := by
  induction ls generalizing t with
  | nil => exact ⟨t, .nil t, h⟩
  | cons l ls ih =>
    cases h with
    | cons hs hp =>
      obtain ⟨t', h1, h2⟩ := ih hp
      exact ⟨t', .cons hs h1, h2⟩

/-- **The invariant rule.** What every step along a path keeps, the path keeps.
The step may use its label, and that the label is one of the path's. -/
theorem Path.keeps {I : τ → Prop} (h : Path step t ls t')
    (hs : ∀ l ∈ ls, ∀ a b, step a l b → I a → I b) (h0 : I t) : I t' := by
  induction h with
  | nil => exact h0
  | cons hstep _ ih =>
    refine ih (fun l hl => hs l (List.mem_cons_of_mem _ hl)) ?_
    exact hs _ List.mem_cons_self _ _ hstep h0

theorem Path.relates {R : τ → τ → Prop} (h : Path step t ls t') (refl : ∀ a, R a a)
    (hs : ∀ l ∈ ls, ∀ a b c, R a b → step b l c → R a c) : R t t' :=
  h.keeps (fun l hl b c hstep hr => hs l hl t b c hr hstep) (refl t)

end Path

/-! ## Programs -/

section Spec

variable {σ τ ε ℓ : Type} {α β : Type}

def exec (m : ExceptT ε (StateM σ) α) (s : σ) : Except ε α × σ := m s

@[simp] theorem exec_pure (a : α) (s : σ) :
    exec (pure a : ExceptT ε (StateM σ) α) s = (.ok a, s) := rfl

@[simp] theorem exec_throw (e : ε) (s : σ) :
    exec (throw e : ExceptT ε (StateM σ) α) s = (.error e, s) := rfl

@[simp] theorem exec_get (s : σ) :
    exec (get : ExceptT ε (StateM σ) σ) s = (.ok s, s) := rfl

@[simp] theorem exec_set (s' s : σ) :
    exec (set s' : ExceptT ε (StateM σ) PUnit) s = (.ok ⟨⟩, s') := rfl

@[simp] theorem exec_modify (f : σ → σ) (s : σ) :
    exec (modify f : ExceptT ε (StateM σ) PUnit) s = (.ok ⟨⟩, f s) := rfl

theorem exec_bind (m : ExceptT ε (StateM σ) α) (f : α → ExceptT ε (StateM σ) β) (s : σ) :
    exec (m >>= f) s =
      match exec m s with
      | (.ok a, s') => exec (f a) s'
      | (.error e, s') => (.error e, s') := by
  show (ExceptT.bind m f) s = _
  unfold ExceptT.bind exec
  show (StateT.bind m (ExceptT.bindCont f)) s = _
  unfold StateT.bind
  show (match m s with | (a, s') => ExceptT.bindCont f a s') = _
  cases m s with
  | mk r s' => cases r <;> rfl

/-- What a program answers from every state. It needs no abstract system, and says
nothing of the state the program leaves. -/
def Always (m : ExceptT ε (StateM σ) α) (P : Except ε α → Prop) : Prop :=
  ∀ s, P (exec m s).1

variable {P : Except ε α → Prop} {m : ExceptT ε (StateM σ) α} {f : α → ExceptT ε (StateM σ) β}
  {t : τ} {Q : Except ε α → List ℓ → τ → Prop}

theorem Always.pure {a : α} (h : P (.ok a)) :
    Always (Pure.pure a : ExceptT ε (StateM σ) α) P := fun _ => h

theorem Always.throw {e : ε} (h : P (.error e)) :
    Always (MonadExcept.throw e : ExceptT ε (StateM σ) α) P := fun _ => h

theorem Always.bind {P : Except ε β → Prop} (hf : ∀ a, Always (f a) P) (he : ∀ e, P (.error e)) :
    Always (m >>= f) P := by
  intro s
  rw [exec_bind]
  cases exec m s with
  | mk r s' =>
    cases r with
    | ok a => exact hf a s'
    | error e => exact he e

variable (wf : σ → Prop) (abs : σ → τ) (step : τ → ℓ → τ → Prop)

/-- `m` refines the abstract system from `t`, with postcondition `Q`. -/
def Spec (m : ExceptT ε (StateM σ) α) (t : τ) (Q : Except ε α → List ℓ → τ → Prop) : Prop :=
  ∀ s, wf s → abs s = t →
    ∃ ls, Path step t ls (abs (exec m s).2) ∧ wf (exec m s).2
      ∧ Q (exec m s).1 ls (abs (exec m s).2)

variable {wf abs step}

theorem Spec.weaken {P : Except ε α → List ℓ → τ → Prop} (h : Spec wf abs step m t P)
    (hq : ∀ r ls t', P r ls t' → Q r ls t') : Spec wf abs step m t Q := by
  intro s hw ha
  obtain ⟨ls, hp, hw', hQ⟩ := h s hw ha
  exact ⟨ls, hp, hw', hq _ _ _ hQ⟩

theorem Spec.path (h : Spec wf abs step m t Q) :
    Spec wf abs step m t (fun r ls t' => Path step t ls t' ∧ Q r ls t') := by
  intro s hw ha
  obtain ⟨ls, hp, hw', hQ⟩ := h s hw ha
  exact ⟨ls, hp, hw', hp, hQ⟩

theorem Spec.pure {a : α} (h : Q (.ok a) [] t) : Spec wf abs step (Pure.pure a) t Q := by
  intro s hw ha
  subst ha
  exact ⟨[], .nil _, hw, h⟩

theorem Spec.throw {e : ε} (h : Q (.error e) [] t) :
    Spec wf abs step (MonadExcept.throw e) t Q := by
  intro s hw ha
  subst ha
  exact ⟨[], .nil _, hw, h⟩

theorem Spec.bind {Q : Except ε β → List ℓ → τ → Prop} (h : Spec wf abs step m t (fun r ls t' =>
      match r with
      | .ok a => Spec wf abs step (f a) t' (fun r' ls' t'' => Q r' (ls ++ ls') t'')
      | .error e => Q (.error e) ls t')) : Spec wf abs step (m >>= f) t Q := by
  intro s hw ha
  obtain ⟨ls, hp, hw', hQ⟩ := h s hw ha
  rw [exec_bind]
  generalize exec m s = out at hp hw' hQ
  obtain ⟨r, s'⟩ := out
  cases r with
  | error e => exact ⟨ls, hp, hw', hQ⟩
  | ok a =>
    obtain ⟨ls', hp', hw'', hQ'⟩ := hQ s' hw' rfl
    exact ⟨ls ++ ls', hp.append hp', hw'', hQ'⟩

theorem Spec.get {f : σ → ExceptT ε (StateM σ) β} {Q : Except ε β → List ℓ → τ → Prop}
    (h : ∀ s, wf s → abs s = t → Spec wf abs step (f s) t Q) :
    Spec wf abs step (MonadState.get >>= f) t Q := by
  intro s hw ha
  exact h s hw ha s hw ha

theorem Spec.set {s' : σ} {l : ℓ} {Q : Except ε PUnit → List ℓ → τ → Prop} (hs : step t l (abs s'))
    (hw' : wf s') (hQ : Q (.ok ⟨⟩) [l] (abs s')) :
    Spec wf abs step (MonadStateOf.set s' : ExceptT ε (StateM σ) PUnit) t Q := by
  intro s _ _
  exact ⟨[l], .single hs, hw', hQ⟩

theorem Spec.modify {g : σ → σ} {l : ℓ} {Q : Except ε PUnit → List ℓ → τ → Prop}
    (h : ∀ s, wf s → abs s = t → step t l (abs (g s)) ∧ wf (g s) ∧ Q (.ok ⟨⟩) [l] (abs (g s))) :
    Spec wf abs step (modifyGet (fun s => (⟨⟩, g s)) : ExceptT ε (StateM σ) PUnit) t Q := by
  intro s hw ha
  obtain ⟨h1, h2, h3⟩ := h s hw ha
  exact ⟨[l], .single h1, h2, h3⟩

/-! ## Two programs that do the same -/

variable (wf abs) in
/-- From every state that stands for `t` the two programs do the same. -/
def Same (m m' : ExceptT ε (StateM σ) α) (t : τ) : Prop :=
  ∀ s, wf s → abs s = t → exec m s = exec m' s

theorem Same.refl (m : ExceptT ε (StateM σ) α) (t : τ) : Same wf abs m m t := fun _ _ _ => rfl

theorem Same.bind {m' : ExceptT ε (StateM σ) α} {f' : α → ExceptT ε (StateM σ) β}
    (h : Same wf abs m m' t) (hm : Spec wf abs step m t Q)
    (hf : ∀ a ls t', Q (.ok a) ls t' → Same wf abs (f a) (f' a) t') :
    Same wf abs (m >>= f) (m' >>= f') t := by
  intro s hw ha
  obtain ⟨ls, -, hw', hQ⟩ := hm s hw ha
  rw [exec_bind, exec_bind, ← h s hw ha]
  generalize exec m s = out at hw' hQ
  obtain ⟨r, s'⟩ := out
  cases r with
  | error e => rfl
  | ok a => exact hf a ls _ hQ s' hw' rfl

end Spec

end Appcall.Refine
