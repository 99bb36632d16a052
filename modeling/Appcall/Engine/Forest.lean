/-
Runs form a forest.

A run lists the runs it created: its children, and the run it continued as. The ids of
these are made from its own, by concatenation or, past 128 bytes, by a digest, and a host
may start a run under any id at all, so the shape of the ids says nothing. What keeps the
runs a forest is that a run is only ever attached when it is inserted, in the commit that
lists it, and that both `evaluate` and the primary key of the table refuse an id that is
there (`Trans.grows`): the table of runs grows as `Forest.Listing` does. It follows that
`cancel` and `latest_run`, which walk along the lists, come to an end.
-/
import Appcall.Lib.Forest
import Appcall.Engine.Cancellation
import Appcall.Engine.Families
import Appcall.Engine.Tasks

set_option autoImplicit false

namespace Appcall.Durable

open Appcall.Refine Appcall.Forest

/-! ## The table of runs -/

def RunRecord.mentions (r : RunRecord) (id : String) : ℕ :=
  r.children.count id + if r.continued_as = some id then 1 else 0

def Machine.listing (m : Machine) : Listing String :=
  { stored := fun id => (m.runs id).isSome = true
    lists := fun a id => ((m.runs a).map (fun en => en.record.mentions id)).getD 0 }

variable {r : RunRecord} {id : String} {m : Machine} {a : String} {g : Listing String}
  {children : List RunRecord} {l : Label} {m' : Machine} {roots : String → Prop} {ls : List Label}
  {t : Machine} {height : String → ℕ} {e : Engine}

theorem RunRecord.mentions_ne_zero : r.mentions id ≠ 0 ↔ r.lists id := by
  unfold RunRecord.mentions RunRecord.lists
  rw [← List.count_pos_iff (a := id)]
  by_cases hs : r.continued_as = some id
  · rw [if_pos hs]
    simp [hs]
  · rw [if_neg hs]
    simp [hs, Nat.pos_iff_ne_zero]

theorem Machine.listing_lists {en : Entry} (h : m.runs a = some en) (id : String) :
    m.listing.lists a id = en.record.mentions id := by
  show ((m.runs a).map (fun en => en.record.mentions id)).getD 0 = _
  rw [h]
  rfl

theorem Machine.listing_absent (h : m.runs a = none) (id : String) : m.listing.lists a id = 0 := by
  show ((m.runs a).map (fun en => en.record.mentions id)).getD 0 = _
  rw [h]
  rfl

theorem NewRun.mentions (h : NewRun r) (id : String) : r.mentions id = 0 := by
  unfold RunRecord.mentions
  rw [h.children, h.continued_as]
  rfl

theorem Machine.listing_eq (hstored : ∀ id, (m.runs id).isSome = true ↔ g.stored id)
    (hsome : ∀ a en, m.runs a = some en → ∀ id, en.record.mentions id = g.lists a id)
    (hnone : ∀ a, m.runs a = none → ∀ id, g.lists a id = 0) : m.listing = g := by
  refine Listing.ext ?_ ?_
  · funext id
    exact propext (hstored id)
  · funext a id
    cases ha : m.runs a with
    | none => rw [Machine.listing_absent ha, hnone a ha]
    | some en => rw [Machine.listing_lists ha, hsome a en ha]

/-! ## How the table grows -/

/-- A commit lists one run more, which it inserts, or none. A successor takes the place of
none, since the successor a run has is stored. -/
theorem Attaches.mentions {r' : RunRecord} (h : Attaches m r r' children)
    (hsucc : ∀ s, r.continued_as = some s → ∃ en, m.runs s = some en) :
    (children = [] ∧ ∀ id, r'.mentions id = r.mentions id)
      ∨ ∃ x, children = [x] ∧ m.runs x.id = none
        ∧ ∀ id, r'.mentions id = r.mentions id + if id = x.id then 1 else 0 := by
  cases h with
  | nothing hc hs =>
    refine .inl ⟨rfl, fun id => ?_⟩
    unfold RunRecord.mentions
    rw [hc, hs]
  | @child x _ hnone hc hs =>
    refine .inr ⟨x, rfl, hnone, fun id => ?_⟩
    unfold RunRecord.mentions
    rw [hc, hs, List.count_append, List.count_singleton]
    by_cases hid : id = x.id
    · subst hid
      simp only [beq_self_eq_true, if_true]
      omega
    · rw [if_neg hid, if_neg (by simpa using Ne.symm hid)]
      omega
  | @successor x _ hnone hc hs hgone =>
    have hfirst : r.continued_as = none := by
      cases hcont : r.continued_as with
      | none => rfl
      | some s =>
        obtain ⟨en, hen⟩ := hsucc s hcont
        rw [hgone s hcont] at hen
        cases hen
    refine .inr ⟨x, rfl, hnone, fun id => ?_⟩
    unfold RunRecord.mentions
    rw [hc, hs, hfirst]
    by_cases hid : id = x.id
    · subst hid
      simp
    · simp [hid, Ne.symm hid]

theorem Machine.commit_listing {m : Machine} {r run : RunRecord} {c : Option ℤ}
    {children : List RunRecord} (hs : m.runs r.id = some ⟨r, c⟩) (hid : run.id = r.id)
    (hf : Fresh (Function.update m.runs run.id (some ⟨run.saved, run.saved.wakeup⟩)) children)
    (hnew : ∀ x ∈ children, NewRun x) :
    (m.commit run children).listing =
      { stored := fun id => m.listing.stored id ∨ ∃ x ∈ children, id = x.id
        lists := fun a id =>
          if a = r.id then run.mentions id else m.listing.lists a id } := by
  have hself := Machine.commit_self hf
  rw [hid] at hself
  have hold : ∀ a en, a ≠ r.id → m.runs a = some en →
      ∃ w, (m.commit run children).runs a = some ⟨en.record, w⟩ := by
    intro a en ha hen
    rw [← hid] at ha
    exact ⟨_, Machine.commit_other hf ha hen⟩
  refine Machine.listing_eq (fun id => ?_) (fun a en hen id => ?_) (fun a ha id => ?_)
  · show _ ↔ (m.runs id).isSome = true ∨ ∃ x ∈ children, id = x.id
    rw [Option.isSome_iff_exists, Option.isSome_iff_exists]
    constructor
    · rintro ⟨en, hen⟩
      rcases Machine.commit_inv hen with ⟨hrun, -⟩ | ⟨x, hx, hxid, -⟩ | ⟨-, w, hw, -⟩
      · rw [hrun, hid]
        exact .inl ⟨_, hs⟩
      · exact .inr ⟨x, hx, hxid.symm⟩
      · exact .inl ⟨_, hw⟩
    · rintro (⟨en, hen⟩ | ⟨x, hx, rfl⟩)
      · by_cases hr : id = r.id
        · subst hr
          exact ⟨_, hself⟩
        · obtain ⟨w, hw⟩ := hold id en hr hen
          exact ⟨_, hw⟩
      · exact ⟨_, Machine.commit_new hf hx⟩
  · show _ = if a = r.id then run.mentions id else m.listing.lists a id
    by_cases ha : a = r.id
    · subst ha
      rw [hself] at hen
      cases hen
      rw [if_pos rfl]
      rfl
    · rw [if_neg ha]
      rcases Machine.commit_inv hen with ⟨hrun, -⟩ | ⟨x, hx, hxid, rfl⟩ | ⟨-, w, hw, -⟩
      · exact absurd (hrun.trans hid) ha
      · rw [← hxid, Machine.listing_absent (update_none (hf.none hx)).2]
        exact (hnew x hx).mentions id
      · exact (Machine.listing_lists hw id).symm
  · show (if a = r.id then run.mentions id else m.listing.lists a id) = 0
    have har : a ≠ r.id := by
      rintro rfl
      rw [hself] at ha
      cases ha
    rw [if_neg har]
    cases hen : m.runs a with
    | none => exact Machine.listing_absent hen id
    | some en =>
      obtain ⟨w, hw⟩ := hold a en har hen
      rw [hw] at ha
      cases ha

theorem Machine.commit_listing_same {run : RunRecord} {c : Option ℤ}
    (hs : m.runs r.id = some ⟨r, c⟩) (hid : run.id = r.id)
    (hsame : ∀ id, run.mentions id = r.mentions id) : (m.commit run []).listing = m.listing := by
  refine (@Machine.commit_listing m r run c [] hs hid trivial (by simp)).trans (Listing.ext ?_ ?_)
  · simp
  · funext a id
    show (if a = r.id then run.mentions id else m.listing.lists a id) = m.listing.lists a id
    by_cases ha : a = r.id
    · subst ha
      rw [if_pos rfl, Machine.listing_lists hs]
      exact hsame id
    · rw [if_neg ha]

/-- What a move does to the table: nothing, one run more that a stored one lists, or one
that was started. -/
inductive Spreads (m m' : Machine) (l : Label) : Prop where
  | same : (∀ id, l ≠ .start id) → m'.listing = m.listing → Spreads m m' l
  | adopts (a x : String) : (∀ id, l ≠ .start id) → m.listing.stored a → ¬ m.listing.stored x →
      m'.listing = m.listing.adopt a x → Spreads m m' l
  | starts (x : String) : l = .start x → ¬ m.listing.stored x →
      m'.listing = m.listing.plant x → Spreads m m' l

theorem Machine.not_stored (h : m.runs id = none) : ¬ m.listing.stored id := by
  show ¬ (m.runs id).isSome = true
  rw [h]
  simp

theorem Change.not_start {r' : RunRecord} (h : Change m l r r' children) (id : String) :
    l ≠ .start id := by
  cases h <;> simp

/-- **How the table of runs grows.** -/
theorem Trans.spreads (h : Trans m l m') (hm : Families m) : Spreads m m' l := by
  cases h with
  | @change _ r run c children hs hc hf =>
    rw [← hc.frame.id] at hf
    have hsucc : ∀ s, r.continued_as = some s → ∃ en, m.runs s = some en := by
      intro s hcont
      obtain ⟨rs, cs, hrs, -⟩ := hm.successor r.id r c hs s hcont
      exact ⟨_, hrs⟩
    rcases hc.attaches.mentions hsucc with ⟨rfl, hsame⟩ | ⟨x, rfl, hnone, hone⟩
    · exact .same hc.not_start (Machine.commit_listing_same hs hc.frame.id hsame)
    · refine .adopts r.id x.id hc.not_start ?_ (Machine.not_stored hnone)
        ((Machine.commit_listing hs hc.frame.id hf hc.new_children).trans (Listing.ext ?_ ?_))
      · show (m.runs r.id).isSome = true
        rw [hs]
        rfl
      · funext id
        simp [Listing.adopt]
      · funext a id
        show (if a = r.id then run.mentions id else m.listing.lists a id)
          = m.listing.lists a id + if a = r.id ∧ id = x.id then 1 else 0
        by_cases ha : a = r.id
        · subst ha
          rw [if_pos rfl, Machine.listing_lists hs]
          simp only [true_and]
          exact hone id
        · rw [if_neg ha, if_neg (fun hc => ha hc.1), Nat.add_zero]
  | @start id0 _ _ _ run hnew hnone =>
    obtain ⟨hn, -, -⟩ := new_run_ok hnew
    refine .starts id0 rfl (Machine.not_stored hnone) (Machine.listing_eq (fun id => ?_)
      (fun a en hen id => ?_) (fun a ha id => ?_))
    · show (Function.update m.runs id0 _ id).isSome = true ↔ (m.runs id).isSome = true ∨ id = id0
      by_cases hid : id = id0
      · subst hid
        simp
      · rw [Function.update_of_ne hid]
        simp [hid]
    · show _ = m.listing.lists a id
      have hen' : Function.update m.runs id0 _ a = some en := hen
      by_cases ha : a = id0
      · subst ha
        rw [Function.update_self] at hen'
        cases hen'
        rw [Machine.listing_absent hnone]
        exact hn.mentions id
      · rw [Function.update_of_ne ha] at hen'
        exact (Machine.listing_lists hen' id).symm
    · show m.listing.lists a id = 0
      exact Machine.listing_absent (update_none ha).2 id
  | restart failed =>
    refine .same (by simp) (Machine.listing_eq (fun id => ?_) (fun a en hen id => ?_)
      (fun a ha id => ?_))
    · show ((m.runs id).map reopened).isSome = true ↔ (m.runs id).isSome = true
      rw [Option.isSome_map]
    · have hen' : (m.runs a).map reopened = some en := hen
      obtain ⟨en0, hen0, rfl⟩ := Option.map_eq_some_iff.mp hen'
      rw [Machine.listing_lists hen0, reopened_record]
    · have ha' : (m.runs a).map reopened = none := ha
      exact Machine.listing_absent (Option.map_eq_none_iff.mp ha') id
  | idle | park | unpark | hand_out | release | register_workflow | configure =>
    exact .same (by simp) rfl

/-! ## Along a run -/

theorem Trans.forest (h : Trans m l m') (hm : Families m) (hf : IsForest m.listing roots) :
    IsForest m'.listing (fun x => roots x ∨ l = .start x) := by
  have hno : (∀ id, l ≠ .start id) → (fun x => roots x ∨ l = .start x) = roots :=
    fun hl => funext fun x => propext (or_iff_left (hl x))
  cases h.spreads hm with
  | same hl heq =>
    rw [hno hl, heq]
    exact hf
  | adopts a x hl ha hx heq =>
    rw [hno hl, heq]
    exact hf.adopt ha hx
  | starts x hl hx heq =>
    have hroots : (fun y => roots y ∨ l = .start y) = fun y => roots y ∨ y = x := by
      funext y
      rw [hl]
      simp [eq_comm]
    rw [hroots, heq]
    exact hf.plant hx

theorem Trans.lists_kept (h : Trans m l m') (hm : Families m) {x : String}
    (hx : m.listing.stored x) :
    m'.listing.stored x ∧ ∀ a, m'.listing.lists a x = m.listing.lists a x := by
  cases h.spreads hm with
  | same _ heq =>
    rw [heq]
    exact ⟨hx, fun _ => rfl⟩
  | adopts b y _ _ hy heq =>
    have hxy : x ≠ y := by
      rintro rfl
      exact hy hx
    rw [heq]
    refine ⟨.inl hx, fun a => ?_⟩
    show m.listing.lists a x + (if a = b ∧ x = y then 1 else 0) = m.listing.lists a x
    rw [if_neg (fun hc => hxy hc.2), Nat.add_zero]
  | starts y _ _ heq =>
    rw [heq]
    exact ⟨.inl hx, fun _ => rfl⟩

theorem Path.forest (h : Path Trans m ls m') (hm : Families m) (hf : IsForest m.listing roots) :
    IsForest m'.listing (fun x => roots x ∨ .start x ∈ ls) := by
  induction h generalizing roots with
  | nil =>
    simp only [List.not_mem_nil, or_false]
    exact hf
  | @cons t t' t'' l ls hstep _ ih =>
    have hroots : (fun x => roots x ∨ .start x ∈ l :: ls)
        = fun x => (roots x ∨ l = .start x) ∨ .start x ∈ ls := by
      funext x
      rw [List.mem_cons, or_assoc, @eq_comm _ l]
    rw [hroots]
    exact ih (hstep.families hm) (hstep.forest hm hf)

theorem Path.lists_kept (h : Path Trans m ls m') (hm : Families m) {x : String}
    (hx : m.listing.stored x) :
    m'.listing.stored x ∧ ∀ a, m'.listing.lists a x = m.listing.lists a x := by
  induction h with
  | nil => exact ⟨hx, fun _ => rfl⟩
  | cons hstep _ ih =>
    obtain ⟨hx', hsame⟩ := hstep.lists_kept hm hx
    obtain ⟨hx'', hsame'⟩ := ih (hstep.families hm) hx'
    exact ⟨hx'', fun a => (hsame' a).trans (hsame a)⟩

/-- The step starts the run `id` in `e`. -/
def Step.starts (step : Step) (e : Engine) (id : String) : Prop :=
  (∃ name version input, step.op = .start id name version input)
    ∧ ∃ reply, (step.exec e).1 = .ok reply

/-- A step of the run has started the run `id`. -/
def Started (codec : Codec) (sha256_hex : String → String) (steps : List Step) (id : String) :
    Prop :=
  ∃ (n : ℕ) (step : Step), steps[n]? = some step
    ∧ step.starts (after (Engine.init codec sha256_hex) (steps.take n)) id

theorem Outcome.started {op : Operation} {res : Except Error Reply} (h : Outcome t op res ls)
    (id : String) : .start id ∈ ls ↔ (∃ name version input, op = .start id name version input)
      ∧ ∃ reply, res = .ok reply := by
  have hemit := h.emits
  have htells := h.tells
  constructor
  · intro hl
    have hop := hemit _ hl
    cases op with
    | start id' name version input =>
      cases hop
      refine ⟨⟨name, version, input, rfl⟩, ?_⟩
      rcases htells with ⟨hok, -⟩ | ⟨-, rfl⟩
      · exact hok
      · cases hl
    | _ => simp [Operation.emits, Label.releases, Label.drives, Label.cancels] at hop
  · rintro ⟨⟨name, version, input, rfl⟩, reply, rfl⟩
    rcases htells with ⟨-, rfl⟩ | ⟨⟨e, he⟩, -⟩
    · exact List.mem_singleton_self _
    · cases he

theorem started_append {codec : Codec} {sha256_hex : String → String} {steps : List Step}
    {step : Step} :
    Started codec sha256_hex (steps ++ [step]) id ↔ Started codec sha256_hex steps id
      ∨ step.starts (after (Engine.init codec sha256_hex) steps) id := by
  constructor
  · rintro ⟨n, st, hn, hst⟩
    rcases Nat.lt_trichotomy n steps.length with hlt | rfl | hgt
    · rw [List.getElem?_append_left hlt] at hn
      rw [List.take_append_of_le_length hlt.le] at hst
      exact .inl ⟨n, st, hn, hst⟩
    · rw [List.getElem?_concat_length] at hn
      cases hn
      rw [List.take_append_of_le_length le_rfl, List.take_length] at hst
      exact .inr hst
    · rw [List.getElem?_eq_none (by simp; omega)] at hn
      cases hn
  · rintro (⟨n, st, hn, hst⟩ | hst)
    · have hlt := (List.getElem?_eq_some_iff.mp hn).1
      refine ⟨n, st, ?_, ?_⟩
      · rw [List.getElem?_append_left hlt]
        exact hn
      · rw [List.take_append_of_le_length hlt.le]
        exact hst
    · refine ⟨steps.length, step, List.getElem?_concat_length, ?_⟩
      rw [List.take_append_of_le_length le_rfl, List.take_length]
      exact hst

/-- **The runs of a reachable state are a forest**, whose roots are the runs that were
started. By induction on the run. -/
theorem after_forest (codec : Codec) (sha256_hex : String → String) (steps : List Step) :
    IsForest (after (Engine.init codec sha256_hex) steps).machine.listing
      (Started codec sha256_hex steps) := by
  induction steps using List.reverseRecOn with
  | nil =>
    have hno : Started codec sha256_hex [] = fun _ => False := by
      funext id
      refine propext ⟨?_, False.elim⟩
      rintro ⟨n, step, hn, -⟩
      cases hn
    rw [hno]
    exact .empty (fun _ => Machine.not_stored rfl) (fun _ => Machine.listing_absent rfl)
  | append_singleton steps step ih =>
    have he : Reachable (after (Engine.init codec sha256_hex) steps) :=
      ⟨codec, sha256_hex, steps, rfl⟩
    obtain ⟨ls, hp, -, hout⟩ := step.path he.wellFormed
    have hroots : Started codec sha256_hex (steps ++ [step])
        = fun x => Started codec sha256_hex steps x ∨ .start x ∈ ls := by
      funext x
      rw [hout.started x]
      exact propext started_append
    rw [hroots, after_append_singleton]
    exact Path.forest hp he.families ih

/-! ## Walking the lists -/

theorem Trans.cancels_listing (h : Trans m l m') (hl : l.cancels) : m'.listing = m.listing := by
  cases h with
  | change hs hc =>
    cases hc with
    | cancel_request | cancel_done => exact Machine.commit_listing_same hs rfl (fun _ => rfl)
    | _ => exact hl.elim
  | _ => exact hl.elim

theorem Path.cancels_listing (h : Path Trans m ls m') (hl : ∀ l ∈ ls, l.cancels) :
    m'.listing = m.listing :=
  h.keeps (I := fun a => a.listing = m.listing)
    (fun l hmem _ _ hstep heq => (hstep.cancels_listing (hl l hmem)).trans heq) rfl

/-- The two programs do the same from the machine `t`. -/
def Alike {α : Type} (p p' : EngineM α) (t : Machine) : Prop :=
  Same (fun e : Engine => WellFormed e.store) Engine.machine p p' t

theorem Alike.bind {α β : Type} {p p' : EngineM α} {f f' : α → EngineM β}
    {Q : Except Error α → List Label → Machine → Prop} (h : Alike p p' t) (hp : Refines p t Q)
    (hf : ∀ a ls t', Q (.ok a) ls t' → Alike (f a) (f' a) t') :
    Alike (p >>= f) (p' >>= f') t := Same.bind h hp hf

theorem Alike.refl {α : Type} (p : EngineM α) (t : Machine) : Alike p p t := Same.refl p t

/-- What a run lists is lower than the run. -/
def Lowers (g : Listing String) (height : String → ℕ) : Prop :=
  ∀ a x, g.lists a x ≠ 0 → height x < height a

theorem load_found (id : String) (t : Machine) :
    Refines (load id) t (fun res _ t' => t' = t ∧ ∀ r, res = .ok r →
      r.id = id ∧ OneOpen r.history ∧ ∃ c, t.runs r.id = some ⟨r, c⟩) := by
  rw [← bind_pure (load id)]
  refine Refines.load (fun r c hs hid ho => ?_) (fun e => ⟨rfl, by rintro r ⟨⟩⟩)
  refine Refines.pure ⟨rfl, ?_⟩
  rintro r' ⟨⟩
  exact ⟨hid, ho, c, hs⟩

theorem cancel_walk_listing (fuel : ℕ) (id : String) (t : Machine) :
    Refines (cancel_walk fuel id) t (fun _ _ t' => t'.listing = t.listing) := by
  refine Refines.weaken (Spec.path (cancel_walk_refines fuel id t)) ?_
  rintro res ls t' ⟨hp, hc⟩
  exact Path.cancels_listing hp hc.cancels

theorem forM_deep {fuel fuel' : ℕ} (ids : List String) {t : Machine}
    (hsame : ∀ id ∈ ids, ∀ t', t'.listing = t.listing →
      Alike (cancel_walk fuel id) (cancel_walk fuel' id) t') :
    Alike (ids.forM (cancel_walk fuel)) (ids.forM (cancel_walk fuel')) t
      ∧ Refines (ids.forM (cancel_walk fuel)) t (fun _ _ t' => t'.listing = t.listing) := by
  induction ids generalizing t with
  | nil => exact ⟨.refl _ _, Refines.pure rfl⟩
  | cons id ids ih =>
    obtain ⟨hid, hrest⟩ := List.forall_mem_cons.mp hsame
    have hwalk := cancel_walk_listing fuel id t
    have hnext := fun (t' : Machine) (ht' : t'.listing = t.listing) =>
      @ih t' (fun id hid t'' ht'' => hrest id hid t'' (ht''.trans ht'))
    simp only [List.forM_eq_forM, List.forM_cons] at hnext ⊢
    refine ⟨(hid t rfl).bind hwalk (fun _ _ t' ht' => (hnext t' ht').1), ?_⟩
    refine Refines.bind (hwalk.weaken (fun res ls t' ht' => ?_))
    cases res with
    | error e => exact ht'
    | ok u => exact ((hnext t' ht').2).weaken (fun _ _ _ h => h.trans ht')

/-- **The depth of a cancellation.** A walk that may go deeper than the height of its run
goes as deep as it likes: the bound is never what stops it. -/
theorem cancel_walk_deep (hg : Lowers g height) (fuel fuel' : ℕ) (hfuel : height id < fuel)
    (hfuel' : height id < fuel') (ht : t.listing = g) :
    Alike (cancel_walk fuel id) (cancel_walk fuel' id) t := by
  induction fuel generalizing fuel' id t with
  | zero => omega
  | succ fuel ih =>
    obtain ⟨fuel', rfl⟩ : ∃ k, fuel' = k + 1 := ⟨fuel' - 1, by omega⟩
    unfold cancel_walk
    refine Alike.bind (.refl _ _) (load_found id t) ?_
    rintro r ls t' ⟨rfl, hr⟩
    obtain ⟨rfl, ho, c, hs⟩ := hr r rfl
    by_cases hun : r.state.uncancellable = true
    · rw [if_pos hun, if_pos hun]
      exact .refl _ _
    rw [if_neg hun, if_neg hun]
    have hlower : ∀ x, r.lists x → height x < height r.id := by
      intro x hx
      refine hg r.id x ?_
      rw [← ht, Machine.listing_lists hs]
      exact RunRecord.mentions_ne_zero.mpr hx
    have hreq : Change t' (.cancel_request r.id) r
        { r with state := .CancelRequested, wakeup := some 0 } [] :=
      .cancel_request (Bool.eq_false_iff.mpr hun)
    refine Alike.bind (.refl _ _) (Refines.save_last
      (Q := fun res _ t1 => ∀ saved, res = .ok saved → saved.children = r.children
        ∧ saved.continued_as = r.continued_as ∧ t1.listing = g) hs ho hreq ?_ ?_) ?_
    · rintro saved ⟨⟩
      have hkept : (t'.commit { r with state := .CancelRequested, wakeup := some 0 } []).listing
          = t'.listing := Machine.commit_listing_same hs rfl (fun _ => rfl)
      exact ⟨rfl, rfl, hkept.trans ht⟩
    · rintro e saved ⟨⟩
    intro saved ls t1 hsaved
    obtain ⟨hch, hco, ht1⟩ := hsaved saved rfl
    -- the depth left is enough for everything the run lists
    have hdeep : ∀ x, r.lists x → ∀ t2, t2.listing = g →
        Alike (cancel_walk fuel x) (cancel_walk fuel' x) t2 := by
      intro x hx t2 ht2
      have hx' := hlower x hx
      exact ih fuel' (by omega) (by omega) ht2
    rw [hch, hco]
    obtain ⟨hall, hkept⟩ := @forM_deep fuel fuel' r.children t1
      (fun x hx t2 ht2 => hdeep x (.inl hx) t2 (ht2.trans ht1))
    refine hall.bind hkept (fun _ _ t2 ht2 => ?_)
    cases hsucc : r.continued_as with
    | none => exact .refl _ _
    | some successor =>
      simp only
      exact (hdeep successor (.inr hsucc) t2 (ht2.trans ht1)).bind
        (cancel_walk_listing fuel successor t2) (fun _ _ t3 _ => .refl _ t3)

/-- **The length of a chain.** Following more successors than the height of a run is
following them to the end. -/
theorem follow_deep (hg : Lowers g height) (hops hops' : ℕ) (hhops : height id ≤ hops)
    (hhops' : height id ≤ hops') (ht : t.listing = g) {c : Option ℤ}
    (hr : t.runs id = some ⟨r, c⟩) :
    Alike (follow hops r) (follow hops' r) t := by
  induction hops generalizing hops' id r c with
  | zero =>
    have hnone : r.continued_as = none := by
      cases hnext : r.continued_as with
      | none => rfl
      | some next =>
        have hlt : height next < height id := by
          refine hg id next ?_
          rw [← ht, Machine.listing_lists hr]
          exact RunRecord.mentions_ne_zero.mpr (.inr hnext)
        omega
    unfold follow
    rw [hnone]
    exact .refl _ _
  | succ hops ih =>
    unfold follow
    cases hnext : r.continued_as with
    | none => exact .refl _ _
    | some next =>
      have hlt : height next < height id := by
        refine hg id next ?_
        rw [← ht, Machine.listing_lists hr]
        exact RunRecord.mentions_ne_zero.mpr (.inr hnext)
      obtain ⟨hops', rfl⟩ : ∃ k, hops' = k + 1 := ⟨hops' - 1, by omega⟩
      simp only
      refine Alike.bind (.refl _ _) (load_found next t) ?_
      rintro x ls t' ⟨rfl, hx⟩
      obtain ⟨rfl, -, c', hx⟩ := hx x rfl
      exact ih hops' (by omega) (by omega) hx

/-! ## Effect ids -/

/-- **An effect id tells its run and its index**: the index is what follows the last
colon. -/
theorem effect_id_at_injective :
    Function.Injective (fun at_index : String × ℕ => effect_id_at at_index.1 at_index.2) := by
  rintro ⟨run_id, index⟩ ⟨run_id', index'⟩ h
  have h : effect_id_at run_id index = effect_id_at run_id' index' := h
  have hrun := effect_id_at_run h
  subst hrun
  have hl := congrArg String.toList h
  unfold effect_id_at command_id at hl
  simp only [String.toList_append] at hl
  have hdigits : (toString index).toList = (toString index').toList := List.append_cancel_left hl
  rw [Nat.toString_eq_repr, Nat.toString_eq_repr, Nat.toList_repr, Nat.toList_repr] at hdigits
  have hindex := congrArg (fun digits => Nat.ofDigitChars 10 digits 0) hdigits
  simp only [Nat.ofDigitChars_ten_toDigits] at hindex
  rw [hindex]

/-! ## The forest of the runs of a host -/

/-- The runs of an engine form a forest, whose roots were started by the host. -/
structure FormsForest (e : Engine) (started : String → Prop) : Prop where
  /-- A run that was started is there, and no run lists it. -/
  root : ∀ id, started id → (∃ x, e.store.load id = .ok x)
    ∧ ∀ a r, e.store.load a = .ok r → r.mentions id = 0
  /-- Any other run was created by a command, and is listed once, by one run. -/
  attached : ∀ id x, e.store.load id = .ok x → ¬ started id →
    ∃ a r, e.store.load a = .ok r ∧ r.mentions id = 1
      ∧ ∀ b r', e.store.load b = .ok r' → b ≠ a → r'.mentions id = 0
  child : ∀ a r, e.store.load a = .ok r → ∀ k ∈ r.children,
    ∃ x, e.store.load k = .ok x ∧ x.parent = some a
  successor : ∀ a r s, e.store.load a = .ok r → r.continued_as = some s →
    ∃ x, e.store.load s = .ok x ∧ x.parent = r.parent
  acyclic : ∀ id, ¬ Relation.TransGen (Links e) id id
  /-- A cancellation that may go as deep as it likes is the same one. -/
  cancel_ends : ∀ id outages fuel, e.store.engine_runs.entries.length < fuel →
    exec (cancel_walk fuel id) (e.under outages) = exec (cancel id) (e.under outages)
  /-- So is a walk along successors. -/
  latest_run_ends : ∀ id r outages hops, e.store.load id = .ok r →
    e.store.engine_runs.entries.length ≤ hops →
    exec (follow hops r) (e.under outages)
      = exec (follow e.store.engine_runs.entries.length r) (e.under outages)
  /-- Whatever the host does next, a run that is there is listed by those that list it now. -/
  never_adopted : ∀ (step : Step) (id : String), (∃ x, e.store.load id = .ok x) →
    ∀ a, Links (step.exec e).2 a id → Links e a id

theorem links_iff (hw : WellFormed e.store) : Links e a id ↔ e.machine.listing.lists a id ≠ 0 := by
  constructor
  · rintro ⟨r, hr, hlists⟩
    obtain ⟨c, hc⟩ := (load_iff hw).mp hr
    rw [Machine.listing_lists hc]
    exact RunRecord.mentions_ne_zero.mpr hlists
  · intro hl
    cases hc : e.machine.runs a with
    | none => exact absurd (Machine.listing_absent hc id) hl
    | some en =>
      rw [Machine.listing_lists hc] at hl
      exact ⟨en.record, (load_iff hw).mpr ⟨en.wakeup, hc⟩, RunRecord.mentions_ne_zero.mp hl⟩

theorem stored_iff_load (hw : WellFormed e.store) :
    e.machine.listing.stored id ↔ ∃ x, e.store.load id = .ok x := by
  show (e.machine.runs id).isSome = true ↔ _
  rw [Option.isSome_iff_exists]
  constructor
  · rintro ⟨en, hen⟩
    exact ⟨en.record, (load_iff hw).mpr ⟨en.wakeup, hen⟩⟩
  · rintro ⟨x, hx⟩
    obtain ⟨c, hc⟩ := (load_iff hw).mp hx
    exact ⟨_, hc⟩

theorem IsForest.heights (hf : IsForest e.machine.listing roots) :
    ∃ height, (∀ x, height x ≤ e.store.engine_runs.entries.length)
      ∧ Lowers e.machine.listing height := by
  have hrows : ∀ x, e.machine.listing.stored x → x ∈ e.store.engine_runs.keys.toFinset := by
    intro x hx
    have hx : (e.store.view x).isSome = true := hx
    rw [List.mem_toFinset, ← AList.mem_keys, ← AList.lookup_isSome]
    cases hrow : e.store.engine_runs.lookup x with
    | none =>
      rw [WellFormed.view_eq_none.mpr hrow] at hx
      cases hx
    | some row => rfl
  obtain ⟨height, hle, hlowers⟩ := hf.descends _ hrows
  refine ⟨height, fun x => (hle x).trans ((List.toFinset_card_le _).trans ?_), hlowers⟩
  unfold AList.keys List.keys
  rw [List.length_map]

/-- **Runs form a forest.** In every state a host can bring a new engine to, and for any
digest of ids that are too long: the runs that were started are listed by no run, and any
other is listed once; parents, the end of the walks of `cancel` and `latest_run`, and that
nothing stored is adopted follow; and no two commands of the forest share an effect id. -/
theorem runs_form_a_forest (codec : Codec) (sha256_hex : String → String) (steps : List Step) :
    FormsForest (after (Engine.init codec sha256_hex) steps) (Started codec sha256_hex steps)
      ∧ Function.Injective (fun at_index : String × ℕ => effect_id_at at_index.1 at_index.2) := by
  refine ⟨?_, effect_id_at_injective⟩
  have he : Reachable (after (Engine.init codec sha256_hex) steps) :=
    ⟨codec, sha256_hex, steps, rfl⟩
  have hf := after_forest codec sha256_hex steps
  generalize after (Engine.init codec sha256_hex) steps = e at he hf
  have hw := he.wellFormed
  have hm := he.families
  obtain ⟨height, hheight, hlowers⟩ := IsForest.heights hf
  have hmentions : ∀ {a r}, e.store.load a = .ok r →
      ∀ id, e.machine.listing.lists a id = r.mentions id := by
    intro a r hr id
    obtain ⟨c, hc⟩ := (load_iff hw).mp hr
    exact Machine.listing_lists hc id
  refine ⟨fun id hid => ?_, fun id x hx hid => ?_, fun a r hr k hk => ?_, fun a r s hr hs => ?_,
    fun id hid => ?_, fun id outages fuel hfuel => ?_, fun id r outages hops hr hhops => ?_,
    fun step id hid a hl => ?_⟩
  · obtain ⟨hstored, hnone⟩ := hf.root id hid
    refine ⟨(stored_iff_load hw).mp hstored, fun a r hr => ?_⟩
    rw [← hmentions hr]
    exact hnone a
  · obtain ⟨a, hone, hothers⟩ := hf.adopted id ((stored_iff_load hw).mpr ⟨x, hx⟩) hid
    obtain ⟨r, hr, -⟩ := (links_iff hw).mpr (show e.machine.listing.lists a id ≠ 0 by omega)
    refine ⟨a, r, hr, (hmentions hr id).symm.trans hone, fun b r' hr' hb => ?_⟩
    rw [← hmentions hr']
    exact hothers b hb
  · obtain ⟨c, hc⟩ := (load_iff hw).mp hr
    obtain ⟨x, cx, hx, hp⟩ := hm.child a r c hc k hk
    have hid : r.id = a := hw.view_id hc
    rw [hid] at hp
    exact ⟨x, (load_iff hw).mpr ⟨cx, hx⟩, hp⟩
  · obtain ⟨c, hc⟩ := (load_iff hw).mp hr
    obtain ⟨x, cx, hx, hp⟩ := hm.successor a r c hc s hs
    exact ⟨x, (load_iff hw).mpr ⟨cx, hx⟩, hp⟩
  · exact hf.acyclic id (Relation.TransGen.mono (fun _ _ h => (links_iff hw).mp h) _ _ hid)
  · have hdeep := cancel_walk_deep hlowers fuel (e.store.engine_runs.entries.length + 1)
      (Nat.lt_of_le_of_lt (hheight id) hfuel) (Nat.lt_succ_of_le (hheight id)) rfl
    exact hdeep (e.under outages) (wellFormed_outages hw outages) rfl
  · obtain ⟨c, hc⟩ := (load_iff hw).mp hr
    have hdeep := follow_deep hlowers hops e.store.engine_runs.entries.length
      ((hheight id).trans hhops) (hheight id) rfl hc
    exact hdeep (e.under outages) (wellFormed_outages hw outages) rfl
  · obtain ⟨ls, hp, hw', -⟩ := step.path hw
    obtain ⟨-, hsame⟩ := Path.lists_kept hp hm ((stored_iff_load hw).mpr hid)
    rw [links_iff hw]
    rw [links_iff hw', hsame a] at hl
    exact hl

end Appcall.Durable
