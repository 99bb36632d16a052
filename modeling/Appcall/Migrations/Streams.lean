/-
The digests of a directory: what `directory_hashes` makes of its files.

The digest of a file is that of the names and the contents of all files up to it, one after
the other, with nothing between them. That is still one list of files: every name begins with
a version and an underscore, and no version has two files.
-/
import Appcall.Migrations.Legacy

set_option autoImplicit false

namespace Appcall.Migrations

open Appcall.Events (parse_i64)
open Chars (split_once)

variable {d : Digests}

/-! ## The streams of files -/

def stream_of (files : List SqlFile) : List UInt8 := files.flatMap SqlFile.stream

def SqlFile.Named (f : SqlFile) : Prop :=
  ∃ text rest, split_once (· == '_') f.name.toList = some (text, rest)
    ∧ parse_i64 text = some f.version

theorem split_name {text a b : List Char} (h : split_once (· == '_') text = some (a, b)) :
    text = a ++ '_' :: b ∧ '_' ∉ a := by
  obtain ⟨⟨c, hc, htext⟩, hplain⟩ := Chars.split_once_spec h
  rw [beq_iff_eq.mp hc] at htext
  exact ⟨htext, fun hmem => absurd (hplain _ hmem) (by decide)⟩

variable {rest' : List UInt8} {f : SqlFile} {files : List SqlFile} {cumulative : List UInt8}
  {hashes : List LegacyHash} {directory : List DirEntry}

theorem front_unique {a a' : List Char} {rest : List UInt8} (ha : '_' ∉ a) (ha' : '_' ∉ a')
    (h : Json.bytes a ++ 95 :: rest = Json.bytes a' ++ 95 :: rest') : a = a' := by
  have hplain : ∀ {l : List Char}, '_' ∉ l → (95 : UInt8) ∉ Json.bytes l := by
    intro l hl hmem
    obtain ⟨c, hc, heq⟩ := Json.mem_bytes hmem (by decide)
    have hunderscore : c = '_' := Char.toNat_inj.mp heq
    rw [hunderscore] at hc
    exact hl hc
  have htake : ∀ {l : List UInt8} {r : List UInt8}, (95 : UInt8) ∉ l →
      (l ++ 95 :: r).takeWhile (fun b => decide (b ≠ 95)) = l := by
    intro l r hl
    rw [List.takeWhile_append_of_pos, List.takeWhile_cons_of_neg (by decide), List.append_nil]
    intro b hb
    rw [decide_eq_true_eq]
    rintro rfl
    exact hl hb
  apply Json.bytes_inj
  have hboth := congrArg (List.takeWhile (fun b => decide (b ≠ 95))) h
  rwa [htake (hplain ha), htake (hplain ha')] at hboth

theorem version_of_stream {g : SqlFile} (hf : f.Named) (hg : g.Named) {rest : List UInt8}
    (h : f.stream ++ rest = g.stream ++ rest') : f.version = g.version := by
  obtain ⟨text, after, hsplit, hversion⟩ := hf
  obtain ⟨text', after', hsplit', hversion'⟩ := hg
  obtain ⟨hname, hplain⟩ := split_name hsplit
  obtain ⟨hname', hplain'⟩ := split_name hsplit'
  have hbytes : ∀ (a b : List Char), Json.bytes (a ++ '_' :: b)
      = Json.bytes a ++ 95 :: Json.bytes b := fun a b => Json.bytes_append a _
  rw [SqlFile.stream, SqlFile.stream, hname, hname', hbytes, hbytes] at h
  simp only [List.append_assoc, List.cons_append] at h
  have htext := front_unique hplain hplain' h
  rw [htext, hversion'] at hversion
  injection hversion with hversion
  exact hversion.symm

theorem stream_ne_nil (hf : f.Named) : f.stream ≠ [] := by
  obtain ⟨text, rest, hsplit, -⟩ := hf
  intro h
  rw [SqlFile.stream, (split_name hsplit).1, Json.bytes_append] at h
  have := (List.append_eq_nil_iff.mp (List.append_eq_nil_iff.mp h).1).2
  exact absurd this (List.cons_ne_nil _ _)

/-- **A stream is that of one list of files**, when no version has two files. -/
theorem stream_inj (hnamed : ∀ f ∈ files, f.Named) (hnodup : (files.map SqlFile.version).Nodup)
    {l l' : List SqlFile} (hl : ∀ f ∈ l, f ∈ files) (hl' : ∀ f ∈ l', f ∈ files)
    (h : stream_of l = stream_of l') : l = l' := by
  induction l generalizing l' with
  | nil =>
    cases l' with
    | nil => rfl
    | cons g l' =>
      have hnil := (List.append_eq_nil_iff.mp h.symm).1
      exact absurd hnil (stream_ne_nil (hnamed g (hl' g List.mem_cons_self)))
  | cons f l ih =>
    cases l' with
    | nil =>
      have hnil := (List.append_eq_nil_iff.mp h).1
      exact absurd hnil (stream_ne_nil (hnamed f (hl f List.mem_cons_self)))
    | cons g l' =>
      have hf := hl f List.mem_cons_self
      have hg := hl' g List.mem_cons_self
      rw [stream_of, stream_of, List.flatMap_cons, List.flatMap_cons] at h
      have hsame := List.inj_on_of_nodup_map hnodup hf hg
        (version_of_stream (hnamed f hf) (hnamed g hg) h)
      subst hsame
      rw [ih (fun x hx => hl x (List.mem_cons_of_mem _ hx))
        (fun x hx => hl' x (List.mem_cons_of_mem _ hx)) (List.append_cancel_left h)]

/-! ## The hashes of the directory -/

/-- The hashes of files, after what was hashed before. -/
def hashes_of (d : Digests) : List UInt8 → List SqlFile → List LegacyHash
  | _, [] => []
  | cumulative, f :: files =>
    ⟨f.version, d.atlas (cumulative ++ f.stream), d.sqlx f.bytes⟩
      :: hashes_of d (cumulative ++ f.stream) files

theorem read_file_named {e : DirEntry} (h : read_file e = .ok f) : f.Named := by
  rw [read_file] at h
  split at h
  next => cases h
  next =>
    split at h
    next => cases h
    next name hname =>
      split at h
      next => cases h
      next text rest hsplit =>
        split at h
        next => cases h
        next version hversion =>
          split at h
          next => cases h
          next =>
            cases h
            exact ⟨text, rest, hsplit, hversion⟩

theorem hash_files_spec {paths : List DirEntry} {result : List LegacyHash}
    (h : hash_files d paths cumulative hashes = .ok result)
    (hnodup : (hashes.map LegacyHash.version).Nodup) :
    ∃ files, paths.mapM read_file = .ok files ∧ result = hashes ++ hashes_of d cumulative files
      ∧ (hashes.map LegacyHash.version ++ files.map SqlFile.version).Nodup := by
  induction paths generalizing cumulative hashes with
  | nil =>
    cases h
    refine ⟨[], rfl, (List.append_nil _).symm, ?_⟩
    rwa [List.map_nil, List.append_nil]
  | cons e paths ih =>
    rw [hash_files] at h
    split at h
    next => cases h
    next f hread =>
      split at h
      next => cases h
      next hnew =>
        have hfresh : f.version ∉ hashes.map LegacyHash.version := by
          intro hmem
          obtain ⟨x, hx, hversion⟩ := List.mem_map.mp hmem
          exact hnew (List.any_eq_true.mpr ⟨x, hx, decide_eq_true hversion⟩)
        have hnodup' : ((hashes ++ [(⟨f.version, d.atlas (cumulative ++ f.stream),
            d.sqlx f.bytes⟩ : LegacyHash)]).map LegacyHash.version).Nodup := by
          rw [List.map_append, List.nodup_append]
          refine ⟨hnodup, List.nodup_singleton _, ?_⟩
          rintro v hv w hw rfl
          rw [List.mem_singleton.mp hw] at hv
          exact hfresh hv
        obtain ⟨files, hfiles, hresult, hall⟩ := ih h hnodup'
        refine ⟨f :: files, ?_, ?_, ?_⟩
        · rw [List.mapM_cons, hread, hfiles]
          rfl
        · rw [hresult, hashes_of, List.append_assoc]
          rfl
        · rwa [List.map_append, List.append_assoc] at hall

theorem directory_hashes_spec (h : directory_hashes d directory = .ok hashes) :
    ∃ files, sql_files directory = .ok files ∧ hashes = hashes_of d [] files
      ∧ (files.map SqlFile.version).Nodup :=
  hash_files_spec h List.nodup_nil

theorem sql_files_named (h : sql_files directory = .ok files) (hf : f ∈ files) : f.Named := by
  rw [sql_files] at h
  generalize sql_paths directory = paths at h
  induction paths generalizing files with
  | nil =>
    cases h
    exact absurd hf List.not_mem_nil
  | cons e paths ih =>
    rw [List.mapM_cons] at h
    cases hread : read_file e with
    | error error =>
      rw [hread] at h
      cases h
    | ok g =>
      rw [hread] at h
      cases hrest : paths.mapM read_file with
      | error error =>
        rw [hrest] at h
        cases h
      | ok rest =>
        rw [hrest] at h
        cases h
        rcases List.mem_cons.mp hf with rfl | hf
        · exact read_file_named hread
        · exact ih hf hrest

theorem find_hashes_of {v : ℤ} {x : LegacyHash}
    (h : (hashes_of d cumulative files).find? (fun x => decide (x.version = v)) = some x) :
    ∃ i f, files[i]? = some f ∧ f.version = v ∧ x.sqlx = d.sqlx f.bytes
      ∧ x.atlas = d.atlas (cumulative ++ stream_of (files.take (i + 1))) := by
  induction files generalizing cumulative with
  | nil => cases h
  | cons f files ih =>
    rw [hashes_of, List.find?_cons] at h
    split at h
    next hv =>
      cases h
      refine ⟨0, f, rfl, of_decide_eq_true hv, rfl, ?_⟩
      rw [List.take_succ_cons, List.take_zero, stream_of, List.flatMap_singleton]
    next =>
      obtain ⟨i, g, hg, hversion, hsqlx, hatlas⟩ := ih h
      refine ⟨i + 1, g, hg, hversion, hsqlx, ?_⟩
      rw [hatlas, List.take_succ_cons, stream_of, stream_of, List.flatMap_cons, List.append_assoc]

end Appcall.Migrations
