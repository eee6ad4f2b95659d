import GigMcp.Registry.Provenance

/-!
# What is left in a staging directory

All installs of one version of a server share a directory, and that directory is what the
sandbox of a bundle gets to see.  The rules of a bundle are checked against the archive; an
extraction writes its files over what the directory holds, and a file that exists keeps its
mode.

So an extraction that succeeds leaves exactly the new bundle if the directory held nothing
but files of its three names, with the modes they are to have, and only then.  Extractions of
bundles with one and the same entrypoint keep a directory in that condition.
-/

namespace GigMcp.Registry.Remnants

open GigMcp.Data GigMcp.Oci Provenance

/-! ## Histories of a directory -/

/-- What an install does to the staging directory. -/
inductive Pull
  /-- A server of a single file: it is placed under a fixed name. -/
  | single (d : Disk) (img : Rootfs) (entrypoint : String)
  | bundle (d : Disk) (img : Rootfs) (entrypoint : String)

def Pull.apply (dir : String) (fs : Files) : Pull → Files
  | .single d img entrypoint => (extractFile d img entrypoint (joinPath dir "server") fs).2
  | .bundle d img entrypoint => (Oci.extractBundle d img entrypoint dir fs).2

/-- The files after some installs into an empty place. -/
def history (dir : String) (ps : List Pull) : Files := ps.foldl (Pull.apply dir) .empty

/-- A directory holds the bundle of an image and nothing else. -/
structure Exactly (img : Rootfs) (entrypoint dir : String) (fs : Files) : Prop where
  files : ∀ name ∈ bundleNames entrypoint, ∃ data, held entrypoint img.entries name = some data ∧
    fs (joinPath dir name) = some ⟨data, bundleMode entrypoint name⟩
  only : ∀ p, Under dir p → fs p ≠ none → ∃ name ∈ bundleNames entrypoint, p = joinPath dir name

section Remnants

variable {d : Disk} {img : Rootfs} {entrypoint dir : String} {fs fs' : Files}

/-- A file of another name stays. -/
theorem remains (h : Oci.extractBundle d img entrypoint dir fs = (.ok (), fs')) {name : String}
    (hname : name ∉ bundleNames entrypoint) : fs' (joinPath dir name) = fs (joinPath dir name) := by
  have hheld : held entrypoint img.entries name = none :=
    Option.not_isSome_iff_eq_none.mp fun hsome ↦ hname ((held_isSome_iff h name).mp hsome)
  rw [extractBundle_files h, hheld]
  rfl

/-- A file of the bundle is new, with the mode of the file that was there. -/
theorem renewed (h : Oci.extractBundle d img entrypoint dir fs = (.ok (), fs')) {name : String}
    (hname : name ∈ bundleNames entrypoint) :
    ∃ data, held entrypoint img.entries name = some data ∧ fs' (joinPath dir name) =
      some ⟨data, ((fs (joinPath dir name)).map File.mode).getD (bundleMode entrypoint name)⟩ := by
  obtain ⟨data, hdata⟩ := Option.isSome_iff_exists.mp ((held_isSome_iff h name).mpr hname)
  refine ⟨data, hdata, ?_⟩
  rw [extractBundle_files h, hdata]
  rfl

/-- An extraction that succeeds leaves exactly its bundle if and only if the directory held
nothing that does not fit. -/
theorem extractBundle_exactly_iff (h : Oci.extractBundle d img entrypoint dir fs = (.ok (), fs')) :
    Exactly img entrypoint dir fs' ↔ Fits entrypoint dir fs := by
  constructor
  · intro hex name f hf
    by_cases hname : name ∈ bundleNames entrypoint
    · refine ⟨hname, ?_⟩
      obtain ⟨data, hdata, hkept⟩ := renewed h hname
      obtain ⟨data', hdata', hnew⟩ := hex.files name hname
      rw [hkept, hf] at hnew
      exact congrArg File.mode (Option.some.inj hnew)
    · have hstays := remains h hname
      obtain ⟨name', hname', heq⟩ := hex.only _ (under_append dir name) (by
        show fs' (joinPath dir name) ≠ none
        rw [hstays, hf]
        exact Option.some_ne_none f)
      obtain rfl := joinPath_inj.mp heq
      exact absurd hname' hname
  · intro hfits
    refine ⟨fun name hname ↦ ?_, fun p hp hfile ↦ ?_⟩
    · obtain ⟨data, hdata, hkept⟩ := renewed h hname
      refine ⟨data, hdata, ?_⟩
      cases hold : fs (joinPath dir name) with
      | none =>
          rw [hkept, hold]
          rfl
      | some f =>
          rw [hkept, hold, ← (hfits name f hold).2]
          rfl
    · obtain ⟨name, rfl⟩ := under_iff.mp hp
      refine ⟨name, ?_, rfl⟩
      by_contra hname
      obtain ⟨f, hf⟩ := Option.ne_none_iff_exists'.mp hfile
      exact hname (hfits name f ((remains h hname).symm.trans hf)).1

/-- The extraction of a bundle leaves a directory that fits the next one with its
entrypoint. -/
theorem fits_extractBundle (hfits : Fits entrypoint dir fs) :
    Fits entrypoint dir (Oci.extractBundle d img entrypoint dir fs).2 := by
  cases hx : Oci.extractBundle d img entrypoint dir fs with
  | mk r fs' =>
      cases r with
      | ok _ =>
          have hex := (extractBundle_exactly_iff hx).mpr hfits
          intro name f hf
          obtain ⟨name', hname', heq⟩ := hex.only _ (under_append dir name) (by
            show fs' (joinPath dir name) ≠ none
            exact fun hnone ↦ Option.some_ne_none f (hf.symm.trans hnone))
          obtain rfl := joinPath_inj.mp heq
          obtain ⟨data, -, hnew⟩ := hex.files name hname'
          exact ⟨hname', congrArg File.mode (Option.some.inj (hf.symm.trans hnew))⟩
      | error err =>
          cases hmk : d.mkdirAll with
          | some e =>
              -- nothing is touched if the directory cannot be made
              unfold Oci.extractBundle at hx
              rw [hmk] at hx
              cases hx
              exact hfits
          | none =>
              obtain rfl := extractBundle_error hmk hx
              intro name f hf
              exact absurd (hf.symm.trans (Files.removeAll_of_under (under_append dir name)))
                (Option.some_ne_none f)

/-- As long as the entrypoint stays the same, so does the set of files. -/
theorem fits_history {ps : List Pull} (hps : ∀ p ∈ ps, ∃ d img, p = .bundle d img entrypoint) :
    Fits entrypoint dir (history dir ps) := by
  have hfold : ∀ fs, Fits entrypoint dir fs → Fits entrypoint dir (ps.foldl (Pull.apply dir) fs) := by
    induction ps with
    | nil => exact fun _ hfs ↦ hfs
    | cons p ps ih =>
        intro fs hfs
        obtain ⟨d, img, rfl⟩ := hps p List.mem_cons_self
        exact ih (fun q hq ↦ hps q (List.mem_cons_of_mem _ hq)) _ (fits_extractBundle hfs)
  exact hfold .empty fun _ _ h ↦ nomatch h

end Remnants

/-! ## A second executable -/

/-- A bundle whose entrypoint has the given name. -/
def bundleOf (base : String) : Rootfs where
  entries :=
    [⟨"app/" ++ base, .reg, 0o755, 3, "elf"⟩,
      ⟨"app/manifest.yaml", .reg, 0o644, 4, "name"⟩,
      ⟨"app/toolspec.yaml", .reg, 0o644, 5, "tools"⟩]
  broken := none

/-- An empty directory fits. -/
theorem extractBundle_exactly_empty :
    Exactly (bundleOf "server") "/app/server" "/data"
      (Oci.extractBundle .healthy (bundleOf "server") "/app/server" "/data" .empty).2 :=
  (extractBundle_exactly_iff (Prod.ext (by decide) rfl)).mpr fun _ _ h ↦ nomatch h

/-- After a change of the entrypoint the old one is still there, and executable; after a
change of the builder the entrypoint has the mode of the single file. -/
theorem extractBundle_leaves_remnants :
    (Oci.extractBundle .healthy (bundleOf "server") "/app/server" "/data"
        (history "/data" [.bundle .healthy (bundleOf "engine") "/app/engine"])).1 = .ok () ∧
      (Oci.extractBundle .healthy (bundleOf "server") "/app/server" "/data"
        (history "/data" [.bundle .healthy (bundleOf "engine") "/app/engine"])).2 "/data/engine" =
        some ⟨"elf", 0o755⟩ ∧
      (Oci.extractBundle .healthy (bundleOf "server") "/app/server" "/data"
        (history "/data" [.single .healthy (bundleOf "server") "/app/server"])).1 = .ok () ∧
      (Oci.extractBundle .healthy (bundleOf "server") "/app/server" "/data"
        (history "/data" [.single .healthy (bundleOf "server") "/app/server"])).2 "/data/server" =
        some ⟨"elf", 0o555⟩ := by
  decide

end GigMcp.Registry.Remnants
