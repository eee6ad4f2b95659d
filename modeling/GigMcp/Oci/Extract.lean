import GigMcp.Data.Files
import GigMcp.Registry.Installer
import GigMcp.System.World

/-!
# Extracting an image

`extractFile` and `extractBundle` of `oci/oci.go`: write the entrypoint of a pulled image,
or its whole toolpack bundle, to disk.  Both go through the flattened root file system of
the image entry by entry, and both write straight to the place the server runs from.

A single file is removed before it is written anew.  A bundle is written over what is in
its directory; when anything goes wrong the directory is removed with all that was in it.

What the image holds (`Rootfs`) and which file operations fail (`Disk`) are given.  A
removal always works: the source ignores its error.
-/

namespace GigMcp.Oci

open GigMcp.Data GigMcp.Registry

/-- The kind of a tar entry. -/
inductive TarType
  | reg
  | dir
  | symlink
  | link
  | other (flag : Nat)
deriving DecidableEq

/-- A tar entry: its header, and the bytes that follow. -/
structure TarEntry where
  name : String
  type : TarType
  mode : Nat
  size : Nat
  data : String

/-- The flattened root file system of an image, as a stream: its entries, and the error
that breaks the stream off after them, if any. -/
structure Rootfs where
  entries : List TarEntry
  broken : Option Err

/-- The file operations that fail during an extraction.  Operations on an entry go by its
position in the stream; a copy that fails has written some bytes. -/
structure Disk where
  mkdirAll : Option Err
  openFile : Nat → Option Err
  copy : Nat → Option (Nat × Err)
  close : Nat → Option Err

/-- The stream does not break with one of the store's errors. -/
def Rootfs.Foreign (img : Rootfs) : Prop := ∀ err ∈ img.broken, err.Foreign

/-- The file system does not fail with one of the store's errors. -/
structure Disk.Foreign (d : Disk) : Prop where
  mkdirAll : ∀ err ∈ d.mkdirAll, err.Foreign
  openFile : ∀ k, ∀ err ∈ d.openFile k, err.Foreign
  copy : ∀ k, ∀ x ∈ d.copy k, x.2.Foreign
  close : ∀ k, ∀ err ∈ d.close k, err.Foreign

/-- No operation fails. -/
def Disk.healthy : Disk := ⟨none, fun _ ↦ none, fun _ ↦ none, fun _ ↦ none⟩

theorem Disk.healthy_foreign : Disk.healthy.Foreign where
  mkdirAll _ h := nomatch h
  openFile _ _ h := nomatch h
  copy _ _ h := nomatch h
  close _ _ h := nomatch h

/-! ## A single file -/

/-- Replace the file at `dest` by an entry. -/
def placeFile (d : Disk) (k : Nat) (e : TarEntry) (dest : String) (fs : Files) :
    Except Err Unit × Files :=
  let fs := fs.remove dest
  match d.openFile k with
  | some err => (.error err, fs)
  | none =>
      match d.copy k with
      | some (n, err) =>
          (.error (.wrap ("oci: write " ++ dest) err),
            (fs.write dest 0o555 (clip n e.data)).remove dest)
      | none =>
          (match d.close k with
            | some err => .error err
            | none => .ok (),
            fs.write dest 0o555 e.data)

/-- The loop of `extractFile`, from the `k`-th entry on. -/
def extractFileFrom (d : Disk) (broken : Option Err) (entrypoint dest : String) :
    Nat → List TarEntry → Files → Except Err Unit × Files
  | _, [], fs =>
      match broken with
      | some err => (.error (.wrap "oci: read rootfs" err), fs)
      | none => (.error (.new ("oci: entrypoint " ++ entrypoint ++ " not found in image rootfs")), fs)
  | k, e :: es, fs =>
      if cleanPath e.name ≠ trimPrefix entrypoint "/" then
        extractFileFrom d broken entrypoint dest (k + 1) es fs
      else if e.type ≠ .reg then
        (.error (.new ("oci: entrypoint " ++ entrypoint ++ " is not a regular file")), fs)
      else
        match d.mkdirAll with
        | some err => (.error err, fs)
        | none => placeFile d k e dest fs

def extractFile (d : Disk) (img : Rootfs) (entrypoint dest : String) (fs : Files) :
    Except Err Unit × Files :=
  extractFileFrom d img.broken entrypoint dest 0 img.entries fs

/-! ## A bundle -/

def maxBundleFiles : Nat := 8

/-- 64 MiB. -/
def maxBundleBytes : Nat := 67108864

/-- 1 MiB. -/
def maxSidecarBytes : Nat := 1048576

def manifestSidecar : String := "manifest.yaml"

def toolspecSidecar : String := "toolspec.yaml"

/-- An error that wraps `ErrBundleContract`. -/
def bundleContract (text : String) : Err :=
  .new ("oci: toolpack bundle contract violation: " ++ text)

def quoted (s : String) : String := "\"" ++ s ++ "\""

/-- What the names of a bundle's entries start with. -/
def bundlePath (entrypoint : String) : String := trimPrefix (dirName entrypoint) "/" ++ "/"

/-- The path of an entry relative to the bundle's directory, for an entry in it. -/
def relative (entrypoint : String) (e : TarEntry) : Option String :=
  let name := cleanPath e.name
  if !hasPrefix (name ++ "/") (bundlePath entrypoint) || name ++ "/" = bundlePath entrypoint then none
  else some (trimPrefix name (bundlePath entrypoint))

/-- Only plain files are allowed. -/
def typeViolation (name bundleDir : String) : TarType → Option Err
  | .reg => none
  | .dir => some (bundleContract ("subdirectory " ++ quoted name ++ " under " ++ bundleDir))
  | .symlink | .link =>
      some (bundleContract
        ("link " ++ quoted name ++ " under " ++ bundleDir ++ " (links are not allowed)"))
  | .other flag =>
      some (bundleContract ("non-regular entry " ++ quoted name ++ " (type " ++ toString flag ++
        ") under " ++ bundleDir))

/-- What is wrong with an entry of the bundle's directory that is the `count`-th of its
files. -/
def entryViolation (entrypoint rel : String) (e : TarEntry) (count : Nat) : Option Err :=
  let name := cleanPath e.name
  let bundleDir := dirName entrypoint
  if '/' ∈ rel.toList then
    some (bundleContract (quoted name ++ " is not directly under " ++ bundleDir ++
      " (subdirectories are not allowed)"))
  else
    match typeViolation name bundleDir e.type with
    | some err => some err
    | none =>
        if rel ≠ baseName entrypoint ∧ e.mode &&& 0o111 ≠ 0 then
          some (bundleContract ("non-entrypoint file " ++ quoted name ++
            " is executable (only the entrypoint may be executable)"))
        else if maxBundleFiles < count then
          some (bundleContract ("more than " ++ toString maxBundleFiles ++ " files in " ++ bundleDir))
        else if rel ≠ baseName entrypoint ∧ maxSidecarBytes < e.size then
          some (bundleContract ("file " ++ quoted name ++ " is " ++ toString e.size ++
            " bytes (non-entrypoint cap is " ++ toString maxSidecarBytes ++ ")"))
        else none

/-- The mode a bundle's file is created with. -/
def bundleMode (entrypoint rel : String) : Nat := if rel = baseName entrypoint then 0o755 else 0o644

/-- Write an entry of a bundle, after `total` bytes of it; the new total. -/
def writeEntry (d : Disk) (k : Nat) (entrypoint stageDir rel : String) (e : TarEntry) (total : Nat)
    (fs : Files) : Except Err Nat × Files :=
  let dest := joinPath stageDir rel
  let mode := bundleMode entrypoint rel
  match d.openFile k with
  | some err => (.error err, fs)
  | none =>
      match d.copy k with
      | some (n, err) =>
          (.error (.wrap ("oci: write " ++ dest) err), fs.write dest mode (clip n e.data))
      | none =>
          -- one byte more than is left, so that an overrun shows
          let data := clip (maxBundleBytes - total + 1) e.data
          let fs := fs.write dest mode data
          match d.close k with
          | some err => (.error err, fs)
          | none =>
              if maxBundleBytes < total + data.length then
                (.error (bundleContract
                  ("bundle exceeds " ++ toString maxBundleBytes ++ " bytes total")), fs)
              else (.ok (total + data.length), fs)

/-- The accumulators of the loop: bytes and files so far, and the files' names. -/
structure Scan where
  total : Nat
  count : Nat
  files : List String

/-- The body of the loop of `extractBundle`: entries outside of the bundle's directory are
passed over. -/
def scanEntry (d : Disk) (entrypoint stageDir : String) (k : Nat) (e : TarEntry) (acc : Scan)
    (fs : Files) : Except Err Scan × Files :=
  match relative entrypoint e with
  | none => (.ok acc, fs)
  | some rel =>
      match entryViolation entrypoint rel e (acc.count + 1) with
      | some err => (.error err, fs)
      | none =>
          andThen (writeEntry d k entrypoint stageDir rel e acc.total fs) fun total fs ↦
            (.ok ⟨total, acc.count + 1, acc.files ++ [rel]⟩, fs)

/-- The loop of `extractBundle`, from the `k`-th entry on. -/
def scan (d : Disk) (broken : Option Err) (entrypoint stageDir : String) :
    Nat → List TarEntry → Scan → Files → Except Err Scan × Files
  | _, [], acc, fs =>
      match broken with
      | some err => (.error (.wrap "oci: read rootfs" err), fs)
      | none => (.ok acc, fs)
  | k, e :: es, acc, fs =>
      andThen (scanEntry d entrypoint stageDir k e acc fs) fun acc fs ↦
        scan d broken entrypoint stageDir (k + 1) es acc fs

/-- What is wrong with the files of a whole bundle: they have to be the entrypoint and the
two sidecars. -/
def bundleViolation (entrypoint : String) (files : List String) : Option Err :=
  let bundleDir := dirName entrypoint
  let entryBase := baseName entrypoint
  if entryBase ∉ files then
    some (bundleContract ("entrypoint " ++ entrypoint ++ " not found in bundle dir " ++ bundleDir))
  else
    match [manifestSidecar, toolspecSidecar].find? (· ∉ files) with
    | some need =>
        some (bundleContract ("required sidecar " ++ need ++ " missing from bundle dir " ++ bundleDir))
    | none =>
        match files.find? fun f ↦ f ≠ entryBase ∧ f ≠ manifestSidecar ∧ f ≠ toolspecSidecar with
        | some got =>
            some (bundleContract ("unexpected file " ++ quoted got ++ " in " ++ bundleDir ++ " (only " ++
              entryBase ++ ", " ++ manifestSidecar ++ ", " ++ toolspecSidecar ++ " allowed)"))
        | none => none

/-- `extractBundle` before its deferred clean-up. -/
def writeBundle (d : Disk) (img : Rootfs) (entrypoint stageDir : String) (fs : Files) :
    Except Err Unit × Files :=
  andThen (scan d img.broken entrypoint stageDir 0 img.entries ⟨0, 0, []⟩ fs) fun acc fs ↦
    match bundleViolation entrypoint acc.files with
    | some err => (.error err, fs)
    | none => (.ok (), fs)

def extractBundle (d : Disk) (img : Rootfs) (entrypoint stageDir : String) (fs : Files) :
    Except Err Unit × Files :=
  match d.mkdirAll with
  | some err => (.error err, fs)
  | none =>
      match writeBundle d img entrypoint stageDir fs with
      | (.error err, fs) => (.error err, fs.removeAll stageDir)
      | (.ok _, fs) => (.ok (), fs)

/-! ## What an extraction leaves

An extraction of a single file leaves its destination alone, or empty, or with the image's
entrypoint there.  A bundle's extraction that succeeds leaves the image's files in the
directory, over what was there; one that fails leaves nothing. -/

section SingleFile

variable {d : Disk} {img : Rootfs} {broken : Option Err} {entrypoint dest : String} {fs : Files}

/-- The entry that is the entrypoint, with its position. -/
def entryAt (entrypoint : String) : Nat → List TarEntry → Option (Nat × TarEntry)
  | _, [] => none
  | k, e :: es =>
      if cleanPath e.name ≠ trimPrefix entrypoint "/" then entryAt entrypoint (k + 1) es
      else some (k, e)

/-- What becomes of the destination: it is left alone, or a file is put there, or none. -/
def placed (d : Disk) (img : Rootfs) (entrypoint : String) : Option (Option File) :=
  match entryAt entrypoint 0 img.entries with
  | none => none
  | some (k, e) =>
      if e.type ≠ .reg ∨ d.mkdirAll.isSome then none
      else if (d.openFile k).isSome ∨ (d.copy k).isSome then some none
      else some (some ⟨e.data, 0o555⟩)

theorem extractFileFrom_eq (k : Nat) (es : List TarEntry) :
    extractFileFrom d broken entrypoint dest k es fs =
      match entryAt entrypoint k es with
      | none => extractFileFrom d broken entrypoint dest k [] fs
      | some (k, e) => extractFileFrom d broken entrypoint dest k [e] fs := by
  induction es generalizing k with
  | nil => rfl
  | cons e es ih =>
      by_cases hname : cleanPath e.name ≠ trimPrefix entrypoint "/"
      · rw [extractFileFrom, entryAt, if_pos hname, if_pos hname, ih]
        rfl
      · rw [extractFileFrom, entryAt, if_neg hname, if_neg hname]
        show _ = extractFileFrom d broken entrypoint dest k [e] fs
        rw [extractFileFrom, if_neg hname]

theorem entryAt_name {k j : Nat} {es : List TarEntry} {e : TarEntry}
    (h : entryAt entrypoint k es = some (j, e)) : cleanPath e.name = trimPrefix entrypoint "/" := by
  induction es generalizing k with
  | nil => cases h
  | cons e' es ih =>
      unfold entryAt at h
      split at h
      · exact ih h
      · rename_i hname
        cases h
        exact not_not.mp hname

/-- Writing over a file that was just removed. -/
theorem placeFile_files (k : Nat) (e : TarEntry) :
    (placeFile d k e dest fs).2 = fs.set dest
      (if (d.openFile k).isSome ∨ (d.copy k).isSome then none else some ⟨e.data, 0o555⟩) := by
  unfold placeFile
  dsimp only
  cases hopen : d.openFile k with
  | some err => simp [Files.remove]
  | none =>
      cases hcopy : d.copy k with
      | some c => simp [Files.remove, Files.write]
      | none => simp [Files.remove, Files.write]

theorem extractFile_files :
    (extractFile d img entrypoint dest fs).2 =
      match placed d img entrypoint with
      | none => fs
      | some x => fs.set dest x := by
  unfold extractFile placed
  rw [extractFileFrom_eq]
  cases hat : entryAt entrypoint 0 img.entries with
  | none =>
      dsimp only
      unfold extractFileFrom
      split
      · rfl
      · rfl
  | some x =>
      obtain ⟨k, e⟩ := x
      dsimp only
      rw [extractFileFrom, if_neg (not_not.mpr (entryAt_name hat))]
      by_cases htype : e.type ≠ .reg
      · rw [if_pos htype, if_pos (.inl htype)]
      · rw [if_neg htype]
        cases hmk : d.mkdirAll with
        | some err => simp
        | none =>
            rw [if_neg (by simpa using htype)]
            dsimp only
            rw [placeFile_files]
            split
            · rfl
            · rfl

/-- The file that an image's entrypoint is. -/
def entrypointFile (img : Rootfs) (entrypoint : String) : Option File :=
  match entryAt entrypoint 0 img.entries with
  | some (_, ⟨_, .reg, _, _, data⟩) => some ⟨data, 0o555⟩
  | _ => none

theorem placeFile_ok {k : Nat} {e : TarEntry} (h : (placeFile d k e dest fs).1 = .ok ()) :
    d.openFile k = none ∧ d.copy k = none := by
  unfold placeFile at h
  dsimp only at h
  split at h
  · cases h
  · split at h
    · cases h
    · exact ⟨‹_›, ‹_›⟩

theorem extractFile_ok (h : (extractFile d img entrypoint dest fs).1 = .ok ()) :
    ∃ f, entrypointFile img entrypoint = some f ∧ placed d img entrypoint = some (some f) := by
  unfold extractFile at h
  rw [extractFileFrom_eq] at h
  unfold entrypointFile placed
  cases hat : entryAt entrypoint 0 img.entries with
  | none =>
      rw [hat] at h
      dsimp only at h
      unfold extractFileFrom at h
      split at h
      · cases h
      · cases h
  | some x =>
      obtain ⟨k, name, type, mode, size, data⟩ := x
      rw [hat] at h
      dsimp only at h
      rw [extractFileFrom, if_neg (not_not.mpr (entryAt_name hat))] at h
      split at h
      · cases h
      · rename_i htype
        obtain rfl : type = .reg := not_not.mp htype
        split at h
        · cases h
        · rename_i hmk
          obtain ⟨hopen, hcopy⟩ := placeFile_ok h
          exact ⟨_, rfl, by simp [hmk, hopen, hcopy]⟩

/-- On a healthy disk the entrypoint is put in place. -/
theorem extractFile_healthy {f : File} (h : entrypointFile img entrypoint = some f) :
    extractFile .healthy img entrypoint dest fs = (.ok (), fs.set dest (some f)) := by
  unfold entrypointFile at h
  unfold extractFile
  rw [extractFileFrom_eq]
  cases hat : entryAt entrypoint 0 img.entries with
  | none =>
      rw [hat] at h
      cases h
  | some x =>
      obtain ⟨k, name, type, mode, size, data⟩ := x
      rw [hat] at h
      cases type with
      | reg =>
          cases h
          dsimp only
          rw [extractFileFrom, if_neg (not_not.mpr (entryAt_name hat)), if_neg (by simp)]
          show (_, (fs.remove dest).write dest 0o555 data) = _
          rw [Files.write, Files.remove, Files.set_set, Files.set_self]
          rfl
      | dir | symlink | link | other _ => cases h

end SingleFile

section Bundles

variable {d : Disk} {img : Rootfs} {broken : Option Err} {entrypoint dir : String} {fs fs' : Files}

theorem joinPath_inj {a b : String} : joinPath dir a = joinPath dir b ↔ a = b :=
  String.append_right_inj _

theorem under_joinPath (rel : String) : Under dir (joinPath dir rel) := under_append dir rel

/-- What the image holds for a file of the bundle: the last entry of that name. -/
def held (entrypoint : String) : List TarEntry → String → Option String
  | [], _ => none
  | e :: es, rel =>
      (held entrypoint es rel).or (if relative entrypoint e = some rel then some e.data else none)

/-- A write to a bundle touches one file of it. -/
theorem writeEntry_frame {k : Nat} {rel : String} {e : TarEntry} {total : Nat} {p : String}
    (hp : p ≠ joinPath dir rel) : (writeEntry d k entrypoint dir rel e total fs).2 p = fs p := by
  unfold writeEntry
  dsimp only
  split
  · rfl
  · split
    · exact Files.write_of_ne hp
    · split
      · exact Files.write_of_ne hp
      · split
        · exact Files.write_of_ne hp
        · exact Files.write_of_ne hp

theorem writeEntry_ok {k : Nat} {rel : String} {e : TarEntry} {total total' : Nat}
    (h : writeEntry d k entrypoint dir rel e total fs = (.ok total', fs')) :
    total' = total + e.data.length ∧ total' ≤ maxBundleBytes ∧
      fs' = fs.write (joinPath dir rel) (bundleMode entrypoint rel) e.data := by
  unfold writeEntry at h
  dsimp only at h
  split at h
  · cases h
  · split at h
    · cases h
    · split at h
      · cases h
      · split at h
        · cases h
        · rename_i hfits
          have hclip := clip_eq_of_fits (not_lt.mp hfits)
          rw [hclip] at h hfits
          cases h
          exact ⟨rfl, not_lt.mp hfits, rfl⟩

theorem scanEntry_frame (d : Disk) (entrypoint : String) (k : Nat) (e : TarEntry) (acc : Scan)
    (fs : Files) {p : String} (hp : ¬ Under dir p) :
    (scanEntry d entrypoint dir k e acc fs).2 p = fs p := by
  unfold scanEntry
  split
  · rfl
  · rename_i rel hrel
    split
    · rfl
    · have hne : p ≠ joinPath dir rel := fun h ↦ hp (h ▸ under_joinPath rel)
      exact andThen_frame (writeEntry_frame hne) fun _ _ h ↦ h

theorem scan_frame (d : Disk) (broken : Option Err) (entrypoint : String) (k : Nat)
    (es : List TarEntry) (acc : Scan) (fs : Files) {p : String} (hp : ¬ Under dir p) :
    (scan d broken entrypoint dir k es acc fs).2 p = fs p := by
  induction es generalizing k acc fs with
  | nil =>
      cases broken with
      | some err => rfl
      | none => rfl
  | cons e es ih =>
      rw [scan]
      exact andThen_frame (scanEntry_frame d entrypoint k e acc fs hp) fun acc₁ fs₁ h ↦
        (ih (k + 1) acc₁ fs₁).trans h

/-- The file that is left where the image holds `x` and `old` was before. -/
def leftBy (entrypoint rel : String) (x : Option String) (old : Option File) : Option File :=
  match x with
  | none => old
  | some data => some ⟨data, (old.map File.mode).getD (bundleMode entrypoint rel)⟩

/-- An entry that goes through is outside of the bundle, or is written to it. -/
theorem scanEntry_ok {k : Nat} {e : TarEntry} {acc acc' : Scan}
    (h : scanEntry d entrypoint dir k e acc fs = (.ok acc', fs')) :
    (relative entrypoint e = none ∧ acc' = acc ∧ fs' = fs) ∨
      ∃ rel, relative entrypoint e = some rel ∧
        entryViolation entrypoint rel e (acc.count + 1) = none ∧
        acc.total + e.data.length ≤ maxBundleBytes ∧
        acc' = ⟨acc.total + e.data.length, acc.count + 1, acc.files ++ [rel]⟩ ∧
        fs' = fs.write (joinPath dir rel) (bundleMode entrypoint rel) e.data := by
  unfold scanEntry at h
  cases hrel : relative entrypoint e with
  | none =>
      rw [hrel] at h
      cases h
      exact .inl ⟨rfl, rfl, rfl⟩
  | some rel =>
      rw [hrel] at h
      dsimp only at h
      cases hfine : entryViolation entrypoint rel e (acc.count + 1) with
      | some err =>
          rw [hfine] at h
          cases h
      | none =>
          rw [hfine] at h
          dsimp only at h
          obtain ⟨total, fs₁, hw, heq⟩ := andThen_eq_ok h
          obtain ⟨rfl, hfits, rfl⟩ := writeEntry_ok hw
          cases heq
          exact .inr ⟨rel, rfl, hfine, hfits, rfl, rfl⟩

theorem scan_nil_ok {k : Nat} {acc acc' : Scan}
    (h : scan d broken entrypoint dir k [] acc fs = (.ok acc', fs')) :
    broken = none ∧ acc' = acc ∧ fs' = fs := by
  cases broken with
  | some err => cases h
  | none =>
      cases h
      exact ⟨rfl, rfl, rfl⟩

/-- A loop that goes through leaves what the image holds, and the rest alone. -/
theorem scan_ok {k : Nat} {es : List TarEntry} {acc acc' : Scan}
    (h : scan d broken entrypoint dir k es acc fs = (.ok acc', fs')) :
    (∀ rel, fs' (joinPath dir rel) =
        leftBy entrypoint rel (held entrypoint es rel) (fs (joinPath dir rel))) ∧
      ∀ p, (∀ rel, p ≠ joinPath dir rel) → fs' p = fs p := by
  induction es generalizing k acc fs with
  | nil =>
      obtain ⟨-, -, rfl⟩ := scan_nil_ok h
      exact ⟨fun _ ↦ rfl, fun _ _ ↦ rfl⟩
  | cons e es ih =>
      rw [scan] at h
      obtain ⟨acc₁, fs₁, hstep, hrest⟩ := andThen_eq_ok h
      obtain ⟨hin, hout⟩ := ih hrest
      rcases scanEntry_ok hstep with ⟨hrel, rfl, rfl⟩ | ⟨rel, hrel, -, -, rfl, rfl⟩
      · refine ⟨fun q ↦ ?_, hout⟩
        rw [hin q, held, hrel, if_neg (by simp), Option.or_none]
      · refine ⟨fun q ↦ ?_, fun p hp ↦ ?_⟩
        · rw [hin q, held, hrel]
          by_cases hq : rel = q
          · -- a later entry of the same name keeps the mode this one has left
            subst hq
            rw [Files.write, Files.set_self]
            cases held entrypoint es rel with
            | none => simp [leftBy]
            | some data => simp [leftBy]
          · have hne : joinPath dir q ≠ joinPath dir rel := fun h ↦ hq (joinPath_inj.mp h).symm
            rw [Files.write, Files.set_of_ne hne, if_neg (by simpa using hq), Option.or_none]
        · rw [hout p hp, Files.write, Files.set_of_ne (hp rel)]

theorem writeEntry_healthy {rel : String} {e : TarEntry} {total : Nat}
    (hfits : total + e.data.length ≤ maxBundleBytes) (k : Nat) (fs : Files) :
    writeEntry .healthy k entrypoint dir rel e total fs =
      (.ok (total + e.data.length),
        fs.write (joinPath dir rel) (bundleMode entrypoint rel) e.data) := by
  have hclip : clip (maxBundleBytes - total + 1) e.data = e.data := clip_of_le (by omega)
  unfold writeEntry
  dsimp only [Disk.healthy]
  rw [hclip, if_neg (not_lt.mpr hfits)]

theorem scanEntry_healthy {k : Nat} {e : TarEntry} {acc acc' : Scan}
    (h : scanEntry d entrypoint dir k e acc fs = (.ok acc', fs')) (dir' : String) (gs : Files) :
    ∃ gs', scanEntry .healthy entrypoint dir' k e acc gs = (.ok acc', gs') := by
  rcases scanEntry_ok h with ⟨hrel, rfl, -⟩ | ⟨rel, hrel, hfine, hfits, rfl, -⟩
  · refine ⟨gs, ?_⟩
    unfold scanEntry
    simp only [hrel]
  · refine ⟨gs.write (joinPath dir' rel) (bundleMode entrypoint rel) e.data, ?_⟩
    unfold scanEntry
    simp only [hrel, hfine, writeEntry_healthy hfits, andThen_ok]

/-- Whether the loop goes through depends on the image only, as long as no operation
fails. -/
theorem scan_healthy {k : Nat} {es : List TarEntry} {acc acc' : Scan}
    (h : scan d broken entrypoint dir k es acc fs = (.ok acc', fs')) (dir' : String) (gs : Files) :
    ∃ gs', scan .healthy broken entrypoint dir' k es acc gs = (.ok acc', gs') := by
  induction es generalizing k acc fs gs with
  | nil =>
      obtain ⟨rfl, rfl, -⟩ := scan_nil_ok h
      exact ⟨gs, rfl⟩
  | cons e es ih =>
      rw [scan] at h
      obtain ⟨acc₁, fs₁, hstep, hrest⟩ := andThen_eq_ok h
      obtain ⟨gs₁, hstep'⟩ := scanEntry_healthy hstep dir' gs
      obtain ⟨gs', hrest'⟩ := ih hrest gs₁
      refine ⟨gs', ?_⟩
      rw [scan, hstep', andThen_ok, hrest']

theorem writeBundle_ok (h : writeBundle d img entrypoint dir fs = (.ok (), fs')) :
    ∃ acc, scan d img.broken entrypoint dir 0 img.entries ⟨0, 0, []⟩ fs = (.ok acc, fs') ∧
      bundleViolation entrypoint acc.files = none := by
  obtain ⟨acc, fs₁, hscan, heq⟩ := andThen_eq_ok h
  split at heq
  · cases heq
  · rename_i hset
    cases heq
    exact ⟨acc, hscan, hset⟩

theorem writeBundle_frame {p : String} (hp : ¬ Under dir p) :
    (writeBundle d img entrypoint dir fs).2 p = fs p := by
  refine andThen_frame (scan_frame d img.broken entrypoint 0 img.entries ⟨0, 0, []⟩ fs hp) ?_
  intro acc fs₁ h
  split
  · exact h
  · exact h

/-- A bundle that is removed takes all of its directory with it, and nothing else. -/
theorem removeAll_writeBundle {r : Except Err Unit}
    (h : writeBundle d img entrypoint dir fs = (r, fs')) : fs'.removeAll dir = fs.removeAll dir := by
  obtain rfl : (writeBundle d img entrypoint dir fs).2 = fs' := congrArg Prod.snd h
  funext p
  by_cases hp : Under dir p
  · rw [Files.removeAll_of_under hp, Files.removeAll_of_under hp]
  · by_cases hdir : p = dir
    · rw [hdir, Files.removeAll_self, Files.removeAll_self]
    · rw [Files.removeAll_of_not_under hdir hp, Files.removeAll_of_not_under hdir hp,
        writeBundle_frame hp]

/-- A bundle's extraction that fails once its directory is made removes the directory. -/
theorem extractBundle_error {err : Err} (hmk : d.mkdirAll = none)
    (h : extractBundle d img entrypoint dir fs = (.error err, fs')) : fs' = fs.removeAll dir := by
  unfold extractBundle at h
  rw [hmk] at h
  dsimp only at h
  cases hw : writeBundle d img entrypoint dir fs with
  | mk r fs₁ =>
      rw [hw] at h
      cases r with
      | ok _ => cases h
      | error e =>
          cases h
          exact removeAll_writeBundle hw

theorem extractBundle_ok (h : extractBundle d img entrypoint dir fs = (.ok (), fs')) :
    d.mkdirAll = none ∧ writeBundle d img entrypoint dir fs = (.ok (), fs') := by
  unfold extractBundle at h
  cases hmk : d.mkdirAll with
  | some err =>
      rw [hmk] at h
      cases h
  | none =>
      rw [hmk] at h
      dsimp only at h
      cases hw : writeBundle d img entrypoint dir fs with
      | mk r fs₁ =>
          rw [hw] at h
          cases r with
          | error err => cases h
          | ok _ =>
              cases h
              exact ⟨rfl, rfl⟩

/-- The files of a bundle. -/
def bundleNames (entrypoint : String) : List String :=
  [baseName entrypoint, manifestSidecar, toolspecSidecar]

/-- The loop lists the files that it has written. -/
theorem mem_scan_files {k : Nat} {es : List TarEntry} {acc acc' : Scan}
    (h : scan d broken entrypoint dir k es acc fs = (.ok acc', fs')) (rel : String) :
    rel ∈ acc'.files ↔ rel ∈ acc.files ∨ (held entrypoint es rel).isSome := by
  induction es generalizing k acc fs with
  | nil =>
      obtain ⟨-, rfl, -⟩ := scan_nil_ok h
      simp [held]
  | cons e es ih =>
      rw [scan] at h
      obtain ⟨acc₁, fs₁, hstep, hrest⟩ := andThen_eq_ok h
      rw [ih hrest, held, Option.isSome_or, Bool.or_eq_true]
      rcases scanEntry_ok hstep with ⟨hrel, rfl, -⟩ | ⟨q, hrel, -, -, rfl, -⟩
      · simp [hrel]
      · rw [List.mem_append, List.mem_singleton, hrel]
        by_cases hq : rel = q
        · simp [hq]
        · simp [hq, Ne.symm hq]

theorem mem_of_bundleViolation {files : List String}
    (h : bundleViolation entrypoint files = none) (rel : String) :
    rel ∈ files ↔ rel ∈ bundleNames entrypoint := by
  unfold bundleViolation at h
  dsimp only at h
  split at h
  · cases h
  · rename_i hentry
    split at h
    · cases h
    · rename_i hneed
      split at h
      · cases h
      · rename_i hextra
        have hall := List.find?_eq_none.mp hneed
        have hno := List.find?_eq_none.mp hextra
        unfold bundleNames
        constructor
        · intro hrel
          have := hno rel hrel
          simp only [decide_eq_true_eq, not_and_or, not_not] at this
          simpa using this
        · intro hrel
          rcases List.mem_cons.mp hrel with rfl | hrel
          · exact not_not.mp hentry
          · simpa using hall rel hrel

/-- A bundle that was extracted holds the entrypoint and the sidecars. -/
theorem held_isSome_iff (h : extractBundle d img entrypoint dir fs = (.ok (), fs')) (rel : String) :
    (held entrypoint img.entries rel).isSome ↔ rel ∈ bundleNames entrypoint := by
  obtain ⟨acc, hscan, hset⟩ := writeBundle_ok (extractBundle_ok h).2
  rw [← mem_of_bundleViolation hset, mem_scan_files hscan]
  simp

theorem extractBundle_files (h : extractBundle d img entrypoint dir fs = (.ok (), fs'))
    (rel : String) :
    fs' (joinPath dir rel) =
      leftBy entrypoint rel (held entrypoint img.entries rel) (fs (joinPath dir rel)) := by
  obtain ⟨acc, hscan, -⟩ := writeBundle_ok (extractBundle_ok h).2
  exact (scan_ok hscan).1 rel

/-- What was extracted once is extracted anywhere, as long as no operation fails. -/
theorem extractBundle_healthy (h : extractBundle d img entrypoint dir fs = (.ok (), fs'))
    (dir' : String) (gs : Files) :
    ∃ gs', extractBundle .healthy img entrypoint dir' gs = (.ok (), gs') := by
  obtain ⟨acc, hscan, hset⟩ := writeBundle_ok (extractBundle_ok h).2
  obtain ⟨gs', hscan'⟩ := scan_healthy hscan dir' gs
  refine ⟨gs', ?_⟩
  have hwrite : writeBundle .healthy img entrypoint dir' gs = (.ok (), gs') := by
    rw [writeBundle, hscan', andThen_ok, hset]
  have hmk : Disk.healthy.mkdirAll = none := rfl
  simp only [extractBundle, hmk, hwrite]

end Bundles

/-! ## Errors

An extraction fails with an error of its own, or of the file system or the stream. -/

section Errors

variable {d : Disk} {img : Rootfs} {entrypoint : String} {fs : Files}

theorem placeFile_foreign (hd : d.Foreign) {k : Nat} {e : TarEntry} {dest : String} :
    System.Foreign (placeFile d k e dest fs).1 := by
  unfold placeFile
  dsimp only
  split
  · rename_i err hopen
    rintro _ ⟨⟩
    exact hd.openFile k err hopen
  · split
    · rename_i n err hcopy
      rintro _ ⟨⟩
      exact hd.copy k (n, err) hcopy
    · dsimp only
      split
      · rename_i err hclose
        rintro _ ⟨⟩
        exact hd.close k err hclose
      · rintro _ ⟨⟩

theorem extractFile_foreign (hd : d.Foreign) (himg : img.Foreign) {dest : String} :
    System.Foreign (extractFile d img entrypoint dest fs).1 := by
  have hloop (k : Nat) (es : List TarEntry) :
      System.Foreign (extractFileFrom d img.broken entrypoint dest k es fs).1 := by
    induction es generalizing k with
    | nil =>
        unfold extractFileFrom
        split
        · rename_i err hbroken
          rintro _ ⟨⟩
          exact himg err hbroken
        · rintro _ ⟨⟩
          trivial
    | cons e es ih =>
        unfold extractFileFrom
        split
        · exact ih (k + 1)
        · split
          · rintro _ ⟨⟩
            trivial
          · split
            · rename_i err hmk
              rintro _ ⟨⟩
              exact hd.mkdirAll err hmk
            · exact placeFile_foreign hd
  exact hloop 0 img.entries

theorem andThen_foreign {α β : Type} {x : Except Err α × Files}
    {f : α → Files → Except Err β × Files} (hx : System.Foreign x.1)
    (hf : ∀ a fs, System.Foreign (f a fs).1) : System.Foreign (andThen x f).1 := by
  obtain ⟨r, fs⟩ := x
  cases r with
  | error e =>
      rintro _ ⟨⟩
      exact hx e rfl
  | ok a => exact hf a fs

theorem foreign_bundleContract (text : String) : (bundleContract text).Foreign := trivial

theorem typeViolation_foreign {name bundleDir : String} {type : TarType} {err : Err}
    (h : typeViolation name bundleDir type = some err) : err.Foreign := by
  cases type with
  | reg => cases h
  | dir | symlink | link | other _ =>
      cases h
      exact foreign_bundleContract _

theorem entryViolation_foreign {rel : String} {e : TarEntry} {count : Nat} {err : Err}
    (h : entryViolation entrypoint rel e count = some err) : err.Foreign := by
  unfold entryViolation at h
  dsimp only at h
  split at h
  · cases h
    exact foreign_bundleContract _
  · split at h
    · rename_i htype
      cases h
      exact typeViolation_foreign htype
    · split at h
      · cases h
        exact foreign_bundleContract _
      · split at h
        · cases h
          exact foreign_bundleContract _
        · split at h
          · cases h
            exact foreign_bundleContract _
          · cases h

theorem writeEntry_foreign (hd : d.Foreign) {k : Nat} {dir rel : String} {e : TarEntry}
    {total : Nat} : System.Foreign (writeEntry d k entrypoint dir rel e total fs).1 := by
  unfold writeEntry
  dsimp only
  split
  · rename_i err hopen
    rintro _ ⟨⟩
    exact hd.openFile k err hopen
  · split
    · rename_i n err hcopy
      rintro _ ⟨⟩
      exact hd.copy k (n, err) hcopy
    · split
      · rename_i err hclose
        rintro _ ⟨⟩
        exact hd.close k err hclose
      · split
        · rintro _ ⟨⟩
          exact foreign_bundleContract _
        · rintro _ ⟨⟩

theorem scanEntry_foreign (hd : d.Foreign) {k : Nat} {dir : String} {e : TarEntry} {acc : Scan} :
    System.Foreign (scanEntry d entrypoint dir k e acc fs).1 := by
  unfold scanEntry
  split
  · rintro _ ⟨⟩
  · split
    · rename_i err hviolation
      rintro _ ⟨⟩
      exact entryViolation_foreign hviolation
    · refine andThen_foreign (writeEntry_foreign hd) fun _ _ ↦ ?_
      rintro _ ⟨⟩

theorem scan_foreign (hd : d.Foreign) (himg : img.Foreign) {k : Nat} {dir : String}
    {es : List TarEntry} {acc : Scan} :
    System.Foreign (scan d img.broken entrypoint dir k es acc fs).1 := by
  induction es generalizing k acc fs with
  | nil =>
      unfold scan
      split
      · rename_i err hbroken
        rintro _ ⟨⟩
        exact himg err hbroken
      · rintro _ ⟨⟩
  | cons e es ih =>
      rw [scan]
      exact andThen_foreign (scanEntry_foreign hd) fun _ _ ↦ ih

theorem bundleViolation_foreign {files : List String} {err : Err}
    (h : bundleViolation entrypoint files = some err) : err.Foreign := by
  unfold bundleViolation at h
  dsimp only at h
  split at h
  · cases h
    exact foreign_bundleContract _
  · split at h
    · cases h
      exact foreign_bundleContract _
    · split at h
      · cases h
        exact foreign_bundleContract _
      · cases h

theorem extractBundle_foreign (hd : d.Foreign) (himg : img.Foreign) {dir : String} :
    System.Foreign (extractBundle d img entrypoint dir fs).1 := by
  have hwrite : System.Foreign (writeBundle d img entrypoint dir fs).1 := by
    refine andThen_foreign (scan_foreign hd himg) fun acc _ ↦ ?_
    split
    · rename_i err hviolation
      rintro _ ⟨⟩
      exact bundleViolation_foreign hviolation
    · rintro _ ⟨⟩
  unfold extractBundle
  split
  · rename_i err hmk
    rintro _ ⟨⟩
    exact hd.mkdirAll err hmk
  · cases hw : writeBundle d img entrypoint dir fs with
    | mk r fs₁ =>
        rw [hw] at hwrite
        cases r with
        | error err =>
            rintro _ ⟨⟩
            exact hwrite err rfl
        | ok _ => rintro _ ⟨⟩

end Errors

end GigMcp.Oci
