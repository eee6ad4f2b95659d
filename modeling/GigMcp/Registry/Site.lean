import GigMcp.Oci.Extract
import GigMcp.Registry.Frame

/-!
# Installs on a disk

The world of the earlier modules has no files: a pull may answer anything there and leaves
nothing behind.  A `Site` adds the files, and a `Weather` fixes what the outside does to one
install: the index, the images, the random strings, and which calls fail.  A store call that
fails may have taken effect.

Under a weather an install has one outcome.  The sections below work it out in closed form,
one equation for each part of the install, and `Weather.answer_sem` says that the answers
are among those of the earlier reading.
-/

namespace GigMcp.Registry

open GigMcp.Effect GigMcp.System GigMcp.Store GigMcp.Data GigMcp.Oci

/-- The world with its files.  `drawn` counts the random strings that were drawn. -/
structure Site where
  world : World
  files : Files
  drawn : Nat

def Site.withDb (s : Site) (db : Database) : Site := { s with world := { s.world with db := db } }

@[simp] theorem Site.withDb_files (s : Site) (db : Database) : (s.withDb db).files = s.files := rfl

@[simp] theorem Site.withDb_drawn (s : Site) (db : Database) : (s.withDb db).drawn = s.drawn := rfl

/-! ## The rows of a server -/

/-- The files a server row points to: the binary, or all of a bundle's directory. -/
def Artifact (row : Server) (path : String) : Prop :=
  if row.bundleDir = "" then path = row.binary else Under row.bundleDir path

instance (row : Server) (path : String) : Decidable (Artifact row path) :=
  inferInstanceAs (Decidable (if row.bundleDir = "" then _ else _))

/-- The rows of a server. -/
structure Holds (name : String) (row : Server) (rec : ManifestRecord) (s : Site) : Prop where
  server : s.world.db.serverByName name = some row
  manifest : s.world.db.manifests.get? name = some rec

section Rows

variable {m : Manifest} {hash name : String} {row : Server} {rec : ManifestRecord} {s : Site}

/-- The record that `PutManifest` leaves over another. -/
def toStored (m : Manifest) (hash : String) (rec : ManifestRecord) (injections : List Injection) :
    ManifestRecord :=
  { toRecord m injections hash with
    allowedHosts := throughColumn m.egress
    consentedHash := rec.consentedHash }

/-- The row with another artifact. -/
def moved (row : Server) (binary bundleDir : String) : Server :=
  { row with binary := binary, bundleDir := bundleDir }

theorem moved_eq_iff {binary bundleDir : String} :
    moved row binary bundleDir = row ↔ row.binary = binary ∧ row.bundleDir = bundleDir := by
  cases row with
  | mk id name b d =>
      simp only [moved, Server.mk.injEq, true_and]
      exact and_congr eq_comm eq_comm

theorem Holds.ensure (h : Holds name row rec s) (binary bundleDir : String) :
    ((Sql.ensureServer name binary bundleDir).apply s.world.db).1 =
        .ok (moved row binary bundleDir) ∧
      Holds name (moved row binary bundleDir) rec
        (s.withDb ((Sql.ensureServer name binary bundleDir).apply s.world.db).2) := by
  have hok : ((Sql.ensureServer name binary bundleDir).apply s.world.db).1 =
      .ok (moved row binary bundleDir) := by
    show (s.world.db.ensureServer name binary bundleDir).1 = _
    rw [Database.ensureServer, h.server]
    rfl
  have hmanifests : ((Sql.ensureServer name binary bundleDir).apply s.world.db).2.manifests =
      s.world.db.manifests := by
    show (s.world.db.ensureServer name binary bundleDir).2.manifests = _
    rw [Database.ensureServer, h.server]
  refine ⟨hok, (Sql.serverByName_ensureServer hok).1, ?_⟩
  exact (congrArg (·.get? name) hmanifests).trans h.manifest

theorem Holds.put (h : Holds m.name row rec s) (hash : String) (injections : List Injection) :
    Holds m.name row (toStored m hash rec injections)
      (s.withDb ((Sql.putManifest (toRecord m injections hash)).apply s.world.db).2) := by
  refine ⟨h.server, ?_⟩
  show ((Sql.putManifest (toRecord m injections hash)).apply s.world.db).2.manifests.get? m.name = _
  rw [Sql.get?_putManifest, h.manifest]
  exact if_pos rfl

/-- The record with another consent. -/
def consented (rec : ManifestRecord) (hash : String) : ManifestRecord :=
  { rec with consentedHash := hash }

theorem Holds.consent (h : Holds name row rec s) (hash : String) :
    ((Sql.recordConsent name hash).apply s.world.db).1 = .ok () ∧
      Holds name row (consented rec hash)
        (s.withDb ((Sql.recordConsent name hash).apply s.world.db).2) := by
  refine ⟨?_, h.server, ?_⟩
  · show (if (s.world.db.manifests.get? name).isSome then _ else _) = _
    rw [h.manifest]
    rfl
  · show ((Sql.recordConsent name hash).apply s.world.db).2.manifests.get? name = _
    rw [Sql.get?_recordConsent, if_pos rfl, h.manifest]
    rfl

/-- `PutManifest` keeps the consent, so writing the consent does not undo it. -/
theorem consented_stored_eq_iff {injections : List Injection} :
    consented (toStored m hash rec injections) hash = rec ↔
      toStored m hash rec injections = rec ∧ rec.consentedHash = hash := by
  constructor
  · intro h
    have hconsent : rec.consentedHash = hash := (congrArg ManifestRecord.consentedHash h).symm
    refine ⟨?_, hconsent⟩
    rw [← h, consented, toStored, ← hconsent]
    rw [consented, toStored] at h
    rw [← hconsent] at h
    exact h ▸ rfl
  · rintro ⟨h, hconsent⟩
    rw [h, consented, ← hconsent]

end Rows

/-- What the outside does to an install. -/
structure Weather where
  /-- The answer of the index fetch. -/
  fetched : Except Err Index
  /-- The pull of an image. -/
  image : Image → Except Err Rootfs
  /-- The file operations of an extraction that fail. -/
  disk : Disk
  /-- Reading a file fails. -/
  unreadable : Option Err
  /-- The random strings, in the order they are drawn in. -/
  random : Nat → Except Err String
  /-- The statements that fail, and whether they take effect all the same. -/
  store : Sql → Option (Err × Bool)
  /-- No error of the outside is one of the store's sentinels. -/
  fetched_foreign : Foreign fetched
  image_foreign : ∀ image', Foreign (image image')
  pulled_foreign : ∀ image' img, image image' = .ok img → img.Foreign
  disk_foreign : disk.Foreign
  unreadable_foreign : ∀ e ∈ unreadable, e.Foreign
  random_foreign : ∀ n, Foreign (random n)
  store_foreign : ∀ c e took, store c = some (e, took) → e.Foreign

namespace Weather

variable (wt : Weather)

/-- A statement under a weather. -/
def statement (c : Sql) (s : Site) : Except Err c.Ans × Site :=
  match wt.store c with
  | none => ((c.apply s.world.db).1, s.withDb (c.apply s.world.db).2)
  | some (e, took) => (.error e, if took then s.withDb (c.apply s.world.db).2 else s)

def extract (image : Image) (dest : String) (fs : Files) : Except Err Unit × Files :=
  match wt.image image with
  | .error e => (.error e, fs)
  | .ok img => extractFile wt.disk img image.entrypoint dest fs

def extractBundle (image : Image) (dir : String) (fs : Files) : Except Err Unit × Files :=
  match wt.image image with
  | .error e => (.error e, fs)
  | .ok img => Oci.extractBundle wt.disk img image.entrypoint dir fs

def readFile (path : String) (fs : Files) : Except Err String :=
  match wt.unreadable with
  | some e => .error e
  | none =>
      match fs path with
      | some f => .ok f.data
      | none => .error (.new ("open " ++ path ++ ": no such file or directory"))

/-- The answers to the calls of an install. -/
def answer : (e : Call) → Site → Option (e.Res × Site)
  | .sql c, s => some (wt.statement c s)
  | .fetchIndex, s => some (wt.fetched, s)
  | .random, s => some (wt.random s.drawn, { s with drawn := s.drawn + 1 })
  | .stat path, s => some ((s.files path).isSome, s)
  | .extract image dest, s =>
      some ((wt.extract image dest s.files).1, { s with files := (wt.extract image dest s.files).2 })
  | .extractBundle image dir, s =>
      some ((wt.extractBundle image dir s.files).1,
        { s with files := (wt.extractBundle image dir s.files).2 })
  | .readFile path, s => some (wt.readFile path s.files, s)
  | .removeAll path, s => some (.ok (), { s with files := s.files.removeAll path })
  | _, _ => none

variable {wt}

theorem statement_of_none {c : Sql} (h : wt.store c = none) (s : Site) :
    wt.statement c s = ((c.apply s.world.db).1, s.withDb (c.apply s.world.db).2) := by
  rw [statement, h]

theorem statement_of_some {c : Sql} {e : Err} {took : Bool} (h : wt.store c = some (e, took))
    (s : Site) :
    wt.statement c s = (.error e, if took then s.withDb (c.apply s.world.db).2 else s) := by
  rw [statement, h]

theorem extract_foreign (image : Image) (dest : String) (fs : Files) :
    Foreign (wt.extract image dest fs).1 := by
  unfold extract
  cases himage : wt.image image with
  | error e =>
      rintro _ ⟨⟩
      exact wt.image_foreign image e himage
  | ok img =>
      have himg : img.Foreign := wt.pulled_foreign image img himage
      exact extractFile_foreign wt.disk_foreign himg

theorem extractBundle_foreign (image : Image) (dir : String) (fs : Files) :
    Foreign (wt.extractBundle image dir fs).1 := by
  unfold extractBundle
  cases himage : wt.image image with
  | error e =>
      rintro _ ⟨⟩
      exact wt.image_foreign image e himage
  | ok img =>
      have himg : img.Foreign := wt.pulled_foreign image img himage
      exact Oci.extractBundle_foreign wt.disk_foreign himg

theorem readFile_foreign (path : String) (fs : Files) : Foreign (wt.readFile path fs) := by
  unfold readFile
  cases hun : wt.unreadable with
  | some e =>
      rintro _ ⟨⟩
      exact wt.unreadable_foreign e hun
  | none =>
      cases fs path with
      | some f => rintro _ ⟨⟩
      | none =>
          rintro _ ⟨⟩
          trivial

/-- The answers of a weather are among those of the world without files, where every
statement may fail. -/
theorem answer_sem {O : Outside} {e : Call} {s s' : Site} {r : e.Res}
    (h : wt.answer e s = some (r, s')) : sem O (fun _ ↦ True) e s.world r s'.world := by
  cases e with
  | sql c =>
      obtain ⟨rfl, rfl⟩ := Prod.mk.inj (Option.some.inj h)
      cases hstore : wt.store c with
      | none => exact .inl ⟨rfl, rfl⟩
      | some x =>
          obtain ⟨e, took⟩ := x
          refine .inr ⟨trivial, ⟨e, rfl, wt.store_foreign c e took hstore⟩, ?_⟩
          cases took with
          | false => exact .inl rfl
          | true => exact .inr rfl
  | fetchIndex =>
      cases h
      exact ⟨rfl, wt.fetched_foreign⟩
  | random =>
      cases h
      exact ⟨rfl, wt.random_foreign _⟩
  | stat path =>
      cases h
      rfl
  | extract image dest =>
      cases h
      exact ⟨rfl, extract_foreign image dest s.files⟩
  | extractBundle image dir =>
      cases h
      exact ⟨rfl, extractBundle_foreign image dir s.files⟩
  | readFile path =>
      cases h
      exact ⟨rfl, readFile_foreign path s.files⟩
  | removeAll path =>
      cases h
      refine ⟨rfl, ?_⟩
      rintro _ ⟨⟩
  | _ => cases h

variable (wt)

/-! ## The parts of an install -/

/-- The placeholder of a credential after `n` draws, and the number of draws then. -/
def placeholder (prior : Option ManifestRecord) (credID : String) (n : Nat) :
    Except Err String × Nat :=
  match priorPlaceholder prior credID with
  | some p => (.ok p, n)
  | none => ((wt.random n).map ("gigph-" ++ ·), n + 1)

/-- The injection records of a manifest's credentials, the same way. -/
def draw (prior : Option ManifestRecord) :
    List Credential → Nat → Except Err (List Injection) × Nat
  | [], n => (.ok [], n)
  | c :: cs, n =>
      match wt.placeholder prior c.id n with
      | (.error e, n) => (.error e, n)
      | (.ok p, n) => ((draw prior cs n).1.map (toInjection c p :: ·), (draw prior cs n).2)

theorem run_placeholderFor (prior : Option ManifestRecord) (credID : String) (s : Site) :
    run wt.answer (placeholderFor prior credID) s =
      some ((wt.placeholder prior credID s.drawn).1,
        { s with drawn := (wt.placeholder prior credID s.drawn).2 }) := by
  unfold placeholderFor placeholder
  cases priorPlaceholder prior credID with
  | some p => rfl
  | none =>
      dsimp only
      rw [newPlaceholder, run_bind, run_call]
      dsimp only [answer, Option.bind_some]
      cases wt.random s.drawn with
      | error e => rfl
      | ok r => rfl

theorem run_buildInjections (prior : Option ManifestRecord) (cs : List Credential) (s : Site) :
    run wt.answer (buildInjections prior cs) s =
      some ((wt.draw prior cs s.drawn).1, { s with drawn := (wt.draw prior cs s.drawn).2 }) := by
  induction cs generalizing s with
  | nil => rfl
  | cons c cs ih =>
      rw [buildInjections, run_bind, run_placeholderFor, Option.bind_some, draw]
      obtain ⟨r, n⟩ := wt.placeholder prior c.id s.drawn
      cases r with
      | error e => rfl
      | ok p =>
          dsimp only
          rw [run_bind, ih]
          dsimp only [Option.bind_some]
          cases (wt.draw prior cs n).1 with
          | error e => rfl
          | ok is => rfl

theorem run_sql (c : Sql) (s : Site) : run wt.answer (sql c) s = some (wt.statement c s) := run_call

/-- The server row of a manifest: the binary, and the directory of a bundle. -/
def rowBinary (i : IndexInstaller) (m : Manifest) : String :=
  if m.image.builder = builderToolpack then m.image.entrypoint
  else joinPath (stageDir i.dataDir m) "server"

def rowBundleDir (i : IndexInstaller) (m : Manifest) : String :=
  if m.image.builder = builderToolpack then stageDir i.dataDir m else ""

theorem ensureRow_eq (i : IndexInstaller) (m : Manifest) :
    i.ensureRow m = sql (.ensureServer m.name (rowBinary i m) (rowBundleDir i m)) := by
  by_cases h : m.image.builder = builderToolpack
  · rw [IndexInstaller.ensureRow, rowBinary, rowBundleDir, if_pos h, if_pos h, if_pos h]
  · rw [IndexInstaller.ensureRow, rowBinary, rowBundleDir, if_neg h, if_neg h, if_neg h]

/-- The same install is there already: the record has the version and the hash, and the
artifact is on disk. -/
def Already (i : IndexInstaller) (m : Manifest) (hash : String) (rec : ManifestRecord) (s : Site) :
    Prop :=
  rec.version = m.version ∧ rec.manifestHash = hash ∧
    (s.files (joinPath (stageDir i.dataDir m) "server")).isSome

instance (i : IndexInstaller) (m : Manifest) (hash : String) (rec : ManifestRecord) (s : Site) :
    Decidable (Already i m hash rec s) :=
  inferInstanceAs (Decidable (_ ∧ _ ∧ _))

theorem run_alreadyInstalled (i : IndexInstaller) (m : Manifest) (hash : String)
    (prior : Option ManifestRecord) (s : Site) :
    run wt.answer (i.alreadyInstalled m hash prior) s =
      some (prior.any fun rec ↦ Already i m hash rec s, s) := by
  unfold IndexInstaller.alreadyInstalled
  cases prior with
  | none => rfl
  | some rec =>
      rw [Option.any_some, Option.any_some]
      by_cases hsame : rec.version = m.version ∧ rec.manifestHash = hash
      · rw [if_pos (by simpa using hsame), run_call]
        show some ((s.files _).isSome, s) = _
        simp [Already, hsame.1, hsame.2]
      · rw [if_neg (by simpa using hsame)]
        have hno : ¬ Already i m hash rec s := fun h ↦ hsame ⟨h.1, h.2.1⟩
        rw [decide_eq_false hno]
        rfl

/-- A bundled manifest has the runtime contract of the index's. -/
def sameContract (i : IndexInstaller) (m : Manifest) (raw : String) : Bool :=
  match i.schema.parse raw with
  | .error _ => false
  | .ok bm =>
      match i.schema.validate bm, i.schema.runtimeHash m, i.schema.runtimeHash bm with
      | .ok _, .ok want, .ok got => got = want
      | _, _, _ => false

/-- The bundle that lies in a directory passes the cross-check. -/
def checks (i : IndexInstaller) (m : Manifest) (fs : Files) : Bool :=
  match wt.readFile (joinPath (stageDir i.dataDir m) "manifest.yaml") fs with
  | .error _ => false
  | .ok raw => sameContract i m raw

/-- The cross-check of a bundle only reads. -/
theorem run_crossCheck (i : IndexInstaller) (m : Manifest) (s : Site) :
    ∃ r, run wt.answer (i.crossCheckBundledManifest (stageDir i.dataDir m) m) s = some (r, s) ∧
      (r = .ok () ↔ wt.checks i m s.files = true) := by
  unfold IndexInstaller.crossCheckBundledManifest checks
  rw [run_bind, run_call]
  dsimp only [answer, Option.bind_some]
  cases wt.readFile (joinPath (stageDir i.dataDir m) "manifest.yaml") s.files with
  | error e => exact ⟨_, rfl, by simp⟩
  | ok raw =>
      dsimp only
      unfold sameContract
      cases i.schema.parse raw with
      | error e => exact ⟨_, rfl, by simp⟩
      | ok bm =>
          dsimp only
          cases i.schema.validate bm with
          | error e => exact ⟨_, rfl, by simp⟩
          | ok _ =>
              cases i.schema.runtimeHash m with
              | error e => exact ⟨_, rfl, by simp⟩
              | ok want =>
                  cases i.schema.runtimeHash bm with
                  | error e => exact ⟨_, rfl, by simp⟩
                  | ok got =>
                      dsimp only
                      by_cases hne : got ≠ want
                      · rw [if_pos hne]
                        exact ⟨_, rfl, by simpa using hne⟩
                      · rw [if_neg hne]
                        exact ⟨_, rfl, by simpa using hne⟩

/-- What a pull comes to: the extraction of the file, or that of the bundle, which is
removed again when it does not pass the check. -/
theorem run_pull {i : IndexInstaller} {m : Manifest} {s s' : Site} {r : Except Err Unit}
    (hrun : run wt.answer (i.pull m) s = some (r, s')) :
    (m.image.builder ≠ builderToolpack ∧
        wt.extract m.image (joinPath (stageDir i.dataDir m) "server") s.files = (r, s'.files) ∧
        s' = { s with files := s'.files }) ∨
      (m.image.builder = builderToolpack ∧
        wt.extractBundle m.image (stageDir i.dataDir m) s.files = (r, s'.files) ∧
        (r = .ok () → wt.checks i m s'.files = true) ∧ s' = { s with files := s'.files }) ∨
      (m.image.builder = builderToolpack ∧ (∃ e, r = .error e) ∧
        ∃ fs, wt.extractBundle m.image (stageDir i.dataDir m) s.files = (.ok (), fs) ∧
          wt.checks i m fs = false ∧
          s' = { s with files := fs.removeAll (stageDir i.dataDir m) }) := by
  unfold IndexInstaller.pull at hrun
  dsimp only at hrun
  split at hrun
  · rename_i hbundle
    rw [run_bind, run_call] at hrun
    dsimp only [answer, Option.bind_some] at hrun
    cases hx : wt.extractBundle m.image (stageDir i.dataDir m) s.files with
    | mk r₁ fs =>
        rw [hx] at hrun
        cases r₁ with
        | error e =>
            cases hrun
            exact .inr (.inl ⟨hbundle, rfl, fun h ↦ (nomatch h), rfl⟩)
        | ok _ =>
            dsimp only at hrun
            obtain ⟨checked, hcheck, hok⟩ := wt.run_crossCheck i m { s with files := fs }
            rw [run_bind, hcheck, Option.bind_some] at hrun
            cases checked with
            | error e =>
                cases hrun
                have hno : wt.checks i m fs = false := by simpa using hok
                exact .inr (.inr ⟨hbundle, ⟨e, rfl⟩, fs, rfl, hno, rfl⟩)
            | ok _ =>
                cases hrun
                exact .inr (.inl ⟨hbundle, rfl, fun _ ↦ hok.mp rfl, rfl⟩)
  · rename_i hsingle
    rw [run_call] at hrun
    cases hrun
    exact .inl ⟨hsingle, rfl, rfl⟩

end Weather

/-! ## A toolpack server

One version of one server, on a machine where only the pull may fail. -/

namespace Toolpack

/-- The manifest of the only version, with a runtime contract. -/
def manifest (digest contract : String) : Manifest :=
  ⟨"github", "1", "", "", "", "", ⟨"", digest, "/app/server", builderToolpack⟩, [], [], [], contract⟩

def index (m : Manifest) : Index := ⟨[⟨"github", "1", [("github@1", m)]⟩]⟩

/-- The contract is the hash, and all that a bundled manifest holds. -/
def schema : Schema where
  resolve ix ref :=
    match (ix.servers.flatMap IndexServer.versions).lookup ref with
    | some m => .ok m
    | none => .error (.new "registry: unknown reference")
  validate _ := .ok ()
  runtimeHash m := .ok m.rest
  parse raw := .ok (manifest "" raw)

/-- The installer of the API. -/
def installer : IndexInstaller := ⟨schema, "/data", false⟩

def file (name data : String) (mode : Nat) : TarEntry := ⟨name, .reg, mode, data.length, data⟩

/-- An image with a baked manifest. -/
def bundle (server contract : String) : Rootfs where
  entries := [file "app/server" server 0o755, file "app/manifest.yaml" contract 0o644,
    file "app/toolspec.yaml" "tools" 0o644]
  broken := none

theorem bundle_foreign (server contract : String) : (bundle server contract).Foreign :=
  fun _ h ↦ nomatch h

/-- A pull, and nothing else that goes wrong. -/
def fair (m : Manifest) (image : Image → Except Err Rootfs) (himage : ∀ im, Foreign (image im))
    (hpulled : ∀ im img, image im = .ok img → img.Foreign) : Weather where
  fetched := .ok (index m)
  image := image
  disk := .healthy
  unreadable := none
  random _ := .ok "random"
  store _ := none
  fetched_foreign := fun _ h ↦ nomatch h
  image_foreign := himage
  pulled_foreign := hpulled
  disk_foreign := Disk.healthy_foreign
  unreadable_foreign := fun _ h ↦ nomatch h
  random_foreign _ := fun _ h ↦ nomatch h
  store_foreign := fun _ _ _ h ↦ nomatch h

/-- The images of a library are served. -/
def serves (m : Manifest) (library : String → { img : Rootfs // img.Foreign }) : Weather :=
  fair m (fun im ↦ .ok (library im.digest).1) (fun _ _ h ↦ nomatch h)
    fun im _ h ↦ Except.ok.inj h ▸ (library im.digest).2

/-- The registry of images does not answer. -/
def unreachable (m : Manifest) : Weather :=
  fair m (fun _ ↦ .error (.new "oci: get: timeout")) (by rintro _ _ ⟨⟩; trivial)
    fun _ _ h ↦ nomatch h

/-- What an install of the reference leaves, whether it fails or not. -/
def after (wt : Weather) (s : Site) : Site :=
  match run wt.answer (installer.install "github@1") s with
  | some (_, s') => s'
  | none => s

def start : Site := ⟨.boot .fresh 0, .empty, 0⟩

def row : Server := ⟨1, "github", "/app/server", "/data/servers/github@1"⟩

end Toolpack

end GigMcp.Registry
