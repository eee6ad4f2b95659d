import GigMcp.Registry.Site

/-!
# What is recorded is what runs

The manifest row of a server names the digest of an image, and the server row points to the
files that are run.  `Genuine` says that the two belong together: the files are those that
an extraction of the recorded image leaves in an empty place.

An install that pulls makes the two agree, as long as nothing else lies in the directory of
a bundle.  An install that finds its version and its runtime hash on record does not pull,
and records the digest of its manifest all the same.  The runtime hash does not cover the
digest, so such an install keeps the two together only if its digest is the one on record.
-/

namespace GigMcp.Registry.Provenance

open GigMcp.Effect GigMcp.System GigMcp.Store GigMcp.Data GigMcp.Oci Weather

/-! ## Genuine artifacts -/

/-- What an extraction of an image leaves of a server's artifact in an empty place. -/
def afresh (img : Rootfs) (entrypoint binary bundleDir : String) : Except Err Unit × Files :=
  if bundleDir = "" then extractFile .healthy img entrypoint binary .empty
  else Oci.extractBundle .healthy img entrypoint bundleDir .empty

/-- The artifact of a server row is the one extracted from the image on record. -/
structure Genuine (library : String → Rootfs) (row : Server) (rec : ManifestRecord) (fs : Files) :
    Prop where
  extracted : (afresh (library rec.digest) rec.entrypoint row.binary row.bundleDir).1 = .ok ()
  same : ∀ p, Artifact row p →
    fs p = (afresh (library rec.digest) rec.entrypoint row.binary row.bundleDir).2 p

/-! ## Installs that succeed -/

/-- An install: what the outside does to it, whether it is a boot install, and the
reference. -/
structure Act where
  weather : Weather
  auto : Bool
  ref : String

section Acts

variable (i : IndexInstaller) (library : String → Rootfs) (name : String)

def Act.installer (a : Act) : IndexInstaller := { i with autoConsent := a.auto }

/-- An install of the server that succeeds.  What is pulled depends on the digest only. -/
structure Installs (a : Act) (s s' : Site) : Prop where
  pulls : ∀ image img, a.weather.image image = .ok img → img = library image.digest
  target : ∀ ix m, a.weather.fetched = .ok ix → i.schema.resolve ix a.ref = .ok m → m.name = name
  succeeds : ∃ srv, run a.weather.answer ((a.installer i).install a.ref) s = some (.ok srv, s')

/-- The install of a manifest finds itself on record. -/
def repeats (m : Manifest) (hash : String) (s : Site) : Bool :=
  (s.world.db.manifests.get? m.name).any fun rec ↦ Already i m hash rec s

/-- A manifest has the image on record: its digest and entrypoint, and the place it is
extracted to. -/
def SameImage (m : Manifest) (s : Site) : Prop :=
  ∀ row rec, Holds m.name row rec s →
    m.image.digest = rec.digest ∧ m.image.entrypoint = rec.entrypoint ∧
      rowBinary i m = row.binary ∧ rowBundleDir i m = row.bundleDir

/-- Every file in a directory is one that a bundle is going to have, with the mode it is going
to have. -/
def Fits (entrypoint dir : String) (fs : Files) : Prop :=
  ∀ rel f, fs (joinPath dir rel) = some f →
    rel ∈ bundleNames entrypoint ∧ f.mode = bundleMode entrypoint rel

/-- An install that does not pull has the image on record, and one that extracts a bundle
finds nothing else in its directory. -/
def Apt (a : Act) (s : Site) : Prop :=
  ∀ ix m hash, a.weather.fetched = .ok ix → i.schema.resolve ix a.ref = .ok m →
    i.schema.runtimeHash m = .ok hash →
    if repeats i m hash s then SameImage i m s
    else m.image.builder = builderToolpack →
      Fits m.image.entrypoint (stageDir i.dataDir m) s.files

end Acts

/-! ## What an install records -/

section Records

variable {i : IndexInstaller} {library : String → Rootfs} {name : String} {wt : Weather}
  {m : Manifest} {hash : String}
  {prior : Option ManifestRecord} {srv : Server} {s s' : Site} {db : Database}

/-- The server row of a manifest. -/
structure RowOf (i : IndexInstaller) (m : Manifest) (srv : Server) (db : Database) : Prop where
  row : db.serverByName m.name = some srv
  binary : srv.binary = rowBinary i m
  bundleDir : srv.bundleDir = rowBundleDir i m

/-- The manifest row of a manifest. -/
def RecordOf (m : Manifest) (db : Database) : Prop :=
  ∃ rec, db.manifests.get? m.name = some rec ∧ rec.digest = m.image.digest ∧
    rec.entrypoint = m.image.entrypoint

theorem serverByName_frame {c : Sql} (hc : Tbl.servers ∉ c.writes) (db : Database) (k : String) :
    (c.apply db).2.serverByName k = db.serverByName k := by
  have hservers : (c.apply db).2.servers = db.servers := Sql.apply_frame hc db
  rw [Database.serverByName, hservers, Database.serverByName]

theorem RowOf.frame (h : RowOf i m srv db) {c : Sql} (hc : Tbl.servers ∉ c.writes) :
    RowOf i m srv (c.apply db).2 :=
  ⟨(serverByName_frame hc db m.name).trans h.row, h.binary, h.bundleDir⟩

theorem RecordOf.frame (h : RecordOf m db) {c : Sql} (hc : Tbl.manifests ∉ c.writes) :
    RecordOf m (c.apply db).2 := by
  have hmanifests : (c.apply db).2.manifests = db.manifests := Sql.apply_frame hc db
  rw [RecordOf, hmanifests]
  exact h

theorem recordOf_put (injections : List Injection) (hash : String) (db : Database) :
    RecordOf m ((Sql.putManifest (toRecord m injections hash)).apply db).2 := by
  have hget := Sql.get?_putManifest (toRecord m injections hash) db m.name
  exact ⟨_, hget.trans (if_pos rfl), rfl, rfl⟩

theorem RecordOf.consent (h : RecordOf m db) (hash : String) :
    RecordOf m ((Sql.recordConsent m.name hash).apply db).2 := by
  obtain ⟨rec, hrec, hdigest, hentry⟩ := h
  refine ⟨{ rec with consentedHash := hash }, ?_, hdigest, hentry⟩
  rw [Sql.get?_recordConsent, if_pos rfl, hrec]
  rfl

theorem run_sql_ok {c : Sql} {r : c.Ans} (hrun : run wt.answer (sql c) s = some (.ok r, s')) :
    (c.apply s.world.db).1 = .ok r ∧ s' = s.withDb (c.apply s.world.db).2 := by
  rw [run_sql] at hrun
  cases hst : wt.store c with
  | none =>
      rw [statement_of_none hst] at hrun
      obtain ⟨hok, hs⟩ := Prod.mk.inj (Option.some.inj hrun)
      exact ⟨hok, hs.symm⟩
  | some x =>
      rw [statement_of_some hst] at hrun
      cases hrun

theorem run_ensureRow_ok (hrun : run wt.answer (i.ensureRow m) s = some (.ok srv, s')) :
    RowOf i m srv s'.world.db ∧ s' = s.withDb ((Sql.ensureServer m.name (rowBinary i m)
      (rowBundleDir i m)).apply s.world.db).2 := by
  rw [ensureRow_eq] at hrun
  obtain ⟨hok, rfl⟩ := run_sql_ok hrun
  obtain ⟨hrow, hbinary, hdir⟩ := Sql.serverByName_ensureServer hok
  exact ⟨⟨hrow, hbinary, hdir⟩, rfl⟩

theorem run_maybeConsent_ok {u : Unit}
    (hrun : run wt.answer (i.maybeConsent m.name hash prior) s = some (.ok u, s')) :
    s' = s ∨ s' = s.withDb ((Sql.recordConsent m.name hash).apply s.world.db).2 := by
  unfold IndexInstaller.maybeConsent at hrun
  split at hrun
  · exact .inr (run_sql_ok hrun).2
  · cases hrun
    exact .inl rfl

/-- The rows that an install leaves are those of its manifest; the records touch no file. -/
structure Records (i : IndexInstaller) (m : Manifest) (srv : Server) (s s' : Site) : Prop where
  row : RowOf i m srv s'.world.db
  record : RecordOf m s'.world.db
  files : s'.files = s.files

theorem Records.consent {u : Unit} {s₁ : Site} (h : Records i m srv s s₁)
    (hrun : run wt.answer (i.maybeConsent m.name hash prior) s₁ = some (.ok u, s')) :
    Records i m srv s s' := by
  rcases run_maybeConsent_ok hrun with rfl | rfl
  · exact h
  · exact ⟨h.row.frame (by simp [Sql.writes]), h.record.consent hash, h.files⟩

theorem run_buildInjections_ok {cs : List Credential} {injections : List Injection}
    (hrun : run wt.answer (buildInjections prior cs) s = some (.ok injections, s')) :
    s'.world = s.world ∧ s'.files = s.files := by
  rw [run_buildInjections] at hrun
  obtain ⟨-, rfl⟩ := Prod.mk.inj (Option.some.inj hrun)
  exact ⟨rfl, rfl⟩

theorem run_refresh_ok (hrun : run wt.answer (i.refresh m hash prior) s = some (.ok srv, s')) :
    Records i m srv s s' := by
  obtain ⟨srv', s₁, hensure, hrest₁⟩ := run_bind_ok hrun fun _ ↦ rfl
  obtain ⟨injections, s₂, hdraw, hrest₂⟩ := run_bind_ok hrest₁ fun _ ↦ rfl
  obtain ⟨_, s₃, hput, hrest₃⟩ := run_bind_ok hrest₂ fun _ ↦ rfl
  obtain ⟨_, s₄, hconsent, hret⟩ := run_bind_ok hrest₃ fun _ ↦ rfl
  cases hret
  obtain ⟨hrow, rfl⟩ := run_ensureRow_ok hensure
  obtain ⟨hworld, hfiles⟩ := run_buildInjections_ok hdraw
  obtain ⟨-, rfl⟩ := run_sql_ok hput
  have hrow₂ : RowOf i m srv s₂.world.db := hworld ▸ hrow
  have hput₂ : Records i m srv s
      (s₂.withDb ((Sql.putManifest (toRecord m injections hash)).apply s₂.world.db).2) :=
    ⟨hrow₂.frame (by simp [Sql.writes]), recordOf_put _ _ _, hfiles⟩
  exact hput₂.consent hconsent

theorem run_record_ok (hrun : run wt.answer (i.record m hash prior) s = some (.ok srv, s')) :
    Records i m srv s s' := by
  obtain ⟨injections, s₁, hdraw, hrest₁⟩ := run_bind_ok hrun fun _ ↦ rfl
  obtain ⟨_, s₂, hput, hrest₂⟩ := run_bind_ok hrest₁ fun _ ↦ rfl
  obtain ⟨srv', s₃, hensure, hrest₃⟩ := run_bind_ok hrest₂ fun _ ↦ rfl
  obtain ⟨_, s₄, hconsent, hret⟩ := run_bind_ok hrest₃ fun _ ↦ rfl
  cases hret
  obtain ⟨-, hfiles⟩ := run_buildInjections_ok hdraw
  obtain ⟨-, rfl⟩ := run_sql_ok hput
  obtain ⟨hrow, rfl⟩ := run_ensureRow_ok hensure
  have hrecord := (recordOf_put (m := m) injections hash s₁.world.db).frame
    (c := .ensureServer m.name (rowBinary i m) (rowBundleDir i m)) (by simp [Sql.writes])
  exact Records.consent ⟨hrow, hrecord, hfiles⟩ hconsent

/-! ## What an install leaves on disk -/

theorem stageDir_ne_empty (dataDir : String) (m : Manifest) : stageDir dataDir m ≠ "" := by
  intro h
  have hchars := congrArg String.toList h
  rw [stageDir, joinPath, String.toList_append, String.toList_append] at hchars
  simp at hchars

theorem genuine_extract {d : Disk} {img : Rootfs} {entrypoint : String} {fs fs' : Files}
    (hdir : srv.bundleDir = "") (h : extractFile d img entrypoint srv.binary fs = (.ok (), fs')) :
    (afresh img entrypoint srv.binary srv.bundleDir).1 = .ok () ∧
      ∀ p, Artifact srv p → fs' p = (afresh img entrypoint srv.binary srv.bundleDir).2 p := by
  obtain ⟨f, hfile, hplaced⟩ := extractFile_ok (congrArg Prod.fst h)
  have hfresh : afresh img entrypoint srv.binary srv.bundleDir =
      (.ok (), Files.empty.set srv.binary (some f)) := by
    rw [afresh, if_pos hdir, extractFile_healthy hfile]
  have hfiles : fs' = fs.set srv.binary (some f) := by
    have hset : (extractFile d img entrypoint srv.binary fs).2 = _ := extractFile_files
    rwa [hplaced, h] at hset
  rw [hfresh]
  refine ⟨rfl, fun p hart ↦ ?_⟩
  rw [Artifact, if_pos hdir] at hart
  rw [hart, hfiles]
  simp only [Files.set_self]

theorem genuine_extractBundle {d : Disk} {img : Rootfs} {entrypoint : String} {fs fs' : Files}
    (hdir : srv.bundleDir ≠ "") (hfits : Fits entrypoint srv.bundleDir fs)
    (h : Oci.extractBundle d img entrypoint srv.bundleDir fs = (.ok (), fs')) :
    (afresh img entrypoint srv.binary srv.bundleDir).1 = .ok () ∧
      ∀ p, Artifact srv p → fs' p = (afresh img entrypoint srv.binary srv.bundleDir).2 p := by
  obtain ⟨gs, hgs⟩ := extractBundle_healthy h srv.bundleDir .empty
  rw [afresh, if_neg hdir, hgs]
  refine ⟨rfl, fun p hart ↦ ?_⟩
  rw [Artifact, if_neg hdir] at hart
  obtain ⟨rel, rfl⟩ := under_iff.mp hart
  show fs' (joinPath srv.bundleDir rel) = gs (joinPath srv.bundleDir rel)
  rw [extractBundle_files h rel, extractBundle_files hgs rel]
  cases hold : fs (joinPath srv.bundleDir rel) with
  | none => rfl
  | some f =>
      obtain ⟨hname, hmode⟩ := hfits rel f hold
      obtain ⟨data, hdata⟩ := Option.isSome_iff_exists.mp ((held_isSome_iff h rel).mpr hname)
      simp [hdata, leftBy, hmode, Files.empty]

/-- A pull that goes through leaves the artifact of its image. -/
theorem genuine_pull {s₁ : Site}
    (hpulls : ∀ image img, wt.image image = .ok img → img = library image.digest)
    (hfits : m.image.builder = builderToolpack →
      Fits m.image.entrypoint (stageDir i.dataDir m) s.files)
    (hrow : srv.binary = rowBinary i m ∧ srv.bundleDir = rowBundleDir i m)
    (hpull : run wt.answer (i.pull m) s = some (.ok (), s₁)) :
    (afresh (library m.image.digest) m.image.entrypoint srv.binary srv.bundleDir).1 = .ok () ∧
      ∀ p, Artifact srv p → s₁.files p =
        (afresh (library m.image.digest) m.image.entrypoint srv.binary srv.bundleDir).2 p := by
  rcases wt.run_pull hpull with ⟨hsingle, hx, -⟩ | ⟨hbundle, hx, -, -⟩ | ⟨-, ⟨_, he⟩, -⟩
  · rw [rowBinary, if_neg hsingle, rowBundleDir, if_neg hsingle] at hrow
    unfold Weather.extract at hx
    cases himage : wt.image m.image with
    | error e =>
        rw [himage] at hx
        cases hx
    | ok img =>
        rw [himage, ← hrow.1] at hx
        rw [← hpulls _ _ himage]
        exact genuine_extract hrow.2 hx
  · rw [rowBundleDir, if_pos hbundle] at hrow
    unfold Weather.extractBundle at hx
    cases himage : wt.image m.image with
    | error e =>
        rw [himage] at hx
        cases hx
    | ok img =>
        rw [himage, ← hrow.2] at hx
        rw [← hpulls _ _ himage]
        refine genuine_extractBundle ?_ ?_ hx
        · rw [hrow.2]
          exact stageDir_ne_empty _ _
        · rw [hrow.2]
          exact hfits hbundle
  · cases he

/-! ## Runs -/

theorem Genuine.congr {row row' : Server} {rec rec' : ManifestRecord} {fs : Files}
    (h : Genuine library row rec fs) (hbinary : row'.binary = row.binary)
    (hdir : row'.bundleDir = row.bundleDir) (hdigest : rec'.digest = rec.digest)
    (hentry : rec'.entrypoint = rec.entrypoint) : Genuine library row' rec' fs := by
  have hart (p : String) : Artifact row' p ↔ Artifact row p := by
    rw [Artifact, Artifact, hbinary, hdir]
  refine ⟨?_, fun p hp ↦ ?_⟩
  · rw [hdigest, hentry, hbinary, hdir]
    exact h.extracted
  · rw [hdigest, hentry, hbinary, hdir]
    exact h.same p ((hart p).mp hp)

/-- The server is not on record, or its artifact is the one on record. -/
def Sound (library : String → Rootfs) (name : String) (s : Site) : Prop :=
  ∀ rec, s.world.db.manifests.get? name = some rec →
    ∃ row, Holds name row rec s ∧ Genuine library row rec s.files

/-- What one install of a manifest leaves. -/
theorem genuine_installOver {wt : Weather} (hsound : Sound library m.name s)
    (hpulls : ∀ image img, wt.image image = .ok img → img = library image.digest)
    (hapt : if repeats i m hash s then SameImage i m s
      else m.image.builder = builderToolpack →
        Fits m.image.entrypoint (stageDir i.dataDir m) s.files)
    (hrun : run wt.answer (i.installOver m hash (s.world.db.manifests.get? m.name)) s =
      some (.ok srv, s')) :
    ∃ rec, Holds m.name srv rec s' ∧ Genuine library srv rec s'.files := by
  rw [IndexInstaller.installOver, run_bind, run_alreadyInstalled, Option.bind_some,
    ← repeats] at hrun
  by_cases hrepeats : repeats i m hash s = true
  · -- nothing is pulled: the artifact is the one that was there
    rw [if_pos hrepeats] at hapt
    rw [hrepeats] at hrun
    have hleft := run_refresh_ok hrun
    obtain ⟨rec', hrec', hdigest', hentry'⟩ := hleft.record
    obtain ⟨rec, hrec, -⟩ := (Option.any_eq_true _ _).mp hrepeats
    obtain ⟨row, hholds, hgenuine⟩ := hsound rec hrec
    obtain ⟨hdigest, hentry, hbinary, hdir⟩ := hapt row rec hholds
    refine ⟨rec', ⟨hleft.row.row, hrec'⟩, ?_⟩
    rw [hleft.files]
    exact hgenuine.congr (hleft.row.binary.trans hbinary) (hleft.row.bundleDir.trans hdir)
      (hdigest'.trans hdigest) (hentry'.trans hentry)
  · rw [if_neg hrepeats] at hapt
    rw [eq_false_of_ne_true hrepeats] at hrun
    obtain ⟨_, s₁, hpull, hrest⟩ := run_bind_ok hrun fun _ ↦ rfl
    have hleft := run_record_ok hrest
    obtain ⟨rec, hrec, hdigest, hentry⟩ := hleft.record
    obtain ⟨hok, hsame⟩ := genuine_pull hpulls hapt ⟨hleft.row.binary, hleft.row.bundleDir⟩ hpull
    refine ⟨rec, ⟨hleft.row.row, hrec⟩, ?_, ?_⟩
    · rw [hdigest, hentry]
      exact hok
    · rw [hdigest, hentry, hleft.files]
      exact hsame

theorem run_installManifest_ok
    (hrun : run wt.answer (i.installManifest m) s = some (.ok srv, s')) :
    ∃ hash, i.schema.runtimeHash m = .ok hash ∧
      run wt.answer (i.installOver m hash (s.world.db.manifests.get? m.name)) s =
        some (.ok srv, s') := by
  rw [IndexInstaller.installManifest] at hrun
  cases hvalid : i.schema.validate m with
  | error e =>
      rw [hvalid] at hrun
      cases hrun
  | ok _ =>
      rw [hvalid] at hrun
      cases hhash : i.schema.runtimeHash m with
      | error e =>
          rw [hhash] at hrun
          cases hrun
      | ok hash =>
          rw [hhash] at hrun
          dsimp only at hrun
          rw [run_bind, run_sql, Option.bind_some] at hrun
          refine ⟨hash, rfl, ?_⟩
          cases hst : wt.store (.getManifest m.name) with
          | some x =>
              obtain ⟨e, took⟩ := x
              have hforeign : e.is .manifestNotFound = false :=
                Err.Foreign.is_eq_false (wt.store_foreign _ e took hst) id
              rw [statement_of_some hst] at hrun
              dsimp only at hrun
              rw [hforeign] at hrun
              cases hrun
          | none =>
              have hread : ((Sql.getManifest m.name).apply s.world.db).1 =
                  Sql.fetch .manifestNotFound (s.world.db.manifests.get? m.name) := rfl
              rw [statement_of_none hst, hread] at hrun
              cases hprior : s.world.db.manifests.get? m.name with
              | none =>
                  rw [hprior] at hrun
                  exact hrun
              | some rec =>
                  rw [hprior] at hrun
                  exact hrun

/-- What one install leaves. -/
theorem genuine_install {a : Act} (hsound : Sound library name s) (hapt : Apt i a s)
    (hstep : Installs i library name a s s') :
    ∃ row rec, Holds name row rec s' ∧ Genuine library row rec s'.files := by
  obtain ⟨srv, hrun⟩ := hstep.succeeds
  rw [IndexInstaller.install, run_bind, run_call] at hrun
  change run a.weather.answer ((a.installer i).installFrom a.ref a.weather.fetched) s = _ at hrun
  cases hfetched : a.weather.fetched with
  | error e =>
      rw [hfetched] at hrun
      cases hrun
  | ok ix =>
      rw [hfetched, IndexInstaller.installFrom] at hrun
      cases hresolve : i.schema.resolve ix a.ref with
      | error e =>
          rw [show (a.installer i).schema.resolve ix a.ref = _ from hresolve] at hrun
          cases hrun
      | ok m =>
          rw [show (a.installer i).schema.resolve ix a.ref = _ from hresolve] at hrun
          obtain rfl : m.name = name := hstep.target ix m hfetched hresolve
          obtain ⟨hash, hhash, hover⟩ := run_installManifest_ok hrun
          obtain ⟨rec, hholds, hgenuine⟩ := genuine_installOver (i := a.installer i) hsound
            hstep.pulls (hapt ix m hash hfetched hresolve hhash) hover
          exact ⟨srv, rec, hholds, hgenuine⟩

theorem Sound.of_genuine {row : Server} {rec : ManifestRecord} (hholds : Holds name row rec s)
    (hgenuine : Genuine library row rec s.files) : Sound library name s := by
  intro rec' hrec'
  obtain rfl : rec = rec' := Option.some.inj (hholds.manifest.symm.trans hrec')
  exact ⟨row, hholds, hgenuine⟩

/-- **What is recorded is what runs.**  After every successful install of a run whose installs
are apt, the artifact of the server row is the one extracted from the image on record. -/
theorem recorded_image_runs {a : Act} {s₀ : Site} (hstart : Sound library name s₀)
    (hrun : Run (Installs i library name) (Apt i) s₀ s) (hapt : Apt i a s)
    (hstep : Installs i library name a s s') :
    ∃ row rec, Holds name row rec s' ∧ Genuine library row rec s'.files := by
  refine genuine_install ?_ hapt hstep
  refine hrun.invariant (fun a s s' hsound hapt hstep ↦ ?_) hstart
  obtain ⟨row, rec, hholds, hgenuine⟩ := genuine_install hsound hapt hstep
  exact .of_genuine hholds hgenuine

end Records

/-! ## A rebuilt image of the same contract -/

namespace Rebuilt

open Toolpack

/-- The image was rebuilt: the binary is another one, and the runtime contract the same. -/
def images (digest : String) : { img : Rootfs // img.Foreign } :=
  ⟨bundle (if digest = "d1" then "v1" else "v2") "one", bundle_foreign _ _⟩

def library (digest : String) : Rootfs := (images digest).1

/-- An install through the API with a digest in the index. -/
def act (digest : String) : Act := ⟨serves (manifest digest "one") images, false, "github@1"⟩

def installed : Site := after (act "d1").weather start

/-- The same install again. -/
def again : Site := after (act "d1").weather installed

/-- An install after the index has the rebuilt image. -/
def rebuilt : Site := after (act "d2").weather installed

theorem installs_of_run {digest : String} {s s' : Site}
    (hrun : ∃ srv, run (act digest).weather.answer (installer.install "github@1") s =
      some (.ok srv, s')) :
    Installs installer library "github" (act digest) s s' := by
  refine ⟨?_, ?_, hrun⟩
  · rintro image _ ⟨⟩
    rfl
  · rintro _ _ ⟨⟩ hm
    cases hm
    rfl

theorem installs_first : Installs installer library "github" (act "d1") start installed :=
  installs_of_run ⟨row, rfl⟩

theorem installs_again : Installs installer library "github" (act "d1") installed again :=
  installs_of_run ⟨row, rfl⟩

theorem installs_rebuilt : Installs installer library "github" (act "d2") installed rebuilt :=
  installs_of_run ⟨row, rfl⟩

theorem apt_first : Apt installer (act "d1") start := by
  rintro _ m hash ⟨⟩ hm hhash
  cases hm
  cases hhash
  exact fun _ _ _ h ↦ nomatch h

theorem apt_again : Apt installer (act "d1") installed := by
  rintro _ m hash ⟨⟩ hm hhash
  cases hm
  cases hhash
  have hrepeats : repeats installer (manifest "d1" "one") "one" installed = true := by decide
  refine (if_pos hrepeats).mpr ?_
  rintro row' rec' ⟨hrow, hrec⟩
  cases hrow
  cases hrec
  exact ⟨rfl, rfl, rfl, rfl⟩

def record (digest : String) : ManifestRecord :=
  ⟨"github", "1", digest, "", "/app/server", "", "", "", throughColumn [], [], [], "one", "one"⟩

end Rebuilt

open Toolpack Rebuilt in
/-- An install and the same install again. -/
theorem recorded_image_runs_again :
    again.world.db.serverByName "github" = some row ∧
      ∃ row rec, Holds "github" row rec again ∧ Genuine library row rec again.files := by
  have hstart : Sound library "github" start := fun _ h ↦
    absurd (Data.Table.mem_of_get? h) List.not_mem_nil
  have hrun : Run (Installs installer library "github") (Apt installer) start installed :=
    .tail .refl apt_first installs_first
  exact ⟨rfl, recorded_image_runs hstart hrun apt_again installs_again⟩

open Toolpack Rebuilt in
/-- The index has a rebuilt image of the same version and contract.  The install succeeds and
records its digest, and the binary that is run is still the old one. -/
theorem recorded_digest_not_pulled :
    (∀ m digest, installer.schema.runtimeHash { m with image := { m.image with digest := digest } } =
        installer.schema.runtimeHash m) ∧
      Installs installer library "github" (act "d1") start installed ∧
      Installs installer library "github" (act "d2") installed rebuilt ∧
      Holds "github" row (record "d2") rebuilt ∧
      rebuilt.files "/data/servers/github@1/server" = some ⟨"v1", 0o755⟩ ∧
      (afresh (library "d2") "/app/server" row.binary row.bundleDir).2
        "/data/servers/github@1/server" = some ⟨"v2", 0o755⟩ ∧
      ¬ Genuine library row (record "d2") rebuilt.files := by
  have hfile : rebuilt.files "/data/servers/github@1/server" = some ⟨"v1", 0o755⟩ := by decide
  have hfresh : (afresh (library "d2") "/app/server" row.binary row.bundleDir).2
      "/data/servers/github@1/server" = some ⟨"v2", 0o755⟩ := by decide
  refine ⟨fun _ _ ↦ rfl, installs_first, installs_rebuilt, ⟨rfl, rfl⟩, hfile, hfresh, fun h ↦ ?_⟩
  have hart : Artifact row "/data/servers/github@1/server" := by decide
  have hsame := h.same _ hart
  rw [hfile] at hsame
  exact absurd (hsame.trans hfresh) (by decide)

end GigMcp.Registry.Provenance
