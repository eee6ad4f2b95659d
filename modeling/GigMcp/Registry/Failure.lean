import GigMcp.Registry.Site

/-!
# Installs that fail

What a failed install leaves of a server that was installed before.

An install is a list of deeds: it pulls, draws the placeholders it lacks, and writes the
manifest, the server row and, for a boot install, the consent; a refresh does not pull and
writes the row first.  It stops at the first deed that fails, and a store call that fails may
have taken effect.  Nothing is ever taken back, and a pull goes straight to the directory the
server runs from when the version is the same.  So a failed install leaves the server as it
was exactly when every deed up to the failure was *harmless*: it wrote what was there
already, or did not touch what the server row points to.
-/

namespace GigMcp.Registry.Failure

open GigMcp.Effect GigMcp.System GigMcp.Store GigMcp.Data GigMcp.Oci Weather

/-! ## An installed server -/

/-- A server is installed: its rows are there, it is consented to, and its artifact is on
disk. -/
structure Installed (name : String) (row : Server) (rec : ManifestRecord) (s : Site) : Prop
    extends Holds name row rec s where
  consent : rec.consentedHash ≠ ""
  onDisk : ∃ p, Artifact row p ∧ s.files p ≠ none

/-- The server is as it was: its row, its manifest with the consent, and the files the row
points to. -/
structure Intact (name : String) (row : Server) (rec : ManifestRecord) (s s' : Site) : Prop
    extends Holds name row rec s' where
  artifact : ∀ p, Artifact row p → s'.files p = s.files p

/-! ## Deeds -/

/-- A deed of an install.  `stops` is there when it fails, and says whether it took effect
all the same. -/
structure Deed where
  stops : Option Bool
  harmless : Prop

/-- The deeds up to the first that fails are harmless. -/
def Spared : List Deed → Prop
  | [] => True
  | d :: ds =>
      match d.stops with
      | none => d.harmless ∧ Spared ds
      | some took => took = true → d.harmless

section Deeds

variable (wt : Weather) (i : IndexInstaller) (m : Manifest) (hash : String) (row : Server)
  (rec : ManifestRecord) (s : Site)

/-- A statement fails, and whether it took effect. -/
def stopped (c : Sql) : Option Bool := (wt.store c).map Prod.snd

def ensureDeed : Deed where
  stops := stopped wt (.ensureServer m.name (rowBinary i m) (rowBundleDir i m))
  harmless := row.binary = rowBinary i m ∧ row.bundleDir = rowBundleDir i m

def putDeed (injections : List Injection) : Deed where
  stops := stopped wt (.putManifest (toRecord m injections hash))
  harmless := toStored m hash rec injections = rec

/-- Consent that was given before is given again by a boot install only. -/
def consentDeeds : List Deed :=
  if i.autoConsent then [⟨stopped wt (.recordConsent m.name hash), rec.consentedHash = hash⟩] else []

/-- The deeds that follow the draw of the placeholders. -/
def afterDraw (deeds : List Injection → List Deed) : List Deed :=
  match (wt.draw (some rec) m.credentials s.drawn).1 with
  | .error _ => [⟨some false, True⟩]
  | .ok injections => deeds injections

/-- The image is refused: it cannot be pulled or extracted, or the manifest in it is not the
index's. -/
def refused : Bool :=
  let dir := stageDir i.dataDir m
  if m.image.builder = builderToolpack then
    match wt.extractBundle m.image dir s.files with
    | (.error _, _) => true
    | (.ok _, fs) => !wt.checks i m fs
  else
    match wt.extract m.image (joinPath dir "server") s.files with
    | (.error _, _) => true
    | (.ok _, _) => false

/-- A pull leaves the artifact alone.  A single file is replaced, or lost, when the server
row points to its destination.  A bundle that is refused takes all of its directory with
it; one that is not is written over what is there. -/
def PullSpares : Prop :=
  let dir := stageDir i.dataDir m
  ∀ img, wt.image m.image = .ok img →
    if m.image.builder = builderToolpack then
      wt.disk.mkdirAll = none →
        if refused wt i m s then ∀ p, Artifact row p → p = dir ∨ Under dir p → s.files p = none
        else ∀ rel data, held m.image.entrypoint img.entries rel = some data →
          Artifact row (joinPath dir rel) →
            (s.files (joinPath dir rel)).map File.data = some data
    else ∀ x, placed wt.disk img m.image.entrypoint = some x →
      Artifact row (joinPath dir "server") → s.files (joinPath dir "server") = x

def pullDeed : Deed where
  stops := if refused wt i m s then some true else none
  harmless := PullSpares wt i m row s

/-- The deeds of an install over an installed server. -/
def deeds : List Deed :=
  if Already i m hash rec s then
    ensureDeed wt i m row ::
      afterDraw wt m rec s fun injections ↦
        putDeed wt m hash rec injections :: consentDeeds wt i m hash rec
  else
    pullDeed wt i m row s ::
      afterDraw wt m rec s fun injections ↦
        putDeed wt m hash rec injections :: ensureDeed wt i m row :: consentDeeds wt i m hash rec

end Deeds

/-- Every deed up to the failure is harmless, if the install gets as far as a deed: the
index is fetched, the reference resolves to a manifest that is valid and has a hash, and the
manifest on record is read. -/
def SparedBy (wt : Weather) (i : IndexInstaller) (ref : String) (row : Server)
    (rec : ManifestRecord) (s : Site) : Prop :=
  ∀ ix m hash, wt.fetched = .ok ix → i.schema.resolve ix ref = .ok m →
    i.schema.validate m = .ok () → i.schema.runtimeHash m = .ok hash →
    wt.store (.getManifest m.name) = none → Spared (deeds wt i m hash row rec s)

/-! ## What each deed does -/

section Effects

variable {wt : Weather} {i : IndexInstaller} {m : Manifest} {hash name : String}
  {row row' : Server} {rec rec' : ManifestRecord} {s s' : Site}

theorem intact_iff (h : Holds name row' rec' s') :
    Intact name row rec s s' ↔
      row' = row ∧ rec' = rec ∧ ∀ p, Artifact row p → s'.files p = s.files p := by
  constructor
  · intro hi
    exact ⟨Option.some.inj (h.server.symm.trans hi.server),
      Option.some.inj (h.manifest.symm.trans hi.manifest), hi.artifact⟩
  · rintro ⟨rfl, rfl, hfiles⟩
    exact ⟨h, hfiles⟩

/-! ### The pull -/

theorem refused_of_error {e : Err} (hrun : run wt.answer (i.pull m) s = some (.error e, s')) :
    refused wt i m s = true := by
  unfold refused
  rcases wt.run_pull hrun with ⟨hsingle, hx, -⟩ | ⟨hbundle, hx, -, -⟩ | ⟨hbundle, -, fs, hx, hno, -⟩
  · rw [if_neg hsingle, hx]
  · rw [if_pos hbundle, hx]
  · rw [if_pos hbundle, hx]
    exact congrArg Bool.not hno

theorem refused_of_ok (hrun : run wt.answer (i.pull m) s = some (.ok (), s')) :
    refused wt i m s = false := by
  unfold refused
  rcases wt.run_pull hrun with ⟨hsingle, hx, -⟩ | ⟨hbundle, hx, hok, -⟩ | ⟨-, ⟨e, he⟩, -⟩
  · rw [if_neg hsingle, hx]
  · rw [if_pos hbundle, hx]
    exact congrArg Bool.not (hok rfl)
  · cases he

/-- Replacing one file spares an artifact that does not have it, or has it just so. -/
theorem set_spares_iff {fs : Files} {path : String} {x : Option File} :
    (∀ p, Artifact row p → fs.set path x p = fs p) ↔ (Artifact row path → fs path = x) := by
  constructor
  · intro h hart
    rw [← h path hart, Files.set_self]
  · intro h p hart
    by_cases hp : p = path
    · rw [hp] at hart ⊢
      rw [Files.set_self, h hart]
    · exact Files.set_of_ne hp x

theorem removeAll_spares_iff {fs : Files} {dir : String} :
    (∀ p, Artifact row p → fs.removeAll dir p = fs p) ↔
      ∀ p, Artifact row p → p = dir ∨ Under dir p → fs p = none := by
  refine forall_congr' fun p ↦ forall_congr' fun _ ↦ ?_
  by_cases hp : p = dir ∨ Under dir p
  · rw [Files.removeAll, if_pos hp]
    exact ⟨fun h _ ↦ h.symm, fun h ↦ (h hp).symm⟩
  · rw [Files.removeAll, if_neg hp]
    exact ⟨fun _ h ↦ absurd h hp, fun _ ↦ rfl⟩

/-- A bundle that is written spares an artifact that has the same files. -/
theorem bundle_spares_iff {d : Disk} {img : Rootfs} {entrypoint dir : String} {fs fs' : Files}
    (h : Oci.extractBundle d img entrypoint dir fs = (.ok (), fs')) :
    (∀ p, Artifact row p → fs' p = fs p) ↔
      ∀ rel data, held entrypoint img.entries rel = some data →
        Artifact row (joinPath dir rel) → (fs (joinPath dir rel)).map File.data = some data := by
  obtain ⟨acc, hscan, -⟩ := writeBundle_ok (extractBundle_ok h).2
  obtain ⟨hin, hout⟩ := scan_ok hscan
  constructor
  · intro hsame rel data hheld hart
    rw [← hsame _ hart, hin rel, hheld]
    rfl
  · intro hheld p hart
    by_cases hp : ∃ rel, p = joinPath dir rel
    · obtain ⟨rel, rfl⟩ := hp
      rw [hin rel]
      cases hrel : held entrypoint img.entries rel with
      | none => rfl
      | some data =>
          obtain ⟨f, hf, hdata⟩ := Option.map_eq_some_iff.mp (hheld rel data hrel hart)
          rw [hf, leftBy, ← hdata]
          rfl
    · exact hout p (not_exists.mp hp)

theorem extract_spares_iff {image : Image} {dest : String} {fs : Files} :
    (∀ p, Artifact row p → (wt.extract image dest fs).2 p = fs p) ↔
      ∀ img, wt.image image = .ok img → ∀ x, placed wt.disk img image.entrypoint = some x →
        Artifact row dest → fs dest = x := by
  unfold Weather.extract
  cases wt.image image with
  | error e => exact ⟨fun _ _ h ↦ (nomatch h), fun _ _ _ ↦ rfl⟩
  | ok img =>
      simp only [Except.ok.injEq, forall_eq', extractFile_files]
      cases placed wt.disk img image.entrypoint with
      | none => exact ⟨fun _ _ h ↦ (nomatch h), fun _ _ _ ↦ rfl⟩
      | some x => simpa only [Option.some.injEq, forall_eq'] using set_spares_iff

/-- What a pull leaves alone. -/
theorem pull_spares_iff {r : Except Err Unit} (hrun : run wt.answer (i.pull m) s = some (r, s')) :
    (∀ p, Artifact row p → s'.files p = s.files p) ↔ PullSpares wt i m row s := by
  unfold PullSpares
  dsimp only
  rcases wt.run_pull hrun with ⟨hsingle, hx, -⟩ | ⟨hbundle, hx, -, -⟩ | ⟨hbundle, ⟨e, rfl⟩, fs, hx, -, rfl⟩
  · simp only [if_neg hsingle]
    rw [show s'.files = _ from (congrArg Prod.snd hx).symm]
    exact extract_spares_iff
  · simp only [if_pos hbundle]
    unfold Weather.extractBundle at hx
    cases himage : wt.image m.image with
    | error e =>
        rw [himage] at hx
        rw [← show s.files = s'.files from congrArg Prod.snd hx]
        constructor
        · rintro - img ⟨⟩
        · exact fun _ _ _ ↦ rfl
    | ok img =>
        rw [himage] at hx
        dsimp only at hx
        simp only [Except.ok.injEq, forall_eq']
        cases hmk : wt.disk.mkdirAll with
        | some e =>
            rw [Oci.extractBundle, hmk] at hx
            rw [← show s.files = s'.files from congrArg Prod.snd hx]
            constructor
            · rintro - ⟨⟩
            · exact fun _ _ _ ↦ rfl
        | none =>
            cases r with
            | error e =>
                rw [extractBundle_error hmk hx, removeAll_spares_iff]
                simp only [refused_of_error hrun, if_true, forall_const]
            | ok _ =>
                rw [bundle_spares_iff hx]
                simp only [refused_of_ok hrun, Bool.false_eq_true, if_false, forall_const]
  · -- the bundle was extracted and then refused by the cross-check
    simp only [if_pos hbundle]
    unfold Weather.extractBundle at hx
    cases himage : wt.image m.image with
    | error e =>
        rw [himage] at hx
        cases hx
    | ok img =>
        rw [himage] at hx
        dsimp only at hx
        obtain ⟨hmk, hwrite⟩ := extractBundle_ok hx
        rw [removeAll_writeBundle hwrite, removeAll_spares_iff]
        simp only [refused_of_error hrun, hmk, if_true, Except.ok.injEq, forall_eq', forall_const]

/-! ### The records -/

theorem stopped_of_none {c : Sql} (h : wt.store c = none) : stopped wt c = none := by
  rw [stopped, h]
  rfl

theorem stopped_of_some {c : Sql} {e : Err} {took : Bool} (h : wt.store c = some (e, took)) :
    stopped wt c = some took := by
  rw [stopped, h]
  rfl

/-- An install that fails with its consent, the last deed. -/
theorem consent_error_iff {injections : List Injection} {s₁ : Site}
    {k : Except Err Unit → Code (Except Err Server)} {srv : Server} {e : Err}
    (h : Holds m.name row' (toStored m hash rec injections) s₁) (hprior : rec.consentedHash ≠ "")
    (herror : ∀ e, k (.error e) = Prog.ret (.error e)) (hok : k (.ok ()) = Prog.ret (.ok srv))
    (hrun : run wt.answer (i.maybeConsent m.name hash (some rec) >>= k) s₁ = some (.error e, s')) :
    Intact m.name row rec s s' ↔
      row' = row ∧ toStored m hash rec injections = rec ∧
        (∀ p, Artifact row p → s₁.files p = s.files p) ∧ Spared (consentDeeds wt i m hash rec) := by
  unfold IndexInstaller.maybeConsent at hrun
  by_cases hauto : i.autoConsent = true
  · rw [if_pos (.inl hauto), run_bind, run_sql, Option.bind_some] at hrun
    rw [consentDeeds, if_pos hauto]
    cases hst : wt.store (.recordConsent m.name hash) with
    | none =>
        rw [statement_of_none hst, (h.consent hash).1, hok] at hrun
        cases hrun
    | some x =>
        obtain ⟨e', took⟩ := x
        rw [statement_of_some hst, herror] at hrun
        cases hrun
        simp only [Spared, stopped_of_some hst]
        cases took with
        | false =>
            rw [if_neg Bool.false_ne_true, intact_iff h]
            simp
        | true =>
            rw [if_pos rfl, intact_iff (h.consent hash).2, consented_stored_eq_iff]
            simp only [Site.withDb_files, forall_const]
            tauto
  · have hno : ¬ (i.autoConsent = true ∨
        ((some rec).map ManifestRecord.consentedHash).getD "" = "") := by
      rintro (h | h)
      · exact hauto h
      · exact hprior h
    rw [if_neg hno, run_bind] at hrun
    change run wt.answer (k (.ok ())) s₁ = _ at hrun
    rw [hok] at hrun
    cases hrun

/-- A refresh that fails. -/
theorem refresh_error_iff {e : Err} (h : Installed m.name row rec s)
    (hrun : run wt.answer (i.refresh m hash (some rec)) s = some (.error e, s')) :
    Intact m.name row rec s s' ↔
      Spared (ensureDeed wt i m row :: afterDraw wt m rec s fun injections ↦
        putDeed wt m hash rec injections :: consentDeeds wt i m hash rec) := by
  have hmoved := h.toHolds.ensure (rowBinary i m) (rowBundleDir i m)
  rw [IndexInstaller.refresh, ensureRow_eq, run_bind, run_sql, Option.bind_some] at hrun
  cases hst : wt.store (.ensureServer m.name (rowBinary i m) (rowBundleDir i m)) with
  | some x =>
      obtain ⟨e', took⟩ := x
      rw [statement_of_some hst] at hrun
      cases hrun
      simp only [Spared, ensureDeed, stopped_of_some hst]
      cases took with
      | false =>
          rw [if_neg Bool.false_ne_true, intact_iff h.toHolds]
          simp
      | true =>
          rw [if_pos rfl, intact_iff hmoved.2, moved_eq_iff]
          simp
  | none =>
      rw [statement_of_none hst, hmoved.1] at hrun
      dsimp only at hrun
      rw [run_bind, run_buildInjections, Option.bind_some, Site.withDb_drawn] at hrun
      simp only [Spared, ensureDeed, stopped_of_none hst, afterDraw]
      have h₁ : Holds m.name (moved row (rowBinary i m) (rowBundleDir i m)) rec
          { s.withDb ((Sql.ensureServer m.name (rowBinary i m)
              (rowBundleDir i m)).apply s.world.db).2 with
            drawn := (wt.draw (some rec) m.credentials s.drawn).2 } :=
        ⟨hmoved.2.server, hmoved.2.manifest⟩
      cases hdraw : (wt.draw (some rec) m.credentials s.drawn).1 with
      | error e' =>
          rw [hdraw] at hrun
          cases hrun
          rw [intact_iff h₁, moved_eq_iff]
          simp [Spared]
      | ok injections =>
          rw [hdraw] at hrun
          dsimp only at hrun
          rw [run_bind, run_sql, Option.bind_some] at hrun
          have hput := h₁.put hash injections
          simp only [Spared, putDeed]
          cases hst₁ : wt.store (.putManifest (toRecord m injections hash)) with
          | some x =>
              obtain ⟨e', took⟩ := x
              rw [statement_of_some hst₁] at hrun
              cases hrun
              simp only [stopped_of_some hst₁]
              cases took with
              | false =>
                  rw [if_neg Bool.false_ne_true, intact_iff h₁, moved_eq_iff]
                  simp
              | true =>
                  rw [if_pos rfl, intact_iff hput, moved_eq_iff]
                  simp
          | none =>
              rw [statement_of_none hst₁] at hrun
              simp only [stopped_of_none hst₁]
              rw [consent_error_iff hput h.consent (fun _ ↦ rfl) rfl hrun, moved_eq_iff]
              simp

/-- The records of a full install that fails, after a pull that went through. -/
theorem record_error_iff {e : Err} {s₁ : Site} (h : Installed m.name row rec s)
    (hs₁ : s₁ = { s with files := s₁.files })
    (hrun : run wt.answer (i.record m hash (some rec)) s₁ = some (.error e, s')) :
    Intact m.name row rec s s' ↔
      (∀ p, Artifact row p → s₁.files p = s.files p) ∧
        Spared (afterDraw wt m rec s fun injections ↦
          putDeed wt m hash rec injections :: ensureDeed wt i m row ::
            consentDeeds wt i m hash rec) := by
  have hdrawn : s₁.drawn = s.drawn := by rw [hs₁]
  have hworld : s₁.world = s.world := by rw [hs₁]
  rw [IndexInstaller.record, run_bind, run_buildInjections, Option.bind_some, hdrawn] at hrun
  unfold afterDraw
  have h₁ (n : Nat) : Holds m.name row rec { s₁ with drawn := n } :=
    ⟨(congrArg (fun w : World ↦ w.db.serverByName m.name) hworld).trans h.server,
      (congrArg (fun w : World ↦ w.db.manifests.get? m.name) hworld).trans h.manifest⟩
  cases hdraw : (wt.draw (some rec) m.credentials s.drawn).1 with
  | error e' =>
      rw [hdraw] at hrun
      cases hrun
      rw [intact_iff (h₁ _)]
      simp [Spared]
  | ok injections =>
      rw [hdraw] at hrun
      dsimp only at hrun
      rw [run_bind, run_sql, Option.bind_some] at hrun
      have hput := (h₁ (wt.draw (some rec) m.credentials s.drawn).2).put hash injections
      simp only [Spared, putDeed]
      cases hst : wt.store (.putManifest (toRecord m injections hash)) with
      | some x =>
          obtain ⟨e', took⟩ := x
          rw [statement_of_some hst] at hrun
          cases hrun
          simp only [stopped_of_some hst]
          cases took with
          | false =>
              rw [if_neg Bool.false_ne_true, intact_iff (h₁ _)]
              simp
          | true =>
              rw [if_pos rfl, intact_iff hput]
              simp only [Site.withDb_files, true_and, forall_const]
              exact and_comm
      | none =>
          rw [statement_of_none hst] at hrun
          change run wt.answer (i.ensureRow m >>= _) _ = _ at hrun
          rw [ensureRow_eq, run_bind, run_sql, Option.bind_some] at hrun
          have hmoved := hput.ensure (rowBinary i m) (rowBundleDir i m)
          simp only [stopped_of_none hst, ensureDeed]
          cases hst₁ : wt.store (.ensureServer m.name (rowBinary i m) (rowBundleDir i m)) with
          | some x =>
              obtain ⟨e', took⟩ := x
              rw [statement_of_some hst₁] at hrun
              cases hrun
              simp only [stopped_of_some hst₁]
              cases took with
              | false =>
                  rw [if_neg Bool.false_ne_true, intact_iff hput]
                  simp only [Site.withDb_files, true_and, Bool.false_eq_true, false_imp_iff, and_true]
                  exact and_comm
              | true =>
                  rw [if_pos rfl, intact_iff hmoved.2, moved_eq_iff]
                  simp only [Site.withDb_files, forall_const]
                  tauto
          | none =>
              rw [statement_of_none hst₁, hmoved.1] at hrun
              simp only [stopped_of_none hst₁]
              rw [consent_error_iff hmoved.2 h.consent (fun _ ↦ rfl) rfl hrun, moved_eq_iff]
              simp only [Site.withDb_files]
              tauto

/-! ## Failed installs -/

theorem installOver_error_iff {e : Err} (h : Installed m.name row rec s)
    (hrun : run wt.answer (i.installOver m hash (some rec)) s = some (.error e, s')) :
    Intact m.name row rec s s' ↔ Spared (deeds wt i m hash row rec s) := by
  rw [IndexInstaller.installOver, run_bind, run_alreadyInstalled, Option.bind_some, Option.any_some] at hrun
  unfold deeds
  by_cases halready : Already i m hash rec s
  · rw [if_pos halready]
    rw [decide_eq_true halready] at hrun
    exact refresh_error_iff h hrun
  · rw [if_neg halready]
    rw [decide_eq_false halready] at hrun
    change run wt.answer (i.pull m >>= _) s = _ at hrun
    rw [run_bind] at hrun
    obtain ⟨⟨r, s₁⟩, hpull, hrest⟩ := Option.bind_eq_some_iff.mp hrun
    have hspares : (∀ p, Artifact row p → s₁.files p = s.files p) ↔ PullSpares wt i m row s :=
      pull_spares_iff hpull
    cases r with
    | error e' =>
        cases hrest
        have hs₁ : Holds m.name row rec s₁ := by
          rcases wt.run_pull hpull with ⟨-, -, hs⟩ | ⟨-, -, -, hs⟩ | ⟨-, -, fs, -, -, hs⟩
          all_goals
            rw [hs]
            exact ⟨h.server, h.manifest⟩
        simp only [Spared, pullDeed, refused_of_error hpull, if_true]
        rw [intact_iff hs₁, ← hspares]
        simp
    | ok _ =>
        have hs₁ : s₁ = { s with files := s₁.files } := by
          rcases wt.run_pull hpull with ⟨-, -, hs⟩ | ⟨-, -, -, hs⟩ | ⟨-, ⟨_, hr⟩, -⟩
          · exact hs
          · exact hs
          · cases hr
        simp only [Spared, pullDeed, refused_of_ok hpull, Bool.false_eq_true, if_false]
        rw [record_error_iff h hs₁ hrest, hspares]

/-- An install that does not get as far as a deed changes nothing. -/
theorem Installed.intact (h : Installed name row rec s) : Intact name row rec s s :=
  ⟨h.toHolds, fun _ _ ↦ rfl⟩

theorem installManifest_error_iff {e : Err} (h : Installed m.name row rec s)
    (hrun : run wt.answer (i.installManifest m) s = some (.error e, s')) :
    Intact m.name row rec s s' ↔
      ∀ hash, i.schema.validate m = .ok () → i.schema.runtimeHash m = .ok hash →
        wt.store (.getManifest m.name) = none → Spared (deeds wt i m hash row rec s) := by
  rw [IndexInstaller.installManifest] at hrun
  cases hvalid : i.schema.validate m with
  | error e' =>
      rw [hvalid] at hrun
      cases hrun
      exact iff_of_true h.intact fun _ hv ↦ nomatch hv
  | ok _ =>
      rw [hvalid] at hrun
      cases hhash : i.schema.runtimeHash m with
      | error e' =>
          rw [hhash] at hrun
          cases hrun
          exact iff_of_true h.intact fun _ _ hh ↦ nomatch hh
      | ok hash =>
          rw [hhash] at hrun
          dsimp only at hrun
          rw [run_bind, run_sql, Option.bind_some] at hrun
          cases hst : wt.store (.getManifest m.name) with
          | some x =>
              obtain ⟨e', took⟩ := x
              -- the error is not the store's own, and a read has no effect
              have hforeign : e'.is .manifestNotFound = false :=
                Err.Foreign.is_eq_false (wt.store_foreign _ e' took hst) id
              rw [statement_of_some hst] at hrun
              dsimp only at hrun
              rw [hforeign] at hrun
              cases hrun
              refine iff_of_true ?_ fun _ _ _ hno ↦ nomatch hno
              cases took with
              | false => exact h.intact
              | true => exact h.intact
          | none =>
              have hread : ((Sql.getManifest m.name).apply s.world.db).1 = .ok rec := by
                show Sql.fetch _ (s.world.db.manifests.get? m.name) = _
                rw [h.manifest]
                rfl
              rw [statement_of_none hst, hread] at hrun
              rw [installOver_error_iff h hrun]
              simp

/-- **Failed installs.**  An install of an installed server that fails leaves the server as it
was exactly when every deed up to the failure was harmless. -/
theorem failed_install_intact_iff {ref : String} {e : Err} (h : Installed name row rec s)
    (htarget : ∀ ix m, wt.fetched = .ok ix → i.schema.resolve ix ref = .ok m → m.name = name)
    (hrun : run wt.answer (i.install ref) s = some (.error e, s')) :
    Intact name row rec s s' ↔ SparedBy wt i ref row rec s := by
  rw [IndexInstaller.install, run_bind, run_call] at hrun
  change run wt.answer (i.installFrom ref wt.fetched) s = _ at hrun
  unfold SparedBy
  cases hfetched : wt.fetched with
  | error e' =>
      rw [hfetched] at hrun
      cases hrun
      exact iff_of_true h.intact fun _ _ _ hix ↦ nomatch hix
  | ok ix =>
      rw [hfetched, IndexInstaller.installFrom] at hrun
      cases hresolve : i.schema.resolve ix ref with
      | error e' =>
          rw [hresolve] at hrun
          cases hrun
          refine iff_of_true h.intact ?_
          rintro _ m hash ⟨⟩ hm
          rw [hresolve] at hm
          cases hm
      | ok m =>
          rw [hresolve] at hrun
          obtain rfl : m.name = name := htarget ix m hfetched hresolve
          rw [installManifest_error_iff h hrun]
          constructor
          · rintro hspared _ m' hash ⟨⟩ hm
            obtain rfl : m = m' := Except.ok.inj (hresolve.symm.trans hm)
            exact hspared hash
          · intro hspared hash
            exact hspared ix m hash rfl hresolve

end Effects

/-! ## A rebuilt image

A toolpack server is installed, and the index then asks for one more right in the same
version, with a new image. -/

namespace Rebuilt

open Toolpack

/-- The first install goes through. -/
def installed : Site :=
  after (serves (manifest "d1" "one") fun _ ↦ ⟨bundle "v1" "one", bundle_foreign _ _⟩) start

def record : ManifestRecord :=
  ⟨"github", "1", "d1", "", "/app/server", "", "", "", throughColumn [], [], [], "one", "one"⟩

theorem installed_installed : Installed "github" row record installed := by
  refine ⟨⟨rfl, rfl⟩, by decide, "/data/servers/github@1/server", ?_, ?_⟩
  · decide
  · decide

/-- The index asks for one more right; the images cannot be reached. -/
def missed : Site := after (unreachable (manifest "d2" "two")) installed

/-- The index asks for one more right, and the image that was baked does not say so. -/
def tampered : Weather :=
  serves (manifest "d2" "two") fun _ ↦ ⟨bundle "v2" "one", bundle_foreign _ _⟩

def lost : Site := after tampered installed

end Rebuilt

open Toolpack Rebuilt in
/-- An image that cannot be pulled leaves the server alone. -/
theorem failed_install_intact_unreachable :
    (∃ e, run (unreachable (manifest "d2" "two")).answer (installer.install "github@1") installed =
        some (.error e, missed)) ∧
      (Intact "github" row record installed missed ↔
        SparedBy (unreachable (manifest "d2" "two")) installer "github@1" row record installed) ∧
      SparedBy (unreachable (manifest "d2" "two")) installer "github@1" row record installed := by
  have hrun : run (unreachable (manifest "d2" "two")).answer (installer.install "github@1") installed =
      some (.error (.new "oci: get: timeout"), missed) := rfl
  have hiff := failed_install_intact_iff installed_installed
    (by rintro _ m ⟨⟩ hm; cases hm; rfl) hrun
  exact ⟨⟨_, hrun⟩, hiff, hiff.mp ⟨⟨rfl, rfl⟩, fun _ _ ↦ rfl⟩⟩

open Toolpack Rebuilt in
/-- An image that is refused takes the running one with it: the install fails, the rows still
point to the directory of the version that was installed, and its binary is gone. -/
theorem refused_image_removes_artifact :
    Installed "github" row record installed ∧
      (∃ e, run tampered.answer (installer.install "github@1") installed = some (.error e, lost)) ∧
      lost.world.db.serverByName "github" = some row ∧
      Artifact row "/data/servers/github@1/server" ∧
      installed.files "/data/servers/github@1/server" = some ⟨"v1", 0o755⟩ ∧
      lost.files "/data/servers/github@1/server" = none ∧
      ¬ Intact "github" row record installed lost := by
  have hlost : lost.files "/data/servers/github@1/server" = none := by decide
  have hfile : installed.files "/data/servers/github@1/server" = some ⟨"v1", 0o755⟩ := by decide
  have hart : Artifact row "/data/servers/github@1/server" := by decide
  refine ⟨installed_installed, ⟨_, rfl⟩, rfl, hart, hfile, hlost, fun h ↦ ?_⟩
  have hsame := h.artifact _ hart
  rw [hfile, hlost] at hsame
  cases hsame

end GigMcp.Registry.Failure
