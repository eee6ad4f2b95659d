import GigMcp.Registry.Consent

/-!
# Consent moves by explicit acts

Installs and uninstalls run one after the other, and each may be cut off after any of its
calls.  A journal is kept of the consents that were recorded by an *explicit* install: one
with `AutoConsent`, or one that found no consent for its server when it started.

`RecordConsent` is the only statement that moves the consent of a row, and an install makes
it only when it is explicit.  So a consent on record is on the journal, wherever the
installs were cut off.
-/

namespace GigMcp.Registry.Journal

open GigMcp.Effect GigMcp.System GigMcp.Store

/-! ## Installs that may be cut off -/

/-- The consents recorded so far, a server and a hash each, after a call: `RecordConsent`
has recorded one if the row has it afterwards. -/
def note (w' : World) (n : List (String × String)) : Call → List (String × String)
  | .sql (.recordConsent s hash) =>
      if (w'.db.manifests.get? s).map ManifestRecord.consentedHash = some hash then (s, hash) :: n
      else n
  | _ => n

/-- Any call may fail, and recorded consents are noted. -/
def journalled (O : Outside) : Sem gateway (World × List (String × String)) := fun e x r y ↦
  sem O (fun _ ↦ True) e x.1 r y.1 ∧ y.2 = note y.1 x.2 e

/-- The world, and the consents that explicit installs have recorded. -/
structure State where
  world : World
  journal : List (String × String)

/-- Of the consents an install has recorded, those for servers whose consent it was free
to decide. -/
def explicit (autoConsent : Bool) (w : World) (n : List (String × String)) :
    List (String × String) :=
  n.filter fun x ↦ autoConsent ∨ consentedOf w x.1 = ""

inductive Act
  | install (autoConsent : Bool) (ref : String)
  | uninstall (name : String)

/-- An act runs up to some point: its end, a crash, or a call that fails. -/
def CutOff (O : Outside) (g : Setup) : Act → State → State → Prop
  | .install auto ref, x, y =>
      ∃ n, Visits (journalled O) ((g.installer auto).install ref) (x.world, []) (y.world, n) ∧
        y.journal = explicit auto x.world n ++ x.journal
  | .uninstall name, x, y =>
      Visits (sem O fun _ ↦ True) ((g.installer false).uninstall name) x.world y.world ∧
        y.journal = x.journal

/-- The consents on record are on the journal, and every row has a hash. -/
def Explained (w : World) (journal : List (String × String)) : Prop :=
  ∀ s rec, w.db.manifests.get? s = some rec →
    (rec.consentedHash = "" ∨ (s, rec.consentedHash) ∈ journal) ∧ rec.manifestHash ≠ ""

/-! ## What the calls of an install do -/

section Calls

variable {O : Outside} {faults : Call → Prop} {i : IndexInstaller} {m : Manifest} {hash : String}
  {prior : Option ManifestRecord} {e : Call} {r : e.Res} {w w' : World}

/-- What a call of an install does to the manifests: nothing, a write of the server's row
that keeps its consent, or the record of a consent it was free to decide. -/
theorem recordCall_cases (he : RecordCall i m hash prior e) (h : sem O faults e w r w') :
    (w'.db.manifests = w.db.manifests) ∨
    (∃ rec, (∀ k, k ≠ m.name → w'.db.manifests.get? k = w.db.manifests.get? k) ∧
      w'.db.manifests.get? m.name = some rec ∧ rec.manifestHash = hash ∧
      rec.consentedHash = consentedOf w m.name) ∨
    (e = .sql (.recordConsent m.name hash) ∧
      (i.autoConsent ∨ (prior.map ManifestRecord.consentedHash).getD "" = "") ∧
      ∀ k, w'.db.manifests.get? k =
        if k = m.name then (w.db.manifests.get? k).map fun rec ↦ { rec with consentedHash := hash }
        else w.db.manifests.get? k) := by
  cases he with
  | other he =>
      left
      have halike := sem_touches he h
      exact halike.tbl .manifests List.not_mem_nil
  | ensure binary bundleDir =>
      left
      have he : Writes [.servers] (.sql (.ensureServer m.name binary bundleDir)) :=
        List.Subset.refl _
      have hnot : Tbl.manifests ∉ [.servers] := by decide
      exact sem_writes he h hnot
  | put injections =>
      rcases sem_db h with hdb | ⟨c, hc, hdb⟩
      · exact .inl (by rw [hdb])
      · cases hc
        have hget := Sql.get?_putManifest (toRecord m injections hash) w.db
        rw [← hdb] at hget
        exact .inr (.inl ⟨_, fun k hk ↦ (hget k).trans (if_neg hk), (hget _).trans (if_pos rfl), rfl,
          rfl⟩)
  | consent hconsent =>
      rcases sem_db h with hdb | ⟨c, hc, hdb⟩
      · exact .inl (by rw [hdb])
      · cases hc
        have hget := Sql.get?_recordConsent m.name hash w.db
        rw [← hdb] at hget
        exact .inr (.inr ⟨rfl, hconsent, hget⟩)

end Calls

/-! ## How far an install gets -/

section Visits

variable {O : Outside} {i : IndexInstaller} {m : Manifest} {hash ref s : String}
  {prior : Option ManifestRecord} {w w₀ w' : World} {n : List (String × String)}
  {x y : World × List (String × String)}

/-- Every execution keeps a journal. -/
theorem exec_journalled {α : Type} {faults : Call → Prop} {p : Code α} {a : α}
    (hx : Exec (sem O faults) p w a w') (n : List (String × String)) :
    ∃ n', Exec (journalled O) p (w, n) a (w', n') := by
  induction p generalizing w n with
  | ret b =>
      obtain ⟨rfl, rfl⟩ := hx
      exact ⟨n, rfl, rfl⟩
  | vis e k ih =>
      obtain ⟨r, w₁, hr, hx⟩ := hx
      obtain ⟨n', hx⟩ := ih r hx (note w₁ n e)
      exact ⟨n', r, _, ⟨sem_mono (fun _ _ ↦ trivial) hr, rfl⟩, hx⟩

theorem subset_note (w' : World) (n : List (String × String)) (e : Call) : n ⊆ note w' n e := by
  unfold note
  split
  · split
    · exact List.subset_cons_self _ _
    · exact List.Subset.refl _
  · exact List.Subset.refl _

/-- An install that has done something has read the server's row and goes on over it. -/
theorem visits_installManifest
    (h : Visits (journalled O) (i.installManifest m) (w, n) y) :
    y = (w, n) ∨ ∃ hash, i.schema.runtimeHash m = .ok hash ∧
      Visits (journalled O) (i.installOver m hash (w.db.manifests.get? m.name)) (w, n) y := by
  unfold IndexInstaller.installManifest at h
  split at h
  · exact .inl h
  · split at h
    · exact .inl h
    · rename_i hash hhash
      rcases visits_call.mp h with rfl | ⟨r, x₁, ⟨hr, hnote⟩, h⟩
      · exact .inl rfl
      · obtain rfl : x₁ = (w, n) := Prod.ext (sem_reads rfl hr) hnote
        cases r with
        | ok rec =>
            have hrow : w.db.manifests.get? m.name = some rec :=
              Sql.fetch_eq_ok.mp (sem_read_ok hr rfl).1
            refine .inr ⟨hash, hhash, ?_⟩
            rw [hrow]
            exact h
        | error e =>
            dsimp only at h
            split at h
            · rename_i hmiss
              rw [← getManifest_missing hr hmiss] at h
              exact .inr ⟨hash, hhash, h⟩
            · exact .inl h

theorem visits_install (h : Visits (journalled O) (i.install ref) (w, n) y) :
    y = (w, n) ∨ ∃ m hash, i.schema.runtimeHash m = .ok hash ∧
      Visits (journalled O) (i.installOver m hash (w.db.manifests.get? m.name)) (w, n) y := by
  rcases visits_call.mp h with rfl | ⟨fetched, x₁, ⟨hr, hnote⟩, h⟩
  · exact .inl rfl
  obtain rfl : x₁ = (w, n) := Prod.ext hr.1 hnote
  unfold IndexInstaller.installFrom at h
  split at h
  · exact .inl h
  · split at h
    · exact .inl h
    · rename_i m _
      exact (visits_installManifest h).imp_right fun h ↦ ⟨m, h⟩

/-! ### What is on record is on the journal -/

theorem Explained.mono {journal journal' : List (String × String)} (h : Explained w journal)
    (hsub : journal ⊆ journal') (hrows : ∀ k rec, w'.db.manifests.get? k = some rec →
      w.db.manifests.get? k = some rec) : Explained w' journal' := fun k rec hrec ↦
  let ⟨hconsent, hhash⟩ := h k rec (hrows k rec hrec)
  ⟨hconsent.imp_right fun hmem ↦ hsub hmem, hhash⟩

/-- The journal while an install is under way. -/
abbrev soFar (i : IndexInstaller) (w₀ : World) (journal : List (String × String))
    (x : World × List (String × String)) : List (String × String) :=
  explicit i.autoConsent w₀ x.2 ++ journal

theorem recordCall_explained {journal : List (String × String)} {e : Call} {r : e.Res}
    (hprior : prior = w₀.db.manifests.get? m.name) (hhash : hash ≠ "")
    (he : RecordCall i m hash prior e) (hx : journalled O e x r y)
    (h : Explained x.1 (soFar i w₀ journal x)) : Explained y.1 (soFar i w₀ journal y) := by
  obtain ⟨hr, hnote⟩ := hx
  have hgrows : soFar i w₀ journal x ⊆ soFar i w₀ journal y := by
    refine List.append_subset.mpr ⟨fun z hz ↦ ?_, List.subset_append_right _ _⟩
    rw [soFar, hnote]
    obtain ⟨hmem, hfree⟩ := List.mem_filter.mp hz
    exact List.mem_append_left _ (List.mem_filter.mpr ⟨subset_note y.1 x.2 e hmem, hfree⟩)
  rcases recordCall_cases he hr with hsame | ⟨rec, hothers, hrow, hrechash, hconsent⟩ |
    ⟨rfl, hfree, hget⟩
  · exact h.mono hgrows fun k rec hrec ↦ hsame ▸ hrec
  · intro k rec' hrec'
    by_cases hk : k = m.name
    · subst hk
      rw [hrow, Option.some.injEq] at hrec'
      subst hrec'
      refine ⟨?_, hrechash ▸ hhash⟩
      rw [hconsent, consentedOf]
      cases hold : x.1.db.manifests.get? m.name with
      | none => exact .inl rfl
      | some old => exact (h _ old hold).1.imp_right fun hmem ↦ hgrows hmem
    · rw [hothers k hk] at hrec'
      obtain ⟨hold, hne⟩ := h k rec' hrec'
      exact ⟨hold.imp_right fun hmem ↦ hgrows hmem, hne⟩
  · intro k rec hrec
    by_cases hk : k = m.name
    · subst hk
      have hrow := hget m.name
      rw [if_pos rfl] at hrow
      rw [hrow] at hrec
      obtain ⟨old, hold, rfl⟩ := Option.map_eq_some_iff.mp hrec
      refine ⟨.inr (List.mem_append_left _ (List.mem_filter.mpr ⟨?_, ?_⟩)), (h _ old hold).2⟩
      · rw [hnote]
        show _ ∈ if _ then _ else _
        rw [if_pos (by rw [hrow, hold]; rfl)]
        exact .head _
      · rw [hprior] at hfree
        exact decide_eq_true hfree
    · rw [hget k, if_neg hk] at hrec
      obtain ⟨hold, hne⟩ := h k rec hrec
      exact ⟨hold.imp_right fun hmem ↦ hgrows hmem, hne⟩

/-- Wherever an install is cut off, the consents on record are on the journal. -/
theorem install_explained {journal : List (String × String)}
    (hhashes : ∀ m, i.schema.runtimeHash m ≠ .ok "") (hw : Explained w journal)
    (h : Visits (journalled O) (i.install ref) (w, []) y) :
    Explained y.1 (soFar i w journal y) := by
  rcases visits_install h with rfl | ⟨m, hash, hhash, h⟩
  · exact hw
  · have hne : hash ≠ "" := fun hempty ↦ hhashes m (hempty ▸ hhash)
    refine All.frame_visits
      (ρ := fun x y ↦ Explained x.1 (soFar i w journal x) → Explained y.1 (soFar i w journal y))
      ?_ ?_ ?_ (installOver_calls i m hash _) h hw
    · exact fun _ ↦ id
    · exact fun _ _ _ h h' ↦ h' ∘ h
    · exact fun e x r y he hx ↦ recordCall_explained rfl hne he hx

theorem uninstall_explained {journal : List (String × String)} {name : String}
    (hw : Explained w journal) (h : Visits (sem O fun _ ↦ True) (i.uninstall name) w w') :
    Explained w' journal := by
  refine All.frame_visits (ρ := fun w w' ↦ Explained w journal → Explained w' journal)
    ?_ ?_ ?_ (uninstall_calls i name) h hw
  · exact fun _ ↦ id
  · exact fun _ _ _ h h' ↦ h' ∘ h
  · intro e w r w' he hr hw
    refine hw.mono (List.Subset.refl _) fun k rec hrec ↦ ?_
    cases he with
    | other he =>
        have halike := sem_touches he hr
        have hsame : w'.db.manifests = w.db.manifests := halike.tbl .manifests (by decide)
        rwa [hsame] at hrec
    | server =>
        have he : Writes [.servers] (.sql (.deleteServer name)) := List.Subset.refl _
        have hnot : Tbl.manifests ∉ [.servers] := by decide
        have hsame : w'.db.manifests = w.db.manifests := sem_writes he hr hnot
        rwa [hsame] at hrec
    | manifest =>
        rcases sem_db hr with hdb | ⟨c, hc, hdb⟩
        · rwa [hdb] at hrec
        · cases hc
          rw [hdb, Sql.get?_deleteManifest] at hrec
          split at hrec
          · cases hrec
          · exact hrec

/-! ### Installs that are not explicit -/

theorem installOver_keeps_consent (hauto : i.autoConsent = false) (hs : consentedOf w s ≠ "")
    (h : Visits (journalled O) (i.installOver m hash (w.db.manifests.get? m.name)) (w, n) y) :
    consentedOf y.1 s = consentedOf w s := by
  refine All.frame_visits (ρ := fun x y ↦ consentedOf y.1 s = consentedOf x.1 s)
    ?_ ?_ ?_ (installOver_calls i m hash _) h
  · exact fun _ ↦ rfl
  · exact fun _ _ _ h h' ↦ h'.trans h
  · intro e x r y he hx
    rcases recordCall_cases he hx.1 with hsame | ⟨rec, hothers, hrow, -, hconsent⟩ |
      ⟨-, hfree, hget⟩
    · rw [consentedOf, hsame, consentedOf]
    · by_cases hk : s = m.name
      · subst hk
        rw [consentedOf, hrow]
        exact hconsent
      · rw [consentedOf, hothers s hk, consentedOf]
    · by_cases hk : s = m.name
      · subst hk
        rw [hauto] at hfree
        exact absurd (hfree.resolve_left Bool.false_ne_true) hs
      · rw [consentedOf, hget s, if_neg hk, consentedOf]

theorem installManifest_keeps_consent (hauto : i.autoConsent = false)
    (hs : consentedOf w s ≠ "") (h : Visits (journalled O) (i.installManifest m) (w, n) y) :
    consentedOf y.1 s = consentedOf w s := by
  rcases visits_installManifest h with rfl | ⟨hash, -, h⟩
  · rfl
  · exact installOver_keeps_consent hauto hs h

/-- An install without `AutoConsent` leaves a consent that is on record alone. -/
theorem install_keeps_consent (hauto : i.autoConsent = false) (hs : consentedOf w s ≠ "")
    (h : Visits (journalled O) (i.install ref) (w, n) y) :
    consentedOf y.1 s = consentedOf w s := by
  rcases visits_install h with rfl | ⟨m, hash, -, h⟩
  · rfl
  · exact installOver_keeps_consent hauto hs h

/-- A completed install under the hash that is on record, without `AutoConsent`: the row
needs consent if it did before. -/
theorem install_keeps_needsReconsent {faults : Call → Prop} {ix : Index} {srv : Server}
    {rec : ManifestRecord} (hauto : i.autoConsent = false) (hresolve : i.schema.resolve ix ref = .ok m)
    (hrec : w.db.manifests.get? m.name = some rec) (hconsented : rec.consentedHash ≠ "")
    (hhash : i.schema.runtimeHash m = .ok rec.manifestHash)
    (hx : Exec (sem O faults) (i.installFrom ref (.ok ix)) w (.ok srv) w') :
    ∃ rec', w'.db.manifests.get? m.name = some rec' ∧
      rec'.needsReconsent = rec.needsReconsent := by
  have hinstall : i.installFrom ref (.ok ix) = i.installManifest m := by
    simp only [IndexInstaller.installFrom, hresolve]
  rw [hinstall] at hx
  have hof : consentedOf w m.name = rec.consentedHash := by rw [consentedOf, hrec]; rfl
  have hkept : consentedOf w' m.name = rec.consentedHash := by
    obtain ⟨n, hx'⟩ := exec_journalled hx []
    rw [← hof]
    exact installManifest_keeps_consent hauto (hof ▸ hconsented) hx'.visits
  have hwritten : ∃ rec', w'.db.manifests.get? m.name = some rec' ∧
      rec'.manifestHash = rec.manifestHash := by
    rcases exec_installManifest hx with hkept | ⟨hash, hhash', ⟨hw, -⟩ | ⟨w₁, ha, hx₁⟩⟩
    · exact ⟨rec, hkept.manifests ▸ hrec, rfl⟩
    · obtain rfl : hash = rec.manifestHash := Except.ok.inj (hhash'.symm.trans hhash)
      obtain ⟨rec', hrec', hrechash, -⟩ := hw.row
      exact ⟨rec', hrec', hrechash⟩
    · obtain rfl : hash = rec.manifestHash := Except.ok.inj (hhash'.symm.trans hhash)
      have hsame : w₁.db.manifests = w.db.manifests := ha.tbl .manifests List.not_mem_nil
      rcases exec_record hx₁ with hkept | hw
      · exact ⟨rec, by rw [hkept.manifests, hsame, hrec], rfl⟩
      · obtain ⟨rec', hrec', hrechash, -⟩ := hw.row
        exact ⟨rec', hrec', hrechash⟩
  obtain ⟨rec', hrec', hrechash⟩ := hwritten
  refine ⟨rec', hrec', ?_⟩
  have hcons : rec'.consentedHash = rec.consentedHash := by
    rw [consentedOf, hrec'] at hkept
    exact hkept
  rw [ManifestRecord.needsReconsent, hrechash, hcons, ManifestRecord.needsReconsent]

end Visits

/-! ## Runs -/

section Runs

variable {O : Outside} {g : Setup} {x y : State}

theorem cutOff_explained {act : Act} (hhashes : ∀ m, g.schema.runtimeHash m ≠ .ok "")
    (hx : Explained x.world x.journal) (h : CutOff O g act x y) :
    Explained y.world y.journal := by
  cases act with
  | install auto ref =>
      obtain ⟨n, hvisits, hjournal⟩ := h
      rw [hjournal]
      exact install_explained (i := g.installer auto) hhashes hx hvisits
  | uninstall name =>
      obtain ⟨hvisits, hjournal⟩ := h
      rw [hjournal]
      exact uninstall_explained hx hvisits

/-- An install without `AutoConsent`. -/
def Act.Unattended : Act → Prop
  | .install auto _ => auto = false
  | .uninstall _ => False

theorem cutOff_keeps_consent {act : Act} {s : String} (hact : act.Unattended)
    (hs : consentedOf x.world s ≠ "") (h : CutOff O g act x y) :
    consentedOf y.world s = consentedOf x.world s := by
  cases act with
  | install auto ref =>
      obtain ⟨n, hvisits, -⟩ := h
      exact install_keeps_consent (i := g.installer auto) hact hs hvisits
  | uninstall name => exact hact.elim

/-- However often installs without `AutoConsent` are repeated and cut off. -/
theorem run_keeps_consent {s : String} (hs : consentedOf x.world s ≠ "")
    (hrun : Run (CutOff O g) (fun act _ ↦ act.Unattended) x y) :
    consentedOf y.world s = consentedOf x.world s := by
  refine hrun.invariant (I := fun y ↦ consentedOf y.world s = consentedOf x.world s) ?_ rfl
  intro act y z hy hact hstep
  exact (cutOff_keeps_consent hact (hy ▸ hs) hstep).trans hy

/-- In every run of installs and uninstalls that may each be cut off after any of their
calls, from a state whose consents are explained:
a row whose manifest is consented to has its hash from an explicit install;
installs without `AutoConsent` never change a consent that is there; and such an install,
completed, under the hash on record leaves the need for consent as it was. -/
theorem consent_moves_explicitly (hhashes : ∀ m, g.schema.runtimeHash m ≠ .ok "")
    (hx : Explained x.world x.journal) (hrun : Run (CutOff O g) (fun _ _ ↦ True) x y) :
    (∀ s rec, y.world.db.manifests.get? s = some rec → rec.manifestHash = rec.consentedHash →
      (s, rec.manifestHash) ∈ y.journal) ∧
    (∀ s z, consentedOf y.world s ≠ "" →
      Run (CutOff O g) (fun act _ ↦ act.Unattended) y z →
        consentedOf z.world s = consentedOf y.world s) ∧
    ∀ faults ix ref m rec srv w', g.schema.resolve ix ref = .ok m →
      y.world.db.manifests.get? m.name = some rec → rec.consentedHash ≠ "" →
      g.schema.runtimeHash m = .ok rec.manifestHash →
      Exec (sem O faults) ((g.installer false).installFrom ref (.ok ix)) y.world (.ok srv) w' →
        ∃ rec', w'.db.manifests.get? m.name = some rec' ∧
          rec'.needsReconsent = rec.needsReconsent := by
  have hy : Explained y.world y.journal :=
    hrun.invariant (I := fun y ↦ Explained y.world y.journal)
      (fun _ _ _ h _ hstep ↦ cutOff_explained hhashes h hstep) hx
  refine ⟨fun s rec hrec hsame ↦ ?_, fun s z hs hrun' ↦ run_keeps_consent hs hrun', ?_⟩
  · obtain ⟨hconsent, hne⟩ := hy s rec hrec
    rw [hsame] at hne ⊢
    exact hconsent.resolve_left hne
  · intro faults ix ref m rec srv w' hresolve hrec hconsented hhash hx
    exact install_keeps_needsReconsent (i := g.installer false) rfl hresolve hrec hconsented hhash hx

end Runs

namespace FirstInstall

open GigMcp.Registry.Example

/-- The local partners, with a journal. -/
def answer : (e : Call) → World × List (String × String) →
    Option (e.Res × World × List (String × String)) := fun e x ↦
  (partners.answer e x.1).map fun z ↦ (z.1, z.2, note z.2 x.2 e)

theorem answer_sem {e : Call} {x y : World × List (String × String)} {r : e.Res}
    (h : answer e x = some (r, y)) : journalled Partners.outside e x r y := by
  obtain ⟨z, hz, heq⟩ := Option.map_eq_some_iff.mp h
  cases heq
  exact ⟨partners.answer_sem hz _, rfl⟩

/-- Version 1 is installed through the API. -/
def first : State :=
  match run answer ((setup.installer false).install "github@1") (.boot .fresh 0, []) with
  | some (_, w, n) => ⟨w, n⟩
  | none => ⟨.boot .fresh 0, []⟩

theorem cutOff_first : CutOff Partners.outside setup (.install false "github@1")
    ⟨.boot .fresh 0, []⟩ first := by
  refine ⟨[("github", "hash1")], Exec.visits (a := .ok ⟨1, "github", "/data/servers/github@1/server",
    ""⟩) ?_, rfl⟩
  exact exec_run (fun _ _ _ _ h ↦ answer_sem h) rfl

theorem setup_hashes (m : Manifest) : setup.schema.runtimeHash m ≠ .ok "" := by
  intro h
  have htext : ("hash" ++ m.version).toList = "".toList := congrArg String.toList (Except.ok.inj h)
  rw [String.toList_append] at htext
  exact absurd (List.append_eq_nil_iff.mp htext).1 (by decide)

end FirstInstall

open FirstInstall GigMcp.Registry.Example in
/-- A first install through the API is the consent, and is on the journal. -/
theorem consent_moves_explicitly_github :
    ∃ rec, first.world.db.manifests.get? "github" = some rec ∧
      rec.manifestHash = rec.consentedHash ∧ ("github", rec.manifestHash) ∈ first.journal := by
  have hrun : Run (CutOff Partners.outside setup) (fun _ _ ↦ True) ⟨.boot .fresh 0, []⟩ first :=
    .tail .refl trivial cutOff_first
  have hstart : Explained (.boot .fresh 0) [] := fun s rec hrec ↦
    absurd (Data.Table.mem_of_get? hrec) List.not_mem_nil
  exact ⟨_, rfl, rfl, (consent_moves_explicitly setup_hashes hstart hrun).1 "github" _ rfl rfl⟩

end GigMcp.Registry.Journal
