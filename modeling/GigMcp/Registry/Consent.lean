import GigMcp.Gateway.Cap
import GigMcp.Gateway.ProfileHost
import GigMcp.Registry.Frame

/-!
# Installs, consent and running sandboxes

Consent is checked when a sandbox is spawned, and the manifest is read again at
every CONNECT.  The invariant that ties the two together is `Consented`: the
manifest row of every server with a running sandbox is the one that was consented
to.  An upgrade through the API breaks it, since it replaces the manifest under
the sandboxes that run and leaves the old consent in place.
-/

namespace GigMcp.Registry

open GigMcp.Effect GigMcp.System GigMcp.Store GigMcp.Data GigMcp.Gateway

variable {O : Outside} {faults : Call → Prop} {w w₁ w' : World} {s hash : String}

/-! ## What an install does to the manifests -/

/-- The consent on record for a server. -/
def consentedOf (w : World) (s : String) : String :=
  ((w.db.manifests.get? s).map ManifestRecord.consentedHash).getD ""

/-- The manifests and the sandboxes stayed as they were. -/
structure Kept (w w' : World) : Prop where
  manifests : w'.db.manifests = w.db.manifests
  spawned : w'.spawned = w.spawned
  cleaned : w'.cleaned = w.cleaned

/-- One server's manifest was written under a hash.  The consent on record is the one
that was there, or the new one. -/
structure Written (s hash : String) (w w' : World) : Prop where
  others : ∀ k, k ≠ s → w'.db.manifests.get? k = w.db.manifests.get? k
  row : ∃ rec, w'.db.manifests.get? s = some rec ∧ rec.manifestHash = hash ∧
    (rec.consentedHash = hash ∨ rec.consentedHash = consentedOf w s)
  spawned : w'.spawned = w.spawned
  cleaned : w'.cleaned = w.cleaned

theorem Kept.refl (w : World) : Kept w w := ⟨rfl, rfl, rfl⟩

theorem Kept.trans (h : Kept w w₁) (h' : Kept w₁ w') : Kept w w' :=
  ⟨h'.manifests.trans h.manifests, h'.spawned.trans h.spawned, h'.cleaned.trans h.cleaned⟩

theorem kept_of_alike {ts : List Tbl} (hts : Tbl.manifests ∉ ts) (h : Alike ts w w') : Kept w w' :=
  ⟨h.tbl .manifests hts, h.spawned, h.cleaned⟩

theorem Kept.written (h : Kept w w₁) (h' : Written s hash w₁ w') : Written s hash w w' where
  others k hk := by rw [h'.others k hk, h.manifests]
  row := by
    have hc : consentedOf w₁ s = consentedOf w s := by rw [consentedOf, h.manifests, consentedOf]
    rw [← hc]
    exact h'.row
  spawned := h'.spawned.trans h.spawned
  cleaned := h'.cleaned.trans h.cleaned

theorem Written.kept (h : Written s hash w w₁) (h' : Kept w₁ w') : Written s hash w w' where
  others k hk := by rw [h'.manifests, h.others k hk]
  row := by
    rw [h'.manifests]
    exact h.row
  spawned := h'.spawned.trans h.spawned
  cleaned := h'.cleaned.trans h.cleaned

/-- `PutManifest` keeps the consent on record. -/
theorem putManifest_written {rec : ManifestRecord} (hs : rec.server = s)
    (hhash : rec.manifestHash = hash) :
    Written s hash w { w with db := ((Sql.putManifest rec).apply w.db).2 } where
  others k hk := by
    subst hs
    exact (Sql.get?_putManifest rec w.db k).trans (if_neg hk)
  row := by
    subst hs
    exact ⟨_, (Sql.get?_putManifest rec w.db _).trans (if_pos rfl), hhash, .inr rfl⟩
  spawned := rfl
  cleaned := rfl

theorem sem_putManifest {rec : ManifestRecord} {r : Except Err Unit}
    (hs : rec.server = s) (hhash : rec.manifestHash = hash)
    (h : sem O faults (.sql (.putManifest rec)) w r w') :
    (Kept w w' ∧ ∃ e, r = .error e) ∨ Written s hash w w' := by
  rcases h with ⟨-, rfl⟩ | ⟨-, ⟨e, rfl, -⟩, rfl | rfl⟩
  · exact .inr (putManifest_written hs hhash)
  · exact .inl ⟨.refl _, e, rfl⟩
  · exact .inr (putManifest_written hs hhash)

theorem recordConsent_row {rec : ManifestRecord} (hrow : w.db.manifests.get? s = some rec) :
    ((Sql.recordConsent s hash).apply w.db).2.manifests.get? s =
      some { rec with consentedHash := hash } := by
  rw [Sql.get?_recordConsent, if_pos rfl, hrow]
  rfl

theorem recordConsent_others {k : String} (hk : k ≠ s) :
    ((Sql.recordConsent s hash).apply w.db).2.manifests.get? k = w.db.manifests.get? k := by
  rw [Sql.get?_recordConsent, if_neg hk]

/-- Recording consent to the hash that was written. -/
theorem recordConsent_written (h : Written s hash w w₁) :
    Written s hash w { w₁ with db := ((Sql.recordConsent s hash).apply w₁.db).2 } where
  others k hk := (recordConsent_others hk).trans (h.others k hk)
  row := by
    obtain ⟨rec, hrow, hhash, -⟩ := h.row
    exact ⟨_, recordConsent_row hrow, hhash, .inl rfl⟩
  spawned := h.spawned
  cleaned := h.cleaned

section Install

variable {i : IndexInstaller} {m : Manifest} {prior : Option ManifestRecord}

theorem exec_buildInjections {cs : List Credential} {r : Except Err (List Injection)}
    (hx : Exec (sem O faults) (buildInjections prior cs) w r w') : Kept w w' :=
  kept_of_alike List.not_mem_nil (exec_touches (buildInjections_touches prior cs) hx)

theorem exec_ensureRow {r : Except Err Server} (hx : Exec (sem O faults) (i.ensureRow m) w r w') :
    Kept w w' := by
  have htouches : All (Touches [.servers]) (i.ensureRow m) :=
    ensureRow_touches List.mem_cons_self i m
  exact kept_of_alike (by decide) (exec_touches htouches hx)

theorem exec_maybeConsent {r : Except Err Unit} (h : Written s hash w w₁)
    (hx : Exec (sem O faults) (i.maybeConsent s hash prior) w₁ r w') : Written s hash w w' := by
  unfold IndexInstaller.maybeConsent at hx
  split at hx
  · rcases exec_call_iff.mp hx with ⟨-, rfl⟩ | ⟨-, -, rfl | rfl⟩
    · exact recordConsent_written h
    · exact h
    · exact recordConsent_written h
  · obtain ⟨-, rfl⟩ := hx
    exact h

/-- Both ways to record an install leave the manifests alone or write the server's
row under the hash. -/
theorem exec_record {r : Except Err Server}
    (hx : Exec (sem O faults) (i.record m hash prior) w r w') :
    Kept w w' ∨ Written m.name hash w w' := by
  obtain ⟨r₁, w₁, h₁, hx₁⟩ := exec_bind.mp hx
  have hkept := exec_buildInjections h₁
  cases r₁ with
  | error e =>
      obtain ⟨-, rfl⟩ := hx₁
      exact .inl hkept
  | ok injections =>
      obtain ⟨r₂, w₂, h₂, hx₂⟩ := exec_call.mp hx₁
      rcases sem_putManifest rfl rfl h₂ with ⟨hkept₂, e, rfl⟩ | hwritten
      · obtain ⟨-, rfl⟩ := hx₂
        exact .inl (hkept.trans hkept₂)
      · right
        have hwritten : Written m.name hash w w₂ := hkept.written hwritten
        cases r₂ with
        | error e =>
            obtain ⟨-, rfl⟩ := hx₂
            exact hwritten
        | ok _ =>
            obtain ⟨r₃, w₃, h₃, hx₃⟩ := exec_bind.mp hx₂
            have hwritten₃ := hwritten.kept (exec_ensureRow h₃)
            cases r₃ with
            | error e =>
                obtain ⟨-, rfl⟩ := hx₃
                exact hwritten₃
            | ok srv =>
                obtain ⟨r₄, w₄, h₄, hx₄⟩ := exec_bind.mp hx₃
                have hwritten₄ := exec_maybeConsent hwritten₃ h₄
                cases r₄ with
                | error e =>
                    obtain ⟨-, rfl⟩ := hx₄
                    exact hwritten₄
                | ok _ =>
                    obtain ⟨-, rfl⟩ := hx₄
                    exact hwritten₄

theorem exec_refresh {r : Except Err Server}
    (hx : Exec (sem O faults) (i.refresh m hash prior) w r w') :
    Kept w w' ∨ Written m.name hash w w' := by
  obtain ⟨r₁, w₁, h₁, hx₁⟩ := exec_bind.mp hx
  have hkept := exec_ensureRow h₁
  cases r₁ with
  | error e =>
      obtain ⟨-, rfl⟩ := hx₁
      exact .inl hkept
  | ok srv =>
      obtain ⟨r₂, w₂, h₂, hx₂⟩ := exec_bind.mp hx₁
      have hkept₂ := hkept.trans (exec_buildInjections h₂)
      cases r₂ with
      | error e =>
          obtain ⟨-, rfl⟩ := hx₂
          exact .inl hkept₂
      | ok injections =>
          obtain ⟨r₃, w₃, h₃, hx₃⟩ := exec_call.mp hx₂
          rcases sem_putManifest rfl rfl h₃ with ⟨hkept₃, e, rfl⟩ | hwritten
          · obtain ⟨-, rfl⟩ := hx₃
            exact .inl (hkept₂.trans hkept₃)
          · right
            have hwritten : Written m.name hash w w₃ := hkept₂.written hwritten
            cases r₃ with
            | error e =>
                obtain ⟨-, rfl⟩ := hx₃
                exact hwritten
            | ok _ =>
                obtain ⟨r₄, w₄, h₄, hx₄⟩ := exec_bind.mp hx₃
                have hwritten₄ := exec_maybeConsent hwritten h₄
                cases r₄ with
                | error e =>
                    obtain ⟨-, rfl⟩ := hx₄
                    exact hwritten₄
                | ok _ =>
                    obtain ⟨-, rfl⟩ := hx₄
                    exact hwritten₄

theorem exec_alreadyInstalled {b : Bool}
    (hx : Exec (sem O faults) (i.alreadyInstalled m hash prior) w b w') :
    w' = w ∧ (b = true → ∃ rec, prior = some rec ∧ rec.manifestHash = hash) := by
  unfold IndexInstaller.alreadyInstalled at hx
  split at hx
  · rename_i hsame
    refine ⟨exec_call_iff.mp hx, fun _ ↦ ?_⟩
    rw [Option.any_eq_true] at hsame
    obtain ⟨rec, hrec, hsame⟩ := hsame
    exact ⟨rec, hrec, (of_decide_eq_true hsame).2⟩
  · obtain ⟨rfl, rfl⟩ := hx
    exact ⟨rfl, fun h ↦ nomatch h⟩

/-- An install over a prior record: nothing, a refresh of the same hash, or the records
of a full install. -/
theorem exec_installOver {r : Except Err Server}
    (hx : Exec (sem O faults) (i.installOver m hash prior) w r w') :
    Kept w w' ∨
      (Written m.name hash w w' ∧ ∃ rec, prior = some rec ∧ rec.manifestHash = hash) ∨
      ∃ w₁, Alike [] w w₁ ∧ Exec (sem O faults) (i.record m hash prior) w₁ r w' := by
  obtain ⟨b, w₁, h₁, hx₁⟩ := exec_bind.mp hx
  obtain ⟨rfl, hsame⟩ := exec_alreadyInstalled h₁
  cases b with
  | true =>
      rcases exec_refresh hx₁ with h | h
      · exact .inl h
      · exact .inr (.inl ⟨h, hsame rfl⟩)
  | false =>
      obtain ⟨r₂, w₂, h₂, hx₂⟩ := exec_bind.mp hx₁
      have halike : Alike [] w₁ w₂ := exec_touches (pull_touches i m) h₂
      cases r₂ with
      | error e =>
          obtain ⟨-, rfl⟩ := hx₂
          exact .inl (kept_of_alike List.not_mem_nil halike)
      | ok _ => exact .inr (.inr ⟨w₂, halike, hx₂⟩)

/-- `ErrManifestNotFound` says that there is no row. -/
theorem getManifest_missing {e : Err} (h : sem O faults (.sql (.getManifest s)) w (.error e) w')
    (hmiss : e.is .manifestNotFound = true) : w.db.manifests.get? s = none := by
  rcases sem_reads_answer h with h | ⟨e', he', hforeign⟩
  · exact (Sql.fetch_eq_error.mp h.symm).1
  · cases he'
    rw [hforeign.is_eq_false id] at hmiss
    cases hmiss

/-- What an install of a manifest comes to. -/
theorem exec_installManifest {r : Except Err Server}
    (hx : Exec (sem O faults) (i.installManifest m) w r w') :
    Kept w w' ∨ ∃ hash, i.schema.runtimeHash m = .ok hash ∧
      (Written m.name hash w w' ∧
          (∃ rec, w.db.manifests.get? m.name = some rec ∧ rec.manifestHash = hash) ∨
        ∃ w₁, Alike [] w w₁ ∧
          Exec (sem O faults) (i.record m hash (w.db.manifests.get? m.name)) w₁ r w') := by
  unfold IndexInstaller.installManifest at hx
  split at hx
  · obtain ⟨-, rfl⟩ := hx
    exact .inl (.refl _)
  · split at hx
    · obtain ⟨-, rfl⟩ := hx
      exact .inl (.refl _)
    · rename_i hash hhash
      obtain ⟨r₁, w₁, h₁, hx₁⟩ := exec_call.mp hx
      obtain rfl : w₁ = w := sem_reads rfl h₁
      cases r₁ with
      | error e =>
          dsimp only at hx₁
          split at hx₁
          · rename_i hmiss
            rw [getManifest_missing h₁ hmiss]
            rcases exec_installOver hx₁ with h | ⟨-, rec, hrec, -⟩ | h
            · exact .inl h
            · cases hrec
            · exact .inr ⟨hash, hhash, .inr h⟩
          · obtain ⟨-, rfl⟩ := hx₁
            exact .inl (.refl _)
      | ok rec =>
          have hprior : w₁.db.manifests.get? m.name = some rec :=
            Sql.fetch_eq_ok.mp (sem_read_ok h₁ rfl).1
          rw [hprior]
          rcases exec_installOver hx₁ with h | ⟨h, rec', hrec', hsame⟩ | h
          · exact .inl h
          · exact .inr ⟨hash, hhash, .inl ⟨h, rec', hrec', hsame⟩⟩
          · exact .inr ⟨hash, hhash, .inr h⟩

/-! ## Installs that are the consent -/

/-- The statements that record an install and its consent do not fail. -/
structure WritesSucceed (faults : Call → Prop) (s : String) : Prop where
  put : ∀ rec : ManifestRecord, rec.server = s → ¬ faults (.sql (.putManifest rec))
  ensure : ∀ binary bundleDir, ¬ faults (.sql (.ensureServer s binary bundleDir))
  consent : ∀ hash, ¬ faults (.sql (.recordConsent s hash))

/-- The server has a row, or the ids have not run out. -/
def HasRoom (db : Database) (s : String) : Prop :=
  (db.serverByName s).isSome ∨ db.servers.seq + 1 < 2 ^ 63

theorem ensureServer_ok {db : Database} (h : HasRoom db s) (binary bundleDir : String) :
    ∃ srv, (db.ensureServer s binary bundleDir).1 = .ok srv := by
  unfold Database.ensureServer
  rcases h with h | h
  · obtain ⟨srv, hsrv⟩ := Option.isSome_iff_exists.mp h
    rw [hsrv]
    exact ⟨_, rfl⟩
  · split
    · exact ⟨_, rfl⟩
    · rw [AutoTable.insert, dif_pos h]
      exact ⟨_, rfl⟩

theorem exec_ensureRow_ok (hf : WritesSucceed faults m.name) (hroom : HasRoom w.db m.name)
    {r : Except Err Server} (hx : Exec (sem O faults) (i.ensureRow m) w r w') :
    ∃ srv, r = .ok srv := by
  unfold IndexInstaller.ensureRow at hx
  dsimp only at hx
  split at hx
  · have h := (sem_healthy (hf.ensure _ _)).mp (exec_call_iff.mp hx)
    rw [h.1]
    exact ensureServer_ok hroom _ _
  · have h := (sem_healthy (hf.ensure _ _)).mp (exec_call_iff.mp hx)
    rw [h.1]
    exact ensureServer_ok hroom _ _

/-- The record was written and is the one consented to. -/
def WrittenConsented (s hash : String) (w w' : World) : Prop :=
  Written s hash w w' ∧
    ∃ rec, w'.db.manifests.get? s = some rec ∧ rec.manifestHash = hash ∧ rec.consentedHash = hash

/-- A full install that is itself the consent, when its statements do not fail. -/
theorem exec_record_consented (hf : WritesSucceed faults m.name) (hroom : HasRoom w.db m.name)
    (hconsent : i.autoConsent ∨ (prior.map ManifestRecord.consentedHash).getD "" = "")
    {r : Except Err Server} (hx : Exec (sem O faults) (i.record m hash prior) w r w') :
    Kept w w' ∨ WrittenConsented m.name hash w w' := by
  obtain ⟨r₁, w₁, h₁, hx₁⟩ := exec_bind.mp hx
  have hkept := exec_buildInjections h₁
  cases r₁ with
  | error e =>
      obtain ⟨-, rfl⟩ := hx₁
      exact .inl hkept
  | ok injections =>
      right
      obtain ⟨r₂, w₂, h₂, hx₂⟩ := exec_call.mp hx₁
      obtain ⟨rfl, rfl⟩ := (sem_healthy (hf.put _ rfl)).mp h₂
      obtain ⟨r₃, w₃, h₃, hx₃⟩ := exec_bind.mp hx₂
      have hwritten : Written m.name hash w w₃ :=
        (hkept.written (putManifest_written rfl rfl)).kept (exec_ensureRow h₃)
      have halike : Alike [] w w₁ := exec_touches (buildInjections_touches _ _) h₁
      have hservers : w₁.db.servers = w.db.servers := halike.tbl .servers List.not_mem_nil
      have hroom₁ : HasRoom ((Sql.putManifest (toRecord m injections hash)).apply w₁.db).2
          m.name := by
        show (w₁.db.serverByName m.name).isSome ∨ w₁.db.servers.seq + 1 < 2 ^ 63
        rw [Database.serverByName, hservers]
        exact hroom
      obtain ⟨srv, rfl⟩ := exec_ensureRow_ok (w := { w₁ with db := _ }) hf hroom₁ h₃
      obtain ⟨r₄, w₄, h₄, hx₄⟩ := exec_bind.mp hx₃
      have hw : w' = w₄ := by
        cases r₄ with
        | error e => exact hx₄.2
        | ok _ => exact hx₄.2
      subst hw
      rw [IndexInstaller.maybeConsent, if_pos hconsent] at h₄
      obtain ⟨-, rfl⟩ := (sem_healthy (hf.consent hash)).mp (exec_call_iff.mp h₄)
      refine ⟨recordConsent_written hwritten, ?_⟩
      obtain ⟨rec, hrow, hhash, -⟩ := hwritten.row
      exact ⟨_, recordConsent_row hrow, hhash, rfl⟩

end Install

/-! ## Running sandboxes -/

/-- A sandbox that was spawned and not cleaned up. -/
def Running (w : World) (b : EgressBackend) : Prop := b ∈ w.spawned ∧ b ∉ w.cleaned

/-- The manifest row of every server with a running sandbox is the one consented
to. -/
def Consented (w : World) : Prop :=
  ∀ b, Running w b → ∀ rec, w.db.manifests.get? b.server = some rec →
    rec.manifestHash = rec.consentedHash

theorem Kept.consented (h : Kept w w') (hc : Consented w) : Consented w' := by
  intro b hb rec hrec
  rw [Running, h.spawned, h.cleaned] at hb
  rw [h.manifests] at hrec
  exact hc b hb rec hrec

/-- A write of one server's row keeps the invariant if that row ends up as the one
consented to, or nothing runs under it. -/
theorem Written.consented (h : Written s hash w w') (hc : Consented w)
    (hs : (∃ b, Running w b ∧ b.server = s) → ∀ rec, w'.db.manifests.get? s = some rec →
      rec.manifestHash = rec.consentedHash) : Consented w' := by
  intro b hb rec hrec
  rw [Running, h.spawned, h.cleaned] at hb
  by_cases hbs : b.server = s
  · rw [hbs] at hrec
    exact hs ⟨b, hb, hbs⟩ rec hrec
  · rw [h.others _ hbs] at hrec
    exact hc b hb rec hrec

/-- What may happen to the gateway: an install with the index that was fetched, on
the API path or the boot path; a consent; a spawn; a CONNECT of a sandbox; and the end
of a sandbox. -/
inductive Event
  | install (autoConsent : Bool) (fetched : Except Err Index) (ref : String)
  | recordConsent (server hash : String)
  | spawn (srv : Server) (tenant : String)
  | connect (b : EgressBackend) (host : String)
  | stop (b : EgressBackend)

/-- An event, and the calls that may fail while it is handled. -/
structure Turn where
  faults : Call → Prop
  event : Event

/-- The parts of the gateway that a run does not change. -/
structure Setup where
  schema : Schema
  dataDir : String
  resolver : CredResolver

/-- The installer of the API path or of the boot path. -/
def Setup.installer (g : Setup) (autoConsent : Bool) : IndexInstaller :=
  ⟨g.schema, g.dataDir, autoConsent⟩

/-- The identity that the address of a sandbox is bound to. -/
def identity (b : EgressBackend) : Identity := ⟨b.server, b.tenant⟩

/-- What the gateway does with an event. -/
def Handled (O : Outside) (g : Setup) : Turn → World → World → Prop
  | ⟨faults, .install auto fetched ref⟩, w, w' =>
      ∃ r, Exec (sem O faults) ((g.installer auto).installFrom ref fetched) w r w'
  | ⟨faults, .recordConsent s hash⟩, w, w' =>
      ∃ r, Exec (sem O faults) (sql (.recordConsent s hash)) w r w'
  | ⟨faults, .spawn srv tenant⟩, w, w' =>
      ∃ r, Exec (sem O faults) (spawnBackend srv tenant) w r w'
  | ⟨faults, .connect b host⟩, w, w' =>
      Running w b ∧
        ∃ r, Exec (sem O faults) (g.resolver.resolve (identity b) host) w r w'
  | ⟨faults, .stop b⟩, w, w' => ∃ r, Exec (sem O faults) (perform (.cleanup b)) w r w'

/-- An install that leaves running sandboxes under a manifest that was consented to:
no sandbox of the server runs, or the manifest is the one on record, or the install
is itself the consent and can be recorded. -/
def InstallAllowed (g : Setup) (faults : Call → Prop) (autoConsent : Bool) (m : Manifest)
    (w : World) : Prop :=
  (∀ b, Running w b → b.server ≠ m.name) ∨
    (∃ rec, w.db.manifests.get? m.name = some rec ∧
      g.schema.runtimeHash m = .ok rec.manifestHash) ∨
    (autoConsent ∨ consentedOf w m.name = "") ∧ WritesSucceed faults m.name ∧
      HasRoom w.db m.name

/-- The condition on the steps of a run. -/
def Allowed (g : Setup) : Turn → World → Prop
  | ⟨faults, .install auto fetched ref⟩, w =>
      ∀ ix m, fetched = .ok ix → g.schema.resolve ix ref = .ok m →
        InstallAllowed g faults auto m w
  | ⟨_, .recordConsent s hash⟩, w =>
      (∀ b, Running w b → b.server ≠ s) ∨
        ∀ rec, w.db.manifests.get? s = some rec → hash = rec.manifestHash
  | _, _ => True

section Steps

variable {g : Setup} {auto : Bool} {m : Manifest}

/-- A write under the hash that is on record already. -/
theorem Written.consented_of_same (h : Written s hash w w') (hc : Consented w)
    {rec : ManifestRecord} (hrec : w.db.manifests.get? s = some rec)
    (hsame : rec.manifestHash = hash) : Consented w' := by
  refine h.consented hc ?_
  rintro ⟨b, hb, rfl⟩ rec' hrec'
  have hprior : consentedOf w b.server = hash := by
    rw [consentedOf, hrec, ← hsame]
    exact (hc b hb rec hrec).symm
  obtain ⟨rec₁, hrec₁, hhash, hcons⟩ := h.row
  rw [hrec₁, Option.some.injEq] at hrec'
  subst hrec'
  rcases hcons with hcons | hcons
  · rw [hhash, hcons]
  · rw [hhash, hcons, hprior]

theorem installManifest_consented {r : Except Err Server} (hc : Consented w)
    (hok : InstallAllowed g faults auto m w)
    (hx : Exec (sem O faults) ((g.installer auto).installManifest m) w r w') :
    Consented w' := by
  rcases exec_installManifest hx with hkept | ⟨hash, hhash, ⟨hw, rec, hrec, hsame⟩ | ⟨w₁, ha, hx₁⟩⟩
  · exact hkept.consented hc
  · exact hw.consented_of_same hc hrec hsame
  · have hk : Kept w w₁ := kept_of_alike List.not_mem_nil ha
    have hc₁ := hk.consented hc
    rcases hok with hnone | ⟨rec, hrec, hsame⟩ | ⟨hauto, hf, hroom⟩
    · rcases exec_record hx₁ with hkept | hw
      · exact hkept.consented hc₁
      · refine hw.consented hc₁ ?_
        rintro ⟨b, hb, hbs⟩
        rw [Running, hk.spawned, hk.cleaned] at hb
        exact absurd hbs (hnone b hb)
    · obtain rfl : hash = rec.manifestHash := Except.ok.inj (hhash.symm.trans hsame)
      rw [← hk.manifests] at hrec
      rcases exec_record hx₁ with hkept | hw
      · exact hkept.consented hc₁
      · exact hw.consented_of_same hc₁ hrec rfl
    · have hservers : w₁.db.servers = w.db.servers := ha.tbl .servers List.not_mem_nil
      have hroom₁ : HasRoom w₁.db m.name := by
        rw [HasRoom, Database.serverByName, hservers]
        exact hroom
      rcases exec_record_consented hf hroom₁ hauto hx₁ with hkept | ⟨hw, rec, hrec, hh, hcons⟩
      · exact hkept.consented hc₁
      · refine hw.consented hc₁ ?_
        rintro - rec' hrec'
        rw [hrec, Option.some.injEq] at hrec'
        rw [← hrec', hh, hcons]

theorem recordConsent_consented {r : Except Err Unit} (hc : Consented w)
    (hok : (∀ b, Running w b → b.server ≠ s) ∨
      ∀ rec, w.db.manifests.get? s = some rec → hash = rec.manifestHash)
    (hx : Exec (sem O faults) (sql (.recordConsent s hash)) w r w') : Consented w' := by
  have happly : Consented { w with db := ((Sql.recordConsent s hash).apply w.db).2 } := by
    intro b hb rec hrec
    have hb : Running w b := hb
    by_cases hbs : b.server = s
    · rcases hok with hnone | hsame
      · exact absurd hbs (hnone b hb)
      · rw [hbs] at hrec
        cases hrow : w.db.manifests.get? s with
        | none =>
            have hnone : ((Sql.recordConsent s hash).apply w.db).2.manifests.get? s = none := by
              rw [Sql.get?_recordConsent, if_pos rfl, hrow]
              rfl
            rw [hnone] at hrec
            cases hrec
        | some row =>
            rw [recordConsent_row hrow, Option.some.injEq] at hrec
            subst hrec
            exact (hsame row hrow).symm
    · rw [recordConsent_others hbs] at hrec
      exact hc b hb rec hrec
  rcases exec_call_iff.mp hx with ⟨-, rfl⟩ | ⟨-, -, rfl | rfl⟩
  · exact happly
  · exact hc
  · exact happly

/-- A spawn finds the manifest consented to, or no manifest. -/
theorem spawnBackend_consented {srv : Server} {tenant : String} {r : Except Err EgressBackend}
    (hc : Consented w) (hx : Exec (sem O faults) (spawnBackend srv tenant) w r w') :
    Consented w' := by
  obtain ⟨r₁, w₁, h₁, hx₁⟩ := exec_call.mp hx
  obtain rfl : w₁ = w := sem_reads rfl h₁
  have hspawned (placeholder : String)
      (hrow : ∀ rec, w₁.db.manifests.get? srv.name = some rec →
        rec.manifestHash = rec.consentedHash)
      (hx₂ : sem O faults (.spawn srv tenant placeholder) w₁ r w') : Consented w' := by
    rcases hx₂ with ⟨-, rfl⟩ | ⟨rfl, -⟩
    · rintro b ⟨hb, hclean⟩ rec hrec
      rcases List.mem_cons.mp hb with rfl | hb
      · exact hrow rec hrec
      · exact hc b ⟨hb, hclean⟩ rec hrec
    · exact hc
  cases r₁ with
  | ok rec =>
      have hrec := Sql.fetch_eq_ok.mp (sem_read_ok h₁ rfl).1
      dsimp only at hx₁
      split at hx₁
      · obtain ⟨-, rfl⟩ := hx₁
        exact hc
      · rename_i hconsented
        refine hspawned _ ?_ (exec_call_iff.mp hx₁)
        intro rec' hrec'
        rw [hrec, Option.some.injEq] at hrec'
        subst hrec'
        simpa [ManifestRecord.needsReconsent] using hconsented
  | error e =>
      dsimp only at hx₁
      split at hx₁
      · rename_i hmiss
        refine hspawned _ ?_ (exec_call_iff.mp hx₁)
        intro rec hrec
        have hkeep : semKeeping O faults srv.name (.sql (.getManifest srv.name)) w₁ (.error e) w₁ :=
          ⟨w₁, rfl, h₁⟩
        rw [getManifest_error hrec hkeep] at hmiss
        cases hmiss
      · obtain ⟨-, rfl⟩ := hx₁
        exact hc

/-- Every permitted step keeps the invariant. -/
theorem handled_consented {t : Turn} (hc : Consented w) (hok : Allowed g t w)
    (h : Handled O g t w w') : Consented w' := by
  obtain ⟨faults, event⟩ := t
  cases event with
  | install auto fetched ref =>
      obtain ⟨r, hx⟩ := h
      cases fetched with
      | error e =>
          obtain ⟨-, rfl⟩ := hx
          exact hc
      | ok ix =>
          unfold IndexInstaller.installFrom at hx
          dsimp only at hx
          split at hx
          · obtain ⟨-, rfl⟩ := hx
            exact hc
          · rename_i m hm
            exact installManifest_consented hc (hok ix m rfl hm) hx
  | recordConsent s hash =>
      obtain ⟨r, hx⟩ := h
      exact recordConsent_consented hc hok hx
  | spawn srv tenant =>
      obtain ⟨r, hx⟩ := h
      exact spawnBackend_consented hc hx
  | connect b host =>
      obtain ⟨-, r, hx⟩ := h
      have halike := exec_touches ((resolve_calls _ _ _).mono fun _ ↦ ResolverCall.touches) hx
      exact (kept_of_alike (by decide) halike).consented hc
  | stop b =>
      obtain ⟨r, hx⟩ := h
      obtain rfl : w' = { w with cleaned := b :: w.cleaned } := exec_call_iff.mp hx
      rintro b' ⟨hb, hclean⟩ rec hrec
      exact hc b' ⟨hb, fun hmem ↦ hclean (List.mem_cons_of_mem _ hmem)⟩ rec hrec

end Steps

/-! ## Nothing takes effect without consent -/

/-- In every run from a start of the gateway whose steps all meet `Allowed`: whatever
the resolver returns for a running sandbox of a server with a manifest row comes from
that manifest, and it is the one consented to. -/
theorem resolve_consented {g : Setup} {db : Database} {now : Time}
    (hrun : Run (Handled O g) (Allowed g) (.boot db now) w) {b : EgressBackend} {host : String}
    {rec : ManifestRecord} {cred : ProxyCredential} (hb : Running w b)
    (hrec : w.db.manifests.get? b.server = some rec)
    (hx : Exec (sem O faults) (g.resolver.resolve (identity b) host) w (.ok cred) w') :
    rec.manifestHash = rec.consentedHash ∧ Capped rec cred := by
  have hstart : Consented (.boot db now) := fun b hb ↦ absurd hb.1 List.not_mem_nil
  have hc : Consented w := by
    refine Run.invariant (I := Consented) ?_ hrun hstart
    intro t w w' hc hok h
    exact handled_consented hc hok h
  have hkeep := hx.disturbed (ρ := KeepsManifest (identity b).server) fun _ ↦ rfl
  exact ⟨hc b hb rec hrec, resolve_capped hrec hkeep⟩

namespace Example

/-- A version of the `github` server that may reach the given hosts. -/
def github (version : String) (egress : List String) : Manifest :=
  ⟨"github", version, "", "", "", "", ⟨"", "", "server", ""⟩, egress, [], [], ""⟩

/-- Version 2 asks for one more host. -/
def index : Index :=
  ⟨[⟨"github", "2", [("github@1", github "1" ["api.github.com"]),
    ("github@2", github "2" ["api.github.com", "evil.example"])]⟩]⟩

def schema : Schema where
  resolve ix ref :=
    match (ix.servers.flatMap IndexServer.versions).lookup ref with
    | some m => .ok m
    | none => .error (.new "registry: unknown reference")
  validate _ := .ok ()
  runtimeHash m := .ok ("hash" ++ m.version)
  parse _ := .error (.new "registry: not a manifest")

def setup : Setup := ⟨schema, "/data", ⟨none⟩⟩

def partners : Partners := ⟨index, []⟩

/-- An event, handled with no call failing. -/
def healthy (event : Event) : Turn := ⟨fun _ ↦ False, event⟩

/-- Version 1 is installed through the API. -/
def installed : World :=
  partners.after ((setup.installer false).installFrom "github@1" (.ok index)) (.boot .fresh 0)

/-- A sandbox of it is spawned. -/
def spawned : World := partners.after (spawnBackend ⟨1, "github", "server", ""⟩ "7") installed

/-- Version 2 is installed through the API. -/
def upgraded : World :=
  partners.after ((setup.installer false).installFrom "github@2" (.ok index)) spawned

def sandbox : EgressBackend := ⟨0, "github", "7"⟩

theorem handled_install_1 : Handled Partners.outside setup
    (healthy (.install false (.ok index) "github@1")) (.boot .fresh 0) installed :=
  partners.exec_after rfl _

theorem handled_spawn : Handled Partners.outside setup
    (healthy (.spawn ⟨1, "github", "server", ""⟩ "7")) installed spawned :=
  partners.exec_after rfl _

theorem handled_install_2 : Handled Partners.outside setup
    (healthy (.install false (.ok index) "github@2")) spawned upgraded :=
  partners.exec_after rfl _

end Example

open Example in
/-- A sandbox of version 1 is held to version 1. -/
theorem resolve_consented_github :
    ∃ rec cred w', spawned.db.manifests.get? "github" = some rec ∧
      Exec (sem Partners.outside fun _ ↦ False)
        (setup.resolver.resolve (identity sandbox) "api.github.com") spawned (.ok cred) w' ∧
      rec.manifestHash = rec.consentedHash ∧ Capped rec cred := by
  have hrun : Run (Handled Partners.outside setup) (Allowed setup) (.boot .fresh 0) spawned := by
    refine .tail (.tail .refl ?_ handled_install_1) ?_ handled_spawn
    · rintro ix m - -
      exact .inl fun b hb ↦ absurd hb.1 List.not_mem_nil
    · trivial
  have hb : Running spawned sandbox := ⟨List.mem_cons_self, List.not_mem_nil⟩
  obtain ⟨w', hx⟩ := partners.exec_of_run_fst
    (p := setup.resolver.resolve (identity sandbox) "api.github.com") (w := spawned)
    (a := .ok ⟨"", "", "", "", ["api.github.com"]⟩) rfl fun _ ↦ False
  exact ⟨_, _, w', rfl, hx, resolve_consented hrun hb rfl hx⟩

open Example in
/-- An upgrade through the API takes effect in a sandbox that runs, before anyone has
consented to it. -/
theorem resolve_unconsented_host :
    ∃ rec w', Run (Handled Partners.outside setup) (fun _ _ ↦ True) (.boot .fresh 0) upgraded ∧
      Running upgraded sandbox ∧ upgraded.db.manifests.get? "github" = some rec ∧
      Exec (sem Partners.outside fun _ ↦ False)
        (setup.resolver.resolve (identity sandbox) "evil.example") upgraded
        (.ok ⟨"", "", "", "", ["api.github.com", "evil.example"]⟩) w' ∧
      rec.manifestHash = "hash2" ∧ rec.consentedHash = "hash1" := by
  obtain ⟨w', hx⟩ := partners.exec_of_run_fst
    (p := setup.resolver.resolve (identity sandbox) "evil.example") (w := upgraded)
    (a := .ok ⟨"", "", "", "", ["api.github.com", "evil.example"]⟩) rfl fun _ ↦ False
  refine ⟨_, w', ?_, ⟨List.mem_cons_self, List.not_mem_nil⟩, rfl, hx, rfl, rfl⟩
  exact .tail (.tail (.tail .refl trivial handled_install_1) trivial handled_spawn) trivial
    handled_install_2

end GigMcp.Registry
