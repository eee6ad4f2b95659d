import GigMcp.Registry.Installer
import GigMcp.System.World

/-!
# What the installer writes

An install writes the server's row and its manifest and nothing else of the store.
An uninstall also clears the tool settings that are kept per server.
-/

namespace GigMcp.Registry

open GigMcp.Effect GigMcp.System GigMcp.Store

variable {ts : List Tbl}

theorem buildInjections_touches (prior : Option ManifestRecord) (cs : List Credential) :
    All (Touches ts) (buildInjections prior cs) := by
  induction cs with
  | nil => exact all_ret
  | cons c cs ih =>
      refine All.bind ?_ fun placeholder ↦ ?_
      · unfold placeholderFor
        split
        · exact all_ret
        · refine all_call.mpr ⟨trivial, fun r ↦ ?_⟩
          split
          · exact all_ret
          · exact all_ret
      · split
        · exact all_ret
        · refine ih.bind fun r ↦ ?_
          split
          · exact all_ret
          · exact all_ret

theorem pull_touches (i : IndexInstaller) (m : Manifest) : All (Touches ts) (i.pull m) := by
  have hcheck (dir : String) : All (Touches ts) (i.crossCheckBundledManifest dir m) := by
    refine all_call.mpr ⟨trivial, fun r ↦ ?_⟩
    split
    · exact all_ret
    · split
      · exact all_ret
      · split
        · exact all_ret
        · split
          · exact all_ret
          · split
            · exact all_ret
            · split
              · exact all_ret
              · exact all_ret
  unfold IndexInstaller.pull
  dsimp only
  split
  · refine all_call.mpr ⟨trivial, fun r ↦ ?_⟩
    split
    · exact all_ret
    · refine (hcheck _).bind fun r ↦ ?_
      split
      · exact all_call.mpr ⟨trivial, fun _ ↦ all_ret⟩
      · exact all_ret
  · exact all_call_iff.mpr trivial

theorem ensureRow_touches (h : Tbl.servers ∈ ts) (i : IndexInstaller) (m : Manifest) :
    All (Touches ts) (i.ensureRow m) := by
  have hsub : [Tbl.servers] ⊆ ts := List.cons_subset.mpr ⟨h, List.nil_subset _⟩
  unfold IndexInstaller.ensureRow
  dsimp only
  split
  · exact all_call_iff.mpr hsub
  · exact all_call_iff.mpr hsub

/-! ### The statements of an install -/

/-- A call that an install of a manifest makes. -/
inductive InstallCall (m : Manifest) : Call → Prop
  | /-- A read, or a call that is not the store's. -/
    other {e : Call} : Touches [] e → InstallCall m e
  | ensure (binary bundleDir : String) :
      InstallCall m (.sql (.ensureServer m.name binary bundleDir))
  | put (injections : List Injection) (hash : String) :
      InstallCall m (.sql (.putManifest (toRecord m injections hash)))
  | consent (hash : String) : InstallCall m (.sql (.recordConsent m.name hash))

section InstallCalls

variable (i : IndexInstaller) (m : Manifest) (hash : String) (prior : Option ManifestRecord)

/-- A call of an install over a prior record, under a hash. -/
inductive RecordCall : Call → Prop
  | /-- A read, or a call that is not the store's. -/
    other {e : Call} : Touches [] e → RecordCall e
  | ensure (binary bundleDir : String) : RecordCall (.sql (.ensureServer m.name binary bundleDir))
  | put (injections : List Injection) : RecordCall (.sql (.putManifest (toRecord m injections hash)))
  | /-- Consent is recorded by an install that is itself the consent. -/
    consent : i.autoConsent ∨ (prior.map ManifestRecord.consentedHash).getD "" = "" →
      RecordCall (.sql (.recordConsent m.name hash))

theorem RecordCall.installCall {e : Call} (he : RecordCall i m hash prior e) : InstallCall m e := by
  cases he with
  | other he => exact .other he
  | ensure binary bundleDir => exact .ensure binary bundleDir
  | put injections => exact .put injections hash
  | consent _ => exact .consent hash

theorem buildInjections_calls (cs : List Credential) :
    All (RecordCall i m hash prior) (buildInjections prior cs) :=
  (buildInjections_touches prior cs).mono fun _ he ↦ .other he

theorem ensureRow_calls : All (RecordCall i m hash prior) (i.ensureRow m) := by
  unfold IndexInstaller.ensureRow
  dsimp only
  split
  · exact all_call_iff.mpr (.ensure _ _)
  · exact all_call_iff.mpr (.ensure _ _)

theorem maybeConsent_calls :
    All (RecordCall i m hash prior) (i.maybeConsent m.name hash prior) := by
  unfold IndexInstaller.maybeConsent
  split
  · rename_i hconsent
    exact all_call_iff.mpr (.consent hconsent)
  · exact all_ret

theorem installOver_calls : All (RecordCall i m hash prior) (i.installOver m hash prior) := by
  refine All.bind ?_ fun already ↦ ?_
  · unfold IndexInstaller.alreadyInstalled
    split
    · exact all_call_iff.mpr (.other trivial)
    · exact all_ret
  split
  · refine (ensureRow_calls i m hash prior).except (fun _ ↦ all_ret) fun srv ↦ ?_
    refine (buildInjections_calls i m hash prior _).except (fun _ ↦ all_ret) fun injections ↦ ?_
    refine All.except (all_call_iff.mpr (.put injections)) (fun _ ↦ all_ret) fun _ ↦ ?_
    exact (maybeConsent_calls i m hash prior).except (fun _ ↦ all_ret) fun _ ↦ all_ret
  · have hpull : All (RecordCall i m hash prior) (i.pull m) :=
      (pull_touches i m).mono fun _ he ↦ .other he
    refine hpull.except (fun _ ↦ all_ret) fun _ ↦ ?_
    refine (buildInjections_calls i m hash prior _).except (fun _ ↦ all_ret) fun injections ↦ ?_
    refine All.except (all_call_iff.mpr (.put injections)) (fun _ ↦ all_ret) fun _ ↦ ?_
    refine (ensureRow_calls i m hash prior).except (fun _ ↦ all_ret) fun srv ↦ ?_
    exact (maybeConsent_calls i m hash prior).except (fun _ ↦ all_ret) fun _ ↦ all_ret

theorem installManifest_calls : All (InstallCall m) (i.installManifest m) := by
  unfold IndexInstaller.installManifest
  split
  · exact all_ret
  · split
    · exact all_ret
    · refine All.except (all_call_iff.mpr (.other (List.nil_subset _))) (fun e ↦ ?_) fun rec ↦ ?_
      · dsimp only
        split
        · exact (installOver_calls i m _ _).mono fun _ ↦ RecordCall.installCall i m _ _
        · exact all_ret
      · exact (installOver_calls i m _ _).mono fun _ ↦ RecordCall.installCall i m _ _

end InstallCalls

theorem InstallCall.touches (hs : Tbl.servers ∈ ts) (hm : Tbl.manifests ∈ ts) {m : Manifest}
    {e : Call} (he : InstallCall m e) : Touches ts e := by
  cases he with
  | other he => exact he.mono (List.nil_subset _)
  | ensure binary bundleDir => exact List.cons_subset.mpr ⟨hs, List.nil_subset _⟩
  | put injections hash => exact List.cons_subset.mpr ⟨hm, List.nil_subset _⟩
  | consent hash => exact List.cons_subset.mpr ⟨hm, List.nil_subset _⟩

theorem install_touches (hs : Tbl.servers ∈ ts) (hm : Tbl.manifests ∈ ts) (i : IndexInstaller)
    (ref : String) : All (Touches ts) (i.install ref) := by
  refine all_call.mpr ⟨trivial, fun fetched ↦ ?_⟩
  unfold IndexInstaller.installFrom
  split
  · exact all_ret
  · split
    · exact all_ret
    · exact (installManifest_calls i _).mono fun _ he ↦ he.touches hs hm

/-! ### Uninstalls -/

theorem removeDirs_touches (dirs : List String) :
    All (Touches ts) (IndexInstaller.removeDirs dirs) := by
  induction dirs with
  | nil => exact all_ret
  | cons d ds ih =>
      refine all_call.mpr ⟨trivial, fun r ↦ ih.bind fun rest ↦ ?_⟩
      split
      · exact all_ret
      · exact all_ret

/-- A call that an uninstall of a server makes. -/
inductive UninstallCall (name : String) : Call → Prop
  | /-- The tool settings, or a call that is not the store's. -/
    other {e : Call} : Touches [.disabledTools] e → UninstallCall name e
  | server : UninstallCall name (.sql (.deleteServer name))
  | manifest : UninstallCall name (.sql (.deleteManifest name))

theorem uninstall_calls (i : IndexInstaller) (name : String) :
    All (UninstallCall name) (i.uninstall name) := by
  unfold IndexInstaller.uninstall
  split
  · exact all_ret
  · refine All.except (all_call_iff.mpr .server) (fun _ ↦ all_ret) fun _ ↦ ?_
    refine All.except (all_call_iff.mpr .manifest) (fun _ ↦ all_ret) fun _ ↦ ?_
    refine All.except (all_call_iff.mpr (.other (List.Subset.refl _))) (fun _ ↦ all_ret) fun _ ↦ ?_
    refine All.except (all_call_iff.mpr (.other trivial)) (fun _ ↦ all_ret) fun dirs ↦ ?_
    exact (removeDirs_touches dirs).mono fun _ he ↦ .other he

theorem uninstall_touches (h : [Tbl.servers, .manifests, .disabledTools] ⊆ ts)
    (i : IndexInstaller) (name : String) : All (Touches ts) (i.uninstall name) := by
  obtain ⟨hs, hm, ht, -⟩ := by simpa only [List.cons_subset] using h
  have hsub {t : Tbl} (ht : t ∈ ts) : [t] ⊆ ts := List.cons_subset.mpr ⟨ht, List.nil_subset _⟩
  refine (uninstall_calls i name).mono fun e he ↦ ?_
  cases he with
  | other he => exact he.mono (hsub ht)
  | server => exact hsub hs
  | manifest => exact hsub hm

end GigMcp.Registry
