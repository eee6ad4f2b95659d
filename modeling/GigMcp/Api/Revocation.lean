import GigMcp.Api.Offers
import GigMcp.Api.Serve
import GigMcp.Gateway.Threads
import GigMcp.Registry.Consent

/-!
# Runtimes and what has been revoked

The handlers that write the tables a build reads are to invalidate the runtimes they make
stale.  An uninstall by a user, a tool turned off and an upgrade of a server do not, nor
does the uninstall of a server whose files cannot be removed.
-/

namespace GigMcp.Api

open GigMcp.Effect GigMcp.System GigMcp.Store GigMcp.Http GigMcp.Auth GigMcp.Data
open GigMcp.Gateway GigMcp.Registry

variable {O : Outside} {w w₁ w' : World}

/-! ## Installs -/

section Install

variable {i : IndexInstaller} {m : Manifest} {hash : String}

/-- A server has a row. -/
def HasRow (db : Database) (server : String) : Prop :=
  ∃ srv ∈ db.servers.table.rows, srv.name = server

/-- What the calls of an install do to the tables a build reads. -/
structure Installs (m : Manifest) (w w' : World) : Prop where
  alike : Alike [.servers, .manifests] w w'
  rows : ∀ server, HasRow w.db server → HasRow w'.db server
  tools : ∀ rec', w'.db.manifests.get? m.name = some rec' → rec'.tools = m.tools ∨
    ∃ rec, w.db.manifests.get? m.name = some rec ∧ rec'.tools = rec.tools

theorem Installs.refl (w : World) : Installs m w w :=
  ⟨.refl _ w, fun _ h ↦ h, fun rec h ↦ .inr ⟨rec, h, rfl⟩⟩

theorem Installs.trans (h : Installs m w w₁) (h' : Installs m w₁ w') : Installs m w w' where
  alike := h.alike.trans h'.alike
  rows := fun server hs ↦ h'.rows server (h.rows server hs)
  tools := fun rec' hrec' ↦ by
    rcases h'.tools rec' hrec' with htools | ⟨rec₁, hrec₁, htools₁⟩
    · exact .inl htools
    · rcases h.tools rec₁ hrec₁ with htools | ⟨rec, hrec, htools⟩
      · exact .inl (htools₁.trans htools)
      · exact .inr ⟨rec, hrec, htools₁.trans htools⟩

/-- Recording a server leaves every row's name in place. -/
theorem hasRow_ensureServer {db : Database} {server : String} (h : HasRow db server)
    (name binary bundleDir : String) : HasRow (db.ensureServer name binary bundleDir).2 server := by
  obtain ⟨srv, hsrv, hname⟩ := h
  unfold Database.ensureServer
  split
  · refine ⟨_, List.mem_map.mpr ⟨srv, hsrv, rfl⟩, ?_⟩
    split
    · exact hname
    · exact hname
  · split
    · rename_i i t ht
      refine ⟨srv, ?_, hname⟩
      obtain ⟨-, -, hnone, hget⟩ := AutoTable.insert_eq_some ht
      refine Table.mem_of_get? (k := srv.id) ?_
      rw [hget, if_neg]
      · exact Table.get?_of_mem hsrv
      · rintro rfl
        rw [Table.get?_of_mem hsrv] at hnone
        cases hnone
    · exact ⟨srv, hsrv, hname⟩

theorem sem_installs {e : Call} (he : InstallCall m e) {r : e.Res}
    (hr : sem O healthy e w r w') : Installs m w w' := by
  have halike : Alike [.servers, .manifests] w w' :=
    sem_touches (he.touches (by decide) (by decide)) hr
  cases he with
  | other he =>
      have hnone := sem_touches he hr
      have hservers : w'.db.servers = w.db.servers := hnone.tbl .servers List.not_mem_nil
      have hmanifests : w'.db.manifests = w.db.manifests := hnone.tbl .manifests List.not_mem_nil
      refine ⟨halike, fun server hs ↦ ?_, fun rec hrec ↦ .inr ⟨rec, hmanifests ▸ hrec, rfl⟩⟩
      rw [HasRow, hservers]
      exact hs
  | ensure binary bundleDir =>
      have hmanifests : w'.db.manifests = w.db.manifests := by
        have htouch : Touches [Tbl.servers] (.sql (.ensureServer m.name binary bundleDir)) :=
          List.Subset.refl _
        exact (sem_touches htouch hr).tbl .manifests (by decide)
      refine ⟨halike, fun server hs ↦ ?_, fun rec hrec ↦ .inr ⟨rec, hmanifests ▸ hrec, rfl⟩⟩
      obtain ⟨-, rfl⟩ := (sem_healthy id).mp hr
      exact hasRow_ensureServer hs _ _ _
  | put injections hash =>
      obtain ⟨-, rfl⟩ := (sem_healthy id).mp hr
      refine ⟨halike, fun server hs ↦ hs, fun rec hrec ↦ .inl ?_⟩
      have hrec := (Sql.get?_putManifest _ _ _).symm.trans hrec
      rw [if_pos (show m.name = (toRecord m injections hash).server from rfl)] at hrec
      cases hrec
      rfl
  | consent hash =>
      obtain ⟨-, rfl⟩ := (sem_healthy id).mp hr
      refine ⟨halike, fun server hs ↦ hs, fun rec hrec ↦ .inr ?_⟩
      rw [Sql.get?_recordConsent, if_pos rfl] at hrec
      obtain ⟨prior, hprior, rfl⟩ := Option.map_eq_some_iff.mp hrec
      exact ⟨prior, hprior, rfl⟩

theorem exec_installs {r : Except Err Store.Server}
    (hx : Exec (sem O healthy) (i.installManifest m) w r w') : Installs m w w' :=
  (installManifest_calls i m).frame (ρ := Installs m) Installs.refl (fun _ _ _ ↦ Installs.trans)
    (fun _ _ _ _ he hr ↦ sem_installs he hr) hx

/-- What stored runtimes expose of a manifest's server is among the manifest's tools, and
the install is a boot install or keeps the hash on record. -/
def InstallKeeps (i : IndexInstaller) (m : Manifest) (w : World) : Prop :=
  ∀ pid rt tool, w.host.runtimeOf pid = some rt → rt.Exposes m.name tool →
    tool ∈ m.tools.map ToolEntry.name ∧
      ∃ rec, w.db.manifests.get? m.name = some rec ∧
        (i.autoConsent ∨ i.schema.runtimeHash m = .ok rec.manifestHash)

theorem needsReconsent_eq_false {rec : ManifestRecord} :
    rec.needsReconsent = false ↔ rec.manifestHash = rec.consentedHash := by
  simp [ManifestRecord.needsReconsent]

theorem hasRoom_of_hasRow {db : Database} {server : String} (h : HasRow db server) :
    HasRoom db server := by
  obtain ⟨srv, hsrv, hname⟩ := h
  refine .inl (List.find?_isSome.mpr ⟨srv, hsrv, ?_⟩)
  exact decide_eq_true hname

/-- A row that was consented to stays consented to. -/
theorem installManifest_consents {r : Except Err Store.Server} {rec rec' : ManifestRecord}
    (hx : Exec (sem O healthy) (i.installManifest m) w r w') (hrow : HasRow w.db m.name)
    (hrec : w.db.manifests.get? m.name = some rec)
    (hconsented : rec.manifestHash = rec.consentedHash)
    (hkeeps : i.autoConsent ∨ i.schema.runtimeHash m = .ok rec.manifestHash)
    (hrec' : w'.db.manifests.get? m.name = some rec') :
    rec'.manifestHash = rec'.consentedHash := by
  have hsucceed : WritesSucceed healthy m.name := ⟨fun _ _ ↦ id, fun _ _ ↦ id, fun _ ↦ id⟩
  have hof (hwritten : Written m.name rec.manifestHash w w') :
      rec'.manifestHash = rec'.consentedHash := by
    obtain ⟨rec₁, hrec₁, hh, hc⟩ := hwritten.row
    rw [hrec₁, Option.some.injEq] at hrec'
    subst hrec'
    have hprior : consentedOf w m.name = rec.manifestHash := by
      rw [consentedOf, hrec, hconsented]
      rfl
    exact hh.trans (hc.elim Eq.symm fun hc ↦ (hc.trans hprior).symm)
  have hkept (h : Kept w w') : rec'.manifestHash = rec'.consentedHash := by
    rw [h.manifests, hrec, Option.some.injEq] at hrec'
    subst hrec'
    exact hconsented
  rcases exec_installManifest hx with h | ⟨hash, hhash, ⟨hw, rec₁, hrec₁, hsame⟩ | ⟨w₁, ha, hx₁⟩⟩
  · exact hkept h
  · obtain rfl := Option.some.inj (hrec.symm.trans hrec₁)
    subst hsame
    exact hof hw
  · have hk : Kept w w₁ := kept_of_alike List.not_mem_nil ha
    rcases hkeeps with hauto | hsame
    · have hservers : w₁.db.servers = w.db.servers := ha.tbl .servers List.not_mem_nil
      have hroom : HasRoom w₁.db m.name := by
        rw [HasRoom, Database.serverByName, hservers]
        exact hasRoom_of_hasRow hrow
      rcases exec_record_consented hsucceed hroom (.inl hauto) hx₁ with h | ⟨-, rec₁, hrec₁, hh, hc⟩
      · exact hkept (hk.trans h)
      · rw [hrec₁, Option.some.injEq] at hrec'
        subst hrec'
        exact hh.trans hc.symm
    · obtain rfl := Except.ok.inj (hsame.symm.trans hhash)
      rcases exec_record hx₁ with h | hw
      · exact hkept (hk.trans h)
      · exact hof (hk.written hw)

/-- The manifests of other servers stay. -/
theorem installManifest_others {r : Except Err Store.Server} {server : String}
    (hx : Exec (sem O healthy) (i.installManifest m) w r w') (hne : server ≠ m.name) :
    w'.db.manifests.get? server = w.db.manifests.get? server := by
  rcases exec_installManifest hx with h | ⟨hash, -, ⟨hw, -⟩ | ⟨w₁, ha, hx₁⟩⟩
  · rw [h.manifests]
  · exact hw.others server hne
  · have hk : Kept w w₁ := kept_of_alike List.not_mem_nil ha
    rcases exec_record hx₁ with h | hw
    · rw [h.manifests, hk.manifests]
    · rw [hw.others server hne, hk.manifests]

theorem installManifest_current {r : Except Err Store.Server} (hw : Current w)
    (hkeeps : InstallKeeps i m w) (hx : Exec (sem O healthy) (i.installManifest m) w r w') :
    Current w' := by
  have hinst := exec_installs hx
  have hprofiles : w'.db.profiles = w.db.profiles := hinst.alike.tbl .profiles (by decide)
  have hlisted : w'.db.profileServers = w.db.profileServers :=
    hinst.alike.tbl .profileServers (by decide)
  have hinstalls : w'.db.userInstalls = w.db.userInstalls :=
    hinst.alike.tbl .userInstalls (by decide)
  have hdisabled : w'.db.userDisabledTools = w.db.userDisabledTools :=
    hinst.alike.tbl .userDisabledTools (by decide)
  intro pid rt server tool hrt hexp
  rw [hinst.alike.host] at hrt
  obtain ⟨p, hp, ho⟩ := hw pid rt server tool hrt hexp
  refine ⟨p, hprofiles ▸ hp, hlisted ▸ ho.listed, hinst.rows _ ho.row, hinstalls ▸ ho.installed, ?_⟩
  intro rec' hrec'
  rw [hdisabled]
  by_cases hserver : server = m.name
  · subst hserver
    obtain ⟨htool, rec, hrec, hconsent⟩ := hkeeps pid rt tool hrt hexp
    obtain ⟨hneeds, hlists, hon⟩ := ho.allowed rec hrec
    refine ⟨?_, ?_, hon⟩
    · rw [needsReconsent_eq_false] at hneeds ⊢
      exact installManifest_consents hx ho.row hrec hneeds hconsent hrec'
    · rcases hinst.tools rec' hrec' with htools | ⟨rec₁, hrec₁, htools⟩
      · rwa [htools]
      · obtain rfl := Option.some.inj (hrec.symm.trans hrec₁)
        rwa [htools]
  · rw [installManifest_others hx hserver] at hrec'
    exact ho.allowed rec' hrec'

end Install

/-- What third parties may answer while a request is served. -/
abbrev Answers := (e : Call) → e.Res → Prop

section Servers

variable {srv : Server} {ctx : Ctx} {answers : Answers} {resp : Response}

theorem handleInstallServer_current {body : Payload} (hw : Current w)
    (hok : ∀ i ref ix m, srv.installer = some i → body = .install ref →
      answers .fetchIndex (.ok ix) → i.schema.resolve ix ref = .ok m → InstallKeeps i m w)
    (hx : Exec (answered answers (sem O healthy)) (handleInstallServer srv ctx body) w resp w') :
    Current w' := by
  unfold handleInstallServer at hx
  split at hx
  · obtain ⟨-, rfl⟩ := hx
    exact hw
  · rename_i i hi
    split at hx
    · rename_i ref
      split at hx
      · obtain ⟨-, rfl⟩ := hx
        exact hw
      · obtain ⟨r₁, w₁, hx₁, hx₂⟩ := exec_bind.mp hx
        obtain ⟨fetched, w₂, ⟨⟨rfl, -⟩, hanswer⟩, hx₃⟩ := exec_call.mp hx₁
        have hcurrent : Current w₁ := by
          unfold IndexInstaller.installFrom at hx₃
          split at hx₃
          · obtain ⟨-, rfl⟩ := hx₃
            exact hw
          · rename_i ix
            split at hx₃
            · obtain ⟨-, rfl⟩ := hx₃
              exact hw
            · rename_i m hm
              exact installManifest_current hw (hok i ref ix m hi rfl hanswer hm) hx₃.of_answered
        cases r₁ with
        | error e =>
            obtain ⟨-, rfl⟩ := hx₂
            exact hcurrent
        | ok s =>
            obtain ⟨u, w₃, hx₄, hx₅⟩ := exec_bind.mp hx₂
            obtain ⟨-, rfl⟩ := hx₅
            have haudit : Keeps (fun _ _ _ ↦ False) w₁ w' :=
              exec_keeps (keeps_audit ctx _ _ _) hx₄.of_answered
            exact haudit.current hcurrent fun _ _ _ _ _ _ _ _ ↦ id
    · obtain ⟨-, rfl⟩ := hx
      exact hw

theorem uninstall_keeps (i : IndexInstaller) (name : String) :
    All (KeepsCall (OfServer name)) (i.uninstall name) := by
  unfold IndexInstaller.uninstall
  split
  · exact all_ret
  · refine All.except (all_call_iff.mpr (keeps_deleteServer name)) (fun _ ↦ all_ret) fun _ ↦ ?_
    refine All.except (all_call_iff.mpr (keeps_deleteManifest name)) (fun _ ↦ all_ret) fun _ ↦ ?_
    have hdisabled : Touches [Tbl.disabledTools] (.sql (.deleteDisabledToolsForServer name)) :=
      List.Subset.refl _
    refine All.except (all_call_iff.mpr (keeps_touches (by decide) hdisabled)) (fun _ ↦ all_ret)
      fun _ ↦ ?_
    have hglob : Touches [] (.glob (joinPath (joinPath i.dataDir "servers") (name ++ "@*"))) :=
      trivial
    refine All.except (all_call_iff.mpr (keeps_touches (fun _ _ ↦ List.not_mem_nil) hglob))
      (fun _ ↦ all_ret) fun dirs ↦ ?_
    have hdirs : All (Touches []) (IndexInstaller.removeDirs dirs) := removeDirs_touches dirs
    exact keeps_of_touches (fun _ _ ↦ List.not_mem_nil) hdirs

theorem cascadeRemoveServer_keeps (name : String) :
    All (KeepsCall (OfServer name)) (cascadeRemoveServer name) := by
  refine All.except (all_call_iff.mpr (keeps_deleteInstallsOf name)) (fun _ ↦ all_ret) fun _ ↦ ?_
  refine All.except (all_call_iff.mpr (keeps_deleteUserDisabledToolsOf name)) (fun _ ↦ all_ret)
    fun _ ↦ ?_
  exact all_call_iff.mpr (keeps_deleteProfileServersOf name)

/-- Each profile of a list is invalidated. -/
theorem exec_each_invalidate {pids : List Int64} {us : List Unit}
    (hx : Exec (sem O healthy) (Prog.each invalidate pids) w us w') :
    ∀ pid ∈ pids, w'.host.runtimeOf pid = none := by
  induction pids generalizing w us with
  | nil => exact fun _ hpid ↦ absurd hpid List.not_mem_nil
  | cons q pids ih =>
      obtain ⟨u, w₁, hx₁, hx₂⟩ := exec_bind.mp hx
      obtain ⟨us', w₂, hx₃, hx₄⟩ := exec_bind.mp hx₂
      obtain ⟨-, rfl⟩ := hx₄
      intro pid hpid
      rcases List.mem_cons.mp hpid with rfl | hpid
      · have hrest : Keeps (fun _ _ _ ↦ False) w₁ w' :=
          exec_keeps (All.each keeps_invalidate pids) hx₃
        exact hrest.runtimeOf_none (exec_invalidate hx₁)
      · exact ih hx₃ pid hpid

/-- The file system does not fail. -/
structure Answers.FilesOk (answers : Answers) : Prop where
  glob : ∀ pattern e, ¬ answers (.glob pattern) (.error e)
  removeAll : ∀ path e, ¬ answers (.removeAll path) (.error e)

theorem removeDirs_ok (hfiles : answers.FilesOk) {dirs : List String} {e : Err} :
    ¬ Exec (answered answers (sem O healthy)) (IndexInstaller.removeDirs dirs) w (.error e) w' := by
  induction dirs generalizing w with
  | nil => exact nofun
  | cons d ds ih =>
      intro hx
      obtain ⟨r, w₁, ⟨-, hr⟩, hx₁⟩ := exec_call.mp hx
      obtain ⟨rest, w₂, hx₂, hx₃⟩ := exec_bind.mp hx₁
      cases r with
      | error e => exact hfiles.removeAll d e hr
      | ok _ =>
          obtain ⟨rfl, rfl⟩ := hx₃
          exact ih hx₂

/-- An uninstall whose files can be removed fails for a bad name only, and then it does
nothing. -/
theorem uninstall_error (hfiles : answers.FilesOk) {i : IndexInstaller} {name : String} {e : Err}
    (hx : Exec (answered answers (sem O healthy)) (i.uninstall name) w (.error e) w') : w' = w := by
  unfold IndexInstaller.uninstall at hx
  split at hx
  · exact hx.2
  · obtain ⟨r₁, w₁, ⟨hr₁, -⟩, hx₁⟩ := exec_call.mp hx
    obtain ⟨rfl, -⟩ := (sem_healthy id).mp hr₁
    obtain ⟨r₂, w₂, ⟨hr₂, -⟩, hx₂⟩ := exec_call.mp hx₁
    obtain ⟨rfl, -⟩ := (sem_healthy id).mp hr₂
    obtain ⟨r₃, w₃, ⟨hr₃, -⟩, hx₃⟩ := exec_call.mp hx₂
    obtain ⟨rfl, -⟩ := (sem_healthy id).mp hr₃
    obtain ⟨r₄, w₄, ⟨-, hr₄⟩, hx₄⟩ := exec_call.mp hx₃
    cases r₄ with
    | error e' => exact absurd hr₄ (hfiles.glob _ e')
    | ok dirs => exact absurd hx₄ (removeDirs_ok hfiles)

/-- No stored runtime exposes a tool of the server. -/
def Unexposed (server : String) (w : World) : Prop :=
  ∀ pid rt tool, w.host.runtimeOf pid = some rt → ¬ rt.Exposes server tool

theorem Keeps.current_of_unexposed {server : String} (h : Keeps (OfServer server) w w')
    (hw : Current w) (hnone : Unexposed server w') : Current w' := by
  refine h.current hw ?_
  rintro pid rt p s tool hrt - hexp rfl
  exact hnone pid rt tool hrt hexp

theorem removeServerFromProfiles_keeps (name : String) :
    All (KeepsCall (OfServer name)) (removeServerFromProfiles name) := by
  refine All.except (keeps_read rfl) (fun _ ↦ all_ret) fun ids ↦ ?_
  exact all_call.mpr ⟨keeps_removeServerFromProfiles name, fun _ ↦ all_ret⟩

/-- The profiles that listed the server. -/
theorem exec_removeServerFromProfiles {name : String} {affected : List Int64}
    {committed : Except Err Unit} (hx : Exec (answered answers (sem O healthy))
      (removeServerFromProfiles name) w (affected, committed) w') :
    affected = (w.db.profileServers.rows.filter fun r ↦ r.2 = name).map Prod.fst := by
  obtain ⟨r, w₁, ⟨hr, -⟩, hx₁⟩ := exec_call.mp hx
  obtain ⟨rfl, -⟩ := (sem_healthy id).mp hr
  obtain ⟨r₂, w₂, -, hpair, -⟩ := exec_call.mp hx₁
  cases hpair
  rfl

theorem handleUninstallServer_keeps (name : String) :
    All (KeepsCall (OfServer name)) (handleUninstallServer srv ctx name) := by
  unfold handleUninstallServer
  split
  · exact all_ret
  · refine (uninstall_keeps _ name).except (fun _ ↦ all_ret) fun _ ↦ ?_
    refine (removeServerFromProfiles_keeps name).bind fun affected ↦ ?_
    refine All.bind (All.each keeps_invalidate _) fun _ ↦ ?_
    refine (cascadeRemoveServer_keeps name).bind fun _ ↦ ?_
    exact (keeps_audit ctx _ _ _).bind fun _ ↦ all_ret

theorem handleUninstallServer_current {name : String} (hw : Current w)
    (hok : Unexposed name w ∨ answers.FilesOk)
    (hx : Exec (answered answers (sem O healthy)) (handleUninstallServer srv ctx name) w resp w') :
    Current w' := by
  have hkeeps : Keeps (OfServer name) w w' :=
    exec_keeps (handleUninstallServer_keeps name) hx.of_answered
  rcases hok with hnone | hfiles
  · refine hkeeps.current_of_unexposed hw ?_
    exact fun pid rt tool hrt ↦ hnone pid rt tool (hkeeps.runtimes pid rt hrt)
  unfold handleUninstallServer at hx
  split at hx
  · obtain ⟨-, rfl⟩ := hx
    exact hw
  · rename_i i hi
    obtain ⟨r₁, w₁, hx₁, hx₂⟩ := exec_bind.mp hx
    cases r₁ with
    | error e =>
        obtain rfl := uninstall_error hfiles hx₁
        obtain ⟨-, rfl⟩ := hx₂
        exact hw
    | ok _ =>
        have htouches : All (Touches [.servers, .manifests, .disabledTools]) (i.uninstall name) :=
          uninstall_touches (List.Subset.refl _) i name
        have hlisted : w₁.db.profileServers = w.db.profileServers :=
          (exec_touches htouches hx₁.of_answered).tbl .profileServers (by decide)
        have huninstall := exec_keeps (uninstall_keeps i name) hx₁.of_answered
        obtain ⟨⟨affected, committed⟩, w₂, hremove, hx₃⟩ := exec_bind.mp hx₂
        obtain rfl := exec_removeServerFromProfiles hremove
        obtain ⟨us, w₃, hx₄, hx₅⟩ := exec_bind.mp hx₃
        have hgone := exec_each_invalidate hx₄.of_answered
        have hrest : Keeps (OfServer name) w₃ w' := by
          refine exec_keeps ?_ hx₅.of_answered
          exact (cascadeRemoveServer_keeps name).bind fun _ ↦
            (keeps_audit ctx _ _ _).bind fun _ ↦ all_ret
        refine hkeeps.current_of_unexposed hw ?_
        intro pid rt tool hrt hexp
        -- The profile lists the server, so its runtime was invalidated.
        obtain ⟨p, hp, ho⟩ := hw pid rt name tool (hkeeps.runtimes pid rt hrt) hexp
        obtain rfl : p.id = pid := Table.key_of_get? hp
        have hmem : p.id ∈ (w₁.db.profileServers.rows.filter fun r ↦ r.2 = name).map Prod.fst := by
          rw [hlisted]
          exact List.mem_map.mpr ⟨(p.id, name), List.mem_filter.mpr ⟨ho.listed, by simp⟩, rfl⟩
        rw [hrest.runtimeOf_none (hgone p.id hmem)] at hrt
        cases hrt

end Servers

/-! ## MCP requests -/

section Mcp

variable {p : Profile}

/-- A round of `getOrCreate` leaves the store alone, and what it stores is current. -/
theorem getOrCreateBody_current {x : Except Err ProfileRuntime ⊕ Unit}
    (hw : Current w ∧ w.db.profiles.table.get? p.id = some p)
    (hx : Exec (sem O healthy) (getOrCreateBody p) w x w') :
    Current w' ∧ w'.db.profiles.table.get? p.id = some p := by
  obtain ⟨hw, hp⟩ := hw
  have hstored : Current { w with host := { w.host with runtimes := some w.host.stored } } := hw
  obtain ⟨entry, w₁, ⟨rfl, rfl⟩, hx₁⟩ := exec_call.mp hx
  rcases w.host.enter_cases p.id with ⟨-, henter⟩ | ⟨-, rt, -, henter⟩ | ⟨-, ch, henter⟩ |
    ⟨-, -, -, henter⟩
  · rw [henter] at hx₁
    obtain ⟨-, rfl⟩ := hx₁
    exact ⟨hw, hp⟩
  · rw [henter] at hx₁
    obtain ⟨-, rfl⟩ := hx₁
    exact ⟨hstored, hp⟩
  · rw [henter] at hx₁
    obtain ⟨u, w₂, ⟨-, rfl⟩, hx₂⟩ := exec_call.mp hx₁
    obtain ⟨-, rfl⟩ := hx₂
    exact ⟨hstored, hp⟩
  · rw [henter] at hx₁
    obtain ⟨built, w₂, hx₂, hx₃⟩ := exec_bind.mp hx₁
    obtain ⟨hsame, hoffered⟩ := exec_spawnProfile hx₂
    obtain ⟨r, w₃, ⟨-, rfl⟩, hx₄⟩ := exec_call.mp hx₃
    obtain ⟨u, w₄, rfl, hx₅⟩ := exec_call.mp hx₄
    obtain ⟨-, rfl⟩ := hx₅
    have hdb : w₂.db = w.db := hsame.db
    refine ⟨fun q rt server tool hrt hexp ↦ ?_, hdb ▸ hp⟩
    show ∃ p, w₂.db.profiles.table.get? q = some p ∧ Offered w₂.db p server tool
    rw [hdb]
    have hrt : (w₂.host.commit p.id built).2.runtimeOf q = some rt := hrt
    rcases Host.runtimeOf_commit hrt with hrt | ⟨rfl, rfl⟩
    · rw [hsame.host] at hrt
      exact hw q rt server tool hrt hexp
    · exact ⟨p, hp, hoffered rt rfl server tool hexp⟩

theorem exec_lookupProfile {slug : String} {bearer : Option String} {found : Option Profile}
    (hx : Exec (sem O healthy) (lookupProfile slug bearer) w found w') :
    w' = w ∧ ∀ p, found = some p → w.db.profiles.table.get? p.id = some p := by
  unfold lookupProfile at hx
  split at hx
  · obtain ⟨rfl, rfl⟩ := hx
    refine ⟨rfl, ?_⟩
    rintro p ⟨⟩
  · obtain ⟨r, w₁, hr, hx₁⟩ := exec_call.mp hx
    obtain ⟨hanswer, rfl⟩ := sem_select rfl hr
    cases r with
    | error e =>
        obtain ⟨rfl, rfl⟩ := hx₁
        refine ⟨rfl, ?_⟩
        rintro p ⟨⟩
    | ok q =>
        obtain ⟨rfl, rfl⟩ := hx₁
        refine ⟨rfl, ?_⟩
        rintro p ⟨rfl⟩
        exact Table.get?_of_mem (List.mem_of_find?_eq_some (Sql.fetch_eq_ok.mp hanswer.symm))

/-- An MCP request up to the runtime that serves it. -/
def McpServed (O : Outside) (answers : Answers) (slug : String) (bearer : Option String)
    (w w' : World) : Prop :=
  ∃ found w₁, Exec (answered answers (sem O healthy)) (lookupProfile slug bearer) w found w₁ ∧
    match found with
    | none => w' = w₁
    | some p =>
        ∃ r, LoopExec (answered answers (sem O healthy)) (fun _ : Unit ↦ getOrCreateBody p) () w₁ r w'

theorem mcpServed_current {answers : Answers} {slug : String} {bearer : Option String}
    (hw : Current w) (h : McpServed O answers slug bearer w w') : Current w' := by
  obtain ⟨found, w₁, hx, h⟩ := h
  obtain ⟨rfl, hfound⟩ := exec_lookupProfile hx.of_answered
  cases found with
  | none => exact h ▸ hw
  | some p =>
      obtain ⟨r, hloop⟩ := h
      refine (LoopExec.invariant
        (I := fun w ↦ Current w ∧ w.db.profiles.table.get? p.id = some p) ?_ hloop
        ⟨hw, hfound p rfl⟩).1
      exact fun _ w x w' hI hround ↦ getOrCreateBody_current hI hround.of_answered

end Mcp

/-! ## Runs of requests -/

namespace Revocation

/-- A request that writes a table which builds read. -/
inductive Action
  | installForUser (ctx : Ctx) (name : String)
  | uninstallForUser (ctx : Ctx) (name : String)
  | setAppTool (ctx : Ctx) (name tool : String) (body : Payload)
  | putProfileServers (ctx : Ctx) (pathID : String) (body : Payload)
  | deleteProfile (ctx : Ctx) (pathID : String)
  | installServer (ctx : Ctx) (body : Payload)
  | uninstallServer (ctx : Ctx) (name : String)

/-- The handler of a request. -/
def Action.handler (srv : Server) : Action → Code Response
  | .installForUser ctx name => handleInstallForUser ctx name
  | .uninstallForUser ctx name => handleUninstallForUser ctx name
  | .setAppTool ctx name tool body => handleSetAppTool ctx name tool body
  | .putProfileServers ctx pathID body => handlePutProfileServers ctx pathID body
  | .deleteProfile ctx pathID => handleDeleteProfile ctx pathID
  | .installServer ctx body => handleInstallServer srv ctx body
  | .uninstallServer ctx name => handleUninstallServer srv ctx name

/-- A request, with what third parties may answer while it is served. -/
inductive Turn
  | api (answers : Answers) (a : Action)
  | mcp (answers : Answers) (slug : String) (bearer : Option String)

/-- A request is served to its end. -/
def Handled (O : Outside) (srv : Server) : Turn → World → World → Prop
  | .api answers a, w, w' =>
      ∃ resp, Exec (answered answers (sem O healthy)) (a.handler srv) w resp w'
  | .mcp answers slug bearer, w, w' => McpServed O answers slug bearer w w'

/-- The condition on the requests of a run.  A handler that does not invalidate may only
revoke what no stored runtime exposes. -/
def Allowed (srv : Server) : Turn → World → Prop
  | .api _ (.uninstallForUser ctx name), w =>
      ∀ pid rt p tool, w.host.runtimeOf pid = some rt → w.db.profiles.table.get? pid = some p →
        p.userID = ctx.effective.id → ¬ rt.Exposes name tool
  | .api _ (.setAppTool ctx name tool body), w =>
      body = .setAppTool false → ∀ pid rt p, w.host.runtimeOf pid = some rt →
        w.db.profiles.table.get? pid = some p → p.userID = ctx.effective.id →
          ¬ rt.Exposes name tool
  | .api answers (.installServer _ body), w =>
      ∀ i ref ix m, srv.installer = some i → body = .install ref →
        answers .fetchIndex (.ok ix) → i.schema.resolve ix ref = .ok m → InstallKeeps i m w
  | .api answers (.uninstallServer _ name), w => Unexposed name w ∨ answers.FilesOk
  | _, _ => True

/-- Every permitted request keeps stored runtimes current. -/
theorem handled_current {srv : Server} {t : Turn} (hw : Current w) (hok : Allowed srv t w)
    (h : Handled O srv t w w') : Current w' := by
  cases t with
  | mcp answers slug bearer => exact mcpServed_current hw h
  | api answers a =>
      obtain ⟨resp, hx⟩ := h
      cases a with
      | installForUser ctx name =>
          have hkeeps : Keeps (fun _ _ _ ↦ False) w w' :=
            exec_keeps (handleInstallForUser_keeps ctx name) hx.of_answered
          exact hkeeps.current hw fun _ _ _ _ _ _ _ _ ↦ id
      | uninstallForUser ctx name =>
          have hkeeps := exec_keeps (handleUninstallForUser_keeps ctx name) hx.of_answered
          refine hkeeps.current hw ?_
          rintro pid rt p server tool hrt hp hexp ⟨huser, rfl⟩
          exact hok pid rt p tool (hkeeps.runtimes pid rt hrt) hp huser hexp
      | setAppTool ctx name tool body =>
          have hkeeps := exec_keeps (handleSetAppTool_keeps ctx name tool body) hx.of_answered
          refine hkeeps.current hw ?_
          rintro pid rt p server t hrt hp hexp ⟨hbody, huser, rfl, rfl⟩
          exact hok hbody pid rt p (hkeeps.runtimes pid rt hrt) hp huser hexp
      | putProfileServers ctx pathID body =>
          exact handlePutProfileServers_current ctx hw hx.of_answered
      | deleteProfile ctx pathID => exact handleDeleteProfile_current ctx hw hx.of_answered
      | installServer ctx body => exact handleInstallServer_current hw hok hx
      | uninstallServer ctx name => exact handleUninstallServer_current hw hok hx

/-- In every run of completed requests from a start of the gateway that all meet `Allowed`,
what stored runtimes expose is what a build would expose. -/
theorem runtimes_current {srv : Server} {db : Database} {now : Time}
    (hrun : Run (Handled O srv) (Allowed srv) (.boot db now) w) : Current w := by
  refine Run.invariant (I := Current) ?_ hrun ?_
  · exact fun _ _ _ hw hok h ↦ handled_current hw hok h
  · exact fun pid rt server tool hrt ↦ nomatch hrt

namespace Example.Echo

open GigMcp.Gateway.Example.Echo

/-- No condition on the answers. -/
def anything : Answers := fun _ _ ↦ True

def alice : User := ⟨1, "idp", "alice", "", "Alice", .user, 0, 0⟩

def alicesCtx : Ctx := ⟨alice, alice, "", false⟩

def partners : Partners := ⟨⟨[]⟩, ["say"]⟩

/-- An MCP request has built the profile's runtime. -/
def built : World := partners.after (getOrCreateBody profile) (.boot store 0)

/-- Then its owner uninstalls `echo`. -/
def uninstalled : World := partners.after (handleUninstallForUser alicesCtx "echo") built

def runtime : ProfileRuntime := ⟨[⟨"echo_say", "echo", backend, "say"⟩], [backend]⟩

theorem handled_built :
    Handled Partners.outside Local.server (.mcp anything "work" (some "hash")) (.boot store 0)
      built := by
  have hlookup : Exec (answered anything (sem Partners.outside healthy))
      (lookupProfile "work" (some "hash")) (.boot store 0) (some profile) (.boot store 0) :=
    (partners.exec_of_run rfl healthy).mono fun _ _ _ _ hr ↦ ⟨hr, trivial⟩
  have hround : Exec (answered anything (sem Partners.outside healthy)) (getOrCreateBody profile)
      (.boot store 0) (.inl (.ok runtime)) built :=
    (partners.exec_of_run rfl healthy).mono fun _ _ _ _ hr ↦ ⟨hr, trivial⟩
  exact ⟨some profile, _, hlookup, .ok runtime, .done hround⟩

theorem handled_uninstalled :
    Handled Partners.outside Local.server (.api anything (.uninstallForUser alicesCtx "echo"))
      built uninstalled := by
  obtain ⟨resp, hx⟩ := partners.exec_after (p := handleUninstallForUser alicesCtx "echo")
    (w := built) rfl healthy
  exact ⟨resp, hx.mono fun _ _ _ _ hr ↦ ⟨hr, trivial⟩⟩

theorem runtime_exposes : runtime.Exposes "echo" "say" := ⟨_, .head _, rfl, rfl⟩

end Example.Echo

open Example.Echo in
/-- The runtime an MCP request has built exposes what the store offers. -/
theorem runtimes_current_echo :
    Run (Handled Partners.outside Local.server) (Allowed Local.server)
        (.boot GigMcp.Gateway.Example.Echo.store 0) built ∧
      built.host.runtimeOf 1 = some runtime ∧ runtime.Exposes "echo" "say" ∧ Current built := by
  have hrun : Run (Handled Partners.outside Local.server) (Allowed Local.server)
      (.boot GigMcp.Gateway.Example.Echo.store 0) built := by
    refine .tail .refl ?_ handled_built
    trivial
  exact ⟨hrun, rfl, runtime_exposes, runtimes_current hrun⟩

open Example.Echo in
/-- After its owner has uninstalled `echo`, the profile's runtime still exposes it. -/
theorem runtime_serves_uninstalled :
    Run (Handled Partners.outside Local.server) (fun _ _ ↦ True)
        (.boot GigMcp.Gateway.Example.Echo.store 0) uninstalled ∧
      uninstalled.host.runtimeOf 1 = some runtime ∧ runtime.Exposes "echo" "say" ∧
      ∀ p, uninstalled.db.profiles.table.get? 1 = some p →
        ¬ Offered uninstalled.db p "echo" "say" := by
  refine ⟨.tail (.tail .refl trivial handled_built) trivial handled_uninstalled, rfl,
    runtime_exposes, fun p _ ho ↦ ?_⟩
  have hinstalls : uninstalled.db.userInstalls.rows = [] := rfl
  obtain ⟨i, hi⟩ := Option.isSome_iff_exists.mp ho.installed
  have hmem := Table.mem_of_get? hi
  rw [hinstalls] at hmem
  exact absurd hmem List.not_mem_nil

end Revocation

end GigMcp.Api
