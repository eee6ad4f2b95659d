import GigMcp.Api.Routes
import GigMcp.Registry.Frame

/-!
# What the handlers write

For each handler of the control plane, the tables it may write.  `Touches ts` also
says that a handler leaves the profile host alone; the three handlers that
invalidate runtimes only have `Writes ts`.
-/

namespace GigMcp.Api

open GigMcp.Effect GigMcp.System GigMcp.Store GigMcp.Http GigMcp.Auth GigMcp.Data

variable (srv : Server) (ctx : Ctx)

variable {ts : List Tbl}

/-! ## Parts that several handlers share -/

section Parts

/-- A statement that writes one of the tables. -/
theorem write_touches {c : Sql} {t : Tbl} (h : c.writes = [t]) (ht : t ∈ ts) :
    All (Touches ts) (sql c) :=
  all_call_iff.mpr (show c.writes ⊆ ts from h ▸ List.cons_subset.mpr ⟨ht, List.nil_subset _⟩)

theorem read_touches {c : Sql} (h : c.writes = []) : All (Touches ts) (sql c) :=
  all_call_iff.mpr (show c.writes ⊆ ts from h ▸ List.nil_subset _)

theorem appendAudit_touches (h : Tbl.audit ∈ ts) (kind : AuditKind)
    (userID profileID : Option Int64) (decision detail : String) :
    All (Touches ts) (appendAudit kind userID profileID decision detail) :=
  all_call.mpr ⟨trivial, fun _ ↦ write_touches rfl h⟩

theorem audit_touches (h : Tbl.audit ∈ ts) (decision detail : String)
    (profileID : Option Int64) : All (Touches ts) (audit ctx decision detail profileID) :=
  (appendAudit_touches h ..).bind fun _ ↦ all_ret

theorem writeProfile_touches (status : Nat) (p : Profile) (token : String) :
    All (Touches ts) (writeProfile status p token) :=
  (read_touches rfl).except (fun _ ↦ all_ret) fun _ ↦ all_ret

theorem loadOwnedProfile_touches (pathID : String) :
    All (Touches ts) (loadOwnedProfile ctx pathID) := by
  unfold loadOwnedProfile
  split
  · exact all_ret
  · refine (read_touches rfl).except (fun e ↦ ?_) fun p ↦ ?_
    · dsimp only
      split
      · exact all_ret
      · exact all_ret
    · dsimp only
      split
      · exact all_ret
      · exact all_ret

theorem invalidate_writes (pid : Int64) : All (Writes ts) (Gateway.invalidate pid) := by
  refine all_call.mpr ⟨trivial, fun rt ↦ ?_⟩
  cases rt with
  | none => exact all_ret
  | some rt =>
      refine All.bind (All.each (fun b ↦ ?_) _) fun _ ↦ all_ret
      exact all_call_iff.mpr trivial

end Parts

/-! ## Handlers that only read -/

theorem handleListUsers_touches : All (Touches ts) handleListUsers :=
  (read_touches rfl).except (fun _ ↦ all_ret) fun _ ↦ all_ret

theorem profilesJSON_touches (ps : List Profile) : All (Touches ts) (profilesJSON ps) := by
  induction ps with
  | nil => exact all_ret
  | cons p ps ih =>
      refine (read_touches rfl).except (fun _ ↦ all_ret) fun _ ↦ ?_
      exact ih.except (fun _ ↦ all_ret) fun _ ↦ all_ret

theorem handleListProfiles_touches : All (Touches ts) (handleListProfiles ctx) := by
  refine (read_touches rfl).except (fun _ ↦ all_ret) fun ps ↦ ?_
  exact (profilesJSON_touches ps).except (fun _ ↦ all_ret) fun _ ↦ all_ret

theorem handleGetProfile_touches (pathID : String) :
    All (Touches ts) (handleGetProfile ctx pathID) :=
  (loadOwnedProfile_touches ctx pathID).except (fun _ ↦ all_ret) fun p ↦
    writeProfile_touches 200 p ""

theorem handleListCredentials_touches : All (Touches ts) (handleListCredentials ctx) :=
  (read_touches rfl).except (fun _ ↦ all_ret) fun _ ↦ all_ret

theorem handleListApps_touches : All (Touches ts) (handleListApps ctx) := by
  refine (read_touches rfl).except (fun _ ↦ all_ret) fun srvs ↦ ?_
  refine (read_touches rfl).except (fun _ ↦ all_ret) fun creds ↦ ?_
  refine (read_touches rfl).bind fun installs ↦ ?_
  refine All.bind (All.each (fun s ↦ ?_) srvs) fun _ ↦ all_ret
  exact (read_touches rfl).bind fun _ ↦ all_ret

theorem handleGetApp_touches (name : String) : All (Touches ts) (handleGetApp ctx name) := by
  unfold handleGetApp
  split
  · exact all_ret
  · refine (read_touches rfl).except (fun e ↦ ?_) fun rec ↦ ?_
    · dsimp only
      split
      · exact all_ret
      · exact all_ret
    · refine (read_touches rfl).except (fun _ ↦ all_ret) fun disabled ↦ ?_
      refine (read_touches rfl).bind fun cred ↦ ?_
      exact (read_touches rfl).bind fun _ ↦ all_ret

theorem listServers_touches : All (Touches ts) (listServers srv) := by
  unfold listServers
  split
  · exact read_touches rfl
  · exact read_touches rfl

theorem handleListServers_touches : All (Touches ts) (handleListServers srv) :=
  (listServers_touches srv).except (fun _ ↦ all_ret) fun _ ↦ all_ret

theorem handleRegistryServers_touches : All (Touches ts) (handleRegistryServers srv) := by
  unfold handleRegistryServers
  split
  · exact all_ret
  · exact (all_call_iff.mpr trivial).except (fun _ ↦ all_ret) fun _ ↦ all_ret

theorem handleListAuthConfigs_touches : All (Touches ts) handleListAuthConfigs :=
  (read_touches rfl).except (fun _ ↦ all_ret) fun _ ↦ all_ret

theorem handleListConnections_touches : All (Touches ts) (handleListConnections ctx) :=
  (read_touches rfl).except (fun _ ↦ all_ret) fun _ ↦ all_ret

theorem handleOverview_touches : All (Touches ts) (handleOverview ctx) := by
  refine all_call.mpr ⟨trivial, fun t ↦ ?_⟩
  refine All.except ?_ (fun _ ↦ all_ret) fun stats ↦ ?_
  · refine (read_touches rfl).except (fun _ ↦ all_ret) fun _ ↦ ?_
    refine (read_touches rfl).bind fun _ ↦ ?_
    exact (read_touches rfl).except (fun _ ↦ all_ret) fun _ ↦ all_ret
  · refine (read_touches rfl).bind fun _ ↦ ?_
    refine (read_touches rfl).bind fun _ ↦ ?_
    exact (read_touches rfl).bind fun _ ↦ all_ret

theorem handleListAudit_touches (r : Request) : All (Touches ts) (handleListAudit ctx r) :=
  (read_touches rfl).except (fun _ ↦ all_ret) fun _ ↦ all_ret

/-! ## Handlers that write -/

theorem impersonationEvent_touches (h : Tbl.audit ∈ ts) (adminEmail targetEmail decision : String)
    (targetID : Option Int64) :
    All (Touches ts) (impersonationEvent adminEmail targetEmail decision targetID) :=
  appendAudit_touches h ..

theorem handleCreateProfile_touches (body : Payload) :
    All (Touches [.profiles, .audit]) (handleCreateProfile ctx body) := by
  unfold handleCreateProfile
  split
  · dsimp only
    split
    · exact all_ret
    · split
      · exact all_ret
      · refine All.except (all_call_iff.mpr trivial) (fun _ ↦ all_ret) fun tok ↦ ?_
        refine All.except ?_ (fun e ↦ ?_) fun p ↦ ?_
        · exact all_call.mpr ⟨trivial, fun _ ↦ write_touches rfl (by decide)⟩
        · dsimp only
          split
          · exact all_ret
          · exact all_ret
        · exact (audit_touches ctx (by decide) ..).bind fun _ ↦ writeProfile_touches ..
  · exact all_ret

theorem handlePatchProfile_touches (pathID : String) (body : Payload) :
    All (Touches [.profiles, .audit]) (handlePatchProfile ctx pathID body) := by
  refine (loadOwnedProfile_touches ctx pathID).except (fun _ ↦ all_ret) fun p ↦ ?_
  dsimp only
  split
  · split
    · exact all_ret
    · refine (write_touches rfl (by decide)).except (fun _ ↦ all_ret) fun _ ↦ ?_
      exact (audit_touches ctx (by decide) ..).bind fun _ ↦ writeProfile_touches ..
  · exact all_ret

theorem handleDeleteProfile_writes (pathID : String) :
    All (Writes [.profileServers, .profiles, .audit]) (handleDeleteProfile ctx pathID) := by
  refine All.except ((loadOwnedProfile_touches ctx pathID).mono fun _ ↦ Touches.writes)
    (fun _ ↦ all_ret) fun p ↦ ?_
  have hdelete : All (Writes [.profileServers, .profiles, .audit]) (sql (.deleteProfile p.id)) :=
    all_call_iff.mpr (List.subset_append_left [Tbl.profileServers, Tbl.profiles] [Tbl.audit])
  refine hdelete.except (fun _ ↦ all_ret) fun _ ↦ ?_
  refine (invalidate_writes p.id).bind fun _ ↦ ?_
  exact ((audit_touches ctx (by decide) ..).mono fun _ ↦ Touches.writes).bind fun _ ↦ all_ret

theorem handlePutProfileServers_writes (pathID : String) (body : Payload) :
    All (Writes [.profileServers, .audit]) (handlePutProfileServers ctx pathID body) := by
  refine All.except ((loadOwnedProfile_touches ctx pathID).mono fun _ ↦ Touches.writes)
    (fun _ ↦ all_ret) fun p ↦ ?_
  dsimp only
  split
  · refine All.except ((read_touches rfl).mono fun _ ↦ Touches.writes) (fun _ ↦ all_ret)
      fun installs ↦ ?_
    dsimp only
    split
    · exact all_ret
    · refine All.except ((write_touches rfl (by decide)).mono fun _ ↦ Touches.writes) (fun _ ↦ all_ret)
        fun _ ↦ ?_
      refine (invalidate_writes p.id).bind fun _ ↦ ?_
      refine ((audit_touches ctx (by decide) ..).mono fun _ ↦ Touches.writes).bind fun _ ↦ ?_
      exact (writeProfile_touches ..).mono fun _ ↦ Touches.writes
  · exact all_ret

theorem handleRotateProfileToken_touches (pathID : String) :
    All (Touches [.profiles, .audit]) (handleRotateProfileToken ctx pathID) := by
  refine (loadOwnedProfile_touches ctx pathID).except (fun _ ↦ all_ret) fun p ↦ ?_
  refine All.except (all_call_iff.mpr trivial) (fun _ ↦ all_ret) fun tok ↦ ?_
  refine (write_touches rfl (by decide)).except (fun _ ↦ all_ret) fun _ ↦ ?_
  exact (audit_touches ctx (by decide) ..).bind fun _ ↦ writeProfile_touches ..

theorem handlePutCredential_touches (server : String) (body : Payload) :
    All (Touches [.credentials, .audit]) (handlePutCredential ctx server body) := by
  unfold handlePutCredential
  split
  · exact all_ret
  · split
    · split
      · exact all_ret
      · split
        · exact all_ret
        · refine All.except (all_call_iff.mpr trivial) (fun _ ↦ all_ret) fun enc ↦ ?_
          refine (write_touches rfl (by decide)).except (fun _ ↦ all_ret) fun _ ↦ ?_
          exact (audit_touches ctx (by decide) ..).bind fun _ ↦ all_ret
    · exact all_ret

theorem handleDeleteCredential_touches (server : String) :
    All (Touches [.credentials, .audit]) (handleDeleteCredential ctx server) := by
  unfold handleDeleteCredential
  split
  · exact all_ret
  · refine (write_touches rfl (by decide)).except (fun _ ↦ all_ret) fun _ ↦ ?_
    exact (audit_touches ctx (by decide) ..).bind fun _ ↦ all_ret

theorem handleInstallForUser_touches (name : String) :
    All (Touches [.userInstalls]) (handleInstallForUser ctx name) := by
  unfold handleInstallForUser
  split
  · exact all_ret
  · refine (read_touches rfl).except (fun _ ↦ all_ret) fun _ ↦ ?_
    refine All.except ?_ (fun _ ↦ all_ret) fun _ ↦ all_ret
    exact all_call.mpr ⟨trivial, fun _ ↦ write_touches rfl (by decide)⟩

theorem handleUninstallForUser_touches (name : String) :
    All (Touches [.profileServers, .userDisabledTools, .userInstalls])
      (handleUninstallForUser ctx name) := by
  unfold handleUninstallForUser
  split
  · exact all_ret
  · refine All.except ?_ (fun _ ↦ all_ret) fun _ ↦ all_ret
    refine (write_touches rfl (by decide)).except (fun _ ↦ all_ret) fun _ ↦ ?_
    refine (write_touches rfl (by decide)).except (fun _ ↦ all_ret) fun _ ↦ ?_
    exact write_touches rfl (by decide)

theorem handleSetAppTool_touches (name tool : String) (body : Payload) :
    All (Touches [.userDisabledTools]) (handleSetAppTool ctx name tool body) := by
  unfold handleSetAppTool
  split
  · exact all_ret
  · refine (read_touches rfl).bind fun installed ↦ ?_
    split
    · exact all_ret
    · refine (read_touches rfl).except (fun e ↦ ?_) fun rec ↦ ?_
      · dsimp only
        split
        · exact all_ret
        · exact all_ret
      · dsimp only
        split
        · exact all_ret
        · split
          · exact (write_touches rfl (by decide)).except (fun _ ↦ all_ret) fun _ ↦ all_ret
          · exact all_ret

theorem handlePutAuthConfig_touches (vendor : String) (body : Payload) :
    All (Touches [.authConfigs, .audit]) (handlePutAuthConfig srv ctx vendor body) := by
  unfold handlePutAuthConfig
  split
  · exact all_ret
  · split
    · split
      · exact all_ret
      · refine All.except ?_ (fun _ ↦ all_ret) fun enc ↦ ?_
        · unfold sealClientSecret
          split
          · exact all_call_iff.mpr trivial
          · exact (read_touches rfl).except (fun _ ↦ all_ret) fun _ ↦ all_ret
        · refine (write_touches rfl (by decide)).except (fun _ ↦ all_ret) fun _ ↦ ?_
          exact (audit_touches ctx (by decide) ..).bind fun _ ↦ all_ret
    · exact all_ret

theorem handleDeleteAuthConfig_touches (vendor : String) :
    All (Touches [.authConfigs, .audit]) (handleDeleteAuthConfig ctx vendor) := by
  unfold handleDeleteAuthConfig
  split
  · exact all_ret
  · refine (write_touches rfl (by decide)).except (fun _ ↦ all_ret) fun _ ↦ ?_
    exact (audit_touches ctx (by decide) ..).bind fun _ ↦ all_ret

theorem handleDisconnect_touches (vendor : String) :
    All (Touches [.connectedAccounts, .audit]) (handleDisconnect ctx vendor) := by
  unfold handleDisconnect
  split
  · exact all_ret
  · refine (write_touches rfl (by decide)).except (fun _ ↦ all_ret) fun _ ↦ ?_
    exact (audit_touches ctx (by decide) ..).bind fun _ ↦ all_ret

theorem handleInstallServer_touches (body : Payload) :
    All (Touches [.servers, .manifests, .audit]) (handleInstallServer srv ctx body) := by
  unfold handleInstallServer
  split
  · exact all_ret
  · split
    · split
      · exact all_ret
      · refine (Registry.install_touches (by decide) (by decide) _ _).except (fun _ ↦ all_ret)
          fun _ ↦ ?_
        exact (audit_touches ctx (by decide) ..).bind fun _ ↦ all_ret
    · exact all_ret

theorem handleUninstallServer_writes (name : String) :
    All (Writes [.servers, .manifests, .disabledTools, .profileServers, .userInstalls,
      .userDisabledTools, .audit]) (handleUninstallServer srv ctx name) := by
  unfold handleUninstallServer
  split
  · exact all_ret
  · refine All.except ((Registry.uninstall_touches (by simp) _ _).mono fun _ ↦ Touches.writes)
      (fun _ ↦ all_ret) fun _ ↦ ?_
    refine All.bind ?_ fun affected ↦ ?_
    · refine All.except ((read_touches rfl).mono fun _ ↦ Touches.writes) (fun _ ↦ all_ret) fun ids ↦ ?_
      refine All.bind ((write_touches rfl (by decide)).mono fun _ ↦ Touches.writes) fun _ ↦ all_ret
    refine All.bind (All.each (fun pid ↦ invalidate_writes pid) _) fun _ ↦ ?_
    refine All.bind ?_ fun _ ↦ ?_
    · refine All.except ((write_touches rfl (by decide)).mono fun _ ↦ Touches.writes) (fun _ ↦ all_ret)
        fun _ ↦ ?_
      refine All.except ((write_touches rfl (by decide)).mono fun _ ↦ Touches.writes) (fun _ ↦ all_ret)
        fun _ ↦ ?_
      exact (write_touches rfl (by decide)).mono fun _ ↦ Touches.writes
    · exact ((audit_touches ctx (by decide) ..).mono fun _ ↦ Touches.writes).bind fun _ ↦ all_ret

/-! ## Connect flows -/

theorem oauthConfigFor_touches (b : OAuthBroker) (ac : AuthConfig) (scopes : List String) :
    All (Touches ts) (b.oauthConfigFor ac scopes) := by
  unfold OAuthBroker.oauthConfigFor
  split
  · exact all_ret
  · exact All.except (all_call_iff.mpr trivial) (fun _ ↦ all_ret) fun _ ↦ all_ret

theorem handleOAuthStart_touches (r : Request) :
    All (Touches [.audit]) (handleOAuthStart srv ctx r) := by
  unfold handleOAuthStart
  split
  · exact all_ret
  · dsimp only
    split
    · exact all_ret
    · split
      · exact all_ret
      · refine All.bind ?_ fun required ↦ ?_
        · refine All.bind ?_ fun named ↦ (read_touches rfl).bind fun _ ↦ all_ret
          unfold namedScopes
          split
          · exact all_ret
          · exact (read_touches rfl).bind fun _ ↦ all_ret
        · refine (audit_touches ctx (by decide) ..).bind fun _ ↦ ?_
          unfold OAuthBroker.startHandler
          dsimp only
          split
          · exact all_ret
          · refine (read_touches rfl).except (fun e ↦ ?_) fun ac ↦ ?_
            · dsimp only
              split
              · exact all_ret
              · exact all_ret
            · refine (oauthConfigFor_touches _ _ _).except (fun _ ↦ all_ret) fun conf ↦ ?_
              refine All.except (all_call_iff.mpr trivial) (fun _ ↦ all_ret) fun state ↦ ?_
              refine all_call.mpr ⟨trivial, fun pkce ↦ all_call.mpr ⟨trivial, fun t ↦ ?_⟩⟩
              split
              · exact all_ret
              · exact all_ret

theorem handleOAuthCallback_touches (r : Request) :
    All (Touches [.connectedAccounts]) (handleOAuthCallback srv r) := by
  unfold handleOAuthCallback
  split
  · exact all_ret
  · unfold OAuthBroker.callbackHandler
    split
    · exact all_ret
    · refine All.except ?_ (fun _ ↦ all_ret) fun fs ↦ ?_
      · unfold OAuthBroker.verifyFlow
        split
        · exact all_ret
        · refine all_call.mpr ⟨trivial, fun t ↦ ?_⟩
          split
          · exact all_ret
          · exact all_ret
      · dsimp only
        split
        · exact all_ret
        split
        · exact all_ret
        refine (read_touches rfl).except (fun _ ↦ all_ret) fun ac ↦ ?_
        refine (oauthConfigFor_touches _ _ _).except (fun _ ↦ all_ret) fun conf ↦ ?_
        refine All.except (all_call_iff.mpr trivial) (fun _ ↦ all_ret) fun tok ↦ ?_
        dsimp only
        split
        · exact all_ret
        refine All.except (all_call_iff.mpr trivial) (fun _ ↦ all_ret) fun encRefresh ↦ ?_
        refine All.except (all_call_iff.mpr trivial) (fun _ ↦ all_ret) fun encAccess ↦ ?_
        exact (write_touches rfl (by decide)).except (fun _ ↦ all_ret) fun _ ↦ all_ret

/-! ## All routes -/

variable {srv ctx}

theorem requireAdmin_all {P : Call → Prop} {next : Code Response} (h : All P next) :
    All P (requireAdmin ctx next) := by
  unfold requireAdmin
  split
  · exact h
  · exact all_ret

/-- The handlers, by what they write: nothing but audit rows; tables that bear neither
on who a request acts as nor on what a profile exposes; and the ones that do. -/
inductive RouteKind (srv : Server) (ctx : Ctx) (r : Request) : String → Code Response → Prop
  | reads {h} (hreads : All (Touches [.audit]) h) : RouteKind srv ctx r "GET" h
  | callback (hpath : r.segs = ["api", "connections", "oauth", "callback"]) :
      RouteKind srv ctx r "GET" (handleOAuthCallback srv r)
  | stop : RouteKind srv ctx r "DELETE" (requireAdmin ctx (handleStopImpersonation ctx))
  | start : RouteKind srv ctx r "POST" (requireAdmin ctx (handleStartImpersonation ctx r.body))
  | other {m h} (hm : impersonationSafeMethod m = false)
      (hwrites : All (Touches [.credentials, .authConfigs, .connectedAccounts, .audit]) h) :
      RouteKind srv ctx r m h
  | profile {m h} (hm : impersonationSafeMethod m = false)
      (hwrites : All (Touches [.profiles, .audit]) h) : RouteKind srv ctx r m h
  | deleteProfile (pid : String) : RouteKind srv ctx r "DELETE" (handleDeleteProfile ctx pid)
  | putProfileServers (pid : String) :
      RouteKind srv ctx r "PUT" (handlePutProfileServers ctx pid r.body)
  | installForUser (name : String) : RouteKind srv ctx r "POST" (handleInstallForUser ctx name)
  | uninstallForUser (name : String) :
      RouteKind srv ctx r "DELETE" (handleUninstallForUser ctx name)
  | setAppTool (name tool : String) :
      RouteKind srv ctx r "PUT" (handleSetAppTool ctx name tool r.body)
  | installServer :
      RouteKind srv ctx r "POST" (requireAdmin ctx (handleInstallServer srv ctx r.body))
  | uninstallServer (name : String) :
      RouteKind srv ctx r "DELETE" (requireAdmin ctx (handleUninstallServer srv ctx name))

/-- Every route is of one of the kinds. -/
theorem handlersAt_kind {r : Request} {segs : List String} (hsegs : r.segs = "api" :: segs)
    {method : String} {handler : Code Response}
    (h : (method, handler) ∈ handlersAt srv ctx r segs) : RouteKind srv ctx r method handler := by
  unfold handlersAt at h
  split at h
  all_goals simp only [List.mem_cons, List.not_mem_nil, or_false, Prod.mk.injEq] at h
  · obtain ⟨rfl, rfl⟩ := h
    exact .reads all_ret
  · obtain ⟨rfl, rfl⟩ := h
    exact .reads (handleOverview_touches ctx)
  · obtain ⟨rfl, rfl⟩ := h
    exact .reads (handleListApps_touches ctx)
  · obtain ⟨rfl, rfl⟩ := h
    exact .reads (handleGetApp_touches ctx _)
  · obtain ⟨rfl, rfl⟩ | ⟨rfl, rfl⟩ := h
    · exact .uninstallForUser _
    · exact .installForUser _
  · obtain ⟨rfl, rfl⟩ := h
    exact .setAppTool _ _
  · obtain ⟨rfl, rfl⟩ | ⟨rfl, rfl⟩ := h
    · exact .reads (handleListProfiles_touches ctx)
    · exact .profile rfl (handleCreateProfile_touches ctx _)
  · obtain ⟨rfl, rfl⟩ | ⟨rfl, rfl⟩ | ⟨rfl, rfl⟩ := h
    · exact .deleteProfile _
    · exact .reads (handleGetProfile_touches ctx _)
    · exact .profile rfl (handlePatchProfile_touches ctx _ _)
  · obtain ⟨rfl, rfl⟩ := h
    exact .putProfileServers _
  · obtain ⟨rfl, rfl⟩ := h
    exact .profile rfl (handleRotateProfileToken_touches ctx _)
  · obtain ⟨rfl, rfl⟩ := h
    exact .reads (handleListCredentials_touches ctx)
  · obtain ⟨rfl, rfl⟩ | ⟨rfl, rfl⟩ := h
    · exact .other rfl ((handleDeleteCredential_touches ctx _).mono fun _ ↦ .mono (by decide))
    · exact .other rfl ((handlePutCredential_touches ctx _ _).mono fun _ ↦ .mono (by decide))
  · obtain ⟨rfl, rfl⟩ := h
    exact .reads (handleListServers_touches srv)
  · obtain ⟨rfl, rfl⟩ | ⟨rfl, rfl⟩ := h
    · exact .uninstallServer _
    · exact .installServer
  · obtain ⟨rfl, rfl⟩ := h
    exact .uninstallServer _
  · obtain ⟨rfl, rfl⟩ := h
    exact .reads (handleRegistryServers_touches srv)
  · obtain ⟨rfl, rfl⟩ := h
    exact .reads (requireAdmin_all handleListUsers_touches)
  · obtain ⟨rfl, rfl⟩ | ⟨rfl, rfl⟩ := h
    · exact .stop
    · exact .start
  · obtain ⟨rfl, rfl⟩ := h
    exact .reads (handleListAudit_touches ctx r)
  · obtain ⟨rfl, rfl⟩ := h
    exact .reads (requireAdmin_all handleListAuthConfigs_touches)
  · obtain ⟨rfl, rfl⟩ | ⟨rfl, rfl⟩ := h
    · exact .other rfl (requireAdmin_all
        ((handleDeleteAuthConfig_touches ctx _).mono fun _ ↦ .mono (by decide)))
    · exact .other rfl (requireAdmin_all
        ((handlePutAuthConfig_touches srv ctx _ _).mono fun _ ↦ .mono (by decide)))
  · obtain ⟨rfl, rfl⟩ := h
    exact .reads (handleListConnections_touches ctx)
  · obtain ⟨rfl, rfl⟩ := h
    exact .other rfl ((handleDisconnect_touches ctx _).mono fun _ ↦ .mono (by decide))
  · obtain ⟨rfl, rfl⟩ := h
    exact .reads (handleOAuthStart_touches srv ctx r)
  · obtain ⟨rfl, rfl⟩ := h
    exact .callback hsegs

/-- What the inner mux does with a request: answer it itself, or run a handler for its
method. -/
theorem authed_cases (srv : Server) (r : Request) (ctx : Ctx) :
    (∃ resp, authed srv r ctx = .ret resp) ∨
      ∃ segs method, r.segs = "api" :: segs ∧
        (method, authed srv r ctx) ∈ handlersAt srv ctx r segs ∧ methodMatches method r = true := by
  unfold authed
  split
  · rename_i segs hsegs
    dsimp only
    split
    · rename_i method handler hfind
      right
      have hmem := List.mem_of_find?_eq_some hfind
      have hmatch := List.find?_some hfind
      split at hmem
      · exact absurd hmem List.not_mem_nil
      · exact ⟨segs, method, hsegs, hmem, hmatch⟩
    · left
      split
      · exact ⟨_, rfl⟩
      · split
        · exact ⟨_, rfl⟩
        · exact ⟨_, rfl⟩
  · exact .inl ⟨_, rfl⟩

/-- A path with a route for one method. -/
theorem authed_eq {srv : Server} {r : Request} {segs : List String} {method : String}
    {handler : Code Response} {ctx : Ctx}
    (hpath : r.segs = "api" :: segs) (hsegs : segs.contains "" = false)
    (hroute : handlersAt srv ctx r segs = [(method, handler)]) :
    authed srv r ctx =
      if methodMatches method r then handler else .ret (methodNotAllowed [method]) := by
  unfold authed
  rw [hpath]
  simp only [hsegs, hroute, Bool.false_eq_true, if_false, List.find?_cons, List.find?_nil]
  cases methodMatches method r <;> rfl

end GigMcp.Api
