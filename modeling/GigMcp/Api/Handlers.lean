import GigMcp.Api.Validate
import GigMcp.Gateway.ProfileHost
import GigMcp.Gateway.Resolver
import GigMcp.Registry.Installer

/-!
# The control plane's handlers

The handlers of the `api` package that run behind the session middleware, each in
the context the middleware made.  `GigMcp.Api.Routes` says which request reaches
which of them.
-/

namespace GigMcp.Api

open GigMcp.Effect GigMcp.System GigMcp.Store GigMcp.Http GigMcp.Auth GigMcp.Data

/-- The control plane's dependencies.  A missing one makes its routes answer 501;
`registry` says whether a registry client is configured. -/
structure Server where
  broker : Option OAuthBroker
  installer : Option Registry.IndexInstaller
  registry : Bool
  authn : Option Authenticator
  validateExternalHTTPSURL : String → Except Err Unit

/-- An admin audit row from a handler, attributed to the real user.  A failing
write is ignored. -/
def audit (ctx : Ctx) (decision detail : String) (profileID : Option Int64) : Code Unit := do
  let _ ← appendAudit .admin (some ctx.real.id) profileID decision detail
  return ()

/-! ## Me, users and impersonation -/

def toUserJSON (u : User) : UserJSON := ⟨u.id, u.email, u.displayName, u.role⟩

def handleMe (ctx : Ctx) : Code Response :=
  return writeJSON 200 (.me (toUserJSON ctx.effective) ctx.impersonating
    (if ctx.impersonating then some (toUserJSON ctx.real) else none))

def handleListUsers : Code Response := do
  match ← sql .listUsers with
  | .error _ => return writeErr 500 "internal" "list users"
  | .ok users => return writeJSON 200 (.users (users.map toUserJSON))

def maxImpersonationTTL : Int64 := 3600000000000

/-- The requested duration in nanoseconds, in 64-bit arithmetic, and the maximum
when it is not in range. -/
def impersonationTTL (ttlMinutes : Int64) : Time :=
  let ttl := ttlMinutes * 60000000000
  (if ttl ≤ 0 ∨ ttl > maxImpersonationTTL then maxImpersonationTTL else ttl).toInt

/-- The loud audit row of an impersonation, attributed to the target. -/
def impersonationEvent (adminEmail targetEmail decision : String) (targetID : Option Int64) :
    Code (Except Err Unit) :=
  appendAudit .admin targetID none decision
    ("admin=" ++ adminEmail ++ " target=" ++ targetEmail)

def handleStartImpersonation (ctx : Ctx) (body : Payload) : Code Response := do
  match body with
  | .impersonate userID ttlMinutes =>
      if userID = 0 then return writeErr 400 "invalid" "body must be \x7buser_id, ttl_minutes\x7d"
      else if userID = ctx.real.id then
        return writeErr 400 "invalid" "cannot impersonate yourself"
      else
        match ← sql (.getUser userID) with
        | .error _ => return writeErr 404 "not_found" "user not found"
        | .ok target =>
            let t ← now
            match ← sql (.setImpersonation ctx.sessionHash target.id
                (t + impersonationTTL ttlMinutes)) with
            | .error _ => return writeErr 500 "internal" "set impersonation"
            | .ok _ =>
                match ← impersonationEvent ctx.real.email target.email "impersonate_start"
                    (some target.id) with
                | .error _ => return writeErr 500 "internal" "audit impersonation"
                | .ok _ => return writeHeader 204
  | p => return decodeFailure p

def handleStopImpersonation (ctx : Ctx) : Code Response := do
  match ← sql (.clearImpersonation ctx.sessionHash) with
  | .error _ => return writeErr 500 "internal" "clear impersonation"
  | .ok _ =>
      match ← impersonationEvent ctx.real.email ctx.effective.email "impersonate_stop"
          (if ctx.effective.id ≠ ctx.real.id then some ctx.effective.id else none) with
      | .error _ => return writeErr 500 "internal" "audit impersonation"
      | .ok _ => return writeHeader 204

/-! ## Profiles -/

def toProfileJSON (p : Profile) (servers : List String) (token : String) : ProfileJSON :=
  ⟨p.id, p.slug, p.name, p.userID, "/mcp/p/" ++ p.slug, servers, token⟩

def writeProfile (status : Nat) (p : Profile) (token : String) : Code Response := do
  match ← sql (.getProfileServers p.id) with
  | .error _ => return writeErr 500 "internal" "load profile servers"
  | .ok servers => return writeJSON status (.profile (toProfileJSON p servers token))

/-- Fetch a profile and enforce that it is the effective user's own, or that the
real user is an admin. -/
def loadOwnedProfile (ctx : Ctx) (pathID : String) : Code (Except Response Profile) := do
  match parseInt pathID with
  | none => return .error (writeErr 400 "invalid" "invalid profile id")
  | some pid =>
      match ← sql (.getProfileByID pid) with
      | .error e =>
          if e.is .profileNotFound then
            return .error (writeErr 404 "not_found" "profile not found")
          else return .error (writeErr 500 "internal" "load profile")
      | .ok p =>
          if p.userID ≠ ctx.effective.id ∧ ctx.real.role ≠ .admin then
            return .error (writeErr 404 "not_found" "profile not found")
          else return .ok p

/-- Collect the JSON of profiles, stopping at the first failing read. -/
def profilesJSON : List Profile → Code (Except Err (List ProfileJSON))
  | [] => return .ok []
  | p :: ps => do
      match ← sql (.getProfileServers p.id) with
      | .error e => return .error e
      | .ok servers =>
          match ← profilesJSON ps with
          | .error e => return .error e
          | .ok js => return .ok (toProfileJSON p servers "" :: js)

def handleListProfiles (ctx : Ctx) : Code Response := do
  match ← sql (.listProfiles (if ctx.effective.role = .admin then 0 else ctx.effective.id)) with
  | .error _ => return writeErr 500 "internal" "list profiles"
  | .ok ps =>
      match ← profilesJSON ps with
      | .error _ => return writeErr 500 "internal" "load profile servers"
      | .ok js => return writeJSON 200 (.profiles js)

def handleCreateProfile (ctx : Ctx) (body : Payload) : Code Response := do
  match body with
  | .createProfile rawName slug =>
      let name := trimSpace rawName
      if !validName name then return writeErr 400 "invalid" "name must be 1–128 characters"
      else if !slugRe slug then
        return writeErr 400 "invalid" "slug must match ^[a-z0-9][a-z0-9-]\x7b1,62\x7d$"
      else
        match ← perform .newToken with
        | .error _ => return writeErr 500 "internal" "entropy unavailable"
        | .ok tok =>
            match ← createProfile slug name ctx.effective.id tok.hash with
            | .error e =>
                if e.is .slugTaken then return writeErr 409 "conflict" "slug already in use"
                else return writeErr 500 "internal" "create profile"
            | .ok p =>
                audit ctx "profile_create" ("slug=" ++ p.slug) (some p.id)
                writeProfile 201 p tok.plain
  | p => return decodeFailure p

def handleGetProfile (ctx : Ctx) (pathID : String) : Code Response := do
  match ← loadOwnedProfile ctx pathID with
  | .error resp => return resp
  | .ok p => writeProfile 200 p ""

def handlePatchProfile (ctx : Ctx) (pathID : String) (body : Payload) : Code Response := do
  match ← loadOwnedProfile ctx pathID with
  | .error resp => return resp
  | .ok p =>
      match body with
      | .patchProfile rawName =>
          let name := trimSpace rawName
          if !validName name then return writeErr 400 "invalid" "name must be 1–128 characters"
          else
            match ← sql (.updateProfileName p.id name) with
            | .error _ => return writeErr 500 "internal" "rename profile"
            | .ok _ =>
                audit ctx "profile_rename" name (some p.id)
                writeProfile 200 { p with name := name } ""
      | b => return decodeFailure b

def handleDeleteProfile (ctx : Ctx) (pathID : String) : Code Response := do
  match ← loadOwnedProfile ctx pathID with
  | .error resp => return resp
  | .ok p =>
      match ← sql (.deleteProfile p.id) with
      | .error _ => return writeErr 500 "internal" "delete profile"
      | .ok _ =>
          Gateway.invalidate p.id
          audit ctx "profile_delete" ("slug=" ++ p.slug) (some p.id)
          return writeHeader 204

def handlePutProfileServers (ctx : Ctx) (pathID : String) (body : Payload) : Code Response := do
  match ← loadOwnedProfile ctx pathID with
  | .error resp => return resp
  | .ok p =>
      match body with
      | .putProfileServers servers =>
          match ← sql (.listUserInstalls p.userID) with
          | .error _ => return writeErr 500 "internal" "list installs"
          | .ok installs =>
              if !servers.all installs.contains then
                return writeErr 400 "invalid" "install the app before adding it to a profile"
              else
                match ← sql (.setProfileServers p.id servers) with
                | .error _ => return writeErr 500 "internal" "set profile servers"
                | .ok _ =>
                    Gateway.invalidate p.id
                    audit ctx "profile_servers" (joinChar ',' servers) (some p.id)
                    writeProfile 200 p ""
      | b => return decodeFailure b

def handleRotateProfileToken (ctx : Ctx) (pathID : String) : Code Response := do
  match ← loadOwnedProfile ctx pathID with
  | .error resp => return resp
  | .ok p =>
      match ← perform .newToken with
      | .error _ => return writeErr 500 "internal" "entropy unavailable"
      | .ok tok =>
          match ← sql (.setProfileToken p.id tok.hash) with
          | .error _ => return writeErr 500 "internal" "rotate token"
          | .ok _ =>
              audit ctx "profile_token_rotate" "" (some p.id)
              writeProfile 200 p tok.plain

/-! ## Credentials -/

def handleListCredentials (ctx : Ctx) : Code Response := do
  match ← sql (.listCredentialsByTenant (userTenant ctx.effective.id)) with
  | .error _ => return writeErr 500 "internal" "list credentials"
  | .ok creds =>
      return writeJSON 200 (.credentials (creds.map fun c ↦
        ⟨c.server, c.injectHeader, c.injectFormat, c.placeholder, c.allowedHosts⟩))

def handlePutCredential (ctx : Ctx) (server : String) (body : Payload) : Code Response := do
  match validateServerName server with
  | some msg => return writeErr 400 "invalid" msg
  | none =>
      match body with
      | .putCredential b =>
          if b.secret = "" then
            return writeErr 400 "invalid" "body must include a non-empty secret"
          else
            match validateCredentialBody b with
            | some (field, msg) => return writeErr 400 "invalid" (field ++ ": " ++ msg)
            | none =>
                match ← perform (.encrypt b.secret) with
                | .error _ => return writeErr 500 "internal" "encrypt secret"
                | .ok enc =>
                    match ← sql (.putCredential ⟨server, userTenant ctx.effective.id, enc,
                        b.injectHeader, b.injectFormat, b.placeholder, b.allowedHosts⟩) with
                    | .error _ => return writeErr 500 "internal" "store credential"
                    | .ok _ =>
                        audit ctx "credential_put" ("server=" ++ server) none
                        return writeHeader 204
      | p => return decodeFailure p

def handleDeleteCredential (ctx : Ctx) (server : String) : Code Response := do
  match validateServerName server with
  | some msg => return writeErr 400 "invalid" msg
  | none =>
      match ← sql (.deleteCredential server (userTenant ctx.effective.id)) with
      | .error _ => return writeErr 500 "internal" "delete credential"
      | .ok deleted =>
          audit ctx "credential_delete"
            ("server=" ++ server ++ if deleted then "" else " noop=true") none
          return writeHeader 204

/-! ## Apps -/

/-- The auth type of an app, from its first injection. -/
def appAuthType (rec : ManifestRecord) : String :=
  match rec.injections with
  | [] => "none"
  | inj :: _ => if inj.type ≠ "" then inj.type else "api_key"

/-- `a`, or `b` when `a` is empty. -/
def orElse (a b : String) : String := if a = "" then b else a

/-- One card, with the manifest's annotations when it could be read. -/
def appSummary (srv : Store.Server) (rec : Option ManifestRecord)
    (connected installed : List String) : AppSummaryJSON :=
  { name := srv.name
    displayName := orElse ((rec.map ManifestRecord.displayName).getD "") srv.name
    category := (rec.map ManifestRecord.category).getD ""
    authType := (rec.map appAuthType).getD "none"
    connected := connected.contains srv.name
    version := (rec.map ManifestRecord.version).getD ""
    installedByMe := installed.contains srv.name }

def handleListApps (ctx : Ctx) : Code Response := do
  match ← sql .listServers with
  | .error _ => return writeErr 500 "internal" "list apps"
  | .ok srvs =>
      match ← sql (.listCredentialsByTenant (userTenant ctx.effective.id)) with
      | .error _ => return writeErr 500 "internal" "list apps"
      | .ok creds =>
          let installs ← sql (.listUserInstalls ctx.effective.id)
          let out ← Prog.each (fun srv : Store.Server ↦ do
            let rec ← sql (.getManifest srv.name)
            return appSummary srv rec.toOption (creds.map Credential.server)
              (installs.toOption.getD [])) srvs
          return writeJSON 200 (.apps out)

def appDetail (name : String) (rec : ManifestRecord) (disabled : List String)
    (connected installedByMe : Bool) : AppDetailJSON :=
  let inj := rec.injections.head?.getD .zero
  { name := name
    displayName := orElse rec.displayName name
    category := rec.category
    description := rec.description
    authType := appAuthType rec
    provider := inj.provider
    vendor := orElse inj.vendor inj.provider
    scopes := inj.scopes
    connected := connected
    version := rec.version
    allowedHosts := rec.allowedHosts
    tools := rec.tools.map fun t ↦ ⟨t.name, t.default, !disabled.contains t.name⟩
    injectHeader := inj.header
    injectFormat := inj.format
    placeholder := inj.placeholder
    installedByMe := installedByMe }

def handleGetApp (ctx : Ctx) (name : String) : Code Response := do
  match validateServerName name with
  | some msg => return writeErr 400 "invalid" msg
  | none =>
      match ← sql (.getManifest name) with
      | .error e =>
          if e.is .manifestNotFound then return writeErr 404 "not_found" "app not found"
          else return writeErr 500 "internal" "load app"
      | .ok rec =>
          match ← sql (.listUserDisabledTools ctx.effective.id name) with
          | .error _ => return writeErr 500 "internal" "load app"
          | .ok disabled =>
              let cred ← sql (.getCredential name (userTenant ctx.effective.id))
              let installed ← sql (.isUserInstalled ctx.effective.id name)
              return writeJSON 200 (.app (appDetail name rec disabled cred.toOption.isSome
                (installed.toOption.getD false)))

def handleInstallForUser (ctx : Ctx) (name : String) : Code Response := do
  match validateServerName name with
  | some msg => return writeErr 400 "invalid" msg
  | none =>
      match ← sql (.getManifest name) with
      | .error _ => return writeErr 404 "not_found" "app not allow-listed"
      | .ok _ =>
          match ← installForUser ctx.effective.id name with
          | .error _ => return writeErr 500 "internal" "install"
          | .ok _ => return writeHeader 201

def handleUninstallForUser (ctx : Ctx) (name : String) : Code Response := do
  match validateServerName name with
  | some msg => return writeErr 400 "invalid" msg
  | none =>
      match ← uninstallForUser ctx.effective.id name with
      | .error _ => return writeErr 500 "internal" "uninstall"
      | .ok _ => return writeHeader 204

/-- A failing read of the install row counts as not installed. -/
def handleSetAppTool (ctx : Ctx) (name tool : String) (body : Payload) : Code Response := do
  match validateServerName name with
  | some msg => return writeErr 400 "invalid" msg
  | none =>
      let installed ← sql (.isUserInstalled ctx.effective.id name)
      if !installed.toOption.getD false then
        return writeErr 404 "not_found" "install the app before toggling its tools"
      else
        match ← sql (.getManifest name) with
        | .error e =>
            if e.is .manifestNotFound then return writeErr 404 "not_found" "app not found"
            else return writeErr 500 "internal" "load app"
        | .ok rec =>
            if !rec.tools.any (fun t ↦ t.name = tool) then
              return writeErr 400 "invalid" "unknown tool for app"
            else
              match body with
              | .setAppTool enabled =>
                  match ← sql (.setUserToolEnabled ctx.effective.id name tool enabled) with
                  | .error _ => return writeErr 500 "internal" "set tool state"
                  | .ok _ => return writeHeader 204
              | b => return decodeFailure b

/-! ## Servers and the registry -/

def toServerJSON (s : Store.Server) : ServerJSON := ⟨s.id, s.name⟩

/-- The installer's list, or the store's when there is no installer. -/
def listServers (srv : Server) : Code (Except Err (List Store.Server)) :=
  match srv.installer with
  | none => sql .listServers
  | some i => i.list

def handleListServers (srv : Server) : Code Response := do
  match ← listServers srv with
  | .error _ => return writeErr 500 "internal" "list servers"
  | .ok ss => return writeJSON 200 (.servers (ss.map toServerJSON))

def handleInstallServer (srv : Server) (ctx : Ctx) (body : Payload) : Code Response := do
  match srv.installer with
  | none => return writeErr 501 "internal" "installer unavailable"
  | some i =>
      match body with
      | .install ref =>
          if ref = "" then return writeErr 400 "invalid" "body must be \x7bref\x7d"
          else
            match ← i.install ref with
            | .error e => return writeErr 502 "install_failed" e.text
            | .ok s =>
                audit ctx "server_install" ("ref=" ++ ref) none
                return writeJSON 201 (.server (toServerJSON s))
      | p => return decodeFailure p

/-- The cleanup after an uninstall goes on when one of its statements fails. -/
def handleUninstallServer (srv : Server) (ctx : Ctx) (name : String) : Code Response := do
  match srv.installer with
  | none => return writeErr 501 "internal" "installer unavailable"
  | some i =>
      match ← i.uninstall name with
      | .error _ => return writeErr 502 "uninstall_failed" "uninstall failed"
      | .ok _ =>
          let (affected, _) ← removeServerFromProfiles name
          let _ ← Prog.each Gateway.invalidate affected
          let _ ← cascadeRemoveServer name
          audit ctx "server_uninstall" ("name=" ++ name) none
          return writeHeader 204

def registryServerJSON (s : Registry.IndexServer) : RegistryServerJSON :=
  match s.versions.find? fun v ↦ v.1 = s.latest with
  | some (_, m) => ⟨s.name, m.displayName, m.description, s.latest⟩
  | none => ⟨s.name, "", "", s.latest⟩

/-- The index is memoized for five minutes; the answer of `fetchIndex` stands for
the memo too. -/
def handleRegistryServers (srv : Server) : Code Response := do
  if !srv.registry then
    return writeErr 501 "registry_disabled"
      "no registry configured: set GIG_REGISTRY_INDEX_URL and GIG_REGISTRY_PUBKEY"
  else
    match ← perform .fetchIndex with
    | .error _ => return writeErr 502 "registry_unavailable" "registry index unavailable"
    | .ok ix =>
        return writeJSON 200 (.registry
          (orderBy RegistryServerJSON.name (ix.servers.map registryServerJSON)))

/-! ## Auth configs -/

/-- The checks `handlePutAuthConfig` makes of a body, in its order. -/
def validateAuthConfigBody (srv : Server) (b : AuthConfigPutBody) : Option String :=
  if b.authorizeURL = "" ∨ b.tokenURL = "" ∨ b.clientID = "" then
    some "authorize_url, token_url and client_id are required"
  else
    match srv.validateExternalHTTPSURL b.authorizeURL, srv.validateExternalHTTPSURL b.tokenURL with
    | .error e, _ => some ("authorize_url: " ++ e.text)
    | .ok _, .error e => some ("token_url: " ++ e.text)
    | .ok _, .ok _ =>
        if b.mode ≠ "managed" ∧ b.mode ≠ "byo" then
          some "mode must be 'managed' or 'byo'"
        else none

/-- The client secret to store: the new one, or the stored one when the update
does not bring any. -/
def sealClientSecret (vendor secret : String) : Code (Except Err String) := do
  if secret ≠ "" then perform (.encrypt secret)
  else
    match ← sql (.getAuthConfig vendor) with
    | .ok cur => return .ok cur.encryptedClientSecret
    | .error _ => return .ok ""

def handlePutAuthConfig (srv : Server) (ctx : Ctx) (vendor : String) (body : Payload) :
    Code Response := do
  if !vendorRe vendor then
    return writeErr 400 "invalid" "vendor must match ^[a-z0-9][a-z0-9_-]\x7b0,63\x7d$"
  else
    match body with
    | .putAuthConfig b =>
        match validateAuthConfigBody srv b with
        | some msg => return writeErr 400 "invalid" msg
        | none =>
            match ← sealClientSecret vendor b.clientSecret with
            | .error _ => return writeErr 500 "internal" "encrypt client secret"
            | .ok enc =>
                match ← sql (.putAuthConfig ⟨vendor, b.authorizeURL, b.tokenURL, b.clientID, enc,
                    b.defaultScopes, b.pkce, b.mode⟩) with
                | .error _ => return writeErr 500 "internal" "store auth config"
                | .ok _ =>
                    audit ctx "auth_config_put" ("vendor=" ++ vendor) none
                    return writeHeader 204
    | p => return decodeFailure p

def handleListAuthConfigs : Code Response := do
  match ← sql .listAuthConfigs with
  | .error _ => return writeErr 500 "internal" "list auth configs"
  | .ok cfgs =>
      return writeJSON 200 (.authConfigs (cfgs.map fun c ↦
        ⟨c.vendor, c.authorizeURL, c.tokenURL, c.clientID, c.defaultScopes, c.pkce, c.mode,
          c.clientID ≠ ""⟩))

def handleDeleteAuthConfig (ctx : Ctx) (vendor : String) : Code Response := do
  if !vendorRe vendor then return writeErr 400 "invalid" "invalid vendor"
  else
    match ← sql (.deleteAuthConfig vendor) with
    | .error _ => return writeErr 500 "internal" "delete auth config"
    | .ok _ =>
        audit ctx "auth_config_delete" ("vendor=" ++ vendor) none
        return writeHeader 204

/-! ## OAuth connections -/

def handleListConnections (ctx : Ctx) : Code Response := do
  match ← sql (.listConnectedAccountsByUser ctx.effective.id) with
  | .error _ => return writeErr 500 "internal" "list connections"
  | .ok accts =>
      return writeJSON 200 (.connections (accts.map fun a ↦
        ⟨a.vendor, a.grantedScopes, a.expiresAt.unix⟩))

/-- The scopes a manifest asks of a vendor. -/
def scopesFor (vendor : String) (rec : ManifestRecord) : List String :=
  match rec.injections with
  | [] => []
  | inj :: _ =>
      if inj.type = "oauth2" ∧ orElse inj.vendor inj.provider = vendor then inj.scopes else []

/-- The scopes the named app asks of a vendor. -/
def namedScopes (vendor server : String) : Code (List String) := do
  if server = "" then return []
  else
    let rec ← sql (.getManifest server)
    return (rec.toOption.map (scopesFor vendor)).getD []

def requiredScopesForVendor (vendor server : String) : Code (List String) := do
  let named ← namedScopes vendor server
  let recs ← sql .listManifests
  return named ++ (recs.toOption.getD []).flatMap (scopesFor vendor)

def handleOAuthStart (srv : Server) (ctx : Ctx) (r : Request) : Code Response := do
  match srv.broker with
  | none => return writeErr 501 "oauth_disabled" "OAuth broker is not configured"
  | some b =>
      let vendor := r.queryGet "vendor"
      let server := r.queryGet "server"
      if !connVendorRe vendor then return writeErr 400 "invalid" "invalid vendor"
      else if server ≠ "" ∧ !connServerRe server then
        return writeErr 400 "invalid" "invalid server"
      else
        let required ← requiredScopesForVendor vendor server
        audit ctx "oauth_connect_start" ("vendor=" ++ vendor) none
        b.startHandler r ctx.effective.id required
          (if server ≠ "" then "/servers/" ++ server else "/connected-accounts")

def handleOAuthCallback (srv : Server) (r : Request) : Code Response :=
  match srv.broker with
  | none => return writeErr 501 "oauth_disabled" "OAuth broker is not configured"
  | some b => b.callbackHandler r

def handleDisconnect (ctx : Ctx) (vendor : String) : Code Response := do
  if !connVendorRe vendor then return writeErr 400 "invalid" "invalid vendor"
  else
    match ← sql (.deleteConnectedAccount ctx.effective.id vendor) with
    | .error _ => return writeErr 500 "internal" "disconnect"
    | .ok _ =>
        audit ctx "oauth_disconnect" ("vendor=" ++ vendor) none
        return writeHeader 204

/-! ## Overview and audit -/

def overviewHeatmapDays : Int := 182

/-- The number of rows a read gave, zero when it failed. -/
def countOf {α : Type} (rows : Except Err (List α)) : Nat := (rows.toOption.getD []).length

def handleOverview (ctx : Ctx) : Code Response := do
  let t ← now
  match ← auditStats ctx.effective.id overviewHeatmapDays t with
  | .error _ => return writeErr 500 "internal" "overview stats"
  | .ok stats =>
      let srvs ← sql .listServers
      let creds ← sql (.listCredentialsByTenant (userTenant ctx.effective.id))
      let profs ← sql (.listProfiles ctx.effective.id)
      return writeJSON 200 (.overview
        ⟨stats.toolCalls, countOf srvs, countOf creds, countOf profs, stats.mostUsedApp,
          stats.heatmap⟩)

/-- The page size of a request. -/
def auditLimit (q : String) : Int64 :=
  let limit := parseIntValue q
  if limit ≤ 0 ∨ limit > 200 then 50 else limit

/-- Whose events a request may see: the effective user's in view-as, a
non-admin's own, and what an admin asks for. -/
def auditFilter (ctx : Ctx) (userID : String) : Int64 :=
  if ctx.impersonating then ctx.effective.id
  else if ctx.real.role ≠ .admin then ctx.real.id
  else parseIntValue userID

def handleListAudit (ctx : Ctx) (r : Request) : Code Response := do
  let limit := auditLimit (r.queryGet "limit")
  match ← listAudit (parseIntValue (r.queryGet "before")) limit.toInt
      (auditFilter ctx (r.queryGet "user_id")) with
  | .error _ => return writeErr 500 "internal" "list audit"
  | .ok events =>
      let next := (events.getLast?.map AuditEvent.id).getD 0
      return writeJSON 200 (.audit events (if events.length < limit.toInt then 0 else next))

end GigMcp.Api
