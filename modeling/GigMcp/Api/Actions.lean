import GigMcp.Api.Frame

/-!
# The actions of the control plane

The route table of the inner mux as data: one `Action` for each handler with the values its
pattern binds, the method and the path of its pattern, and its code.  A property of everything
behind the session middleware is then a property of `Action.code`, one case for each handler.
-/

namespace GigMcp.Api

open GigMcp.Effect GigMcp.System GigMcp.Store GigMcp.Http GigMcp.Auth GigMcp.Data

/-- What a request may ask for behind the session middleware. -/
inductive Action
  | me
  | overview
  | listApps
  | getApp (name : String)
  | uninstallForUser (name : String)
  | installForUser (name : String)
  | setAppTool (name tool : String)
  | listProfiles
  | createProfile
  | deleteProfile (pid : String)
  | getProfile (pid : String)
  | patchProfile (pid : String)
  | putProfileServers (pid : String)
  | rotateProfileToken (pid : String)
  | listCredentials
  | deleteCredential (server : String)
  | putCredential (server : String)
  | listServers
  | uninstallServer (name : String)
  | installServer
  | registryServers
  | listUsers
  | stopImpersonation
  | startImpersonation
  | listAudit
  | listAuthConfigs
  | deleteAuthConfig (vendor : String)
  | putAuthConfig (vendor : String)
  | listConnections
  | disconnect (vendor : String)
  | oauthStart
  | oauthCallback

namespace Action

/-- The method of the pattern. -/
def method : Action → String
  | uninstallForUser _ | deleteProfile _ | deleteCredential _ | uninstallServer _
  | stopImpersonation | deleteAuthConfig _ | disconnect _ => "DELETE"
  | installForUser _ | createProfile | rotateProfileToken _ | installServer
  | startImpersonation => "POST"
  | setAppTool .. | putProfileServers _ | putCredential _ | putAuthConfig _ => "PUT"
  | patchProfile _ => "PATCH"
  | _ => "GET"

/-- The path of the pattern below `/api`, its wildcards filled in. -/
def segs : Action → List String
  | me => ["me"]
  | overview => ["overview"]
  | listApps => ["apps"]
  | getApp name => ["apps", name]
  | uninstallForUser name | installForUser name => ["apps", name, "install"]
  | setAppTool name tool => ["apps", name, "tools", tool]
  | listProfiles | createProfile => ["profiles"]
  | deleteProfile pid | getProfile pid | patchProfile pid => ["profiles", pid]
  | putProfileServers pid => ["profiles", pid, "servers"]
  | rotateProfileToken pid => ["profiles", pid, "token"]
  | listCredentials => ["credentials"]
  | deleteCredential server | putCredential server => ["credentials", server]
  | listServers => ["servers"]
  | uninstallServer name => ["servers", name]
  | installServer => ["servers", "install"]
  | registryServers => ["registry", "servers"]
  | listUsers => ["users"]
  | stopImpersonation | startImpersonation => ["admin", "impersonate"]
  | listAudit => ["audit"]
  | listAuthConfigs => ["auth-configs"]
  | deleteAuthConfig vendor | putAuthConfig vendor => ["auth-configs", vendor]
  | listConnections => ["connections"]
  | disconnect vendor => ["connections", vendor]
  | oauthStart => ["connections", "oauth", "start"]
  | oauthCallback => ["connections", "oauth", "callback"]

/-- The actions behind `RequireAdmin`. -/
def admin : Action → Bool
  | uninstallServer _ | installServer | listUsers | stopImpersonation | startImpersonation
  | listAuthConfigs | deleteAuthConfig _ | putAuthConfig _ => true
  | _ => false

/-- The handler without its `RequireAdmin`. -/
def handler (srv : Server) (ctx : Ctx) (r : Request) : Action → Code Response
  | me => handleMe ctx
  | overview => handleOverview ctx
  | listApps => handleListApps ctx
  | getApp name => handleGetApp ctx name
  | uninstallForUser name => handleUninstallForUser ctx name
  | installForUser name => handleInstallForUser ctx name
  | setAppTool name tool => handleSetAppTool ctx name tool r.body
  | listProfiles => handleListProfiles ctx
  | createProfile => handleCreateProfile ctx r.body
  | deleteProfile pid => handleDeleteProfile ctx pid
  | getProfile pid => handleGetProfile ctx pid
  | patchProfile pid => handlePatchProfile ctx pid r.body
  | putProfileServers pid => handlePutProfileServers ctx pid r.body
  | rotateProfileToken pid => handleRotateProfileToken ctx pid
  | listCredentials => handleListCredentials ctx
  | deleteCredential server => handleDeleteCredential ctx server
  | putCredential server => handlePutCredential ctx server r.body
  | listServers => handleListServers srv
  | uninstallServer name => handleUninstallServer srv ctx name
  | installServer => handleInstallServer srv ctx r.body
  | registryServers => handleRegistryServers srv
  | listUsers => handleListUsers
  | stopImpersonation => handleStopImpersonation ctx
  | startImpersonation => handleStartImpersonation ctx r.body
  | listAudit => handleListAudit ctx r
  | listAuthConfigs => handleListAuthConfigs
  | deleteAuthConfig vendor => handleDeleteAuthConfig ctx vendor
  | putAuthConfig vendor => handlePutAuthConfig srv ctx vendor r.body
  | listConnections => handleListConnections ctx
  | disconnect vendor => handleDisconnect ctx vendor
  | oauthStart => handleOAuthStart srv ctx r
  | oauthCallback => handleOAuthCallback srv r

def code (srv : Server) (ctx : Ctx) (r : Request) (a : Action) : Code Response :=
  if a.admin then requireAdmin ctx (a.handler srv ctx r) else a.handler srv ctx r

end Action

variable {srv : Server} {ctx : Ctx} {r : Request}

/-- A statement about the effective user, or a read of what all users share. -/
def AsksSql (ctx : Ctx) : Sql → Prop
  | .getManifest _ | .listManifests | .getAuthConfig _ => True
  | .isUserInstalled userID _ | .installForUser userID _ _ | .deleteOwnInstall userID _
  | .deleteOwnProfileServers userID _ | .deleteOwnDisabledTools userID _
  | .setUserToolEnabled userID _ _ _ | .deleteConnectedAccount userID _ =>
      userID = ctx.effective.id
  | .putCredential c => c.tenant = userTenant ctx.effective.id
  | .deleteCredential _ tenant => tenant = userTenant ctx.effective.id
  | .appendAudit e => e.userID = some ctx.real.id
  | _ => False

def Asks (ctx : Ctx) : Call → Prop
  | .sql c => AsksSql ctx c
  | .now | .encrypt _ | .decrypt _ | .random | .newVerifier => True
  | _ => False

section Asks

variable (srv : Server) (ctx : Ctx) (r : Request)

end Asks

end GigMcp.Api
