import GigMcp.Api.Handlers

/-!
# Routing

`Server.Routes` (`api/api.go`): the inner mux behind the session middleware, the
three routes of the login flow outside it, and the JSON envelope of what the mux
itself answers (`api/envelope.go`).

`handlersAt` lists the patterns that match a path, with their methods.  A pattern
for `GET` also matches `HEAD`, and a wildcard matches one segment that is not
empty.
-/

namespace GigMcp.Api

open GigMcp.Effect GigMcp.System GigMcp.Store GigMcp.Http GigMcp.Auth GigMcp.Data

/-- A pattern for `method` matches a request's method. -/
def methodMatches (method : String) (r : Request) : Bool :=
  method = r.method || (method = "GET" && r.method = "HEAD")

/-- The patterns of the inner mux that match a path. -/
def handlersAt (srv : Server) (ctx : Ctx) (r : Request) :
    List String → List (String × Code Response)
  | ["me"] => [("GET", handleMe ctx)]
  | ["overview"] => [("GET", handleOverview ctx)]
  | ["apps"] => [("GET", handleListApps ctx)]
  | ["apps", name] => [("GET", handleGetApp ctx name)]
  | ["apps", name, "install"] =>
      [("DELETE", handleUninstallForUser ctx name), ("POST", handleInstallForUser ctx name)]
  | ["apps", name, "tools", tool] => [("PUT", handleSetAppTool ctx name tool r.body)]
  | ["profiles"] => [("GET", handleListProfiles ctx), ("POST", handleCreateProfile ctx r.body)]
  | ["profiles", pid] =>
      [("DELETE", handleDeleteProfile ctx pid), ("GET", handleGetProfile ctx pid),
        ("PATCH", handlePatchProfile ctx pid r.body)]
  | ["profiles", pid, "servers"] => [("PUT", handlePutProfileServers ctx pid r.body)]
  | ["profiles", pid, "token"] => [("POST", handleRotateProfileToken ctx pid)]
  | ["credentials"] => [("GET", handleListCredentials ctx)]
  | ["credentials", server] =>
      [("DELETE", handleDeleteCredential ctx server),
        ("PUT", handlePutCredential ctx server r.body)]
  | ["servers"] => [("GET", handleListServers srv)]
  | ["servers", "install"] =>
      [("DELETE", requireAdmin ctx (handleUninstallServer srv ctx "install")),
        ("POST", requireAdmin ctx (handleInstallServer srv ctx r.body))]
  | ["servers", name] => [("DELETE", requireAdmin ctx (handleUninstallServer srv ctx name))]
  | ["registry", "servers"] => [("GET", handleRegistryServers srv)]
  | ["users"] => [("GET", requireAdmin ctx handleListUsers)]
  | ["admin", "impersonate"] =>
      [("DELETE", requireAdmin ctx (handleStopImpersonation ctx)),
        ("POST", requireAdmin ctx (handleStartImpersonation ctx r.body))]
  | ["audit"] => [("GET", handleListAudit ctx r)]
  | ["auth-configs"] => [("GET", requireAdmin ctx handleListAuthConfigs)]
  | ["auth-configs", vendor] =>
      [("DELETE", requireAdmin ctx (handleDeleteAuthConfig ctx vendor)),
        ("PUT", requireAdmin ctx (handlePutAuthConfig srv ctx vendor r.body))]
  | ["connections"] => [("GET", handleListConnections ctx)]
  | ["connections", vendor] => [("DELETE", handleDisconnect ctx vendor)]
  | ["connections", "oauth", "start"] => [("GET", handleOAuthStart srv ctx r)]
  | ["connections", "oauth", "callback"] => [("GET", handleOAuthCallback srv r)]
  | _ => []

/-- The envelope of the mux's own 405. -/
def methodNotAllowed (methods : List String) : Response :=
  let allowed := orderBy id
    (methods ++ if methods.contains "GET" then ["HEAD"] else [])
  writeErr 405 "method_not_allowed"
    ("method not allowed; allowed: " ++ ", ".intercalate allowed)

/-- The inner mux. -/
def authed (srv : Server) (r : Request) (ctx : Ctx) : Code Response :=
  match r.segs with
  | "api" :: segs =>
      let patterns := if segs.contains "" then [] else handlersAt srv ctx r segs
      match patterns.find? fun p ↦ methodMatches p.1 r with
      | some (_, handler) => handler
      | none =>
          if patterns.isEmpty then return writeErr 404 "not_found" "not found"
          else return methodNotAllowed (patterns.map Prod.fst)
  | _ => return writeErr 404 "not_found" "not found"

/-- The routes of the login flow. -/
def authRoutes (a : Authenticator) (r : Request) : Option (Code Response) :=
  match r.segs with
  | ["api", "auth", "login"] =>
      if methodMatches "GET" r then some (a.loginHandler r) else none
  | ["api", "auth", "callback"] =>
      if methodMatches "GET" r then some (a.callbackHandler r) else none
  | ["api", "auth", "logout"] =>
      if methodMatches "POST" r then some (a.logoutHandler r) else none
  | _ => none

/-- `ServeMux`'s redirect to the clean path. -/
def redirectClean : Response := ⟨307, .none, [], some ""⟩

/-- `Routes`: what the control plane does with a request under `/api/`. -/
def routes (srv : Server) (r : Request) : Code Response :=
  if r.method ≠ "CONNECT" ∧ !r.clean then return redirectClean
  else
    match srv.authn.bind fun a ↦ authRoutes a r with
    | some handler => handler
    | none => sessionMiddleware (authed srv r) r

end GigMcp.Api
