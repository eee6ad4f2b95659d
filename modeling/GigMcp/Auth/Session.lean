import GigMcp.Auth.Broker

/-!
# Sessions and login

The session middleware with its view-as rule (`auth/session.go`), and the OIDC
login flow that issues sessions (`auth/oidc.go`).

`loadSession` is the part of `SessionMiddleware` that reads the store.  It either
answers the request itself or yields the context the next handler runs in.
-/

namespace GigMcp.Auth

open GigMcp.Effect GigMcp.System GigMcp.Store GigMcp.Http

/-- What the middleware puts into a request's context. -/
structure Ctx where
  real : User
  effective : User
  sessionHash : String
  impersonating : Bool
deriving DecidableEq

def stopImpersonationPath : String := "/api/admin/impersonate"

def impersonationSafeMethod (method : String) : Bool := method = "GET" || method = "HEAD"

/-- The view-as rule: while impersonating, a request may only read, or stop. -/
def blocked (ctx : Ctx) (r : Request) : Bool :=
  ctx.impersonating && !impersonationSafeMethod r.method &&
    !(r.method = "DELETE" && r.urlPath = stopImpersonationPath)

/-- The effective user of a session: the target of an impersonation that has not
expired, as long as the target exists. -/
def loadEffective (sess : Session) (real : User) (hash : String) :
    Code (Except Response Ctx) := do
  match sess.impersonatingUserID, sess.impersonationExpiresAt with
  | some targetID, some expiresAt => do
      let t ← now
      if t < expiresAt then
        match ← sql (.getUser targetID) with
        | .ok target => return .ok ⟨real, target, hash, true⟩
        | .error e =>
            if e.is .userNotFound then return .ok ⟨real, real, hash, false⟩
            else return .error (writeErr 500 "internal" "internal error")
      else return .ok ⟨real, real, hash, false⟩
  | _, _ => return .ok ⟨real, real, hash, false⟩

/-- Authenticate a request by its session cookie. -/
def loadSession (r : Request) : Code (Except Response Ctx) := do
  match r.session with
  | none => return .error (writeErr 401 "unauthenticated" "missing session cookie")
  | some hash =>
      match ← getSession hash with
      | .error e =>
          if e.is .sessionNotFound then
            return .error (writeErr 401 "unauthenticated" "invalid or expired session")
          else return .error (writeErr 500 "internal" "internal error")
      | .ok sess =>
          match ← sql (.getUser sess.userID) with
          | .error e =>
              if e.is .userNotFound then
                return .error (writeErr 401 "unauthenticated" "invalid session")
              else return .error (writeErr 500 "internal" "internal error")
          | .ok real => loadEffective sess real hash

/-- `SessionMiddleware`. -/
def sessionMiddleware (next : Ctx → Code Response) (r : Request) : Code Response := do
  match ← loadSession r with
  | .error resp => return resp
  | .ok ctx =>
      if blocked ctx r then
        return writeErr 403 "impersonating"
          "mutations are blocked while impersonating (view-as is read-only)"
      else next ctx

/-- `RequireAdmin`. -/
def requireAdmin (ctx : Ctx) (next : Code Response) : Code Response :=
  if ctx.real.role = .admin then next
  else return writeErr 403 "forbidden" "admin role required"

/-! ## Login -/

/-- The signed payload of the login-flow cookie. -/
structure FlowState where
  state : String
  nonce : String
  verifier : String
  expires : Int

structure Authenticator where
  flow : FlowCodec FlowState
  authCodeURL : String → String → String → Bool → String
  adminRole : String
  sessionTTL : Time
  endSessionEndpoint : String

/-- The role a roles claim maps to. -/
def mapRole (roles : List String) (adminRole : String) : Role :=
  if roles.contains adminRole then .admin else .user

namespace Authenticator

variable (a : Authenticator)

def setFlowCookie (value : String) (maxAge : Int) : SetCookie :=
  ⟨"gig_oidc_flow", value, "/api/auth", maxAge⟩

def verifyFlow (v : String) : Code (Except Err FlowState) := do
  match a.flow.check v with
  | .error e => return .error e
  | .ok fs =>
      let t ← now
      if t.unix > fs.expires then return .error (.new "login flow expired")
      else return .ok fs

def loginHandler (r : Request) : Code Response := do
  match ← perform .random with
  | .error _ => return writeErr 500 "internal" "entropy unavailable"
  | .ok state =>
      match ← perform .random with
      | .error _ => return writeErr 500 "internal" "entropy unavailable"
      | .ok nonce =>
          let pkce ← perform .newVerifier
          let t ← now
          match a.flow.sign ⟨state, nonce, pkce, Time.unix (t + 600 * Time.second)⟩ with
          | .error _ => return writeErr 500 "internal" "sign login flow"
          | .ok signed =>
              return redirect (a.authCodeURL state nonce pkce (r.queryGet "prompt" = "create"))
                [setFlowCookie signed 600]

/-- The end of the login callback: provision the user and issue a session. -/
def issueSession (idt : IDToken) (claims : Claims) (rawID : String) : Code Response := do
  match ← upsertUserByOIDC idt.issuer idt.subject claims.email claims.name
      (mapRole claims.roles a.adminRole) with
  | .error _ => return writeErr 500 "internal" "provision user"
  | .ok user =>
      match ← perform .newToken with
      | .error _ => return writeErr 500 "internal" "entropy unavailable"
      | .ok tok =>
          let t ← now
          match ← createSession tok.hash user.id (t + a.sessionTTL) with
          | .error _ => return writeErr 500 "internal" "create session"
          | .ok _ =>
              let _ ← appendAudit .auth (some user.id) none "login" user.email
              return redirect "/"
                [setFlowCookie "" (-1),
                  ⟨"gig_session", tok.plain, "/", a.sessionTTL / Time.second⟩,
                  ⟨"gig_idt", rawID, "/api/auth/logout", a.sessionTTL / Time.second⟩]

/-- Verify the identity token of a login and issue a session for it. -/
def finishLogin (fs : FlowState) (rawID : String) : Code Response := do
  match ← perform (.oidcVerify rawID) with
  | .error _ => return writeErr 401 "oidc" "id_token verification failed"
  | .ok idt =>
      if idt.nonce ≠ fs.nonce then return writeErr 401 "oidc" "nonce mismatch"
      else
        match idt.claims with
        | .error _ => return writeErr 502 "oidc" "parse id_token claims"
        | .ok claims => a.issueSession idt claims rawID

def callbackHandler (r : Request) : Code Response := do
  match r.oidcFlow with
  | none => return writeErr 400 "oidc" "missing login flow cookie (login again)"
  | some cookie =>
      match ← a.verifyFlow cookie with
      | .error _ =>
          return writeErr 400 "oidc" "invalid or expired login flow (try logging in again)"
      | .ok fs =>
          if r.queryGet "error" ≠ "" then
            return writeErr 401 "oidc"
              "login was cancelled or rejected by the identity provider"
          else if r.queryGet "state" ≠ fs.state then
            return writeErr 400 "oidc" "state mismatch"
          else
            match ← perform (.oidcExchange (r.queryGet "code") fs.verifier) with
            | .error _ => return writeErr 502 "oidc" "code exchange failed"
            | .ok none => return writeErr 502 "oidc" "token response had no id_token"
            | .ok (some rawID) => a.finishLogin fs rawID

/-- Delete the session of a logout, with an audit row when it is still valid. -/
def endSession (hash : String) : Code Unit := do
  match ← getSession hash with
  | .error _ => do
      let _ ← sql (.deleteSession hash)
      return ()
  | .ok sess => do
      let _ ← appendAudit .auth (some sess.userID) none "logout" ""
      let _ ← sql (.deleteSession hash)
      return ()

/-- The answer to a logout. -/
def loggedOut (r : Request) : Response :=
  let cookies : List SetCookie :=
    [⟨"gig_session", "", "/", -1⟩, ⟨"gig_idt", "", "/api/auth/logout", -1⟩]
  let idToken := r.idToken.getD ""
  if a.endSessionEndpoint ≠ "" ∧ idToken ≠ "" then ⟨200, .logoutURL idToken, cookies, none⟩
  else ⟨204, .none, cookies, none⟩

def logoutHandler (r : Request) : Code Response :=
  match r.session with
  | none => return a.loggedOut r
  | some hash => do
      endSession hash
      return a.loggedOut r

end Authenticator

end GigMcp.Auth
