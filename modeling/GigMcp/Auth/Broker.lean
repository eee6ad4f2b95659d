import GigMcp.Api.Http

/-!
# The OAuth broker

Connect flows and refresh of per-vendor tokens (`auth/oauthbroker.go`).

A flow cookie is a signed payload.  What signing produces and which cookies
check out depends on the process's HMAC key, so the two are the fields of a
`FlowCodec`; the expiry check on top of it is the broker's own.

`refreshGroup` collapses concurrent refreshes for one key into one.  A follower
gets the value its leader's `refreshAndPersist` for the same user and vendor
returned, so the code here runs the leader's part.
-/

namespace GigMcp.Auth

open GigMcp.Effect GigMcp.System GigMcp.Store GigMcp.Http

/-- Signing and checking of a flow cookie under the process's key. -/
structure FlowCodec (α : Type) where
  sign : α → Except Err String
  check : String → Except Err α

/-- The signed payload of the connect-flow cookie. -/
structure OAuthFlowState where
  state : String
  verifier : String
  vendor : String
  userID : Int64
  returnTo : String
  scopes : List String
  expires : Int
deriving DecidableEq

/-- `authCodeURL` is the `oauth2` package's authorize URL for a config, a state
and a PKCE verifier. -/
structure OAuthBroker where
  flow : FlowCodec OAuthFlowState
  redirect : String
  authCodeURL : OAuthConfig → String → String → String

/-- `unicode.IsSpace`. -/
def isSpace (c : Char) : Bool :=
  c.toNat ∈ [0x09, 0x0a, 0x0b, 0x0c, 0x0d, 0x20, 0x85, 0xa0, 0x1680, 0x2028, 0x2029, 0x202f,
    0x205f, 0x3000] || (0x2000 ≤ c.toNat && c.toNat ≤ 0x200a)

/-- `strings.Fields`. -/
def fields (s : String) : List String :=
  ((s.toList.splitOnP isSpace).filter (· ≠ [])).map String.ofList

/-- The sorted, de-duplicated union of scope lists. -/
def unionScopes (lists : List (List String)) : List String :=
  orderBy id ((lists.flatten.filter (· ≠ "")).dedup)

def scopesSatisfied (granted required : List String) : Bool :=
  required.all fun s ↦ granted.contains s

namespace OAuthBroker

variable (b : OAuthBroker)

def verifyFlow (v : String) : Code (Except Err OAuthFlowState) := do
  match b.flow.check v with
  | .error e => return .error e
  | .ok fs =>
      let t ← now
      if t.unix > fs.expires then return .error (.new "oauth flow expired")
      else return .ok fs

def setFlowCookie (value : String) (maxAge : Int) : SetCookie :=
  ⟨"gig_oauth_flow", value, "/api/connections", maxAge⟩

/-- The `oauth2` config of a vendor, with its client secret opened. -/
def oauthConfigFor (ac : AuthConfig) (scopes : List String) : Code (Except Err OAuthConfig) := do
  if ac.encryptedClientSecret = "" then
    return .ok ⟨ac.clientID, "", ac.authorizeURL, ac.tokenURL, b.redirect, scopes⟩
  else
    match ← perform (.decrypt ac.encryptedClientSecret) with
    | .error e => return .error (.wrap ("decrypt client secret for " ++ ac.vendor) e)
    | .ok secret =>
        return .ok ⟨ac.clientID, secret, ac.authorizeURL, ac.tokenURL, b.redirect, scopes⟩

/-! ## The connect flow -/

/-- The scopes an account is stored with: the provider's own answer when it gives
one, the requested union otherwise. -/
def grantedScopes (fs : OAuthFlowState) (tok : OAuthToken) : List String :=
  match tok.scope with
  | none => fs.scopes
  | some s => if s = "" then fs.scopes else unionScopes [fields s]

/-- The end of the callback: seal both tokens and store the account. -/
def storeAccount (fs : OAuthFlowState) (tok : OAuthToken) : Code Response := do
  match ← perform (.encrypt tok.refreshToken) with
  | .error _ => return writeErr 500 "internal" "encrypt refresh token"
  | .ok encRefresh =>
      match ← perform (.encrypt tok.accessToken) with
      | .error _ => return writeErr 500 "internal" "encrypt access token"
      | .ok encAccess =>
          match ← sql (.putConnectedAccount ⟨fs.userID, fs.vendor, encRefresh, encAccess,
              tok.expiry, grantedScopes fs tok⟩) with
          | .error _ => return writeErr 500 "internal" "store connected account"
          | .ok _ =>
              return Http.redirect (if fs.returnTo = "" then "/" else fs.returnTo)
                [setFlowCookie "" (-1)]

def callbackHandler (r : Request) : Code Response := do
  match r.oauthFlow with
  | none => return writeErr 400 "oauth" "missing connect flow cookie (start again)"
  | some cookie =>
      match ← b.verifyFlow cookie with
      | .error _ =>
          return writeErr 400 "oauth" "invalid or expired connect flow (start again)"
      | .ok fs =>
          if r.queryGet "error" ≠ "" then
            return writeErr 401 "oauth" "the provider rejected or cancelled the connection"
          else if r.queryGet "state" ≠ fs.state then
            return writeErr 400 "oauth" "state mismatch"
          else
            match ← sql (.getAuthConfig fs.vendor) with
            | .error _ => return writeErr 500 "internal" "load auth config"
            | .ok ac =>
                match ← b.oauthConfigFor ac fs.scopes with
                | .error _ => return writeErr 500 "internal" "build oauth config"
                | .ok conf =>
                    match ← perform (.exchange conf (r.queryGet "code") fs.verifier) with
                    | .error _ => return writeErr 502 "oauth" "code exchange failed"
                    | .ok tok =>
                        if tok.refreshToken = "" then
                          return writeErr 502 "oauth"
                            "provider returned no refresh token (offline access required)"
                        else storeAccount fs tok

def startHandler (r : Request) (userID : Int64) (requiredScopes : List String)
    (returnTo : String) : Code Response := do
  let vendor := r.queryGet "vendor"
  if vendor = "" then return writeErr 400 "oauth" "missing vendor"
  else
    match ← sql (.getAuthConfig vendor) with
    | .error e =>
        if e.is .authConfigNotFound then
          return writeErr 404 "oauth" "no auth config for vendor (ask an admin to configure it)"
        else return writeErr 500 "internal" "load auth config"
    | .ok ac =>
        let scopes := unionScopes [ac.defaultScopes, requiredScopes]
        match ← b.oauthConfigFor ac scopes with
        | .error _ => return writeErr 500 "internal" "build oauth config"
        | .ok conf =>
            match ← perform .random with
            | .error _ => return writeErr 500 "internal" "entropy unavailable"
            | .ok state =>
                let pkce ← perform .newVerifier
                let t ← now
                match b.flow.sign ⟨state, pkce, vendor, userID, returnTo, scopes,
                    Time.unix (t + 600 * Time.second)⟩ with
                | .error _ => return writeErr 500 "internal" "sign connect flow"
                | .ok signed =>
                    return Http.redirect (b.authCodeURL conf state pkce)
                      [setFlowCookie signed 600]

/-! ## Refresh -/

/-- A token is refreshed this long before it expires. -/
def refreshSkew : Time := 60 * Time.second

def refreshAndPersist (userID : Int64) (vendor : String) : Code (Except Err String) := do
  match ← sql (.getConnectedAccount userID vendor) with
  | .error e => return .error e
  | .ok acct =>
      let t ← now
      if t + refreshSkew < acct.expiresAt then
        match ← perform (.decrypt acct.encryptedAccessToken) with
        | .error e => return .error (.wrap "decrypt cached access token" e)
        | .ok token => return .ok token
      else
        match ← sql (.getAuthConfig vendor) with
        | .error e => return .error (.wrap ("auth config for refresh " ++ vendor) e)
        | .ok ac =>
            match ← b.oauthConfigFor ac acct.grantedScopes with
            | .error e => return .error e
            | .ok conf =>
                match ← perform (.decrypt acct.encryptedRefreshToken) with
                | .error e => return .error (.wrap "decrypt refresh token" e)
                | .ok refreshToken =>
                    match ← perform (.refreshGrant conf refreshToken) with
                    | .error e => return .error (.wrap ("refresh token grant " ++ vendor) e)
                    | .ok newTok =>
                        match ← perform (.encrypt newTok.accessToken) with
                        | .error e =>
                            return .error (.wrap "encrypt refreshed access token" e)
                        | .ok encAccess =>
                            -- a failed update of the cached token is not fatal to this request
                            let _ ← sql (.updateConnectedAccountTokens userID vendor encAccess
                              newTok.expiry)
                            return .ok newTok.accessToken

def ensureFreshToken (userID : Int64) (vendor : String) : Code (Except Err String) := do
  match ← sql (.getConnectedAccount userID vendor) with
  | .error e => return .error e
  | .ok acct =>
      let t ← now
      if t + refreshSkew < acct.expiresAt then
        match ← perform (.decrypt acct.encryptedAccessToken) with
        | .error e => return .error (.wrap "decrypt cached access token" e)
        | .ok token => return .ok token
      else b.refreshAndPersist userID vendor

end OAuthBroker

end GigMcp.Auth
