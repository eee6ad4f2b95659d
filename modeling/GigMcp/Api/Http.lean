import GigMcp.Store.Methods

/-!
# Requests and responses of the control plane

A request as the handlers see it.  The path is given by its segments, each
already unescaped, as `ServeMux` matches it; `urlPath` is the unescaped path the
session middleware compares.  `clean` says that the escaped path is its own
`cleanPath`; `ServeMux` redirects any other.  Of the session cookie only `HashToken` of its
value is ever used, so that hash stands for it; the cookie is absent when the
request carries none or an empty one.

A body is given by what `decodeJSON` makes of it for the struct its handler
decodes into.  A response is its status, its JSON and the cookies and redirect
it sets.
-/

namespace GigMcp.Http

open GigMcp.Store

/-- The body of `PUT /api/credentials/{server}`. -/
structure CredentialPutBody where
  secret : String
  injectHeader : String
  injectFormat : String
  placeholder : String
  allowedHosts : List String

/-- The body of `PUT /api/auth-configs/{vendor}`. -/
structure AuthConfigPutBody where
  authorizeURL : String
  tokenURL : String
  clientID : String
  clientSecret : String
  defaultScopes : List String
  pkce : Bool
  mode : String

/-- What `decodeJSON` makes of a body. -/
inductive Payload
  | malformed (tooLarge : Bool) (detail : String)
  | install (ref : String)
  | setAppTool (enabled : Bool)
  | createProfile (name slug : String)
  | patchProfile (name : String)
  | putProfileServers (servers : List String)
  | putCredential (b : CredentialPutBody)
  | impersonate (userID ttlMinutes : Int64)
  | putAuthConfig (b : AuthConfigPutBody)

structure Request where
  method : String
  segs : List String
  clean : Bool
  query : List (String × String)
  session : Option String
  oauthFlow : Option String
  oidcFlow : Option String
  idToken : Option String
  body : Payload

/-- `r.URL.Path`. -/
def Request.urlPath (r : Request) : String :=
  "/" ++ Data.joinChar '/' r.segs

/-- `r.URL.Query().Get(key)`. -/
def Request.queryGet (r : Request) (key : String) : String :=
  ((r.query.find? fun q ↦ q.1 = key).map Prod.snd).getD ""

/-! ## Response bodies -/

structure UserJSON where
  id : Int64
  email : String
  displayName : String
  role : Role

structure ProfileJSON where
  id : Int64
  slug : String
  name : String
  userID : Int64
  endpoint : String
  servers : List String
  token : String

structure CredentialJSON where
  server : String
  injectHeader : String
  injectFormat : String
  placeholder : String
  allowedHosts : List String

structure ServerJSON where
  id : Int64
  name : String

structure RegistryServerJSON where
  name : String
  displayName : String
  description : String
  latest : String

structure AppSummaryJSON where
  name : String
  displayName : String
  category : String
  authType : String
  connected : Bool
  version : String
  installedByMe : Bool

structure AppToolJSON where
  name : String
  default : Bool
  enabled : Bool

structure AppDetailJSON where
  name : String
  displayName : String
  category : String
  description : String
  authType : String
  provider : String
  vendor : String
  scopes : List String
  connected : Bool
  version : String
  allowedHosts : List String
  tools : List AppToolJSON
  injectHeader : String
  injectFormat : String
  placeholder : String
  installedByMe : Bool

structure AuthConfigJSON where
  vendor : String
  authorizeURL : String
  tokenURL : String
  clientID : String
  defaultScopes : List String
  pkce : Bool
  mode : String
  hasSecret : Bool

structure ConnectedAccountJSON where
  vendor : String
  grantedScopes : List String
  expiresAt : Int

structure OverviewResponse where
  toolCalls : Nat
  apps : Nat
  connected : Nat
  profiles : Nat
  mostUsedApp : String
  heatmap : List HeatmapDay

inductive Body
  | none
  | error (code message : String)
  | me (user : UserJSON) (impersonating : Bool) (realUser : Option UserJSON)
  | overview (o : OverviewResponse)
  | apps (as : List AppSummaryJSON)
  | app (a : AppDetailJSON)
  | profiles (ps : List ProfileJSON)
  | profile (p : ProfileJSON)
  | credentials (cs : List CredentialJSON)
  | servers (ss : List ServerJSON)
  | server (s : ServerJSON)
  | registry (ss : List RegistryServerJSON)
  | users (us : List UserJSON)
  | audit (events : List AuditEvent) (nextBefore : Int64)
  | authConfigs (as : List AuthConfigJSON)
  | connections (cs : List ConnectedAccountJSON)
  | logoutURL (idTokenHint : String)

structure SetCookie where
  name : String
  value : String
  path : String
  maxAge : Int

structure Response where
  status : Nat
  body : Body
  cookies : List SetCookie
  location : Option String

def writeJSON (status : Nat) (body : Body) : Response := ⟨status, body, [], none⟩

def writeErr (status : Nat) (code message : String) : Response :=
  writeJSON status (.error code message)

/-- `w.WriteHeader(status)` with nothing written. -/
def writeHeader (status : Nat) : Response := writeJSON status .none

def redirect (location : String) (cookies : List SetCookie) : Response :=
  ⟨302, .none, cookies, some location⟩

/-- `decodeJSON` of a body that is not what the handler expects. -/
def decodeFailure : Payload → Response
  | .malformed true _ => writeErr 413 "invalid" "request body too large"
  | .malformed false detail => writeErr 400 "invalid" ("invalid JSON body: " ++ detail)
  | _ => writeErr 400 "invalid" "invalid JSON body: json: unknown field"

end GigMcp.Http
