import GigMcp.Data.Table
import GigMcp.Data.Text

/-!
# The store's data model

The records of the `store` package and the thirteen tables `OpenSQLite` creates.
A table's primary key, and for `servers`, `users`, `profiles` and `audit` the
`AUTOINCREMENT` sequence of its ids, is part of its type.

Rows hold what a read of the row returns.  A list that a text column keeps
newline-joined is therefore stored as `throughColumn` leaves it, and a time that
an integer column keeps in seconds is stored truncated to the second; the
statements of `GigMcp.Store.Sql` apply both when they write.
-/

namespace GigMcp

open GigMcp.Data

/-! ## Errors and times -/

/-- A Go error: one of the store's sentinels, a fresh error with a text, or an
error wrapped with `%w`. -/
inductive Err
  | credentialNotFound
  | manifestNotFound
  | connectedAccountNotFound
  | authConfigNotFound
  | profileNotFound
  | slugTaken
  | userNotFound
  | sessionNotFound
  | new (text : String)
  | wrap (text : String) (err : Err)
deriving DecidableEq

namespace Err

/-- `err.Error()`. -/
def text : Err → String
  | credentialNotFound => "store: credential not found"
  | manifestNotFound => "store: manifest not found"
  | connectedAccountNotFound => "store: connected account not found"
  | authConfigNotFound => "store: auth config not found"
  | profileNotFound => "store: profile not found"
  | slugTaken => "store: slug already taken"
  | userNotFound => "store: user not found"
  | sessionNotFound => "store: session not found"
  | new s => s
  | wrap s e => s ++ ": " ++ e.text

/-- `errors.Is(err, target)`. -/
def is : Err → Err → Bool
  | wrap s e, target => decide (wrap s e = target) || e.is target
  | e, target => decide (e = target)

/-- No sentinel is in the chain: what a failing driver, vault or provider
returns. -/
def Foreign : Err → Prop
  | new _ => True
  | wrap _ e => e.Foreign
  | _ => False

/-- A foreign error is none of the sentinels. -/
theorem Foreign.is_eq_false {e target : Err} (h : e.Foreign) (ht : ¬ target.Foreign) :
    e.is target = false := by
  induction e with
  | new s =>
      simp only [is, decide_eq_false_iff_not]
      rintro rfl
      exact ht trivial
  | wrap s e ih =>
      simp only [is, Bool.or_eq_false_iff, decide_eq_false_iff_not]
      refine ⟨?_, ih h⟩
      rintro rfl
      exact ht h
  | _ => exact absurd h id

end Err

/-- A point in time, in nanoseconds since the Unix epoch. -/
abbrev Time := Int

namespace Time

def second : Time := 1000000000

/-- `t.Unix()`. -/
def unix (t : Time) : Int := t / second

/-- `time.Unix(s, 0)`. -/
def ofUnix (s : Int) : Time := s * second

/-- A time after a round trip through a column of seconds. -/
def throughColumn (t : Time) : Time := ofUnix (unix t)

end Time

namespace Store

/-! ## Records -/

/-- A registered MCP server. -/
structure Server where
  id : Int64
  name : String
  binary : String
  bundleDir : String
deriving DecidableEq

/-- An encrypted third-party secret with its injection metadata. -/
structure Credential where
  server : String
  tenant : String
  encryptedKey : String
  injectHeader : String
  injectFormat : String
  placeholder : String
  allowedHosts : List String
deriving DecidableEq

/-- One credential's injection config from the manifest. -/
structure Injection where
  id : String
  type : String
  provider : String
  vendor : String
  scopes : List String
  header : String
  format : String
  env : String
  placeholder : String
deriving DecidableEq

/-- The zero value of an injection. -/
def Injection.zero : Injection := ⟨"", "", "", "", [], "", "", "", ""⟩

structure ToolEntry where
  name : String
  default : Bool
deriving DecidableEq

/-- The persisted, enforcement-relevant projection of a registry manifest. -/
structure ManifestRecord where
  server : String
  version : String
  digest : String
  tier : String
  entrypoint : String
  displayName : String
  category : String
  description : String
  allowedHosts : List String
  injections : List Injection
  tools : List ToolEntry
  manifestHash : String
  consentedHash : String
deriving DecidableEq

/-- The installed manifest differs from what was last consented to. -/
def ManifestRecord.needsReconsent (m : ManifestRecord) : Bool :=
  m.manifestHash ≠ m.consentedHash

/-- The cached role claim of a user; the column's `CHECK` admits these two. -/
inductive Role
  | admin
  | user
deriving DecidableEq

structure User where
  id : Int64
  issuer : String
  subject : String
  email : String
  displayName : String
  role : Role
  createdAt : Time
  lastLoginAt : Time
deriving DecidableEq

/-- A browser session.  The last two fields are the view-as state. -/
structure Session where
  tokenHash : String
  userID : Int64
  createdAt : Time
  expiresAt : Time
  impersonatingUserID : Option Int64
  impersonationExpiresAt : Option Time
deriving DecidableEq

structure Profile where
  id : Int64
  slug : String
  name : String
  userID : Int64
  tokenHash : String
  metaTools : Bool
  createdAt : Time
deriving DecidableEq

/-- A deployment-level OAuth vendor registration. -/
structure AuthConfig where
  vendor : String
  authorizeURL : String
  tokenURL : String
  clientID : String
  encryptedClientSecret : String
  defaultScopes : List String
  pkce : Bool
  mode : String
deriving DecidableEq

/-- A user's OAuth connection to one vendor. -/
structure ConnectedAccount where
  userID : Int64
  vendor : String
  encryptedRefreshToken : String
  encryptedAccessToken : String
  expiresAt : Time
  grantedScopes : List String
deriving DecidableEq

structure UserInstall where
  userID : Int64
  server : String
  createdAt : Time
deriving DecidableEq

inductive AuditKind
  | egress
  | auth
  | admin
deriving DecidableEq

structure AuditEvent where
  id : Int64
  ts : Time
  kind : AuditKind
  userID : Option Int64
  profileID : Option Int64
  server : String
  host : String
  decision : String
  detail : String
deriving DecidableEq

/-! ## Keys -/

def Credential.key (c : Credential) : String × String := (c.server, c.tenant)

def ConnectedAccount.key (c : ConnectedAccount) : Int64 × String := (c.userID, c.vendor)

def UserInstall.key (i : UserInstall) : Int64 × String := (i.userID, i.server)

/-- The tenant key of a user's own credentials. -/
def userTenant (id : Int64) : String := formatInt id

/-- Two users never share a tenant key. -/
theorem userTenant_injective : Function.Injective userTenant := formatInt_injective

/-! ## The database -/

/-- A row of `profile_servers`: a profile and a server bundled in it. -/
abbrev ProfileServer := Int64 × String

/-- A row of `app_disabled_tools`: a server and a tool turned off for everyone. -/
abbrev DisabledTool := String × String

/-- A row of `user_disabled_tools`: a user, a server and a tool. -/
abbrev UserDisabledTool := Int64 × String × String

structure Database where
  servers : AutoTable Server.id
  credentials : Table Credential.key
  manifests : Table ManifestRecord.server
  disabledTools : Table (id : DisabledTool → DisabledTool)
  users : AutoTable User.id
  sessions : Table Session.tokenHash
  profiles : AutoTable Profile.id
  profileServers : Table (id : ProfileServer → ProfileServer)
  audit : AutoTable AuditEvent.id
  authConfigs : Table AuthConfig.vendor
  connectedAccounts : Table ConnectedAccount.key
  userInstalls : Table UserInstall.key
  userDisabledTools : Table (id : UserDisabledTool → UserDisabledTool)

/-- What `OpenSQLite` creates at a fresh path. -/
def Database.fresh : Database where
  servers := .empty
  credentials := .empty
  manifests := .empty
  disabledTools := .empty
  users := .empty
  sessions := .empty
  profiles := .empty
  profileServers := .empty
  audit := .empty
  authConfigs := .empty
  connectedAccounts := .empty
  userInstalls := .empty
  userDisabledTools := .empty

end Store

end GigMcp
