import GigMcp.Effect.Prog
import GigMcp.Gateway.Host
import GigMcp.Store.Sql

/-!
# The calls the gateway makes

One signature for everything the gateway's own code calls out to: the store's
statements, the clock, the vault, random bytes, the OAuth provider and the
identity provider, the sections of the profile host's lock, sandboxes, and the
installer's registry, image puller and file system.  The gateway's functions are
programs over it.

The types here are those of the third-party packages those calls go through, cut
to the fields the gateway reads: a registry manifest and index, an OAuth config
and token, an OIDC identity token.
-/

namespace GigMcp

open GigMcp.Effect

namespace Registry

structure Image where
  ref : String
  digest : String
  entrypoint : String
  builder : String
deriving DecidableEq

structure Inject where
  header : String
  format : String
  env : String
deriving DecidableEq

structure Credential where
  id : String
  type : String
  provider : String
  vendor : String
  scopes : List String
  inject : Inject
deriving DecidableEq

/-- A signed manifest.  `rest` is the part of the document that only the schema
package reads. -/
structure Manifest where
  name : String
  version : String
  tier : String
  displayName : String
  category : String
  description : String
  image : Image
  egress : List String
  credentials : List Credential
  tools : List Store.ToolEntry
  rest : String
deriving DecidableEq

/-- A server's entry in the index. -/
structure IndexServer where
  name : String
  latest : String
  versions : List (String × Manifest)
deriving DecidableEq

/-- The verified registry index. -/
structure Index where
  servers : List IndexServer
deriving DecidableEq

/-- The schema package: how a reference is looked up in an index, and what it
makes of a manifest. -/
structure Schema where
  resolve : Index → String → Except Err Manifest
  validate : Manifest → Except Err Unit
  runtimeHash : Manifest → Except Err String
  parse : String → Except Err Manifest

end Registry

namespace Auth

/-- A random token and the hash that is stored for it. -/
structure Token where
  plain : String
  hash : String
deriving DecidableEq

/-- `oauth2.Config`. -/
structure OAuthConfig where
  clientID : String
  clientSecret : String
  authURL : String
  tokenURL : String
  redirectURL : String
  scopes : List String
deriving DecidableEq

/-- `oauth2.Token`, with the `scope` extra of the response. -/
structure OAuthToken where
  accessToken : String
  refreshToken : String
  expiry : Time
  scope : Option String
deriving DecidableEq

/-- The claims of an identity token; of the roles claim only its keys matter. -/
structure Claims where
  email : String
  name : String
  roles : List String

/-- A verified identity token. -/
structure IDToken where
  issuer : String
  subject : String
  nonce : String
  claims : Except Err Claims

end Auth

namespace System

/-- A call of the gateway's code. -/
inductive Call
  | sql (c : Store.Sql)
  | now
  | encrypt (plaintext : String)
  | decrypt (box : String)
  | newToken
  | random
  | newVerifier
  | exchange (conf : Auth.OAuthConfig) (code verifier : String)
  | refreshGrant (conf : Auth.OAuthConfig) (refreshToken : String)
  | oidcExchange (code verifier : String)
  | oidcVerify (rawID : String)
  | enter (profileID : Int64)
  | await (ch : Nat)
  | commit (profileID : Int64) (built : Except Err Gateway.ProfileRuntime)
  | closeChan (ch : Nat)
  | takeRuntime (profileID : Int64)
  | takeAll
  | spawn (srv : Store.Server) (tenant placeholder : String)
  | cleanup (b : Gateway.EgressBackend)
  | listTools (b : Gateway.EgressBackend)
  | fetchIndex
  | stat (path : String)
  | extract (image : Registry.Image) (dest : String)
  | extractBundle (image : Registry.Image) (stageDir : String)
  | readFile (path : String)
  | glob (pattern : String)
  | removeAll (path : String)

namespace Call

/-- What a call answers. -/
@[reducible] def Res : Call → Type
  | sql c => Except Err c.Ans
  | now => Time
  | encrypt _ => Except Err String
  | decrypt _ => Except Err String
  | newToken => Except Err Auth.Token
  | random => Except Err String
  | newVerifier => String
  | exchange .. => Except Err Auth.OAuthToken
  | refreshGrant .. => Except Err Auth.OAuthToken
  | oidcExchange .. => Except Err (Option String)
  | oidcVerify _ => Except Err Auth.IDToken
  | enter _ => Gateway.Entry
  | await _ => Unit
  | commit .. => Except Err Gateway.ProfileRuntime
  | closeChan _ => Unit
  | takeRuntime _ => Option Gateway.ProfileRuntime
  | takeAll => List Gateway.ProfileRuntime
  | spawn .. => Except Err Gateway.EgressBackend
  | cleanup _ => Unit
  | listTools _ => Except Err (List String)
  | fetchIndex => Except Err Registry.Index
  | stat _ => Bool
  | extract .. => Except Err Unit
  | extractBundle .. => Except Err Unit
  | readFile _ => Except Err String
  | glob _ => Except Err (List String)
  | removeAll _ => Except Err Unit

end Call

/-- The gateway's signature. -/
@[reducible] def gateway : Signature := ⟨Call, Call.Res⟩

/-- Code of the gateway. -/
abbrev Code (α : Type) := Prog gateway α

/-- Make a call. -/
@[reducible] def perform (e : Call) : Code e.Res := Prog.call (S := gateway) e

end System

end GigMcp
