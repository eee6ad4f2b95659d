import GigMcp.Auth.Broker

/-!
# The credential resolver

`CredResolver.Resolve` (`gateway/resolver.go`): the credential the egress proxy
uses for one CONNECT of a sandbox.  The manifest supplies the allowlist and the
shape of the injection, the vault the secret; a server without a manifest falls
back to the credential row's own fields.
-/

namespace GigMcp.Gateway

open GigMcp.Effect GigMcp.System GigMcp.Store GigMcp.Data

/-- The tenant a sandbox connection belongs to (`proxy.Identity`). -/
structure Identity where
  server : String
  tenant : String
deriving DecidableEq

/-- What the resolver hands to the proxy (`proxy.Credential`). -/
structure ProxyCredential where
  realSecret : String
  injectHeader : String
  injectFormat : String
  placeholder : String
  allowedHosts : List String
deriving DecidableEq

/-- Egress to the given hosts with nothing to inject. -/
def ProxyCredential.bare (hosts : List String) : ProxyCredential := ⟨"", "", "", "", hosts⟩

/-- The tenant a credential is looked up under, with the profile and its owner
when the raw tenant names an existing profile.  A failing lookup reads like a
missing profile. -/
def resolveTenant (tenant : String) : Code (String × Option Int64 × Option Int64) := do
  match parseInt tenant with
  | none => return (tenant, none, none)
  | some pid =>
      match ← sql (.getProfileByID pid) with
      | .error _ => return (tenant, none, none)
      | .ok p => return (userTenant p.userID, some pid, some p.userID)

/-- The canonical vendor of an injection, or its provider when it has none. -/
def vendorOf (inj : Injection) : String := if inj.vendor = "" then inj.provider else inj.vendor

/-- The first injection when it is an OAuth one. -/
def oauthInjection (rec : ManifestRecord) : Option Injection :=
  rec.injections.head?.filter fun inj ↦ inj.type = "oauth2"

/-- `CredResolver`, whose broker may be absent. -/
structure CredResolver where
  broker : Option Auth.OAuthBroker

namespace CredResolver

variable (c : CredResolver)

/-- The OAuth branch for a user's own connection. -/
def oauthCredential (b : Auth.OAuthBroker) (rec : ManifestRecord) (inj : Injection)
    (userID : Int64) : Code (Except Err ProxyCredential) := do
  match ← b.ensureFreshToken userID (vendorOf inj) with
  | .error e =>
      if e.is .connectedAccountNotFound then return .ok (.bare rec.allowedHosts)
      else return .error e
  | .ok token =>
      return .ok ⟨token, inj.header, inj.format, inj.placeholder, rec.allowedHosts⟩

/-- The branches after the OAuth one: a stored credential, or none. -/
def storedCredential (server tenant : String) : Code (Except Err ProxyCredential) := do
  match ← sql (.getCredential server tenant) with
  | .error credErr =>
      if credErr.is .credentialNotFound then
        match ← sql (.getManifest server) with
        | .error e =>
            if e.is .manifestNotFound then return .error credErr else return .error e
        | .ok rec => return .ok (.bare rec.allowedHosts)
      else return .error credErr
  | .ok cred =>
      match ← perform (.decrypt cred.encryptedKey) with
      | .error e => return .error e
      | .ok secret =>
          match ← sql (.getManifest server) with
          | .error e =>
              if e.is .manifestNotFound then
                return .ok ⟨secret, cred.injectHeader, cred.injectFormat, cred.placeholder,
                  cred.allowedHosts⟩
              else return .error e
          | .ok rec =>
              let inj := rec.injections.head?.getD .zero
              return .ok ⟨secret, inj.header, inj.format, inj.placeholder, rec.allowedHosts⟩

/-- The choice between the two, after the manifest was read.  A failing read goes on
as if there were no OAuth injection. -/
def oauthOrStored (b : Auth.OAuthBroker) (server tenant : String) :
    Except Err ManifestRecord → Code (Except Err ProxyCredential)
  | .error _ => storedCredential server tenant
  | .ok rec =>
      match oauthInjection rec, parseInt tenant with
      | some inj, some userID => oauthCredential b rec inj userID
      | _, _ => storedCredential server tenant

/-- `Resolve`, which does not look at the host. -/
def resolve (ident : Identity) (_host : String) : Code (Except Err ProxyCredential) := do
  let (tenant, _, _) ← resolveTenant ident.tenant
  match c.broker with
  | none => storedCredential ident.server tenant
  | some b =>
      let rec ← sql (.getManifest ident.server)
      oauthOrStored b ident.server tenant rec

end CredResolver

end GigMcp.Gateway
