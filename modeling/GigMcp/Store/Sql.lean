import GigMcp.Store.Schema
import Mathlib.Data.List.Sort
import Mathlib.Data.List.Dedup
import Mathlib.Data.String.Basic

/-!
# The store's statements

`Sql` has one constructor for each SQL statement the `store` package issues on
its own and one for each of its transactions, with the values bound to its
parameters.  `Sql.apply` is what SQLite does with it: the answer, which may be a
sentinel or a constraint violation, and the database afterwards.  A statement is
atomic; a store method that issues several is a program, in
`GigMcp.Store.Methods`.

`Sql.Reads` singles out the `SELECT`s.
-/

namespace GigMcp.Store

open GigMcp.Data

/-- `ORDER BY`. -/
def orderBy {α β : Type} [LE β] [DecidableLE β] (f : α → β) (l : List α) : List α :=
  l.insertionSort fun a b ↦ f a ≤ f b

@[simp] theorem mem_orderBy {α β : Type} [LE β] [DecidableLE β] {f : α → β} {l : List α}
    {a : α} : a ∈ orderBy f l ↔ a ∈ l :=
  (List.perm_insertionSort _ l).mem_iff

/-- Texts in order do not depend on the order of the rows. -/
theorem orderBy_perm {l l' : List String} (h : l.Perm l') : orderBy id l = orderBy id l' := by
  refine List.Perm.eq_of_sortedLE List.sortedLE_insertionSort List.sortedLE_insertionSort ?_
  exact (List.perm_insertionSort _ l).trans (h.trans (List.perm_insertionSort _ l').symm)

/-- A statement or transaction of the `store` package. -/
inductive Sql
  | ensureServer (name binary bundleDir : String)
  | listServers
  | deleteServer (name : String)
  | putCredential (c : Credential)
  | getCredential (server tenant : String)
  | listCredentialsByTenant (tenant : String)
  | deleteCredential (server tenant : String)
  | putManifest (m : ManifestRecord)
  | getManifest (server : String)
  | listManifests
  | recordConsent (server hash : String)
  | deleteManifest (server : String)
  | listDisabledTools (server : String)
  | setToolEnabled (server tool : String) (enabled : Bool)
  | deleteDisabledToolsForServer (server : String)
  | upsertUserByOIDC (issuer subject email displayName : String) (role : Role) (now : Time)
  | getUser (id : Int64)
  | listUsers
  | purgeSessions (now : Time)
  | insertSession (tokenHash : String) (userID : Int64) (now expiresAt : Time)
  | selectSession (tokenHash : String)
  | reapSession (tokenHash : String) (expiresAt : Time)
  | deleteSession (tokenHash : String)
  | setImpersonation (tokenHash : String) (targetUserID : Int64) (expiresAt : Time)
  | clearImpersonation (tokenHash : String)
  | createProfile (slug name : String) (userID : Int64) (tokenHash : String) (now : Time)
  | getProfileByID (id : Int64)
  | getProfileBySlugAndTokenHash (slug tokenHash : String)
  | listProfiles (userID : Int64)
  | updateProfileName (id : Int64) (name : String)
  | setProfileToken (id : Int64) (tokenHash : String)
  | deleteProfile (id : Int64)
  | setProfileServers (id : Int64) (names : List String)
  | getProfileServers (id : Int64)
  | affectedProfiles (serverName : String)
  | removeServerFromProfiles (serverName : String)
  | putAuthConfig (a : AuthConfig)
  | getAuthConfig (vendor : String)
  | listAuthConfigs
  | deleteAuthConfig (vendor : String)
  | putConnectedAccount (c : ConnectedAccount)
  | getConnectedAccount (userID : Int64) (vendor : String)
  | listConnectedAccountsByUser (userID : Int64)
  | updateConnectedAccountTokens (userID : Int64) (vendor encAccess : String) (expiresAt : Time)
  | deleteConnectedAccount (userID : Int64) (vendor : String)
  | installForUser (userID : Int64) (server : String) (now : Time)
  | isUserInstalled (userID : Int64) (server : String)
  | listUserInstalls (userID : Int64)
  | deleteOwnProfileServers (userID : Int64) (server : String)
  | deleteOwnDisabledTools (userID : Int64) (server : String)
  | deleteOwnInstall (userID : Int64) (server : String)
  | setUserToolEnabled (userID : Int64) (server tool : String) (enabled : Bool)
  | listUserDisabledTools (userID : Int64) (server : String)
  | deleteInstallsOf (server : String)
  | deleteUserDisabledToolsOf (server : String)
  | deleteProfileServersOf (server : String)
  | appendAudit (e : AuditEvent)
  | listAudit (beforeID : Int64) (limit : Nat) (userID : Int64)
  | countEgress (userID : Int64)
  | mostUsedApp (userID : Int64)
  | egressByTs (userID : Int64) (since : Int)

namespace Sql

/-- The rows or the count a statement answers with. -/
@[reducible] def Ans : Sql → Type
  | ensureServer .. => Server
  | listServers => List Server
  | getCredential .. => Credential
  | listCredentialsByTenant .. => List Credential
  | deleteCredential .. => Bool
  | getManifest .. => ManifestRecord
  | listManifests => List ManifestRecord
  | listDisabledTools .. => List String
  | upsertUserByOIDC .. => User
  | getUser .. => User
  | listUsers => List User
  | selectSession .. => Session
  | createProfile .. => Profile
  | getProfileByID .. => Profile
  | getProfileBySlugAndTokenHash .. => Profile
  | listProfiles .. => List Profile
  | getProfileServers .. => List String
  | affectedProfiles .. => List Int64
  | getAuthConfig .. => AuthConfig
  | listAuthConfigs => List AuthConfig
  | getConnectedAccount .. => ConnectedAccount
  | listConnectedAccountsByUser .. => List ConnectedAccount
  | isUserInstalled .. => Bool
  | listUserInstalls .. => List String
  | listUserDisabledTools .. => List String
  | listAudit .. => List AuditEvent
  | countEgress .. => Nat
  | mostUsedApp .. => Option String
  | egressByTs .. => List (Int × Nat)
  | _ => Unit

/-- A row by key, or the sentinel that says there is none. -/
def fetch {α : Type} (e : Err) : Option α → Except Err α
  | some a => .ok a
  | none => .error e

@[simp] theorem fetch_eq_ok {α : Type} {e : Err} {o : Option α} {a : α} :
    fetch e o = .ok a ↔ o = some a := by
  cases o with
  | none => simp [fetch]
  | some b => simp [fetch]

@[simp] theorem fetch_eq_error {α : Type} {e e' : Err} {o : Option α} :
    fetch e o = .error e' ↔ o = none ∧ e' = e := by
  cases o with
  | none => simp [fetch, eq_comm]
  | some b => simp [fetch]

/-- The error of a row-id sequence that has run out. -/
def full : Err := .new "database or disk is full"

/-- The error of a primary key that is already there. -/
def constraint : Err := .new "UNIQUE constraint failed"

end Sql

namespace Database

/-! ## Statements that find a row by something other than its key -/

def serverByName (db : Database) (name : String) : Option Server :=
  db.servers.table.rows.find? fun s ↦ s.name = name

def userBySubject (db : Database) (issuer subject : String) : Option User :=
  db.users.table.rows.find? fun u ↦ u.issuer = issuer ∧ u.subject = subject

/-- `INSERT INTO servers .. ON CONFLICT(name) DO UPDATE .. RETURNING`. -/
def ensureServer (db : Database) (name binary bundleDir : String) :
    Except Err Server × Database :=
  match db.serverByName name with
  | some s =>
      (.ok { s with binary := binary, bundleDir := bundleDir },
        { db with
          servers := db.servers.update (fun s ↦ s.name = name)
            (fun s ↦ { s with binary := binary, bundleDir := bundleDir }) fun _ ↦ rfl })
  | none =>
      match db.servers.insert (fun i ↦ ⟨i, name, binary, bundleDir⟩) (fun _ ↦ rfl) with
      | some (i, t) => (.ok ⟨i, name, binary, bundleDir⟩, { db with servers := t })
      | none => (.error Sql.full, db)

/-- `INSERT INTO users .. ON CONFLICT(issuer,subject) DO UPDATE .. RETURNING`. -/
def upsertUserByOIDC (db : Database) (issuer subject email displayName : String) (role : Role)
    (now : Time) : Except Err User × Database :=
  match db.userBySubject issuer subject with
  | some u =>
      (.ok { u with
          email := email, displayName := displayName, role := role,
          lastLoginAt := now.throughColumn },
        { db with
          users := db.users.update (fun u ↦ u.issuer = issuer ∧ u.subject = subject)
            (fun u ↦ { u with
              email := email, displayName := displayName, role := role,
              lastLoginAt := now.throughColumn }) fun _ ↦ rfl })
  | none =>
      match db.users.insert (fun i ↦ ⟨i, issuer, subject, email, displayName, role,
          now.throughColumn, now.throughColumn⟩) (fun _ ↦ rfl) with
      | some (i, t) =>
          (.ok ⟨i, issuer, subject, email, displayName, role,
            now.throughColumn, now.throughColumn⟩, { db with users := t })
      | none => (.error Sql.full, db)

/-- `INSERT INTO profiles .. RETURNING`, with the slug's `UNIQUE` constraint
reported as `ErrSlugTaken`. -/
def createProfile (db : Database) (slug name : String) (userID : Int64) (tokenHash : String)
    (now : Time) : Except Err Profile × Database :=
  if db.profiles.table.rows.any fun p ↦ p.slug = slug then (.error .slugTaken, db)
  else
    match db.profiles.insert (fun i ↦ ⟨i, slug, name, userID, tokenHash, false,
        now.throughColumn⟩) (fun _ ↦ rfl) with
    | some (i, t) =>
        (.ok ⟨i, slug, name, userID, tokenHash, false, now.throughColumn⟩,
          { db with profiles := t })
    | none => (.error Sql.full, db)

/-- `INSERT INTO sessions`. -/
def insertSession (db : Database) (s : Session) : Except Err Unit × Database :=
  if h : db.sessions.get? s.tokenHash = none then
    (.ok (), { db with sessions := db.sessions.insertFresh s h })
  else (.error Sql.constraint, db)

/-- The transaction of `SetProfileServers`. -/
def setProfileServers (db : Database) (pid : Int64) (names : List String) :
    Except Err Unit × Database :=
  match db.profiles.table.get? pid with
  | none => (.error .profileNotFound, db)
  | some _ =>
      (.ok (), { db with
        profileServers := names.foldl (fun t n ↦ t.insertNew (pid, n))
          (db.profileServers.deleteWhere fun r ↦ r.1 = pid) })

/-- `INSERT INTO audit`. -/
def appendAudit (db : Database) (e : AuditEvent) : Except Err Unit × Database :=
  match db.audit.insert (fun i ↦ { e with id := i, ts := e.ts.throughColumn }) (fun _ ↦ rfl) with
  | some (_, t) => (.ok (), { db with audit := t })
  | none => (.error Sql.full, db)

/-- The audit rows of a user's proxy resolutions. -/
def egressOf (db : Database) (userID : Int64) : List AuditEvent :=
  db.audit.table.rows.filter fun e ↦ e.userID = some userID ∧ e.kind = .egress

end Database

namespace Sql

/-- What SQLite does with a statement. -/
def apply : (c : Sql) → Database → Except Err c.Ans × Database
  | ensureServer name binary bundleDir, db => db.ensureServer name binary bundleDir
  | listServers, db => (.ok (orderBy Server.name db.servers.table.rows), db)
  | deleteServer name, db =>
      (.ok (), { db with servers := db.servers.deleteWhere fun s ↦ s.name = name })
  | putCredential c, db =>
      (.ok (), { db with
        credentials := db.credentials.upsert
          { c with allowedHosts := throughColumn c.allowedHosts }
          (fun s ↦ { s with
            encryptedKey := c.encryptedKey, injectHeader := c.injectHeader,
            injectFormat := c.injectFormat, placeholder := c.placeholder,
            allowedHosts := throughColumn c.allowedHosts }) fun _ ↦ rfl })
  | getCredential server tenant, db =>
      (fetch .credentialNotFound (db.credentials.get? (server, tenant)), db)
  | listCredentialsByTenant tenant, db =>
      (.ok ((orderBy Credential.server
        (db.credentials.rows.filter fun c ↦ c.tenant = tenant)).map
          fun c ↦ { c with encryptedKey := "" }), db)
  | deleteCredential server tenant, db =>
      (.ok (db.credentials.get? (server, tenant)).isSome, { db with
        credentials := db.credentials.deleteWhere
          fun c ↦ c.server = server ∧ c.tenant = tenant })
  | putManifest m, db =>
      (.ok (), { db with
        manifests := db.manifests.upsert
          { m with allowedHosts := throughColumn m.allowedHosts, consentedHash := "" }
          (fun s ↦ { m with
            server := s.server, allowedHosts := throughColumn m.allowedHosts,
            consentedHash := s.consentedHash }) fun _ ↦ rfl })
  | getManifest server, db => (fetch .manifestNotFound (db.manifests.get? server), db)
  | listManifests, db => (.ok (orderBy ManifestRecord.server db.manifests.rows), db)
  | recordConsent server hash, db =>
      (if (db.manifests.get? server).isSome then .ok () else .error .manifestNotFound,
        { db with
          manifests := db.manifests.update (fun m ↦ m.server = server)
            (fun m ↦ { m with consentedHash := hash }) fun _ ↦ rfl })
  | deleteManifest server, db =>
      (.ok (), { db with manifests := db.manifests.deleteWhere fun m ↦ m.server = server })
  | listDisabledTools server, db =>
      (.ok (orderBy id ((db.disabledTools.rows.filter fun r ↦ r.1 = server).map Prod.snd)), db)
  | setToolEnabled server tool true, db =>
      (.ok (), { db with
        disabledTools := db.disabledTools.deleteWhere fun r ↦ r = (server, tool) })
  | setToolEnabled server tool false, db =>
      (.ok (), { db with disabledTools := db.disabledTools.insertNew (server, tool) })
  | deleteDisabledToolsForServer server, db =>
      (.ok (), { db with disabledTools := db.disabledTools.deleteWhere fun r ↦ r.1 = server })
  | upsertUserByOIDC issuer subject email displayName role now, db =>
      db.upsertUserByOIDC issuer subject email displayName role now
  | getUser i, db => (fetch .userNotFound (db.users.table.get? i), db)
  | listUsers, db => (.ok (orderBy User.id db.users.table.rows), db)
  | purgeSessions now, db =>
      (.ok (), { db with
        sessions := db.sessions.deleteWhere fun s ↦ s.expiresAt.unix < now.unix })
  | insertSession tokenHash userID now expiresAt, db =>
      db.insertSession ⟨tokenHash, userID, now.throughColumn, expiresAt.throughColumn, none, none⟩
  | selectSession tokenHash, db => (fetch .sessionNotFound (db.sessions.get? tokenHash), db)
  | reapSession tokenHash expiresAt, db =>
      (.ok (), { db with
        sessions := db.sessions.deleteWhere
          fun s ↦ s.tokenHash = tokenHash ∧ s.expiresAt.unix ≤ expiresAt.unix })
  | deleteSession tokenHash, db =>
      (.ok (), { db with sessions := db.sessions.deleteWhere fun s ↦ s.tokenHash = tokenHash })
  | setImpersonation tokenHash targetUserID expiresAt, db =>
      (if (db.sessions.get? tokenHash).isSome then .ok () else .error .sessionNotFound,
        { db with
          sessions := db.sessions.update (fun s ↦ s.tokenHash = tokenHash)
            (fun s ↦ { s with
              impersonatingUserID := some targetUserID,
              impersonationExpiresAt := some expiresAt.throughColumn }) fun _ ↦ rfl })
  | clearImpersonation tokenHash, db =>
      (.ok (), { db with
        sessions := db.sessions.update (fun s ↦ s.tokenHash = tokenHash)
          (fun s ↦ { s with
            impersonatingUserID := none, impersonationExpiresAt := none }) fun _ ↦ rfl })
  | createProfile slug name userID tokenHash now, db =>
      db.createProfile slug name userID tokenHash now
  | getProfileByID i, db => (fetch .profileNotFound (db.profiles.table.get? i), db)
  | getProfileBySlugAndTokenHash slug tokenHash, db =>
      (fetch .profileNotFound (db.profiles.table.rows.find?
        fun p ↦ p.slug = slug ∧ p.tokenHash = tokenHash), db)
  | listProfiles userID, db =>
      (.ok (orderBy Profile.id
        (db.profiles.table.rows.filter fun p ↦ userID = 0 ∨ p.userID = userID)), db)
  | updateProfileName i name, db =>
      (.ok (), { db with
        profiles := db.profiles.update (fun p ↦ p.id = i)
          (fun p ↦ { p with name := name }) fun _ ↦ rfl })
  | setProfileToken i tokenHash, db =>
      (.ok (), { db with
        profiles := db.profiles.update (fun p ↦ p.id = i)
          (fun p ↦ { p with tokenHash := tokenHash }) fun _ ↦ rfl })
  | deleteProfile i, db =>
      (.ok (), { db with
        profileServers := db.profileServers.deleteWhere fun r ↦ r.1 = i
        profiles := db.profiles.deleteWhere fun p ↦ p.id = i })
  | setProfileServers i names, db => db.setProfileServers i names
  | getProfileServers i, db =>
      (.ok (orderBy id ((db.profileServers.rows.filter fun r ↦ r.1 = i).map Prod.snd)), db)
  | affectedProfiles serverName, db =>
      (.ok ((db.profileServers.rows.filter fun r ↦ r.2 = serverName).map Prod.fst), db)
  | removeServerFromProfiles serverName, db =>
      (.ok (), { db with
        profileServers := db.profileServers.deleteWhere fun r ↦ r.2 = serverName })
  | putAuthConfig a, db =>
      (.ok (), { db with
        authConfigs := db.authConfigs.upsert
          { a with defaultScopes := throughColumn a.defaultScopes }
          (fun s ↦ { a with
            vendor := s.vendor, defaultScopes := throughColumn a.defaultScopes }) fun _ ↦ rfl })
  | getAuthConfig vendor, db => (fetch .authConfigNotFound (db.authConfigs.get? vendor), db)
  | listAuthConfigs, db =>
      (.ok ((orderBy AuthConfig.vendor db.authConfigs.rows).map
        fun a ↦ { a with encryptedClientSecret := "" }), db)
  | deleteAuthConfig vendor, db =>
      (.ok (), { db with
        authConfigs := db.authConfigs.deleteWhere fun a ↦ a.vendor = vendor })
  | putConnectedAccount c, db =>
      (.ok (), { db with
        connectedAccounts := db.connectedAccounts.upsert
          { c with
            expiresAt := c.expiresAt.throughColumn,
            grantedScopes := throughColumn c.grantedScopes }
          (fun s ↦ { s with
            encryptedRefreshToken := c.encryptedRefreshToken,
            encryptedAccessToken := c.encryptedAccessToken,
            expiresAt := c.expiresAt.throughColumn,
            grantedScopes := throughColumn c.grantedScopes }) fun _ ↦ rfl })
  | getConnectedAccount userID vendor, db =>
      (fetch .connectedAccountNotFound (db.connectedAccounts.get? (userID, vendor)), db)
  | listConnectedAccountsByUser userID, db =>
      (.ok ((orderBy ConnectedAccount.vendor
        (db.connectedAccounts.rows.filter fun c ↦ c.userID = userID)).map
          fun c ↦ { c with encryptedRefreshToken := "", encryptedAccessToken := "" }), db)
  | updateConnectedAccountTokens userID vendor encAccess expiresAt, db =>
      (if (db.connectedAccounts.get? (userID, vendor)).isSome then .ok ()
        else .error .connectedAccountNotFound,
        { db with
          connectedAccounts := db.connectedAccounts.update
            (fun c ↦ c.userID = userID ∧ c.vendor = vendor)
            (fun c ↦ { c with
              encryptedAccessToken := encAccess,
              expiresAt := expiresAt.throughColumn }) fun _ ↦ rfl })
  | deleteConnectedAccount userID vendor, db =>
      (.ok (), { db with
        connectedAccounts := db.connectedAccounts.deleteWhere
          fun c ↦ c.userID = userID ∧ c.vendor = vendor })
  | installForUser userID server now, db =>
      (.ok (), { db with
        userInstalls := db.userInstalls.insertNew ⟨userID, server, now.throughColumn⟩ })
  | isUserInstalled userID server, db =>
      (.ok (db.userInstalls.get? (userID, server)).isSome, db)
  | listUserInstalls userID, db =>
      (.ok (orderBy id ((db.userInstalls.rows.filter fun i ↦ i.userID = userID).map
        UserInstall.server)), db)
  | deleteOwnProfileServers userID server, db =>
      (.ok (), { db with
        profileServers := db.profileServers.deleteWhere fun r ↦ r.2 = server ∧
          (db.profiles.table.rows.any fun p ↦ p.id = r.1 ∧ p.userID = userID) })
  | deleteOwnDisabledTools userID server, db =>
      (.ok (), { db with
        userDisabledTools := db.userDisabledTools.deleteWhere
          fun r ↦ r.1 = userID ∧ r.2.1 = server })
  | deleteOwnInstall userID server, db =>
      (.ok (), { db with
        userInstalls := db.userInstalls.deleteWhere
          fun i ↦ i.userID = userID ∧ i.server = server })
  | setUserToolEnabled userID server tool true, db =>
      (.ok (), { db with
        userDisabledTools := db.userDisabledTools.deleteWhere
          fun r ↦ r = (userID, server, tool) })
  | setUserToolEnabled userID server tool false, db =>
      (.ok (), { db with
        userDisabledTools := db.userDisabledTools.insertNew (userID, server, tool) })
  | listUserDisabledTools userID server, db =>
      (.ok (orderBy id ((db.userDisabledTools.rows.filter
        fun r ↦ r.1 = userID ∧ r.2.1 = server).map fun r ↦ r.2.2)), db)
  | deleteInstallsOf server, db =>
      (.ok (), { db with userInstalls := db.userInstalls.deleteWhere fun i ↦ i.server = server })
  | deleteUserDisabledToolsOf server, db =>
      (.ok (), { db with
        userDisabledTools := db.userDisabledTools.deleteWhere fun r ↦ r.2.1 = server })
  | deleteProfileServersOf server, db =>
      (.ok (), { db with
        profileServers := db.profileServers.deleteWhere fun r ↦ r.2 = server })
  | appendAudit e, db => db.appendAudit e
  | listAudit beforeID limit userID, db =>
      (.ok (((orderBy AuditEvent.id (db.audit.table.rows.filter fun e ↦
        (beforeID ≤ 0 ∨ e.id < beforeID) ∧ (userID = 0 ∨ e.userID = some userID))).reverse).take
          limit), db)
  | countEgress userID, db => (.ok (db.egressOf userID).length, db)
  | mostUsedApp userID, db =>
      let names := ((db.egressOf userID).map AuditEvent.server).filter fun n ↦ n ≠ ""
      (.ok (names.dedup.insertionSort fun a b ↦ names.count b < names.count a ∨
        (names.count a = names.count b ∧ a ≤ b)).head?, db)
  | egressByTs userID since, db =>
      let seconds := ((db.egressOf userID).map fun e ↦ e.ts.unix).filter fun s ↦ since ≤ s
      (.ok (seconds.dedup.map fun s ↦ (s, seconds.count s)), db)

/-- The statements that only read. -/
@[simp] def Reads : Sql → Bool
  | listServers | getCredential .. | listCredentialsByTenant .. | getManifest ..
  | listManifests | listDisabledTools .. | getUser .. | listUsers | selectSession ..
  | getProfileByID .. | getProfileBySlugAndTokenHash .. | listProfiles ..
  | getProfileServers .. | affectedProfiles .. | getAuthConfig .. | listAuthConfigs | getConnectedAccount ..
  | listConnectedAccountsByUser .. | isUserInstalled .. | listUserInstalls ..
  | listUserDisabledTools .. | listAudit .. | countEgress .. | mostUsedApp ..
  | egressByTs .. => true
  | _ => false

/-- A `SELECT` leaves the database as it is. -/
theorem apply_of_reads {c : Sql} (h : c.Reads = true) (db : Database) :
    (c.apply db).2 = db := by
  cases c with
  | setToolEnabled server tool enabled => cases enabled <;> cases h
  | setUserToolEnabled userID server tool enabled => cases enabled <;> cases h
  | _ => first | rfl | cases h

end Sql

end GigMcp.Store
