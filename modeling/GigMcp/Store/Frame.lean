import GigMcp.Store.Sql

/-!
# What a statement leaves alone

`Sql.writes` names the tables a statement may write, and `apply_frame` says that
it leaves the others as they are.  The lemmas after it say what happens to the
tables whose rows other parts of the gateway rely on over time.
-/

namespace GigMcp.Store

open GigMcp.Data

/-- The tables. -/
inductive Tbl
  | servers
  | credentials
  | manifests
  | disabledTools
  | users
  | sessions
  | profiles
  | profileServers
  | audit
  | authConfigs
  | connectedAccounts
  | userInstalls
  | userDisabledTools
deriving DecidableEq

/-- The type of a table. -/
@[reducible] def Tbl.Ty : Tbl → Type
  | servers => AutoTable Server.id
  | credentials => Table Credential.key
  | manifests => Table ManifestRecord.server
  | disabledTools => Table (id : String × String → String × String)
  | users => AutoTable User.id
  | sessions => Table Session.tokenHash
  | profiles => AutoTable Profile.id
  | profileServers => Table (id : Int64 × String → Int64 × String)
  | audit => AutoTable AuditEvent.id
  | authConfigs => Table AuthConfig.vendor
  | connectedAccounts => Table ConnectedAccount.key
  | userInstalls => Table UserInstall.key
  | userDisabledTools => Table (id : Int64 × String × String → Int64 × String × String)

/-- A table of a database. -/
@[reducible] def Database.tbl (db : Database) : (t : Tbl) → t.Ty
  | .servers => db.servers
  | .credentials => db.credentials
  | .manifests => db.manifests
  | .disabledTools => db.disabledTools
  | .users => db.users
  | .sessions => db.sessions
  | .profiles => db.profiles
  | .profileServers => db.profileServers
  | .audit => db.audit
  | .authConfigs => db.authConfigs
  | .connectedAccounts => db.connectedAccounts
  | .userInstalls => db.userInstalls
  | .userDisabledTools => db.userDisabledTools

/-- The tables a statement may write. -/
def Sql.writes : Sql → List Tbl
  | ensureServer .. | deleteServer .. => [.servers]
  | putCredential .. | deleteCredential .. => [.credentials]
  | putManifest .. | recordConsent .. | deleteManifest .. => [.manifests]
  | setToolEnabled .. | deleteDisabledToolsForServer .. => [.disabledTools]
  | upsertUserByOIDC .. => [.users]
  | purgeSessions .. | insertSession .. | reapSession .. | deleteSession ..
  | setImpersonation .. | clearImpersonation .. => [.sessions]
  | createProfile .. | updateProfileName .. | setProfileToken .. => [.profiles]
  | deleteProfile .. => [.profileServers, .profiles]
  | setProfileServers .. | removeServerFromProfiles .. | deleteOwnProfileServers ..
  | deleteProfileServersOf .. => [.profileServers]
  | putAuthConfig .. | deleteAuthConfig .. => [.authConfigs]
  | putConnectedAccount .. | updateConnectedAccountTokens ..
  | deleteConnectedAccount .. => [.connectedAccounts]
  | installForUser .. | deleteOwnInstall .. | deleteInstallsOf .. => [.userInstalls]
  | deleteOwnDisabledTools .. | setUserToolEnabled ..
  | deleteUserDisabledToolsOf .. => [.userDisabledTools]
  | appendAudit .. => [.audit]
  | _ => []

namespace Database

variable (db : Database)

theorem ensureServer_snd (name binary bundleDir : String) :
    ∃ t, (db.ensureServer name binary bundleDir).2 = { db with servers := t } := by
  unfold ensureServer
  split
  · exact ⟨_, rfl⟩
  · split
    · exact ⟨_, rfl⟩
    · exact ⟨db.servers, rfl⟩

/-- A login writes the user's own row: a new one, or new claims and a new login
time in the one that is there. -/
theorem upsertUserByOIDC_snd (issuer subject email displayName : String) (role : Role)
    (now : Time) :
    ∃ t, (db.upsertUserByOIDC issuer subject email displayName role now).2 =
        { db with users := t } ∧
      AutoTable.Follows (fun u : User ↦ (u.issuer, u.subject)) db.users t := by
  unfold upsertUserByOIDC
  split
  · exact ⟨_, rfl, AutoTable.follows_update fun _ ↦ rfl⟩
  · split
    · rename_i h
      exact ⟨_, rfl, AutoTable.follows_insert h⟩
    · exact ⟨db.users, rfl, .refl _⟩

/-- A new profile gets an id that no profile has had. -/
theorem createProfile_snd (slug name : String) (userID : Int64) (tokenHash : String)
    (now : Time) :
    ∃ t, (db.createProfile slug name userID tokenHash now).2 = { db with profiles := t } ∧
      AutoTable.Follows Profile.userID db.profiles t := by
  unfold createProfile
  split
  · exact ⟨db.profiles, rfl, .refl _⟩
  · split
    · rename_i h
      exact ⟨_, rfl, AutoTable.follows_insert h⟩
    · exact ⟨db.profiles, rfl, .refl _⟩

theorem insertSession_snd (s : Session) :
    ∃ t, (db.insertSession s).2 = { db with sessions := t } := by
  unfold insertSession
  split
  · exact ⟨_, rfl⟩
  · exact ⟨db.sessions, rfl⟩

theorem setProfileServers_snd (pid : Int64) (names : List String) :
    ∃ t, (db.setProfileServers pid names).2 = { db with profileServers := t } := by
  unfold setProfileServers
  split
  · exact ⟨db.profileServers, rfl⟩
  · exact ⟨_, rfl⟩

theorem appendAudit_snd (e : AuditEvent) :
    ∃ t, (db.appendAudit e).2 = { db with audit := t } := by
  unfold appendAudit
  split
  · exact ⟨_, rfl⟩
  · exact ⟨db.audit, rfl⟩

end Database

namespace Sql

/-- A statement leaves a table it does not write as it is. -/
theorem apply_frame {c : Sql} {t : Tbl} (h : t ∉ c.writes) (db : Database) :
    (c.apply db).2.tbl t = db.tbl t := by
  cases c with
  | ensureServer name binary bundleDir =>
      obtain ⟨x, hx⟩ := db.ensureServer_snd name binary bundleDir
      rw [apply, hx]
      cases t <;> first | rfl | exact absurd (List.mem_cons_self ..) h
  | upsertUserByOIDC issuer subject email displayName role now =>
      obtain ⟨x, hx, -⟩ := db.upsertUserByOIDC_snd issuer subject email displayName role now
      rw [apply, hx]
      cases t <;> first | rfl | exact absurd (List.mem_cons_self ..) h
  | createProfile slug name userID tokenHash now =>
      obtain ⟨x, hx, -⟩ := db.createProfile_snd slug name userID tokenHash now
      rw [apply, hx]
      cases t <;> first | rfl | exact absurd (List.mem_cons_self ..) h
  | insertSession tokenHash userID now expiresAt =>
      obtain ⟨x, hx⟩ := db.insertSession_snd
        ⟨tokenHash, userID, now.throughColumn, expiresAt.throughColumn, none, none⟩
      rw [apply, hx]
      cases t <;> first | rfl | exact absurd (List.mem_cons_self ..) h
  | setProfileServers pid names =>
      obtain ⟨x, hx⟩ := db.setProfileServers_snd pid names
      rw [apply, hx]
      cases t <;> first | rfl | exact absurd (List.mem_cons_self ..) h
  | appendAudit e =>
      obtain ⟨x, hx⟩ := db.appendAudit_snd e
      rw [apply, hx]
      cases t <;> first | rfl | exact absurd (List.mem_cons_self ..) h
  | setToolEnabled server tool enabled =>
      cases enabled <;> cases t <;> first | rfl | exact absurd (List.mem_cons_self ..) h
  | setUserToolEnabled userID server tool enabled =>
      cases enabled <;> cases t <;> first | rfl | exact absurd (List.mem_cons_self ..) h
  | deleteProfile pid =>
      cases t <;> first | rfl | exact absurd (by simp [writes]) h
  | _ => first | rfl | (cases t <;> first | rfl | exact absurd (List.mem_cons_self ..) h)

/-- A profile keeps its owner, and the id of a deleted one is not used again. -/
theorem profiles_follows (c : Sql) (db : Database) :
    AutoTable.Follows Profile.userID db.profiles (c.apply db).2.profiles := by
  by_cases h : Tbl.profiles ∈ c.writes
  · cases c with
    | createProfile slug name userID tokenHash now =>
        obtain ⟨x, hx, hfollows⟩ := db.createProfile_snd slug name userID tokenHash now
        rw [apply, hx]
        exact hfollows
    | updateProfileName i name => exact AutoTable.follows_update fun _ ↦ rfl
    | setProfileToken i tokenHash => exact AutoTable.follows_update fun _ ↦ rfl
    | deleteProfile i => exact AutoTable.follows_deleteWhere
    | _ => simp [writes] at h
  · have hsame : (c.apply db).2.profiles = db.profiles := apply_frame h db
    rw [hsame]
    exact .refl _

/-- Audit rows are only ever appended. -/
theorem audit_grows (c : Sql) (db : Database) :
    db.audit.table.rows <+: (c.apply db).2.audit.table.rows := by
  by_cases h : Tbl.audit ∈ c.writes
  · cases c with
    | appendAudit e =>
        rw [apply, Database.appendAudit]
        split
        · rename_i i t hinsert
          unfold AutoTable.insert at hinsert
          split at hinsert
          · cases hinsert
            exact List.prefix_append _ _
          · cases hinsert
        · exact List.prefix_refl _
    | _ => simp [writes] at h
  · have hsame : (c.apply db).2.audit = db.audit := apply_frame h db
    exact hsame ▸ List.prefix_refl _

/-- Audit rows keep their ids. -/
theorem audit_follows (c : Sql) (db : Database) :
    AutoTable.Follows (fun e ↦ e) db.audit (c.apply db).2.audit := by
  by_cases h : Tbl.audit ∈ c.writes
  · cases c with
    | appendAudit e =>
        rw [apply, Database.appendAudit]
        split
        · rename_i i t hinsert
          exact AutoTable.follows_insert hinsert
        · exact .refl _
    | _ => simp [writes] at h
  · have hsame : (c.apply db).2.audit = db.audit := apply_frame h db
    rw [hsame]
    exact .refl _

/-- Rows that keep their names are found under them. -/
theorem find?_update {name k binary bundleDir : String} (rows : List Server) :
    (rows.map fun s ↦ if s.name = name then { s with binary := binary, bundleDir := bundleDir }
        else s).find? (fun s ↦ s.name = k) =
      (rows.find? fun s ↦ s.name = k).map fun s ↦
        if s.name = name then { s with binary := binary, bundleDir := bundleDir } else s := by
  rw [List.find?_map]
  congr 2
  funext s
  simp only [Function.comp_apply]
  split
  · rfl
  · rfl

theorem serverByName_ensureServer_of_ne {name k : String} (h : k ≠ name)
    (binary bundleDir : String) (db : Database) :
    ((ensureServer name binary bundleDir).apply db).2.serverByName k = db.serverByName k := by
  show (db.ensureServer name binary bundleDir).2.serverByName k = _
  unfold Database.ensureServer
  split
  · unfold Database.serverByName
    simp only [AutoTable.table_update, Table.rows_update, decide_eq_true_eq, find?_update]
    cases hfind : db.servers.table.rows.find? fun s ↦ s.name = k with
    | none => rfl
    | some s =>
        have hs := List.find?_some hfind
        have hs : s.name = k := of_decide_eq_true hs
        rw [Option.map_some, if_neg (hs ▸ h)]
  · split
    · rename_i i t hinsert
      show List.find? _ t.table.rows = _
      rw [AutoTable.rows_insert hinsert, List.find?_append, Database.serverByName]
      have hnone : List.find? (fun s : Server ↦ decide (s.name = k)) [⟨i, name, binary, bundleDir⟩] =
          none := by simp [Ne.symm h]
      rw [hnone, Option.or_none]
    · rfl

/-- The row `EnsureServer` leaves is the one it answers. -/
theorem serverByName_ensureServer {name binary bundleDir : String} {db : Database} {srv : Server}
    (h : ((ensureServer name binary bundleDir).apply db).1 = .ok srv) :
    ((ensureServer name binary bundleDir).apply db).2.serverByName name = some srv ∧
      srv.binary = binary ∧ srv.bundleDir = bundleDir := by
  have h : (db.ensureServer name binary bundleDir).1 = .ok srv := h
  show (db.ensureServer name binary bundleDir).2.serverByName name = _ ∧ _
  unfold Database.ensureServer at h ⊢
  split at h
  · rename_i s hs
    cases h
    refine ⟨?_, rfl, rfl⟩
    unfold Database.serverByName at hs ⊢
    simp only [AutoTable.table_update, Table.rows_update, decide_eq_true_eq, find?_update, hs]
    have hname := List.find?_some hs
    have hname : s.name = name := of_decide_eq_true hname
    rw [Option.map_some, if_pos hname]
  · rename_i hnone
    split at h
    · rename_i i t hinsert
      cases h
      refine ⟨?_, rfl, rfl⟩
      show List.find? _ t.table.rows = _
      unfold Database.serverByName at hnone
      rw [AutoTable.rows_insert hinsert, List.find?_append, hnone, Option.none_or]
      simp
    · cases h

theorem serverByName_deleteServer (name : String) (db : Database) (k : String) :
    ((deleteServer name).apply db).2.serverByName k =
      if k = name then none else db.serverByName k := by
  unfold Database.serverByName
  simp only [apply, AutoTable.table_deleteWhere, Table.rows_deleteWhere, List.find?_filter]
  by_cases hk : k = name
  · subst hk
    rw [if_pos rfl, List.find?_eq_none]
    simp
  · rw [if_neg hk]
    congr 1
    funext s
    by_cases hs : s.name = k
    · simp [hs, hk]
    · simp [hs]

/-- The row `PutManifest` leaves: the record's, with the consent that was there. -/
theorem get?_putManifest (m : ManifestRecord) (db : Database) (k : String) :
    ((putManifest m).apply db).2.manifests.get? k =
      if k = m.server then
        some { m with
          allowedHosts := throughColumn m.allowedHosts
          consentedHash := ((db.manifests.get? k).map ManifestRecord.consentedHash).getD "" }
      else db.manifests.get? k := by
  rw [apply, Table.get?_upsert]
  by_cases hk : k = m.server
  · subst hk
    rw [if_pos rfl, if_pos rfl]
    cases hrow : db.manifests.get? m.server with
    | none => rfl
    | some prior =>
        have hserver : prior.server = m.server := Table.key_of_get? hrow
        simp [hserver]
  · rw [if_neg hk, if_neg hk]

/-- `RecordConsent` changes nothing but the consent of one row. -/
theorem get?_recordConsent (server hash : String) (db : Database) (k : String) :
    ((recordConsent server hash).apply db).2.manifests.get? k =
      if k = server then
        (db.manifests.get? k).map fun rec ↦ { rec with consentedHash := hash }
      else db.manifests.get? k := by
  rw [apply, Table.get?_update]
  cases hrow : db.manifests.get? k with
  | none => simp
  | some rec =>
      obtain rfl : rec.server = k := Table.key_of_get? hrow
      by_cases hk : rec.server = server
      · simp [hk]
      · simp [hk]

theorem get?_deleteManifest (server : String) (db : Database) (k : String) :
    ((deleteManifest server).apply db).2.manifests.get? k =
      if k = server then none else db.manifests.get? k := by
  refine (Table.get?_deleteWhere ..).trans ?_
  cases hrow : db.manifests.get? k with
  | none => simp
  | some rec =>
      obtain rfl : rec.server = k := Table.key_of_get? hrow
      by_cases hk : rec.server = server
      · simp [hk, Option.filter]
      · simp [hk, Option.filter]

/-- The row `PutCredential` leaves is the one it was given. -/
theorem get?_putCredential (c : Credential) (db : Database) (k : String × String) :
    ((putCredential c).apply db).2.credentials.get? k =
      if k = c.key then some { c with allowedHosts := throughColumn c.allowedHosts }
      else db.credentials.get? k := by
  refine Table.get?_upsert_of_eq _ (fun s hs ↦ ?_) k
  obtain ⟨hserver, htenant⟩ := Prod.mk.inj hs
  simp only [hserver, htenant]

/-- The row `PutAuthConfig` leaves is the one it was given. -/
theorem get?_putAuthConfig (a : AuthConfig) (db : Database) (v : String) :
    ((putAuthConfig a).apply db).2.authConfigs.get? v =
      if v = a.vendor then some { a with defaultScopes := throughColumn a.defaultScopes }
      else db.authConfigs.get? v := by
  refine Table.get?_upsert_of_eq _ (fun s hs ↦ ?_) v
  simp only [hs]

/-- The row `PutConnectedAccount` leaves is the one it was given. -/
theorem get?_putConnectedAccount (c : ConnectedAccount) (db : Database) (k : Int64 × String) :
    ((putConnectedAccount c).apply db).2.connectedAccounts.get? k =
      if k = c.key then
        some { c with
          expiresAt := c.expiresAt.throughColumn
          grantedScopes := throughColumn c.grantedScopes }
      else db.connectedAccounts.get? k := by
  refine Table.get?_upsert_of_eq _ (fun s hs ↦ ?_) k
  obtain ⟨huser, hvendor⟩ := Prod.mk.inj hs
  simp only [huser, hvendor]

/-- `UpdateConnectedAccountTokens` changes a row's access token and expiry. -/
theorem get?_updateConnectedAccountTokens (j : Int64 × String) (box : String) (exp : Time)
    (db : Database) (k : Int64 × String) :
    ((updateConnectedAccountTokens j.1 j.2 box exp).apply db).2.connectedAccounts.get? k =
      if k = j then
        (db.connectedAccounts.get? k).map fun a ↦
          { a with encryptedAccessToken := box, expiresAt := exp.throughColumn }
      else db.connectedAccounts.get? k := by
  have hkey : ∀ c : ConnectedAccount, ConnectedAccount.key
      { c with encryptedAccessToken := box, expiresAt := exp.throughColumn } = c.key :=
    fun _ ↦ rfl
  refine (Table.get?_update db.connectedAccounts _ _ hkey k).trans ?_
  cases hrow : db.connectedAccounts.get? k with
  | none => simp
  | some a =>
      obtain rfl : a.key = k := Table.key_of_get? hrow
      by_cases hj : a.key = j
      · subst hj
        simp [ConnectedAccount.key]
      · have hne : ¬ (a.userID = j.1 ∧ a.vendor = j.2) := fun h ↦ hj (Prod.ext h.1 h.2)
        simp [hj, hne]

theorem get?_deleteConnectedAccount (j : Int64 × String) (db : Database) (k : Int64 × String) :
    ((deleteConnectedAccount j.1 j.2).apply db).2.connectedAccounts.get? k =
      if k = j then none else db.connectedAccounts.get? k := by
  refine (Table.get?_deleteWhere ..).trans ?_
  cases hrow : db.connectedAccounts.get? k with
  | none => simp
  | some a =>
      obtain rfl : a.key = k := Table.key_of_get? hrow
      by_cases hj : a.key = j
      · subst hj
        simp [ConnectedAccount.key, Option.filter]
      · have hne : ¬ (a.userID = j.1 ∧ a.vendor = j.2) := fun h ↦ hj (Prod.ext h.1 h.2)
        simp [hj, hne, Option.filter]

end Sql

end GigMcp.Store
