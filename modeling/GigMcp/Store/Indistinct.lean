import GigMcp.Store.Integrity

/-!
# What a user can see of the store

`Indistinct u` relates two states of the store that the user `u` cannot tell apart.  They agree on
the shared tables and on the user's own rows, but for the columns that hold secrets or the hash of
a token.  Nothing is said of the rows of others, except what shows without looking at them: the
last ids of `profiles` and `audit`, from which new ones are taken, and the slugs in use.

`Visible` names the statements that answer the same in two such states and leave two such states
behind (`Indistinct.apply`).  Those on a bundle need to know that the profile is the user's own.
-/

namespace GigMcp.Store

open GigMcp.Data

/-- A credential without its secret. -/
def Credential.bare (c : Credential) : Credential := { c with encryptedKey := "" }

/-- A connected account without its tokens. -/
def ConnectedAccount.bare (c : ConnectedAccount) : ConnectedAccount :=
  { c with encryptedRefreshToken := "", encryptedAccessToken := "" }

/-- A profile without the hash of its token. -/
def Profile.bare (p : Profile) : Profile := { p with tokenHash := "" }

/-- The profile with this id is the user's own. -/
def Owns (u : Int64) (db : Database) (pid : Int64) : Prop :=
  ∃ p ∈ db.profiles.table.rows, p.id = pid ∧ p.userID = u

/-- Two states of the store that a user cannot tell apart. -/
structure Indistinct (u : Int64) (db db' : Database) : Prop where
  servers : db.servers = db'.servers
  manifests : db.manifests = db'.manifests
  authConfigs : db.authConfigs = db'.authConfigs
  credentials : Table.Shows (fun c ↦ c.tenant = userTenant u) Credential.bare db.credentials
    db'.credentials
  connectedAccounts : Table.Shows (fun c ↦ c.userID = u) ConnectedAccount.bare
    db.connectedAccounts db'.connectedAccounts
  userInstalls : Table.Shows (fun i ↦ i.userID = u) id db.userInstalls db'.userInstalls
  userDisabledTools : Table.Shows (fun r ↦ r.1 = u) id db.userDisabledTools db'.userDisabledTools
  profileSeq : db.profiles.seq = db'.profiles.seq
  profiles : Table.Shows (fun p ↦ p.userID = u) Profile.bare db.profiles.table db'.profiles.table
  slugs : ∀ s, (∃ p ∈ db.profiles.table.rows, p.slug = s) ↔
    ∃ p ∈ db'.profiles.table.rows, p.slug = s
  bundles : ∀ pid, Owns u db pid →
    Table.Shows (fun r ↦ r.1 = pid) id db.profileServers db'.profileServers
  auditSeq : db.audit.seq = db'.audit.seq
  audit : Table.Shows (fun e ↦ e.userID = some u) id db.audit.table db'.audit.table

namespace Indistinct

variable {u : Int64} {db db' db'' : Database}

/-- The user's own profiles, but for the hashes of their tokens. -/
theorem exists_of_shows {t t' : Table Profile.id}
    (h : Table.Shows (fun p ↦ p.userID = u) Profile.bare t t') {p : Profile} (hp : p ∈ t.rows)
    (hu : p.userID = u) : ∃ hash, { p with tokenHash := hash } ∈ t'.rows := by
  have hmem : p.bare ∈ (t.rows.filter fun p ↦ p.userID = u).map Profile.bare :=
    List.mem_map_of_mem (List.mem_filter.mpr ⟨hp, decide_eq_true hu⟩)
  rw [h] at hmem
  obtain ⟨q, hq, hbare⟩ := List.mem_map.mp hmem
  refine ⟨q.tokenHash, ?_⟩
  cases p
  cases q
  cases hbare
  exact (List.mem_filter.mp hq).1

theorem owns_of_shows
    (h : Table.Shows (fun p ↦ p.userID = u) Profile.bare db.profiles.table db'.profiles.table)
    {pid : Int64} (hown : Owns u db pid) : Owns u db' pid := by
  obtain ⟨p, hp, hid, hu⟩ := hown
  obtain ⟨hash, hmem⟩ := exists_of_shows h hp hu
  exact ⟨_, hmem, hid, hu⟩

theorem refl (u : Int64) (db : Database) : Indistinct u db db where
  servers := rfl
  manifests := rfl
  authConfigs := rfl
  credentials := rfl
  connectedAccounts := rfl
  userInstalls := rfl
  userDisabledTools := rfl
  profileSeq := rfl
  profiles := rfl
  slugs := fun _ ↦ Iff.rfl
  bundles := fun _ _ ↦ rfl
  auditSeq := rfl
  audit := rfl

theorem symm (h : Indistinct u db db') : Indistinct u db' db where
  servers := h.servers.symm
  manifests := h.manifests.symm
  authConfigs := h.authConfigs.symm
  credentials := h.credentials.symm
  connectedAccounts := h.connectedAccounts.symm
  userInstalls := h.userInstalls.symm
  userDisabledTools := h.userDisabledTools.symm
  profileSeq := h.profileSeq.symm
  profiles := h.profiles.symm
  slugs := fun s ↦ (h.slugs s).symm
  bundles := fun pid hown ↦ (h.bundles pid (owns_of_shows h.profiles.symm hown)).symm
  auditSeq := h.auditSeq.symm
  audit := h.audit.symm

theorem trans (h : Indistinct u db db') (h' : Indistinct u db' db'') : Indistinct u db db'' where
  servers := h.servers.trans h'.servers
  manifests := h.manifests.trans h'.manifests
  authConfigs := h.authConfigs.trans h'.authConfigs
  credentials := h.credentials.trans h'.credentials
  connectedAccounts := h.connectedAccounts.trans h'.connectedAccounts
  userInstalls := h.userInstalls.trans h'.userInstalls
  userDisabledTools := h.userDisabledTools.trans h'.userDisabledTools
  profileSeq := h.profileSeq.trans h'.profileSeq
  profiles := h.profiles.trans h'.profiles
  slugs := fun s ↦ (h.slugs s).trans (h'.slugs s)
  bundles := fun pid hown ↦ (h.bundles pid hown).trans (h'.bundles pid (owns_of_shows h.profiles hown))
  auditSeq := h.auditSeq.trans h'.auditSeq
  audit := h.audit.trans h'.audit

end Indistinct

/-! ## Statements that are the same in both -/

/-- The statements that a user's requests issue, but for those whose answers hold a secret column
and the deletion of a profile.  `own` are profiles that are known to be the user's. -/
def Visible (u : Int64) (own : Int64 → Prop) : Sql → Prop
  | .listServers | .getManifest _ | .listManifests | .getAuthConfig _ => True
  | .listCredentialsByTenant tenant | .deleteCredential _ tenant => tenant = userTenant u
  | .putCredential c => c.tenant = userTenant u
  | .listConnectedAccountsByUser userID | .deleteConnectedAccount userID _ => userID = u
  | .putConnectedAccount _ => True
  | .isUserInstalled userID _ | .listUserInstalls userID | .installForUser userID _ _
  | .deleteOwnInstall userID _ => userID = u
  | .setUserToolEnabled userID _ _ _ | .listUserDisabledTools userID _
  | .deleteOwnDisabledTools userID _ => userID = u
  | .createProfile _ _ userID _ _ | .deleteOwnProfileServers userID _ => userID = u
  | .updateProfileName .. | .setProfileToken .. => True
  | .getProfileServers pid | .setProfileServers pid _ => own pid
  | .listAudit _ _ userID | .countEgress userID | .mostUsedApp userID
  | .egressByTs userID _ => userID = u
  | .appendAudit _ => True
  | _ => False

/-- Ordering by a column that a map leaves alone. -/
theorem map_orderBy {α β : Type} [LE β] [DecidableLE β] {f : α → β} {g : α → α}
    (h : ∀ a, f (g a) = f a) (l : List α) : (orderBy f l).map g = orderBy f (l.map g) := by
  refine List.map_insertionSort _ _ g l fun a _ b _ ↦ ?_
  rw [h, h]

namespace Indistinct

variable {u : Int64} {db db' : Database}

/-! ### Reads -/

theorem listCredentials (h : Indistinct u db db') :
    ((Sql.listCredentialsByTenant (userTenant u)).apply db).1 =
      ((Sql.listCredentialsByTenant (userTenant u)).apply db').1 := by
  have hlist (db : Database) : ((Sql.listCredentialsByTenant (userTenant u)).apply db).1 =
      .ok (orderBy Credential.server
        ((db.credentials.rows.filter fun c ↦ c.tenant = userTenant u).map Credential.bare)) := by
    rw [← map_orderBy (g := Credential.bare) fun _ ↦ rfl]
    rfl
  rw [hlist, hlist, h.credentials]

theorem listConnectedAccounts (h : Indistinct u db db') :
    ((Sql.listConnectedAccountsByUser u).apply db).1 =
      ((Sql.listConnectedAccountsByUser u).apply db').1 := by
  have hlist (db : Database) : ((Sql.listConnectedAccountsByUser u).apply db).1 =
      .ok (orderBy ConnectedAccount.vendor
        ((db.connectedAccounts.rows.filter fun c ↦ c.userID = u).map ConnectedAccount.bare)) := by
    rw [← map_orderBy (g := ConnectedAccount.bare) fun _ ↦ rfl]
    rfl
  rw [hlist, hlist, h.connectedAccounts]

/-- A profile list, without the hashes of the tokens. -/
theorem listProfiles (h : Indistinct u db db') (hu : u ≠ 0) :
    (orderBy Profile.id (db.profiles.table.rows.filter fun p ↦ u = 0 ∨ p.userID = u)).map
        Profile.bare =
      (orderBy Profile.id (db'.profiles.table.rows.filter fun p ↦ u = 0 ∨ p.userID = u)).map
        Profile.bare := by
  simp only [hu, false_or]
  rw [map_orderBy (g := Profile.bare) fun _ ↦ rfl, map_orderBy (g := Profile.bare) fun _ ↦ rfl,
    h.profiles]

/-- The user's own audit rows. -/
theorem audit_rows (h : Indistinct u db db') :
    (db.audit.table.rows.filter fun e ↦ e.userID = some u) =
      db'.audit.table.rows.filter fun e ↦ e.userID = some u := by
  simpa only [Table.Shows, List.map_id] using h.audit

/-- A further condition on the user's own audit rows. -/
theorem filter_audit (h : Indistinct u db db') (q : AuditEvent → Bool) :
    (db.audit.table.rows.filter fun e ↦ q e && e.userID = some u) =
      db'.audit.table.rows.filter fun e ↦ q e && e.userID = some u := by
  rw [← List.filter_filter, ← List.filter_filter, h.audit_rows]

theorem egressOf (h : Indistinct u db db') : db.egressOf u = db'.egressOf u := by
  have hrows := h.filter_audit fun e ↦ e.kind = .egress
  simpa only [Database.egressOf, Bool.decide_and, Bool.and_comm] using hrows

theorem listAudit (h : Indistinct u db db') (hu : u ≠ 0) (beforeID : Int64) (limit : Nat) :
    ((Sql.listAudit beforeID limit u).apply db).1 =
      ((Sql.listAudit beforeID limit u).apply db').1 := by
  have hrows := h.filter_audit fun e ↦ beforeID ≤ 0 ∨ e.id < beforeID
  have hlist (db : Database) : ((Sql.listAudit beforeID limit u).apply db).1 =
      .ok (((orderBy AuditEvent.id (db.audit.table.rows.filter fun e ↦
        decide (beforeID ≤ 0 ∨ e.id < beforeID) && e.userID = some u)).reverse).take limit) := by
    simp only [Sql.apply, hu, false_or, Bool.decide_and]
  rw [hlist, hlist, hrows]

theorem userInstalls_rows (h : Indistinct u db db') :
    (db.userInstalls.rows.filter fun i ↦ i.userID = u) =
      db'.userInstalls.rows.filter fun i ↦ i.userID = u := by
  simpa only [Table.Shows, List.map_id] using h.userInstalls

theorem isUserInstalled (h : Indistinct u db db') (server : String) :
    db.userInstalls.get? (u, server) = db'.userInstalls.get? (u, server) := by
  have hget := h.userInstalls.get? (fun r s htwins ↦ congrArg UserInstall.key htwins.blank_eq)
    (k := (u, server)) fun i hi ↦ decide_eq_true (congrArg Prod.fst hi)
  simpa only [Option.map_id_fun, id] using hget

theorem listUserDisabledTools (h : Indistinct u db db') (server : String) :
    (db.userDisabledTools.rows.filter fun r ↦ r.1 = u ∧ r.2.1 = server) =
      db'.userDisabledTools.rows.filter fun r ↦ r.1 = u ∧ r.2.1 = server := by
  have hrows : (db.userDisabledTools.rows.filter fun r ↦ r.1 = u) =
      db'.userDisabledTools.rows.filter fun r ↦ r.1 = u := by
    simpa only [Table.Shows, List.map_id] using h.userDisabledTools
  simp only [Bool.decide_and, Bool.and_comm (decide (_ = u)), ← List.filter_filter, hrows]

theorem getProfileServers (h : Indistinct u db db') {pid : Int64} (hown : Owns u db pid) :
    (db.profileServers.rows.filter fun r ↦ r.1 = pid) =
      db'.profileServers.rows.filter fun r ↦ r.1 = pid := by
  simpa only [Table.Shows, List.map_id] using h.bundles pid hown

/-! ### Writes -/

theorem credential_key {r s : Credential}
    (h : Table.Twins (fun c : Credential ↦ c.tenant = userTenant u) Credential.bare r s) :
    r.key = s.key := by
  have hkey : r.bare.key = s.bare.key := congrArg Credential.key h.blank_eq
  exact hkey

theorem account_key {r s : ConnectedAccount}
    (h : Table.Twins (fun c : ConnectedAccount ↦ c.userID = u) ConnectedAccount.bare r s) :
    r.key = s.key := by
  have hkey : r.bare.key = s.bare.key := congrArg ConnectedAccount.key h.blank_eq
  exact hkey

theorem putCredential (h : Indistinct u db db') {c : Credential} (hc : c.tenant = userTenant u) :
    Indistinct u ((Sql.putCredential c).apply db).2 ((Sql.putCredential c).apply db').2 := by
  refine { h with credentials := ?_ }
  refine h.credentials.upsert (fun _ _ ↦ credential_key) ?_ _ (fun _ ↦ rfl) ?_
  · intro s hs
    exact decide_eq_true ((congrArg Prod.snd hs).trans hc)
  · intro s s' htwins
    have hkey := credential_key htwins
    simp only [Credential.key, Prod.mk.injEq] at hkey
    simp only [Credential.bare, hkey]

theorem deleteCredential (h : Indistinct u db db') (server : String) :
    ((Sql.deleteCredential server (userTenant u)).apply db).1 =
        ((Sql.deleteCredential server (userTenant u)).apply db').1 ∧
      Indistinct u ((Sql.deleteCredential server (userTenant u)).apply db).2
        ((Sql.deleteCredential server (userTenant u)).apply db').2 := by
  have hget := h.credentials.get? (fun _ _ ↦ credential_key) (k := (server, userTenant u))
    fun c hc ↦ decide_eq_true (congrArg Prod.snd hc)
  have hsome := congrArg Option.isSome hget
  rw [Option.isSome_map, Option.isSome_map] at hsome
  refine ⟨congrArg Except.ok hsome, { h with credentials := ?_ }⟩
  refine h.credentials.deleteWhere fun r s htwins ↦ ?_
  have hkey := credential_key htwins
  simp only [Credential.key, Prod.mk.injEq] at hkey
  rw [hkey.1, hkey.2]

/-- An account of any user. -/
theorem putConnectedAccount (h : Indistinct u db db') (c : ConnectedAccount) :
    Indistinct u ((Sql.putConnectedAccount c).apply db).2
      ((Sql.putConnectedAccount c).apply db').2 := by
  refine { h with connectedAccounts := ?_ }
  by_cases hc : c.userID = u
  · refine h.connectedAccounts.upsert (fun _ _ ↦ account_key) ?_ _ (fun _ ↦ rfl) ?_
    · exact fun s hs ↦ decide_eq_true ((congrArg Prod.fst hs).trans hc)
    · intro s s' htwins
      have hkey := account_key htwins
      simp only [ConnectedAccount.key, Prod.mk.injEq] at hkey
      simp only [ConnectedAccount.bare, hkey]
  · have hrows (db : Database) :
        (((Sql.putConnectedAccount c).apply db).2.connectedAccounts.rows.filter
          fun a ↦ a.userID = u) = db.connectedAccounts.rows.filter fun a ↦ a.userID = u := by
      refine Table.filter_upsert _ fun a ha ↦ decide_eq_false fun hu ↦ hc ?_
      exact (congrArg Prod.fst ha).symm.trans hu
    rw [Table.Shows, hrows, hrows]
    exact h.connectedAccounts

theorem deleteConnectedAccount (h : Indistinct u db db') (userID : Int64) (vendor : String) :
    Indistinct u ((Sql.deleteConnectedAccount userID vendor).apply db).2
      ((Sql.deleteConnectedAccount userID vendor).apply db').2 := by
  refine { h with connectedAccounts := h.connectedAccounts.deleteWhere fun r s htwins ↦ ?_ }
  have hkey := account_key htwins
  simp only [ConnectedAccount.key, Prod.mk.injEq] at hkey
  rw [hkey.1, hkey.2]

theorem installForUser (h : Indistinct u db db') (server : String) (now : Time) :
    Indistinct u ((Sql.installForUser u server now).apply db).2
      ((Sql.installForUser u server now).apply db').2 := by
  refine { h with userInstalls := ?_ }
  refine h.userInstalls.insertNew (fun r s htwins ↦ congrArg UserInstall.key htwins.blank_eq) ?_
  exact fun i hi ↦ decide_eq_true (congrArg Prod.fst hi)

theorem deleteOwnInstall (h : Indistinct u db db') (server : String) :
    Indistinct u ((Sql.deleteOwnInstall u server).apply db).2
      ((Sql.deleteOwnInstall u server).apply db').2 := by
  refine { h with userInstalls := h.userInstalls.deleteWhere fun r s htwins ↦ ?_ }
  rw [show r = s from htwins.blank_eq]

theorem setUserToolEnabled (h : Indistinct u db db') (server tool : String) (enabled : Bool) :
    ((Sql.setUserToolEnabled u server tool enabled).apply db).1 =
        ((Sql.setUserToolEnabled u server tool enabled).apply db').1 ∧
      Indistinct u ((Sql.setUserToolEnabled u server tool enabled).apply db).2
        ((Sql.setUserToolEnabled u server tool enabled).apply db').2 := by
  cases enabled with
  | true =>
      refine ⟨rfl, { h with
        userDisabledTools := h.userDisabledTools.deleteWhere fun r s htwins ↦ ?_ }⟩
      rw [show r = s from htwins.blank_eq]
  | false =>
      refine ⟨rfl, { h with
        userDisabledTools := h.userDisabledTools.insertNew (fun r s htwins ↦ htwins.blank_eq) ?_ }⟩
      rintro r rfl
      exact decide_eq_true rfl

theorem deleteOwnDisabledTools (h : Indistinct u db db') (server : String) :
    Indistinct u ((Sql.deleteOwnDisabledTools u server).apply db).2
      ((Sql.deleteOwnDisabledTools u server).apply db').2 := by
  refine { h with userDisabledTools := h.userDisabledTools.deleteWhere fun r s htwins ↦ ?_ }
  rw [show r = s from htwins.blank_eq]

theorem appendAudit (h : Indistinct u db db') (e : AuditEvent) :
    (db.appendAudit e).1 = (db'.appendAudit e).1 ∧
      Indistinct u (db.appendAudit e).2 (db'.appendAudit e).2 := by
  unfold Database.appendAudit
  rcases AutoTable.insert_congr h.auditSeq
    (fun i ↦ { e with id := i, ts := e.ts.throughColumn }) (fun _ ↦ rfl) with
    ⟨hnone, hnone'⟩ | ⟨i, t, t', hsome, hsome', hseq⟩
  · rw [hnone, hnone']
    exact ⟨rfl, h⟩
  · rw [hsome, hsome']
    refine ⟨rfl, { h with auditSeq := hseq, audit := ?_ }⟩
    exact h.audit.append (AutoTable.rows_insert hsome) (AutoTable.rows_insert hsome')

/-! ### Profiles and bundles -/

/-- No server is bundled under an id that has not been given yet. -/
theorem bundle_of_seq_lt (hi : Intact db) {pid : Int64} (hpid : (db.profiles.seq : Int) < pid.toInt) :
    (db.profileServers.rows.filter fun r ↦ r.1 = pid) = [] := by
  refine List.filter_eq_nil_iff.mpr fun r hr hpid' ↦ ?_
  obtain ⟨p, hp, hid⟩ := hi.bundles r hr
  have hle := db.profiles.le_seq p hp
  rw [hid, of_decide_eq_true hpid'] at hle
  omega

theorem createProfile (h : Indistinct u db db') (hi : Intact db) (hi' : Intact db')
    (slug name tokenHash : String) (now : Time) :
    (db.createProfile slug name u tokenHash now).1 =
        (db'.createProfile slug name u tokenHash now).1 ∧
      Indistinct u (db.createProfile slug name u tokenHash now).2
        (db'.createProfile slug name u tokenHash now).2 := by
  have htaken : (db.profiles.table.rows.any fun p ↦ p.slug = slug) =
      db'.profiles.table.rows.any fun p ↦ p.slug = slug := by
    rw [Bool.eq_iff_iff]
    simp only [List.any_eq_true, decide_eq_true_eq]
    exact h.slugs slug
  unfold Database.createProfile
  rw [htaken]
  split
  · exact ⟨rfl, h⟩
  rcases AutoTable.insert_congr h.profileSeq
    (fun i ↦ ⟨i, slug, name, u, tokenHash, false, now.throughColumn⟩) (fun _ ↦ rfl) with
    ⟨hnone, hnone'⟩ | ⟨i, t, t', hsome, hsome', hseq⟩
  · rw [hnone, hnone']
    exact ⟨rfl, h⟩
  · rw [hsome, hsome']
    have hrows := AutoTable.rows_insert hsome
    have hrows' := AutoTable.rows_insert hsome'
    have hid := (AutoTable.insert_eq_some hsome).1
    refine ⟨rfl, { h with
      profileSeq := hseq, profiles := h.profiles.append hrows hrows', slugs := fun s ↦ ?_,
      bundles := fun pid hown ↦ ?_ }⟩
    · simp only [hrows, hrows', List.mem_append, List.mem_singleton, or_and_right, exists_or]
      rw [h.slugs s]
    · obtain ⟨p, hp, hpid, hu⟩ := hown
      rw [hrows, List.mem_append, List.mem_singleton] at hp
      rcases hp with hp | rfl
      · exact h.bundles pid ⟨p, hp, hpid, hu⟩
      · obtain rfl : i = pid := hpid
        have hnew : (db.profiles.seq : Int) < i.toInt := by omega
        have hnew' : (db'.profiles.seq : Int) < i.toInt := by rw [← h.profileSeq]; omega
        rw [Table.Shows, bundle_of_seq_lt hi hnew, bundle_of_seq_lt hi' hnew']

/-- A profile of one state and a profile of the other that look the same have the same id. -/
theorem profile_id {r s : Profile}
    (h : Table.Twins (fun p : Profile ↦ p.userID = u) Profile.bare r s) : r.id = s.id := by
  have hid : r.bare.id = s.bare.id := congrArg Profile.id h.blank_eq
  exact hid

/-- An update of the profile with an id that leaves its columns but name and token alone. -/
theorem updateProfile (h : Indistinct u db db') {i : Int64} {f : Profile → Profile}
    (hid : ∀ p, (f p).id = p.id) (hslug : ∀ p, (f p).slug = p.slug)
    (huser : ∀ p, (f p).userID = p.userID)
    (hbare : ∀ p q, p.bare = q.bare → (f p).bare = (f q).bare) :
    Indistinct u { db with profiles := db.profiles.update (fun p ↦ p.id = i) f hid }
      { db' with profiles := db'.profiles.update (fun p ↦ p.id = i) f hid } := by
  have hmem (db : Database) {q : Profile → Prop} (hq : ∀ p, q (f p) ↔ q p) :
      (∃ p ∈ (db.profiles.update (fun p ↦ p.id = i) f hid).table.rows, q p) ↔
        ∃ p ∈ db.profiles.table.rows, q p := by
    rw [AutoTable.table_update, Table.rows_update]
    simp only [List.mem_map, exists_exists_and_eq_and]
    refine exists_congr fun p ↦ and_congr_right fun _ ↦ ?_
    split
    · exact hq p
    · exact Iff.rfl
  refine { h with profiles := ?_, slugs := fun s ↦ ?_, bundles := fun pid hown ↦ ?_ }
  · refine h.profiles.update hid (fun p ↦ by rw [huser]) (fun r s htwins ↦ ?_) fun r s htwins ↦ ?_
    · rw [profile_id htwins]
    · exact hbare r s htwins.blank_eq
  · rw [hmem db fun p ↦ by rw [hslug], hmem db' fun p ↦ by rw [hslug]]
    exact h.slugs s
  · exact h.bundles pid ((hmem db fun p ↦ by rw [hid, huser]).mp hown)

/-- A state without the profile of an id and its bundle. -/
theorem deleteProfile (h : Indistinct u db db') (hi : Intact db) (hi' : Intact db') {i : Int64}
    (hown : Owns u db i) :
    Indistinct u ((Sql.deleteProfile i).apply db).2 ((Sql.deleteProfile i).apply db').2 := by
  obtain ⟨p, hp, rfl, hu⟩ := hown
  obtain ⟨hash, hp'⟩ := exists_of_shows h.profiles hp hu
  -- by uniqueness the slug goes out of use in both states, and no other slug does
  have hslugs {db : Database} (hi : Intact db) {q : Profile} (hq : q ∈ db.profiles.table.rows)
      (s : String) : (∃ p ∈ ((Sql.deleteProfile q.id).apply db).2.profiles.table.rows, p.slug = s) ↔
        (∃ p ∈ db.profiles.table.rows, p.slug = s) ∧ s ≠ q.slug := by
    have hrows : ((Sql.deleteProfile q.id).apply db).2.profiles.table.rows =
        db.profiles.table.rows.filter fun p ↦ !decide (p.id = q.id) := rfl
    simp only [hrows, List.mem_filter, Bool.not_eq_true', decide_eq_false_iff_not]
    constructor
    · rintro ⟨p, ⟨hp, hne⟩, rfl⟩
      exact ⟨⟨p, hp, rfl⟩, fun hslug ↦ hne (congrArg Profile.id (hi.slugs.eq hp hq hslug))⟩
    · rintro ⟨⟨p, hp, rfl⟩, hne⟩
      exact ⟨p, ⟨hp, fun hid ↦ hne (congrArg Profile.slug
        (db.profiles.table.eq_of_key_eq hp hq hid))⟩, rfl⟩
  refine { h with profiles := ?_, slugs := fun s ↦ ?_, bundles := fun pid hown ↦ ?_ }
  · exact h.profiles.deleteWhere fun r s htwins ↦ by rw [profile_id htwins]
  · rw [hslugs hi hp, h.slugs s]
    exact (hslugs hi' hp' s).symm
  · obtain ⟨q, hq, hqid, hqu⟩ := hown
    have hbundle := h.bundles pid ⟨q, (List.mem_filter.mp hq).1, hqid, hqu⟩
    exact hbundle.deleteWhere fun r s htwins ↦ by rw [show r = s from htwins.blank_eq]

theorem setProfileServers (h : Indistinct u db db') {i : Int64} (hown : Owns u db i)
    (names : List String) :
    (db.setProfileServers i names).1 = (db'.setProfileServers i names).1 ∧
      Indistinct u (db.setProfileServers i names).2 (db'.setProfileServers i names).2 := by
  have hget {db : Database} (hown : Owns u db i) : ∃ p, db.profiles.table.get? i = some p := by
    obtain ⟨p, hp, rfl, -⟩ := hown
    exact ⟨p, Table.get?_of_mem hp⟩
  obtain ⟨p, hp⟩ := hget hown
  obtain ⟨p', hp'⟩ := hget (owns_of_shows h.profiles hown)
  have hinsert (pid : Int64) {t t' : Table (id : ProfileServer → ProfileServer)}
      (ht : Table.Shows (fun r ↦ r.1 = pid) id t t') :
      Table.Shows (fun r ↦ r.1 = pid) id (names.foldl (fun t n ↦ t.insertNew (i, n)) t)
        (names.foldl (fun t n ↦ t.insertNew (i, n)) t') := by
    induction names generalizing t t' with
    | nil => exact ht
    | cons n names ih =>
        refine ih ?_
        by_cases hpid : i = pid
        · refine ht.insertNew (fun r s htwins ↦ htwins.blank_eq) ?_
          rintro s rfl
          exact decide_eq_true hpid
        · have hrows (t : Table (id : ProfileServer → ProfileServer)) :
              ((t.insertNew (i, n)).rows.filter fun r ↦ r.1 = pid) =
                t.rows.filter fun r ↦ r.1 = pid :=
            Table.filter_insertNew (decide_eq_false hpid)
          dsimp only [Table.Shows]
          rw [hrows, hrows]
          exact ht
  unfold Database.setProfileServers
  rw [hp, hp']
  refine ⟨rfl, { h with bundles := fun pid hown ↦ hinsert pid ?_ }⟩
  exact (h.bundles pid hown).deleteWhere fun r s htwins ↦ by rw [show r = s from htwins.blank_eq]

theorem deleteOwnProfileServers (h : Indistinct u db db') (server : String) :
    Indistinct u ((Sql.deleteOwnProfileServers u server).apply db).2
      ((Sql.deleteOwnProfileServers u server).apply db').2 := by
  have hany (pid : Int64) : (db.profiles.table.rows.any fun p ↦ p.id = pid ∧ p.userID = u) =
      db'.profiles.table.rows.any fun p ↦ p.id = pid ∧ p.userID = u := by
    rw [Bool.eq_iff_iff]
    simp only [List.any_eq_true, decide_eq_true_eq]
    exact ⟨owns_of_shows h.profiles, owns_of_shows h.profiles.symm⟩
  refine { h with bundles := fun pid hown ↦ ?_ }
  refine (h.bundles pid hown).deleteWhere fun r s htwins ↦ ?_
  rw [show r = s from htwins.blank_eq, hany]

/-! ### All statements -/

variable {own : Int64 → Prop} {c : Sql}

/-- **Step lemma.**  A statement that a user may issue answers the same in two states that the user
cannot tell apart, and leaves two such states behind. -/
theorem apply (h : Indistinct u db db') (hi : Intact db) (hi' : Intact db') (hu : u ≠ 0)
    (hown : ∀ pid, own pid → Owns u db pid) (hc : Visible u own c) :
    (c.apply db).1 = (c.apply db').1 ∧ Indistinct u (c.apply db).2 (c.apply db').2 := by
  cases c with
  | listServers => exact ⟨by rw [Sql.apply, Sql.apply, h.servers], h⟩
  | getManifest server => exact ⟨by rw [Sql.apply, Sql.apply, h.manifests], h⟩
  | listManifests => exact ⟨by rw [Sql.apply, Sql.apply, h.manifests], h⟩
  | getAuthConfig vendor => exact ⟨by rw [Sql.apply, Sql.apply, h.authConfigs], h⟩
  | listCredentialsByTenant tenant =>
      obtain rfl : tenant = userTenant u := hc
      exact ⟨h.listCredentials, h⟩
  | putCredential c => exact ⟨rfl, h.putCredential hc⟩
  | deleteCredential server tenant =>
      obtain rfl : tenant = userTenant u := hc
      exact h.deleteCredential server
  | listConnectedAccountsByUser userID =>
      obtain rfl : userID = u := hc
      exact ⟨h.listConnectedAccounts, h⟩
  | putConnectedAccount c => exact ⟨rfl, h.putConnectedAccount c⟩
  | deleteConnectedAccount userID vendor => exact ⟨rfl, h.deleteConnectedAccount userID vendor⟩
  | isUserInstalled userID server =>
      obtain rfl : userID = u := hc
      exact ⟨by rw [Sql.apply, Sql.apply, h.isUserInstalled], h⟩
  | listUserInstalls userID =>
      obtain rfl : userID = u := hc
      exact ⟨by rw [Sql.apply, Sql.apply, h.userInstalls_rows], h⟩
  | installForUser userID server now =>
      obtain rfl : userID = u := hc
      exact ⟨rfl, h.installForUser server now⟩
  | deleteOwnInstall userID server =>
      obtain rfl : userID = u := hc
      exact ⟨rfl, h.deleteOwnInstall server⟩
  | setUserToolEnabled userID server tool enabled =>
      obtain rfl : userID = u := hc
      exact h.setUserToolEnabled server tool enabled
  | listUserDisabledTools userID server =>
      obtain rfl : userID = u := hc
      exact ⟨by rw [Sql.apply, Sql.apply, h.listUserDisabledTools], h⟩
  | deleteOwnDisabledTools userID server =>
      obtain rfl : userID = u := hc
      exact ⟨rfl, h.deleteOwnDisabledTools server⟩
  | createProfile slug name userID tokenHash now =>
      obtain rfl : userID = u := hc
      exact h.createProfile hi hi' slug name tokenHash now
  | deleteOwnProfileServers userID server =>
      obtain rfl : userID = u := hc
      exact ⟨rfl, h.deleteOwnProfileServers server⟩
  | updateProfileName i name =>
      refine ⟨rfl, h.updateProfile _ (fun _ ↦ rfl) (fun _ ↦ rfl) fun p q hbare ↦ ?_⟩
      exact congrArg (fun p : Profile ↦ { p with name := name }) hbare
  | setProfileToken i tokenHash =>
      exact ⟨rfl, h.updateProfile _ (fun _ ↦ rfl) (fun _ ↦ rfl) fun p q hbare ↦ hbare⟩
  | getProfileServers pid => exact ⟨by rw [Sql.apply, Sql.apply, h.getProfileServers (hown pid hc)], h⟩
  | setProfileServers pid names => exact h.setProfileServers (hown pid hc) names
  | listAudit beforeID limit userID =>
      obtain rfl : userID = u := hc
      exact ⟨h.listAudit hu beforeID limit, h⟩
  | countEgress userID =>
      obtain rfl : userID = u := hc
      exact ⟨by rw [Sql.apply, Sql.apply, h.egressOf], h⟩
  | mostUsedApp userID =>
      obtain rfl : userID = u := hc
      exact ⟨by rw [Sql.apply, Sql.apply, h.egressOf], h⟩
  | egressByTs userID since =>
      obtain rfl : userID = u := hc
      exact ⟨by rw [Sql.apply, Sql.apply, h.egressOf], h⟩
  | appendAudit e => exact h.appendAudit e
  | _ => exact hc.elim

/-- A profile stays the user's own. -/
theorem owns_apply {pid : Int64} (h : Owns u db pid) (hc : Visible u own c) :
    Owns u (c.apply db).2 pid := by
  have hupdate {i : Int64} {f : Profile → Profile} (hid : ∀ p, (f p).id = p.id)
      (huser : ∀ p, (f p).userID = p.userID) :
      Owns u { db with profiles := db.profiles.update (fun p ↦ p.id = i) f hid } pid := by
    obtain ⟨p, hp, hpid, hu⟩ := h
    refine ⟨if decide (p.id = i) then f p else p, List.mem_map_of_mem hp, ?_⟩
    split
    · exact ⟨(hid p).trans hpid, (huser p).trans hu⟩
    · exact ⟨hpid, hu⟩
  have hframe (hc : Tbl.profiles ∉ c.writes) : Owns u (c.apply db).2 pid := by
    have hprofiles : (c.apply db).2.profiles = db.profiles := Sql.apply_frame hc db
    rw [Owns, hprofiles]
    exact h
  cases c with
  | createProfile slug name userID tokenHash now =>
      rw [Sql.apply, Database.createProfile]
      split
      · exact h
      · split
        · rename_i i t hinsert
          obtain ⟨p, hp, hpid, hu⟩ := h
          exact ⟨p, AutoTable.rows_insert hinsert ▸ List.mem_append_left _ hp, hpid, hu⟩
        · exact h
  | updateProfileName i name => exact hupdate _ fun _ ↦ rfl
  | setProfileToken i tokenHash => exact hupdate _ fun _ ↦ rfl
  | deleteProfile i => exact hc.elim
  | _ => exact hframe (by simp [Sql.writes])

end Indistinct

end GigMcp.Store
