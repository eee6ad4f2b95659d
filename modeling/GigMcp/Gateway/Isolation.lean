import GigMcp.Api.Serve

/-!
# Whose secret a sandbox gets

A sandbox is bound to the id of the profile it was spawned for, and the resolver
turns that id into the profile's owner at every CONNECT.  Profiles keep their
owners and ids are not reused (`Later.profiles`), so as long as the profile can be
looked up the secret is the owner's.  When it cannot, the id itself is taken for a
tenant, and a tenant is a user's id.
-/

namespace GigMcp.Gateway

open GigMcp.Effect GigMcp.System GigMcp.Store GigMcp.Data

variable {O : Outside} {faults : Call → Prop} {w w' : World}

/-- An access token of a user's own connection: the cached one, or one the
provider grants for the stored refresh token. -/
def AccountToken (O : Outside) (db : Database) (userID : Int64) (vendor token : String) : Prop :=
  ∃ acct, db.connectedAccounts.get? (userID, vendor) = some acct ∧
    (O.opens acct.encryptedAccessToken = some token ∨
      ∃ conf refreshToken tok, O.opens acct.encryptedRefreshToken = some refreshToken ∧
        O.grants conf refreshToken tok ∧ tok.accessToken = token)

/-- What a stored credential opens to. -/
def StoredSecret (O : Outside) (db : Database) (server tenant secret : String) : Prop :=
  ∃ row, db.credentials.get? (server, tenant) = some row ∧ O.opens row.encryptedKey = some secret

/-- A secret that a user's sandbox of a server may be given. -/
def OwnSecret (O : Outside) (db : Database) (server : String) (userID : Int64)
    (secret : String) : Prop :=
  secret = "" ∨ StoredSecret O db server (userTenant userID) secret ∨
    ∃ vendor, AccountToken O db userID vendor secret

/-! ## What the resolver's parts answer -/

/-- The tenant of a profile's sandbox is its owner's, unless the profile is gone or
its row cannot be read. -/
theorem exec_resolveTenant {p : Int64} {res : String × Option Int64 × Option Int64}
    (hx : Exec (sem O faults) (resolveTenant (formatInt p)) w res w') :
    w' = w ∧ ((∃ row, w.db.profiles.table.get? p = some row ∧ res.1 = userTenant row.userID) ∨
      ((w.db.profiles.table.get? p = none ∨ faults (.sql (.getProfileByID p))) ∧
        res.1 = formatInt p)) := by
  simp only [resolveTenant, parseInt_formatInt] at hx
  obtain ⟨r, w₁, hr, hx⟩ := hx
  obtain rfl : w₁ = w := sem_reads rfl hr
  cases r with
  | error e =>
      obtain ⟨rfl, rfl⟩ := hx
      refine ⟨rfl, .inr ⟨?_, rfl⟩⟩
      rcases hr with ⟨hr, -⟩ | ⟨hf, -⟩
      · exact .inl (Sql.fetch_eq_error.mp hr.symm).1
      · exact .inr hf
  | ok row =>
      obtain ⟨rfl, rfl⟩ := hx
      exact ⟨rfl, .inl ⟨row, Sql.fetch_eq_ok.mp (sem_read_ok hr rfl).1, rfl⟩⟩

theorem exec_refreshAndPersist {b : Auth.OAuthBroker} {userID : Int64} {vendor token : String}
    (hx : Exec (sem O faults) (b.refreshAndPersist userID vendor) w (.ok token) w') :
    AccountToken O w.db userID vendor token := by
  obtain ⟨acct, w₁, hacct, hx₁⟩ := exec_ok hx fun _ _ ↦ not_exec_error
  obtain ⟨hacct, rfl⟩ := sem_read_ok (exec_call_iff.mp hacct) rfl
  rw [Sql.apply, Sql.fetch_eq_ok] at hacct
  obtain ⟨t, w₂, ⟨-, rfl⟩, hx₂⟩ := exec_call.mp hx₁
  split at hx₂
  · -- another request has refreshed the token in the meantime
    obtain ⟨p, w₃, hp, hx₃⟩ := exec_ok hx₂ fun _ _ ↦ not_exec_error
    cases hx₃.1
    exact ⟨acct, hacct, .inl (sem_decrypt_ok (exec_call_iff.mp hp)).1⟩
  · obtain ⟨ac, w₃, -, hx₃⟩ := exec_ok hx₂ fun _ _ ↦ not_exec_error
    obtain ⟨conf, w₄, -, hx₄⟩ := exec_ok hx₃ fun _ _ ↦ not_exec_error
    obtain ⟨refreshToken, w₅, hopen, hx₅⟩ := exec_ok hx₄ fun _ _ ↦ not_exec_error
    obtain ⟨newTok, w₆, hgrant, hx₆⟩ := exec_ok hx₅ fun _ _ ↦ not_exec_error
    obtain ⟨encAccess, w₇, -, hx₇⟩ := exec_ok hx₆ fun _ _ ↦ not_exec_error
    obtain ⟨r, w₈, -, hx₈⟩ := exec_call.mp hx₇
    cases hx₈.1
    refine ⟨acct, hacct, .inr ⟨conf, refreshToken, newTok, ?_, ?_, rfl⟩⟩
    · exact (sem_decrypt_ok (exec_call_iff.mp hopen)).1
    · exact (exec_call_iff.mp hgrant).2.2 newTok rfl

/-- The broker's token is the user's own. -/
theorem exec_ensureFreshToken {b : Auth.OAuthBroker} {userID : Int64} {vendor token : String}
    (hx : Exec (sem O faults) (b.ensureFreshToken userID vendor) w (.ok token) w') :
    AccountToken O w.db userID vendor token := by
  obtain ⟨acct, w₁, hacct, hx₁⟩ := exec_ok hx fun _ _ ↦ not_exec_error
  obtain ⟨hacct, rfl⟩ := sem_read_ok (exec_call_iff.mp hacct) rfl
  rw [Sql.apply, Sql.fetch_eq_ok] at hacct
  obtain ⟨t, w₂, ⟨-, rfl⟩, hx₂⟩ := exec_call.mp hx₁
  split at hx₂
  · obtain ⟨p, w₃, hp, hx₃⟩ := exec_ok hx₂ fun _ _ ↦ not_exec_error
    cases hx₃.1
    exact ⟨acct, hacct, .inl (sem_decrypt_ok (exec_call_iff.mp hp)).1⟩
  · have htoken := exec_refreshAndPersist hx₂
    exact htoken

/-- The OAuth branch injects the user's own token, or nothing. -/
theorem exec_oauthCredential {b : Auth.OAuthBroker} {rec : ManifestRecord} {inj : Injection}
    {userID : Int64} {cred : ProxyCredential}
    (hx : Exec (sem O faults) (CredResolver.oauthCredential b rec inj userID) w (.ok cred) w') :
    cred.realSecret = "" ∨ ∃ vendor, AccountToken O w.db userID vendor cred.realSecret := by
  obtain ⟨r, w₁, hr, hx⟩ := exec_bind.mp hx
  cases r with
  | error e =>
      dsimp only at hx
      split at hx
      · cases hx.1
        exact .inl rfl
      · cases hx.1
  | ok token =>
      cases hx.1
      exact .inr ⟨_, exec_ensureFreshToken hr⟩

/-- The other branches inject what the tenant stored, or nothing. -/
theorem exec_storedCredential {server tenant : String} {cred : ProxyCredential}
    (hx : Exec (sem O faults) (CredResolver.storedCredential server tenant) w (.ok cred) w') :
    cred.realSecret = "" ∨ StoredSecret O w.db server tenant cred.realSecret := by
  obtain ⟨r, w₁, hr, hx₁⟩ := exec_call.mp hx
  cases r with
  | error e =>
      dsimp only at hx₁
      split at hx₁
      · obtain ⟨r, w₂, -, hx₂⟩ := exec_call.mp hx₁
        cases r with
        | error e' =>
            dsimp only at hx₂
            split at hx₂
            · cases hx₂.1
            · cases hx₂.1
        | ok rec =>
            cases hx₂.1
            exact .inl rfl
      · cases hx₁.1
  | ok row =>
      obtain ⟨hrow, rfl⟩ := sem_read_ok hr rfl
      rw [Sql.apply, Sql.fetch_eq_ok] at hrow
      obtain ⟨secret, w₂, hopen, hx₂⟩ := exec_ok hx₁ fun _ _ ↦ not_exec_error
      refine .inr ⟨row, hrow, ?_⟩
      rw [(sem_decrypt_ok (exec_call_iff.mp hopen)).1]
      -- the manifest decides the shape of the injection, not the secret
      obtain ⟨r, w₃, -, hx₃⟩ := exec_call.mp hx₂
      cases r with
      | error e =>
          dsimp only at hx₃
          split at hx₃
          · cases hx₃.1
            rfl
          · cases hx₃.1
      | ok rec =>
          cases hx₃.1
          rfl

/-- Under a tenant that is a user's key, the resolver answers with that user's
secrets. -/
theorem exec_resolve_tenant {c : CredResolver} {server host : String} {p userID : Int64}
    {cred : ProxyCredential}
    (htenant : ∀ res w₁, Exec (sem O faults) (resolveTenant (formatInt p)) w res w₁ →
      res.1 = userTenant userID)
    (hx : Exec (sem O faults) (c.resolve ⟨server, formatInt p⟩ host) w (.ok cred) w') :
    OwnSecret O w.db server userID cred.realSecret := by
  obtain ⟨⟨tenant, pid, uid⟩, w₁, ht, hx₁⟩ := exec_bind.mp hx
  obtain rfl : tenant = userTenant userID := htenant _ _ ht
  obtain rfl : w₁ = w := (exec_resolveTenant ht).1
  have hstored (hx : Exec (sem O faults)
      (CredResolver.storedCredential server (userTenant userID)) w₁ (.ok cred) w') :
      OwnSecret O w₁.db server userID cred.realSecret := by
    rcases exec_storedCredential hx with h | h
    · exact .inl h
    · exact .inr (.inl h)
  obtain ⟨broker⟩ := c
  cases broker with
  | none => exact hstored hx₁
  | some b =>
      obtain ⟨r, w₂, hr, hx₂⟩ := exec_call.mp hx₁
      obtain rfl : w₂ = w₁ := sem_reads rfl hr
      cases r with
      | error e => exact hstored hx₂
      | ok rec =>
          have hparse : parseInt (userTenant userID) = some userID := parseInt_formatInt userID
          dsimp only [CredResolver.oauthOrStored] at hx₂
          split at hx₂
          · rename_i inj user hinj huser
            rw [hparse, Option.some.injEq] at huser
            subst huser
            rcases exec_oauthCredential hx₂ with h | h
            · exact .inl h
            · exact .inr (.inr h)
          · exact hstored hx₂

/-! ## Sandboxes are bound to profiles -/

/-- A spawn is for the given tenant. -/
def SpawnsFor (tenant : String) : Call → Prop
  | .spawn _ t _ => t = tenant
  | _ => True

/-- Every sandbox of a profile's runtime is bound to the profile's id. -/
theorem spawnProfile_spawnsFor (p : Profile) :
    All (SpawnsFor (formatInt p.id)) (spawnProfile p) := by
  refine (spawnProfile_buildCalls p).mono fun e he ↦ ?_
  cases e with
  | spawn srv tenant placeholder => exact he
  | _ => trivial

/-! ## Isolation -/

/-- A sandbox spawned for a profile is given the secrets of the profile's owner, in
every later world in which the profile's row can be read, and in every later world
if the profile and its owner have the same id. -/
theorem resolve_own_secret {c : CredResolver} {host tenant placeholder : String}
    {row : Profile} {srv : Store.Server} {w₀ : World} {cred : ProxyCredential}
    (hrow : w₀.db.profiles.table.get? row.id = some row)
    (hspawn : Occurs (Call.spawn srv tenant placeholder) (spawnProfile row))
    (hlater : Later O w₀ w)
    (hlookup : (w.db.profiles.table.get? row.id).isSome ∧
        ¬ faults (.sql (.getProfileByID row.id)) ∨ row.id = row.userID)
    (hx : Exec (sem O faults) (c.resolve ⟨srv.name, tenant⟩ host) w (.ok cred) w') :
    OwnSecret O w.db srv.name row.userID cred.realSecret := by
  obtain rfl : tenant = formatInt row.id := (spawnProfile_spawnsFor row).of_occurs hspawn
  refine exec_resolve_tenant ?_ hx
  intro res w₁ ht
  obtain ⟨-, ⟨r, hr, hres⟩ | ⟨hmiss, hres⟩⟩ := exec_resolveTenant ht
  · -- the row is the one the sandbox was spawned for
    have howner : r.userID = row.userID := hlater.profiles.proj_eq hrow hr
    rw [hres, howner]
  · rcases hlookup with ⟨hsome, hf⟩ | hid
    · rcases hmiss with hnone | hfault
      · rw [hnone] at hsome
        cases hsome
      · exact absurd hfault hf
    · rw [hres, hid]
      rfl

namespace Example

open GigMcp.Api

/-- `PUT /api/credentials/github` with only a secret. -/
def putSecret (session secret : String) : Http.Request :=
  { Local.request "PUT" ["credentials", "github"] (some session) with
    body := .putCredential ⟨secret, "", "", "", []⟩ }

/-- Alice and Bob log in, both store a secret for `github`, and Bob makes a
profile. -/
def requests : List Http.Request :=
  [Local.login "alice:user", Local.login "bob:user", putSecret "hash0" "alices-secret",
    putSecret "hash1" "bobs-secret",
    { Local.request "POST" ["profiles"] (some "hash1") with
      body := .createProfile "Work" "work" }]

def world : World := Local.after requests (.boot .fresh 0)

/-- Bob's profile. -/
def profile : Profile := ⟨1, "work", "Work", 2, "hash2", false, 0⟩

def github : Store.Server := ⟨1, "github", "server", ""⟩

/-- The sandbox of `github` in Bob's profile is bound to the id of the profile. -/
theorem spawn_github : Occurs (Call.spawn github (formatInt 1) "") (spawnProfile profile) := by
  refine .inr ⟨.ok ["github"], .inr ⟨.ok [github], ?_⟩⟩
  refine .inr ⟨.ok true, .inr ⟨.error .manifestNotFound, ?_⟩⟩
  exact .inr ⟨.error .manifestNotFound, .inl rfl⟩

/-- Bob deletes the profile. -/
def deleted : World :=
  Local.after [Local.request "DELETE" ["profiles", "1"] (some "hash1")] world

end Example

open Example in
/-- Bob's sandbox is given Bob's secret. -/
theorem resolve_own_secret_github :
    OwnSecret Partners.outside world.db "github" 2 "bobs-secret" := by
  obtain ⟨w', hx⟩ := Api.Local.partners.exec_of_run_fst
    (p := (⟨some Api.Local.broker⟩ : CredResolver).resolve ⟨"github", formatInt 1⟩ "api.github.com")
    (w := world) (a := .ok ⟨"bobs-secret", "", "", "", []⟩) rfl fun _ ↦ False
  have hrow : world.db.profiles.table.get? profile.id = some profile := rfl
  exact resolve_own_secret hrow spawn_github .refl (.inl ⟨rfl, id⟩) hx

open Example in
/-- Once Bob has deleted profile 1, a sandbox spawned for it is given the secret of
the user with id 1. -/
theorem resolve_other_users_secret :
    ∃ w', Api.Serves Partners.outside (fun _ ↦ False) Api.Local.server (.boot .fresh 0) world ∧
      world.db.profiles.table.get? 1 = some profile ∧
      Occurs (Call.spawn github (formatInt 1) "") (spawnProfile profile) ∧
      Api.Serves Partners.outside (fun _ ↦ False) Api.Local.server world deleted ∧
      Exec (sem Partners.outside fun _ ↦ False)
        ((⟨some Api.Local.broker⟩ : CredResolver).resolve ⟨"github", formatInt 1⟩ "api.github.com")
        deleted (.ok ⟨"alices-secret", "", "", "", []⟩) w' ∧
      StoredSecret Partners.outside deleted.db "github" (userTenant 1) "alices-secret" ∧
      ¬ OwnSecret Partners.outside deleted.db "github" profile.userID "alices-secret" := by
  obtain ⟨w', hx⟩ := Api.Local.partners.exec_of_run_fst
    (p := (⟨some Api.Local.broker⟩ : CredResolver).resolve ⟨"github", formatInt 1⟩ "api.github.com")
    (w := deleted) (a := .ok ⟨"alices-secret", "", "", "", []⟩) rfl fun _ ↦ False
  refine ⟨w', Api.Local.serves_after _ rfl, rfl, spawn_github, Api.Local.serves_after _ rfl, hx,
    ⟨_, rfl, rfl⟩, ?_⟩
  have haccounts : deleted.db.connectedAccounts.rows = [] := rfl
  rintro (h | ⟨row, hrow, hopen⟩ | ⟨vendor, acct, hacct, -⟩)
  · exact absurd h (by decide)
  · have hbob : deleted.db.credentials.get? ("github", userTenant profile.userID) =
        some ⟨"github", "2", "#bobs-secret", "", "", "", []⟩ := rfl
    rw [hbob, Option.some.injEq] at hrow
    subst hrow
    exact absurd hopen (by decide)
  · rw [Table.get?, haccounts] at hacct
    cases hacct

end GigMcp.Gateway
