import GigMcp.Gateway.Resolver
import GigMcp.Proxy.Handle
import GigMcp.System.Local

/-!
# The manifest is a hard cap

Whatever the store holds, whichever of its reads fail, and whatever other requests
write in between: as long as a server's manifest row stays, the allowlist and the
shape of the injection that the resolver returns for the server are the
manifest's.  The proxy therefore dials no host that the manifest does not admit.
-/

namespace GigMcp.Gateway

open GigMcp.Effect GigMcp.System GigMcp.Store GigMcp.Data

variable {O : Outside} {faults : Call → Prop} {w w' : World}

/-! ## What the resolver calls -/

/-- The calls of a resolution; `rows` says whether reads of credential rows are
among them. -/
def ResolverCall (rows : Bool) : Call → Prop
  | .sql (.getCredential ..) => rows = true
  | .sql (.getProfileByID _) | .sql (.getManifest _) | .sql (.getConnectedAccount ..)
  | .sql (.getAuthConfig _) | .sql (.updateConnectedAccountTokens ..) => True
  | .now | .decrypt _ | .encrypt _ | .refreshGrant .. => True
  | _ => False

theorem resolveTenant_calls (tenant : String) :
    All (ResolverCall false) (resolveTenant tenant) := by
  unfold resolveTenant
  split
  · exact all_ret
  · refine all_call.mpr ⟨trivial, fun r ↦ ?_⟩
    split
    · exact all_ret
    · exact all_ret

theorem oauthConfigFor_calls (b : Auth.OAuthBroker) (ac : AuthConfig) (scopes : List String) :
    All (ResolverCall false) (b.oauthConfigFor ac scopes) := by
  unfold Auth.OAuthBroker.oauthConfigFor
  split
  · exact all_ret
  · refine all_call.mpr ⟨trivial, fun r ↦ ?_⟩
    split
    · exact all_ret
    · exact all_ret

theorem refreshAndPersist_calls (b : Auth.OAuthBroker) (userID : Int64) (vendor : String) :
    All (ResolverCall false) (b.refreshAndPersist userID vendor) := by
  refine all_call.mpr ⟨trivial, fun r ↦ ?_⟩
  split
  · exact all_ret
  · refine all_call.mpr ⟨trivial, fun t ↦ ?_⟩
    split
    · refine all_call.mpr ⟨trivial, fun r ↦ ?_⟩
      split
      · exact all_ret
      · exact all_ret
    · refine all_call.mpr ⟨trivial, fun r ↦ ?_⟩
      split
      · exact all_ret
      · refine (oauthConfigFor_calls b _ _).bind fun r ↦ ?_
        split
        · exact all_ret
        · refine all_call.mpr ⟨trivial, fun r ↦ ?_⟩
          split
          · exact all_ret
          · refine all_call.mpr ⟨trivial, fun r ↦ ?_⟩
            split
            · exact all_ret
            · refine all_call.mpr ⟨trivial, fun r ↦ ?_⟩
              split
              · exact all_ret
              · exact all_call.mpr ⟨trivial, fun _ ↦ all_ret⟩

theorem oauthCredential_calls (b : Auth.OAuthBroker) (rec : ManifestRecord) (inj : Injection)
    (userID : Int64) :
    All (ResolverCall false) (CredResolver.oauthCredential b rec inj userID) := by
  have hfresh : All (ResolverCall false) (b.ensureFreshToken userID (vendorOf inj)) := by
    refine all_call.mpr ⟨trivial, fun r ↦ ?_⟩
    split
    · exact all_ret
    · refine all_call.mpr ⟨trivial, fun t ↦ ?_⟩
      split
      · refine all_call.mpr ⟨trivial, fun r ↦ ?_⟩
        split
        · exact all_ret
        · exact all_ret
      · exact refreshAndPersist_calls b userID _
  refine hfresh.bind fun r ↦ ?_
  split
  · split
    · exact all_ret
    · exact all_ret
  · exact all_ret

theorem storedCredential_calls (server tenant : String) :
    All (ResolverCall true) (CredResolver.storedCredential server tenant) := by
  refine all_call.mpr ⟨rfl, fun r ↦ ?_⟩
  split
  · split
    · refine all_call.mpr ⟨trivial, fun r ↦ ?_⟩
      split
      · split
        · exact all_ret
        · exact all_ret
      · exact all_ret
    · exact all_ret
  · refine all_call.mpr ⟨trivial, fun r ↦ ?_⟩
    split
    · exact all_ret
    · refine all_call.mpr ⟨trivial, fun r ↦ ?_⟩
      split
      · split
        · exact all_ret
        · exact all_ret
      · exact all_ret

theorem ResolverCall.rows {b : Bool} {e : Call} (h : ResolverCall b e) : ResolverCall true e := by
  unfold ResolverCall at h
  split at h
  all_goals first | exact rfl | trivial

theorem resolve_calls (c : CredResolver) (ident : Identity) (host : String) :
    All (ResolverCall true) (c.resolve ident host) := by
  refine ((resolveTenant_calls _).mono fun _ ↦ ResolverCall.rows).bind fun res ↦ ?_
  dsimp only
  split
  · exact storedCredential_calls _ _
  · refine all_call.mpr ⟨trivial, fun r ↦ ?_⟩
    unfold CredResolver.oauthOrStored
    split
    · exact storedCredential_calls _ _
    · split
      · exact (oauthCredential_calls _ _ _ _).mono fun _ ↦ ResolverCall.rows
      · exact storedCredential_calls _ _

/-- A resolution writes nothing but refreshed access tokens. -/
theorem ResolverCall.touches {b : Bool} {e : Call} (h : ResolverCall b e) :
    Touches [.connectedAccounts] e := by
  unfold ResolverCall at h
  split at h
  all_goals first | exact List.nil_subset _ | exact List.Subset.refl _ | trivial

/-! ## The cap -/

/-- The header, the format and the placeholder of an injection. -/
def ProxyCredential.shape (cred : ProxyCredential) : String × String × String :=
  (cred.injectHeader, cred.injectFormat, cred.placeholder)

def injectionShape (inj : Injection) : String × String × String :=
  (inj.header, inj.format, inj.placeholder)

/-- A resolution within a manifest: its allowlist, with no injection or with its
first one. -/
def Capped (rec : ManifestRecord) (cred : ProxyCredential) : Prop :=
  cred.allowedHosts = rec.allowedHosts ∧
    (cred.shape = ("", "", "") ∨
      ∃ inj, rec.injections.head? = some inj ∧ cred.shape = injectionShape inj)

/-- Others may do anything but write one server's manifest row. -/
def KeepsManifest (server : String) (w w' : World) : Prop :=
  w'.db.manifests.get? server = w.db.manifests.get? server

/-- The calls of the gateway while others act between them. -/
@[reducible] def semKeeping (O : Outside) (faults : Call → Prop) (server : String) :
    Sem gateway World :=
  disturbed (KeepsManifest server) (sem O faults)

variable {server : String} {rec : ManifestRecord}

theorem sem_keeps_manifest {e : Call} {r : e.Res} (h : semKeeping O faults server e w r w')
    (he : ResolverCall true e) : KeepsManifest server w w' := by
  obtain ⟨w₀, hkeep, hr⟩ := h
  have halike : w'.db.manifests = w₀.db.manifests :=
    (sem_touches he.touches hr).tbl .manifests (by decide)
  rw [KeepsManifest, halike]
  exact hkeep

/-- The row stays in place through every part of a resolution. -/
theorem exec_keeps_manifest {α : Type} {p : Code α} (hp : All (ResolverCall true) p)
    {a : α} (hx : Exec (semKeeping O faults server) p w a w') : KeepsManifest server w w' := by
  refine hp.frame (ρ := KeepsManifest server) (fun _ ↦ rfl) (fun _ _ _ h h' ↦ h'.trans h) ?_ hx
  intro e w r w' he hr
  exact sem_keeps_manifest hr he

/-- A read of the manifest finds it, or fails. -/
theorem getManifest_answer (hrec : w.db.manifests.get? server = some rec)
    {r : Except Err ManifestRecord}
    (h : semKeeping O faults server (.sql (.getManifest server)) w r w') :
    r = .ok rec ∨ Fails r := by
  obtain ⟨w₀, hkeep, hr⟩ := h
  rcases sem_reads_answer hr with h | h
  · left
    rw [h, Sql.apply, hkeep, hrec]
    rfl
  · exact .inr h

/-- So it never reads as a server without a manifest. -/
theorem getManifest_error (hrec : w.db.manifests.get? server = some rec) {e : Err}
    (h : semKeeping O faults server (.sql (.getManifest server)) w (.error e) w') :
    e.is .manifestNotFound = false := by
  rcases getManifest_answer hrec h with h | ⟨e', he', hforeign⟩
  · cases h
  · cases he'
    exact hforeign.is_eq_false id

theorem getManifest_ok (hrec : w.db.manifests.get? server = some rec) {rec' : ManifestRecord}
    (h : semKeeping O faults server (.sql (.getManifest server)) w (.ok rec') w') :
    rec' = rec := by
  rcases getManifest_answer hrec h with h | ⟨e', he', -⟩
  · cases h
    rfl
  · cases he'

theorem storedCredential_capped {tenant : String} {cred : ProxyCredential}
    (hrec : w.db.manifests.get? server = some rec)
    (hx : Exec (semKeeping O faults server) (CredResolver.storedCredential server tenant) w
      (.ok cred) w') : Capped rec cred := by
  obtain ⟨r, w₁, hr, hx₁⟩ := exec_call.mp hx
  have hrec₁ : w₁.db.manifests.get? server = some rec :=
    (sem_keeps_manifest hr rfl).trans hrec
  cases r with
  | error e =>
      dsimp only at hx₁
      split at hx₁
      · obtain ⟨r, w₂, hr, hx₂⟩ := exec_call.mp hx₁
        cases r with
        | error e' =>
            dsimp only at hx₂
            split at hx₂
            · cases hx₂.1
            · cases hx₂.1
        | ok rec' =>
            obtain rfl := getManifest_ok hrec₁ hr
            cases hx₂.1
            exact ⟨rfl, .inl rfl⟩
      · cases hx₁.1
  | ok row =>
      obtain ⟨secret, w₂, hr, hx₂⟩ := exec_ok hx₁ fun _ _ ↦ not_exec_error
      have hrec₂ : w₂.db.manifests.get? server = some rec :=
        (sem_keeps_manifest (exec_call_iff.mp hr) trivial).trans hrec₁
      obtain ⟨r, w₃, hr, hx₃⟩ := exec_call.mp hx₂
      cases r with
      | error e =>
          -- the branch that would use the credential row's own fields
          dsimp only at hx₃
          rw [getManifest_error hrec₂ hr] at hx₃
          cases hx₃.1
      | ok rec' =>
          obtain rfl := getManifest_ok hrec₂ hr
          cases hx₃.1
          refine ⟨rfl, ?_⟩
          cases hinj : rec'.injections.head? with
          | none => exact .inl rfl
          | some inj => exact .inr ⟨inj, rfl, rfl⟩

theorem oauthCredential_capped {b : Auth.OAuthBroker} {inj : Injection} {userID : Int64}
    {cred : ProxyCredential} (hinj : oauthInjection rec = some inj)
    (hx : Exec (semKeeping O faults server) (CredResolver.oauthCredential b rec inj userID) w
      (.ok cred) w') : Capped rec cred := by
  obtain ⟨r, w₁, -, hx₁⟩ := exec_bind.mp hx
  cases r with
  | error e =>
      dsimp only at hx₁
      split at hx₁
      · cases hx₁.1
        exact ⟨rfl, .inl rfl⟩
      · cases hx₁.1
  | ok token =>
      cases hx₁.1
      exact ⟨rfl, .inr ⟨inj, (Option.filter_eq_some_iff.mp hinj).1, rfl⟩⟩

/-- A resolution for a server with a manifest row keeps to the manifest. -/
theorem resolve_capped {c : CredResolver} {ident : Identity} {host : String}
    {cred : ProxyCredential} (hrec : w.db.manifests.get? ident.server = some rec)
    (hx : Exec (semKeeping O faults ident.server) (c.resolve ident host) w (.ok cred) w') :
    Capped rec cred := by
  obtain ⟨⟨tenant, pid, uid⟩, w₁, ht, hx₁⟩ := exec_bind.mp hx
  have hrec₁ : w₁.db.manifests.get? ident.server = some rec :=
    (exec_keeps_manifest ((resolveTenant_calls _).mono fun _ ↦ .rows) ht).trans hrec
  obtain ⟨broker⟩ := c
  cases broker with
  | none => exact storedCredential_capped hrec₁ hx₁
  | some b =>
      obtain ⟨r, w₂, hr, hx₂⟩ := exec_call.mp hx₁
      have hrec₂ : w₂.db.manifests.get? ident.server = some rec :=
        (sem_keeps_manifest hr trivial).trans hrec₁
      cases r with
      | error e => exact storedCredential_capped hrec₂ hx₂
      | ok rec' =>
          obtain rfl := getManifest_ok hrec₁ hr
          dsimp only [CredResolver.oauthOrStored] at hx₂
          split at hx₂
          · rename_i inj user hinj huser
            exact oauthCredential_capped hinj hx₂
          · exact storedCredential_capped hrec₂ hx₂

/-! ## The credential row has no say -/

/-- The world with other credential rows. -/
def withCredentials (t : Table Credential.key) (w : World) : World :=
  { w with db := { w.db with credentials := t } }

theorem sql_withCredentials {t : Table Credential.key} {c : Sql} {r : Except Err c.Ans}
    (hc : ∀ db : Database, c.apply { db with credentials := t } =
      ((c.apply db).1, { (c.apply db).2 with credentials := t }))
    (h : sem O faults (.sql c) w r w') :
    sem O faults (.sql c) (withCredentials t w) r (withCredentials t w') := by
  have hc : c.apply (withCredentials t w).db =
      ((c.apply w.db).1, { (c.apply w.db).2 with credentials := t }) := hc w.db
  rcases h with ⟨h, rfl⟩ | ⟨hf, h, rfl | rfl⟩
  · exact .inl ⟨by rw [hc, h], by rw [hc]; rfl⟩
  · exact .inr ⟨hf, h, .inl rfl⟩
  · exact .inr ⟨hf, h, .inr (by rw [hc]; rfl)⟩

/-- The calls that do not read credential rows do not see them change. -/
theorem sem_withCredentials (t : Table Credential.key) {e : Call} {r : e.Res}
    (he : ResolverCall false e) (h : sem O faults e w r w') :
    sem O faults e (withCredentials t w) r (withCredentials t w') := by
  unfold ResolverCall at he
  split at he
  · cases he
  · exact sql_withCredentials (fun _ ↦ rfl) h
  · exact sql_withCredentials (fun _ ↦ rfl) h
  · exact sql_withCredentials (fun _ ↦ rfl) h
  · exact sql_withCredentials (fun _ ↦ rfl) h
  · exact sql_withCredentials (fun _ ↦ rfl) h
  · obtain ⟨h, rfl⟩ := h
    exact ⟨h, rfl⟩
  · obtain ⟨rfl, h⟩ := h
    exact ⟨rfl, h⟩
  · obtain ⟨rfl, h⟩ := h
    exact ⟨rfl, h⟩
  · obtain ⟨rfl, h⟩ := h
    exact ⟨rfl, h⟩
  · exact he.elim

theorem exec_withCredentials (t : Table Credential.key) {α : Type} {p : Code α} {a : α}
    (hp : All (ResolverCall false) p) (hx : Exec (sem O faults) p w a w') :
    Exec (sem O faults) p (withCredentials t w) a (withCredentials t w') :=
  hp.exec_map (fun _ _ _ _ ↦ sem_withCredentials t) hx

/-- Two tables with rows under the same keys, and in the second every row opens
that opens in the first. -/
def SameKeys (O : Outside) (t t' : Table Credential.key) : Prop :=
  ∀ k, (t.get? k = none ∧ t'.get? k = none) ∨
    ∃ row row', t.get? k = some row ∧ t'.get? k = some row' ∧
      ∀ secret, O.opens row.encryptedKey = some secret →
        ∃ secret', O.opens row'.encryptedKey = some secret'

/-- A result with the same allowlist and injection, whatever the secret. -/
def SameShape (cred cred' : ProxyCredential) : Prop :=
  cred'.allowedHosts = cred.allowedHosts ∧ cred'.shape = cred.shape

theorem getCredential_withCredentials {t : Table Credential.key} {tenant : String}
    (ht : SameKeys O w.db.credentials t) {r : Except Err Credential}
    (h : sem O faults (.sql (.getCredential server tenant)) w r w') :
    w' = w ∧ ∃ r', sem O faults (.sql (.getCredential server tenant)) (withCredentials t w) r'
        (withCredentials t w) ∧
      ((∃ e, r = .error e ∧ r' = .error e) ∨ ∃ row row', r = .ok row ∧ r' = .ok row' ∧
        ∀ secret, O.opens row.encryptedKey = some secret →
          ∃ secret', O.opens row'.encryptedKey = some secret') := by
  obtain rfl : w' = w := sem_reads rfl h
  refine ⟨rfl, ?_⟩
  rcases h with ⟨rfl, -⟩ | ⟨hf, ⟨e, rfl, he⟩, -⟩
  · rcases ht (server, tenant) with ⟨h, h'⟩ | ⟨row, row', h, h', hopen⟩
    · refine ⟨.error .credentialNotFound, .inl ⟨?_, rfl⟩, .inl ⟨_, ?_, rfl⟩⟩
      · exact (Sql.fetch_eq_error.mpr ⟨h', rfl⟩).symm
      · exact Sql.fetch_eq_error.mpr ⟨h, rfl⟩
    · refine ⟨.ok row', .inl ⟨?_, rfl⟩, .inr ⟨row, row', ?_, rfl, hopen⟩⟩
      · exact (Sql.fetch_eq_ok.mpr h').symm
      · exact Sql.fetch_eq_ok.mpr h
  · exact ⟨.error e, .inr ⟨hf, ⟨e, rfl, he⟩, .inl rfl⟩, .inl ⟨e, rfl, rfl⟩⟩

theorem storedCredential_sameShape {t : Table Credential.key} {tenant : String}
    {cred : ProxyCredential} (hrec : w.db.manifests.get? server = some rec)
    (ht : SameKeys O w.db.credentials t)
    (hx : Exec (sem O faults) (CredResolver.storedCredential server tenant) w (.ok cred) w') :
    ∃ cred', Exec (sem O faults) (CredResolver.storedCredential server tenant)
      (withCredentials t w) (.ok cred') (withCredentials t w') ∧ SameShape cred cred' := by
  obtain ⟨r, w₁, hr, hx₁⟩ := exec_call.mp hx
  obtain ⟨rfl, r', hr', ⟨e, rfl, rfl⟩ | ⟨row, row', rfl, rfl, hopen⟩⟩ :=
    getCredential_withCredentials ht hr
  · refine ⟨cred, exec_call.mpr ⟨_, _, hr', exec_withCredentials t ?_ hx₁⟩, rfl, rfl⟩
    dsimp only
    split
    · refine all_call.mpr ⟨trivial, fun r ↦ ?_⟩
      split
      · split
        · exact all_ret
        · exact all_ret
      · exact all_ret
    · exact all_ret
  · obtain ⟨secret, w₂, hsecret, hx₂⟩ := exec_ok hx₁ fun _ _ ↦ not_exec_error
    obtain ⟨hopens, rfl⟩ := sem_decrypt_ok (exec_call_iff.mp hsecret)
    obtain ⟨secret', hsecret'⟩ := hopen secret hopens
    obtain ⟨r, w₃, hr₃, hx₃⟩ := exec_call.mp hx₂
    have hkeep : semKeeping O faults server (.sql (.getManifest server)) w₂ r w₃ :=
      ⟨w₂, rfl, hr₃⟩
    have hr₃' := sem_withCredentials (e := .sql (.getManifest server)) t trivial hr₃
    cases r with
    | error e =>
        dsimp only at hx₃
        rw [getManifest_error hrec hkeep] at hx₃
        cases hx₃.1
    | ok rec' =>
        obtain ⟨hcred, rfl⟩ := hx₃
        cases hcred
        have hdecrypt : sem O faults (.decrypt row'.encryptedKey) (withCredentials t w₂)
            (.ok secret') (withCredentials t w₂) := ⟨rfl, .inl ⟨secret', rfl, hsecret'⟩⟩
        exact ⟨_, exec_call.mpr ⟨_, _, hr', exec_call.mpr ⟨_, _, hdecrypt,
          exec_call.mpr ⟨_, _, hr₃', rfl, rfl⟩⟩⟩, rfl, rfl⟩

/-- Other credential rows under the same keys do not change which allowlists and
injections a resolution can return. -/
theorem resolve_sameShape {c : CredResolver} {ident : Identity} {host : String}
    {t : Table Credential.key} {cred : ProxyCredential}
    (hrec : w.db.manifests.get? ident.server = some rec) (ht : SameKeys O w.db.credentials t)
    (hx : Exec (sem O faults) (c.resolve ident host) w (.ok cred) w') :
    ∃ cred', Exec (sem O faults) (c.resolve ident host) (withCredentials t w) (.ok cred')
      (withCredentials t w') ∧ SameShape cred cred' := by
  obtain ⟨⟨tenant, pid, uid⟩, w₁, htenant, hx₁⟩ := exec_bind.mp hx
  have htenant' := exec_withCredentials t (resolveTenant_calls _) htenant
  have halike := exec_touches ((resolveTenant_calls _).mono fun _ ↦ ResolverCall.touches) htenant
  have hrec₁ : w₁.db.manifests.get? ident.server = some rec := by
    rw [← hrec]
    exact congrArg (Table.get? · ident.server) (halike.tbl .manifests (by decide))
  have ht₁ : SameKeys O w₁.db.credentials t := by
    have hcreds : w₁.db.credentials = w.db.credentials := halike.tbl .credentials (by decide)
    rwa [hcreds]
  obtain ⟨broker⟩ := c
  cases broker with
  | none =>
      obtain ⟨cred', hx₁', hshape⟩ := storedCredential_sameShape hrec₁ ht₁ hx₁
      exact ⟨cred', exec_bind.mpr ⟨_, _, htenant', hx₁'⟩, hshape⟩
  | some b =>
      obtain ⟨r, w₂, hr, hx₂⟩ := exec_call.mp hx₁
      obtain rfl : w₂ = w₁ := sem_reads rfl hr
      have hr' := sem_withCredentials (e := .sql (.getManifest ident.server)) t trivial hr
      have hrest : ∃ cred', Exec (sem O faults)
          (CredResolver.oauthOrStored b ident.server tenant r) (withCredentials t w₂) (.ok cred')
          (withCredentials t w') ∧ SameShape cred cred' := by
        revert hx₂
        unfold CredResolver.oauthOrStored
        split
        · exact storedCredential_sameShape hrec₁ ht₁
        · split
          · intro hx₂
            exact ⟨cred, exec_withCredentials t (oauthCredential_calls _ _ _ _) hx₂, rfl, rfl⟩
          · exact storedCredential_sameShape hrec₁ ht₁
      obtain ⟨cred', hx₂', hshape⟩ := hrest
      exact ⟨cred', exec_bind.mpr ⟨_, _, htenant', exec_call.mpr ⟨_, _, hr', hx₂'⟩⟩, hshape⟩

/-! ## The proxy dials within the cap -/

/-- What the proxy's calls read and write: the gateway's world behind the resolver,
the bindings of source addresses, and the targets that were dialled. -/
structure ProxyWorld where
  gw : World
  registry : String → Option Identity
  dialed : List String

/-- The proxy's calls, with the gateway's own resolver behind them.  What the
limiter and both ends of a connection answer is arbitrary. -/
def proxySem (O : Outside) (faults : Call → Prop) (c : CredResolver) :
    Sem Proxy.proxy ProxyWorld
  | .lookup ip, pw, r, pw' => r = pw.registry ip ∧ pw' = pw
  | .resolve ident host, pw, r, pw' =>
      ∃ gw, Exec (semKeeping O faults ident.server) (c.resolve ident host) pw.gw r gw ∧
        pw' = { pw with gw := gw }
  | .dial hostport _, pw, _, pw' => pw' = { pw with dialed := hostport :: pw.dialed }
  | _, pw, _, pw' => pw' = pw

/-- A call that dials only certain targets. -/
def Dials (targets : String → Prop) : Proxy.Call → Prop
  | .dial hostport _ => targets hostport
  | _ => True

/-- The targets dialled between two worlds. -/
def DialedOnly (targets : String → Prop) (pw pw' : ProxyWorld) : Prop :=
  ∀ hostport ∈ pw'.dialed, hostport ∈ pw.dialed ∨ targets hostport

variable {c : CredResolver} {pw pw' : ProxyWorld} {targets : String → Prop}

theorem DialedOnly.trans {pw₁ pw₂ pw₃ : ProxyWorld} (h : DialedOnly targets pw₁ pw₂)
    (h' : DialedOnly targets pw₂ pw₃) : DialedOnly targets pw₁ pw₃ := by
  intro hostport hmem
  rcases h' hostport hmem with hmem | ht
  · exact h hostport hmem
  · exact .inr ht

theorem proxySem_dials {e : Proxy.Call} {r : e.Res} (he : Dials targets e)
    (h : proxySem O faults c e pw r pw') : DialedOnly targets pw pw' := by
  cases e with
  | lookup ip =>
      obtain ⟨-, rfl⟩ := h
      exact fun _ ↦ .inl
  | resolve ident host =>
      obtain ⟨gw, -, rfl⟩ := h
      exact fun _ ↦ .inl
  | dial hostport serverName =>
      obtain rfl := h
      intro hp hmem
      rcases List.mem_cons.mp hmem with rfl | hmem
      · exact .inr he
      · exact .inl hmem
  | _ =>
      obtain rfl := h
      exact fun _ ↦ .inl

theorem visits_dials {α : Type} {p : Proxy.Code α}
    (h : Visits (proxySem O faults c) p pw pw') (hp : All (Dials targets) p) : DialedOnly targets pw pw' := by
  refine hp.frame_visits (ρ := DialedOnly targets) (fun _ _ ↦ .inl)
    (fun _ _ _ ↦ DialedOnly.trans) ?_ h
  intro e pw r pw' he hr
  exact proxySem_dials he hr

/-- The only target a CONNECT may dial: its own, when the manifest admits it. -/
def Entitled (rec : ManifestRecord) (r : Proxy.ConnectRequest) (hostport : String) : Prop :=
  hostport = r.host ∧ Proxy.hostAllowed (Proxy.hostname r.host) rec.allowedHosts = true

theorem openTunnel_dials {r : Proxy.ConnectRequest} {ident : Identity}
    (hrec : pw.gw.db.manifests.get? ident.server = some rec)
    (h : Visits (proxySem O faults c) (Proxy.openTunnel r ident) pw pw') :
    DialedOnly (Entitled rec r) pw pw' := by
  rcases visits_call.mp h with rfl | ⟨res, pw₁, ⟨gw, hx, rfl⟩, h₁⟩
  · exact fun _ ↦ .inl
  · show DialedOnly (Entitled rec r) { pw with gw := gw } pw'
    refine visits_dials h₁ ?_
    cases res with
    | error e => exact all_call.mpr ⟨trivial, fun _ ↦ all_ret⟩
    | ok cred =>
        have hcap : cred.allowedHosts = rec.allowedHosts := (resolve_capped hrec hx).1
        dsimp only
        split
        · exact all_call.mpr ⟨trivial, fun _ ↦ all_ret⟩
        · rename_i hallowed
          rw [hcap, Bool.not_eq_true', Bool.not_eq_false] at hallowed
          refine all_call.mpr ⟨trivial, fun ok ↦ ?_⟩
          split
          · exact all_call.mpr ⟨trivial, fun _ ↦ all_ret⟩
          · refine all_call.mpr ⟨trivial, fun res ↦ ?_⟩
            split
            · exact all_ret
            · refine all_call.mpr ⟨trivial, fun res ↦ ?_⟩
              split
              · exact all_ret
              · refine all_call.mpr ⟨trivial, fun res ↦ ?_⟩
                split
                · exact all_ret
                · refine all_call.mpr ⟨trivial, fun res ↦ ?_⟩
                  split
                  · exact all_ret
                  · refine all_call.mpr ⟨⟨rfl, hallowed⟩, fun res ↦ ?_⟩
                    split
                    · exact all_ret
                    · exact all_ret

theorem accept_dials {r : Proxy.ConnectRequest} {ident : Identity}
    (hident : pw.registry (Proxy.hostname r.remoteAddr) = some ident)
    (hrec : pw.gw.db.manifests.get? ident.server = some rec)
    (h : Visits (proxySem O faults c) (Proxy.accept r) pw pw') :
    DialedOnly (Entitled rec r) pw pw' := by
  unfold Proxy.accept at h
  split at h
  · exact visits_dials h (all_call.mpr ⟨trivial, fun _ ↦ all_ret⟩)
  · rcases visits_call.mp h with rfl | ⟨res, pw₁, ⟨rfl, rfl⟩, h₁⟩
    · exact fun _ ↦ .inl
    · rw [hident] at h₁
      rcases visits_call.mp h₁ with rfl | ⟨ok, pw₂, rfl, h₂⟩
      · exact fun _ ↦ .inl
      · split at h₂
        · exact visits_dials h₂ (all_call.mpr ⟨trivial, fun _ ↦ all_ret⟩)
        · rcases visits_bind h₂ with h₃ | ⟨t, pw₃, hx, h₃⟩
          · exact openTunnel_dials hrec h₃
          · refine (openTunnel_dials hrec hx.visits).trans (visits_dials h₃ ?_)
            split
            · exact all_call.mpr ⟨trivial, fun _ ↦ all_ret⟩
            · exact all_ret

theorem pump_dials (t : Proxy.Tunnel) :
    All (Dials targets) (Proxy.handleBody (.pump t)) := by
  refine All.bind ?_ fun again ↦ ?_
  · refine all_call.mpr ⟨trivial, fun res ↦ ?_⟩
    split
    · exact all_ret
    · refine all_call.mpr ⟨trivial, fun res ↦ ?_⟩
      split
      · exact all_ret
      · refine all_call.mpr ⟨trivial, fun res ↦ ?_⟩
        split
        · exact all_ret
        · refine all_call.mpr ⟨trivial, fun res ↦ ?_⟩
          split
          · exact all_ret
          · exact all_ret
  · split
    · exact all_ret
    · exact all_call.mpr ⟨trivial, fun _ ↦ all_ret⟩

/-- However long a tunnel lasts, serving its CONNECT dials only the target that the
manifest admits. -/
theorem handle_dials {r : Proxy.ConnectRequest} {ident : Identity}
    (hident : pw.registry (Proxy.hostname r.remoteAddr) = some ident)
    (hrec : pw.gw.db.manifests.get? ident.server = some rec)
    (h : LoopVisits (proxySem O faults c) Proxy.handleBody (.accept r) pw pw') :
    DialedOnly (Entitled rec r) pw pw' := by
  -- at the start of a round either nothing has happened yet or the tunnel stands
  let I (s : Proxy.Stage) (pw₁ : ProxyWorld) : Prop :=
    (s = .accept r ∧ pw₁ = pw) ∨ (∃ t, s = .pump t) ∧ DialedOnly (Entitled rec r) pw pw₁
  refine LoopVisits.invariant (I := I) ?_ ?_ h (.inl ⟨rfl, rfl⟩)
  · rintro s pw₁ pw₂ (⟨rfl, rfl⟩ | ⟨⟨t, rfl⟩, hdialed⟩) hv
    · rcases visits_bind hv with hv | ⟨t, pw₃, hx, hv⟩
      · exact accept_dials hident hrec hv
      · refine (accept_dials hident hrec hx.visits).trans (visits_dials hv ?_)
        split
        · exact all_ret
        · exact all_ret
    · exact hdialed.trans (visits_dials hv (pump_dials t))
  · rintro s pw₁ s' pw₂ (⟨rfl, rfl⟩ | ⟨⟨t, rfl⟩, hdialed⟩) hx
    · obtain ⟨t, pw₃, hx₁, hx₂⟩ := exec_bind.mp hx
      cases t with
      | none => cases hx₂.1
      | some t =>
          obtain ⟨hs, rfl⟩ := hx₂
          cases hs
          exact .inr ⟨⟨t, rfl⟩, accept_dials hident hrec hx₁.visits⟩
    · refine .inr ⟨?_, hdialed.trans (visits_dials hx.visits (pump_dials t))⟩
      obtain ⟨again, pw₃, -, hx₂⟩ := exec_bind.mp hx
      cases again with
      | false =>
          obtain ⟨_, _, -, hx₃⟩ := exec_call.mp hx₂
          cases hx₃.1
      | true =>
          cases hx₂.1
          exact ⟨t, rfl⟩

/-! ## The hard cap -/

/-- A manifest row that stays throughout a resolution caps it.  If the resolution
succeeds, its allowlist is the manifest's and its injection is none or the
manifest's first.  No field of a credential row bears on either.  And the proxy
dials nothing but a CONNECT's own target, when the manifest admits it. -/
theorem manifest_is_hard_cap (O : Outside) (faults : Call → Prop) (c : CredResolver)
    (ident : Identity) (host : String) (w : World) (rec : ManifestRecord)
    (hrec : w.db.manifests.get? ident.server = some rec) :
    (∀ cred w', Exec (semKeeping O faults ident.server) (c.resolve ident host) w (.ok cred) w' →
      Capped rec cred) ∧
    (∀ t cred w', SameKeys O w.db.credentials t →
      Exec (sem O faults) (c.resolve ident host) w (.ok cred) w' →
      ∃ cred', Exec (sem O faults) (c.resolve ident host) (withCredentials t w) (.ok cred')
        (withCredentials t w') ∧ SameShape cred cred') ∧
    (∀ pw pw' r, pw.gw = w → pw.registry (Proxy.hostname r.remoteAddr) = some ident →
      LoopVisits (proxySem O faults c) Proxy.handleBody (.accept r) pw pw' →
      ∀ hostport ∈ pw'.dialed, hostport ∈ pw.dialed ∨
        hostport = r.host ∧ Proxy.hostAllowed (Proxy.hostname r.host) rec.allowedHosts = true) := by
  refine ⟨fun cred w' hx ↦ resolve_capped hrec hx,
    fun t cred w' ht hx ↦ resolve_sameShape hrec ht hx, ?_⟩
  rintro pw pw' r rfl hident h
  exact handle_dials hident hrec h

namespace Example

/-- A manifest with one host and one header. -/
def githubManifest : ManifestRecord :=
  ⟨"github", "1.0.0", "", "", "server", "", "", "", ["api.github.com"],
    [⟨"token", "api_key", "", "", [], "Authorization", "Bearer \x7btoken\x7d", "", "gigph-0"⟩],
    [], "h1", "h1"⟩

/-- A store with that manifest, and a user's credential that asks for more. -/
def githubWorld : World :=
  { World.boot .fresh 0 with
    db := { Database.fresh with
      manifests := Table.empty.insertNew githubManifest
      credentials := Table.empty.insertNew
        ⟨"github", "2", "#secret", "X-Evil", "", "gigph-1", ["evil.example"]⟩ } }

end Example

open Example in
/-- The credential row's own hosts and header stay out of the result. -/
theorem manifest_is_hard_cap_github :
    ∃ w', Exec (semKeeping Partners.outside (fun _ ↦ False) "github")
        ((⟨none⟩ : CredResolver).resolve ⟨"github", "2"⟩ "api.github.com") githubWorld
        (.ok ⟨"secret", "Authorization", "Bearer \x7btoken\x7d", "gigph-0", ["api.github.com"]⟩)
        w' ∧
      Capped githubManifest
        ⟨"secret", "Authorization", "Bearer \x7btoken\x7d", "gigph-0", ["api.github.com"]⟩ := by
  obtain ⟨w', hx⟩ := (⟨⟨[]⟩, []⟩ : Partners).exec_of_run_fst
    (p := (⟨none⟩ : CredResolver).resolve ⟨"github", "2"⟩ "api.github.com") (w := githubWorld)
    (a := .ok ⟨"secret", "Authorization", "Bearer \x7btoken\x7d", "gigph-0", ["api.github.com"]⟩)
    rfl fun _ ↦ False
  have hkeep := hx.disturbed (ρ := KeepsManifest "github") fun _ ↦ rfl
  have hrec : githubWorld.db.manifests.get? "github" = some githubManifest := rfl
  exact ⟨w', hkeep, (manifest_is_hard_cap Partners.outside (fun _ ↦ False) ⟨none⟩ ⟨"github", "2"⟩
    "api.github.com" githubWorld githubManifest hrec).1 _ w' hkeep⟩

end GigMcp.Gateway
