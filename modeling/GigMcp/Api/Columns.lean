import GigMcp.Api.ClientSecret
import GigMcp.Api.UrlValidate

/-!
# Lists in one column

The hosts of a credential and the default scopes of an auth config are stored in one column each,
an entry to a line.  A column gives a list back unless an entry has a newline in it or the list is
the empty text alone.  `validateCredentialBody` admits no such list of hosts, so the allowlist of a
stored credential is the submitted one.  `handlePutAuthConfig` does not look at the scopes, so a
scope with a newline in it comes back as several.
-/

namespace GigMcp.Api

open GigMcp.Effect GigMcp.System GigMcp.Store GigMcp.Http GigMcp.Data GigMcp.Auth

variable {O : Outside} {faults : Call → Prop} {w w' : World}

/-! ## Reading a row back -/

/-- A row can be read, and every read that succeeds shows a row with a property. -/
structure ReadsBack (O : Outside) (faults : Call → Prop) (w : World) (c : Sql) (P : c.Ans → Prop) :
    Prop where
  reads : ∃ row, Exec (sem O faults) (sql c) w (.ok row) w
  shows : ∀ row w', Exec (sem O faults) (sql c) w (.ok row) w' → P row

theorem readsBack_iff {c : Sql} (hc : c.Reads = true) {row : c.Ans}
    (hrow : (c.apply w.db).1 = .ok row) {P : c.Ans → Prop} :
    ReadsBack O faults w c P ↔ P row := by
  have hread : Exec (sem O faults) (sql c) w (.ok row) w := by
    refine exec_call_iff.mpr (.inl ⟨hrow.symm, ?_⟩)
    rw [Sql.apply_of_reads hc]
  constructor
  · intro h
    exact h.shows row w hread
  · intro h
    refine ⟨⟨row, hread⟩, fun row' w' hx ↦ ?_⟩
    have hrow' := (sem_read_ok (exec_call_iff.mp hx) hc).1
    rw [hrow] at hrow'
    cases hrow'
    exact h

theorem readsBack_credential {server tenant : String} {row : Credential}
    (hrow : w.db.credentials.get? (server, tenant) = some row) {P : Credential → Prop} :
    ReadsBack O faults w (.getCredential server tenant) P ↔ P row :=
  readsBack_iff (c := .getCredential server tenant) rfl (Sql.fetch_eq_ok.mpr hrow)

theorem readsBack_authConfig {vendor : String} {row : AuthConfig}
    (hrow : w.db.authConfigs.get? vendor = some row) {P : AuthConfig → Prop} :
    ReadsBack O faults w (.getAuthConfig vendor) P ↔ P row :=
  readsBack_iff (c := .getAuthConfig vendor) rfl (Sql.fetch_eq_ok.mpr hrow)

/-! ## Hosts -/

theorem allowedHostError_eq_none {i : Nat} {h : String} (hnone : allowedHostError i h = none) :
    h ≠ "" ∧ '\n' ∉ h.toList := by
  unfold allowedHostError at hnone
  split at hnone
  · cases hnone
  · rename_i hne
    split at hnone
    · cases hnone
    · split at hnone
      · cases hnone
      · rename_i hspace
        refine ⟨hne, fun hmem ↦ hspace ?_⟩
        exact List.any_eq_true.mpr ⟨'\n', hmem, by decide⟩

/-- An accepted body has gone through the checks of every host. -/
theorem allowedHostError_of_accepted {b : CredentialPutBody}
    (hnone : validateCredentialBody b = none) {h : String} (hmem : h ∈ b.allowedHosts) :
    ∃ i, allowedHostError i h = none := by
  unfold validateCredentialBody at hnone
  split at hnone
  · cases hnone
  · split at hnone
    · cases hnone
    · split at hnone
      · cases hnone
      · split at hnone
        · cases hnone
        · rename_i hhosts
          obtain ⟨i, hi⟩ := List.mem_iff_getElem?.mp hmem
          have hentry : (h, i) ∈ b.allowedHosts.zipIdx := List.mem_zipIdx_iff_getElem?.mpr hi
          exact ⟨i, List.findSome?_eq_none_iff.mp hhosts (h, i) hentry⟩

theorem throughColumn_of_accepted {b : CredentialPutBody} (h : validateCredentialBody b = none) :
    throughColumn b.allowedHosts = b.allowedHosts := by
  refine throughColumn_eq_self_iff.mpr ⟨fun host hhost ↦ ?_, fun hempty ↦ ?_⟩
  · obtain ⟨i, hi⟩ := allowedHostError_of_accepted h hhost
    exact (allowedHostError_eq_none hi).2
  · have hmem : "" ∈ b.allowedHosts := hempty ▸ List.mem_cons_self
    obtain ⟨i, hi⟩ := allowedHostError_of_accepted h hmem
    exact (allowedHostError_eq_none hi).1 rfl

/-- The row of a credential has a list of hosts, and decides as the list does. -/
def KeepsHosts (hosts : List String) (row : Credential) : Prop :=
  row.allowedHosts = hosts ∧
    ∀ host, Proxy.hostAllowed host row.allowedHosts = Proxy.hostAllowed host hosts

theorem getCredential_keepsHosts {b : CredentialPutBody} (hb : validateCredentialBody b = none)
    {c : Credential} (hhosts : c.allowedHosts = b.allowedHosts) {u : Unit}
    (hput : sem O faults (.sql (.putCredential c)) w (.ok u) w') :
    ∃ row, w'.db.credentials.get? c.key = some row ∧ KeepsHosts b.allowedHosts row := by
  obtain ⟨-, rfl⟩ := sem_sql_ok hput
  refine ⟨_, (Sql.get?_putCredential c w.db c.key).trans (if_pos rfl), ?_⟩
  have hkept : throughColumn c.allowedHosts = b.allowedHosts := by
    rw [hhosts, throughColumn_of_accepted hb]
  exact ⟨hkept, fun host ↦ congrArg (Proxy.hostAllowed host) hkept⟩

theorem exec_handlePutCredential {ctx : Ctx} {server : String} {b : CredentialPutBody}
    (hx : Exec (sem O faults) (handlePutCredential ctx server (.putCredential b)) w
      (writeHeader 204) w') :
    validateCredentialBody b = none ∧ ∃ c u w₁ w₂,
      c.key = (server, userTenant ctx.effective.id) ∧ c.allowedHosts = b.allowedHosts ∧
      sem O faults (.sql (.putCredential c)) w₁ (.ok u) w₂ ∧ Alike [.audit] w₂ w' := by
  unfold handlePutCredential at hx
  split at hx
  · cases hx.1
  · dsimp only at hx
    split at hx
    · cases hx.1
    · split at hx
      · cases hx.1
      · rename_i hb
        obtain ⟨enc, w₁, -, hx₁⟩ := exec_ok hx fun _ _ h ↦ by cases h.1
        obtain ⟨u, w₂, hput, hx₂⟩ := exec_ok hx₁ fun _ _ h ↦ by cases h.1
        obtain ⟨_, w₃, haudit, -, rfl⟩ := exec_bind.mp hx₂
        exact ⟨hb, _, u, w₁, w₂, rfl, rfl, exec_call_iff.mp hput,
          exec_touches (audit_touches ctx (by decide) ..) haudit⟩

/-! ## Scopes -/

/-- The row of an auth config asks for the same scopes as a list, whatever else is asked for. -/
def SameUnion (scopes : List String) (row : AuthConfig) : Prop :=
  ∀ required, unionScopes [row.defaultScopes, required] = unionScopes [scopes, required]

/-- The row of an auth config has a list of scopes, and asks for them. -/
def KeepsScopes (scopes : List String) (row : AuthConfig) : Prop :=
  row.defaultScopes = scopes ∧ SameUnion scopes row

theorem mem_unionScopes {s : String} {lists : List (List String)} :
    s ∈ unionScopes lists ↔ s ≠ "" ∧ ∃ l ∈ lists, s ∈ l := by
  rw [unionScopes, mem_orderBy, List.mem_dedup, List.mem_filter, List.mem_flatten, and_comm,
    decide_eq_true_eq]

/-- A scope with a newline in it gets lost in the column, and nothing else that a union of scopes
shows. -/
theorem sameUnion_throughColumn {scopes : List String} {row : AuthConfig}
    (hrow : row.defaultScopes = throughColumn scopes) :
    SameUnion scopes row ↔ ∀ s ∈ scopes, '\n' ∉ s.toList := by
  unfold SameUnion
  rw [hrow]
  constructor
  · intro h s hs hline
    have hne : s ≠ "" := by
      rintro rfl
      cases hline
    have hmem : s ∈ unionScopes [throughColumn scopes, []] := by
      rw [h []]
      exact mem_unionScopes.mpr ⟨hne, scopes, List.mem_cons_self, hs⟩
    obtain ⟨-, l, hl, hsl⟩ := mem_unionScopes.mp hmem
    rcases List.mem_cons.mp hl with rfl | hl
    · exact notMem_of_mem_throughColumn hsl hline
    · rw [List.mem_singleton.mp hl] at hsl
      cases hsl
  · intro h required
    by_cases hempty : scopes = [""]
    · subst hempty
      simp [unionScopes, throughColumn, joinChar]
    · rw [throughColumn_eq_self_iff.mpr ⟨h, hempty⟩]

theorem keepsScopes_throughColumn {scopes : List String} {row : AuthConfig}
    (hrow : row.defaultScopes = throughColumn scopes) :
    KeepsScopes scopes row ↔ (∀ s ∈ scopes, '\n' ∉ s.toList) ∧ scopes ≠ [""] := by
  rw [← throughColumn_eq_self_iff, KeepsScopes, hrow, and_iff_left_iff_imp]
  intro hkept required
  rw [hrow, hkept]

theorem exec_handlePutAuthConfig {srv : Server} {ctx : Ctx} {vendor : String}
    {b : AuthConfigPutBody}
    (hx : Exec (sem O faults) (handlePutAuthConfig srv ctx vendor (.putAuthConfig b)) w
      (writeHeader 204) w') :
    ∃ a u w₁ w₂, a.vendor = vendor ∧ a.defaultScopes = b.defaultScopes ∧
      sem O faults (.sql (.putAuthConfig a)) w₁ (.ok u) w₂ ∧ Alike [.audit] w₂ w' := by
  unfold handlePutAuthConfig at hx
  split at hx
  · cases hx.1
  · dsimp only at hx
    split at hx
    · cases hx.1
    · obtain ⟨enc, w₁, -, hx₁⟩ := exec_ok hx fun _ _ h ↦ by cases h.1
      obtain ⟨u, w₂, hput, hx₂⟩ := exec_ok hx₁ fun _ _ h ↦ by cases h.1
      obtain ⟨_, w₃, haudit, -, rfl⟩ := exec_bind.mp hx₂
      exact ⟨_, u, w₁, w₂, rfl, rfl, exec_call_iff.mp hput,
        exec_touches (audit_touches ctx (by decide) ..) haudit⟩

/-- A server is asked only about the two URLs. -/
theorem handlePutAuthConfig_congr (srv srv' : Server) {b : AuthConfigPutBody}
    (hauthorize : srv.validateExternalHTTPSURL b.authorizeURL =
      srv'.validateExternalHTTPSURL b.authorizeURL)
    (htoken : srv.validateExternalHTTPSURL b.tokenURL = srv'.validateExternalHTTPSURL b.tokenURL)
    (ctx : Ctx) (vendor : String) :
    handlePutAuthConfig srv ctx vendor (.putAuthConfig b) =
      handlePutAuthConfig srv' ctx vendor (.putAuthConfig b) := by
  have hchecks : validateAuthConfigBody srv b = validateAuthConfigBody srv' b := by
    unfold validateAuthConfigBody
    rw [hauthorize, htoken]
  unfold handlePutAuthConfig
  simp only [hchecks]

/-! ## Lists that come back -/

/-- A list of hosts that `validateCredentialBody` accepts comes back from the row of a credential
as it was, whoever stores it, and so does the list of an accepted request.  The default scopes of
an accepted request come back if and only if none has a newline in it and they are not the empty
text alone; what a connection then asks for is as submitted if and only if none has a newline. -/
theorem columns_keep_lists (O : Outside) (faults : Call → Prop) (srv : Server) (ctx : Ctx)
    (w w' : World) :
    (∀ b c, validateCredentialBody b = none → c.allowedHosts = b.allowedHosts →
      Exec (sem O faults) (sql (.putCredential c)) w (.ok ()) w' →
      ReadsBack O faults w' (.getCredential c.server c.tenant) (KeepsHosts b.allowedHosts)) ∧
    (∀ server b,
      Exec (sem O faults) (handlePutCredential ctx server (.putCredential b)) w (writeHeader 204)
        w' →
      ReadsBack O faults w' (.getCredential server (userTenant ctx.effective.id))
        (KeepsHosts b.allowedHosts)) ∧
    ∀ vendor b,
      Exec (sem O faults) (handlePutAuthConfig srv ctx vendor (.putAuthConfig b)) w
        (writeHeader 204) w' →
      (ReadsBack O faults w' (.getAuthConfig vendor) (KeepsScopes b.defaultScopes) ↔
        (∀ s ∈ b.defaultScopes, '\n' ∉ s.toList) ∧ b.defaultScopes ≠ [""]) ∧
      (ReadsBack O faults w' (.getAuthConfig vendor) (SameUnion b.defaultScopes) ↔
        ∀ s ∈ b.defaultScopes, '\n' ∉ s.toList) := by
  refine ⟨?_, ?_, ?_⟩
  · intro b c hb hhosts hput
    obtain ⟨row, hrow, hkept⟩ := getCredential_keepsHosts hb hhosts (exec_call_iff.mp hput)
    exact (readsBack_credential hrow).mpr hkept
  · intro server b hx
    obtain ⟨hb, c, u, w₁, w₂, hkey, hhosts, hput, halike⟩ := exec_handlePutCredential hx
    obtain ⟨row, hrow, hkept⟩ := getCredential_keepsHosts hb hhosts hput
    have hsame : w'.db.credentials = w₂.db.credentials := halike.tbl .credentials (by decide)
    rw [← hsame, hkey] at hrow
    exact (readsBack_credential hrow).mpr hkept
  · intro vendor b hx
    obtain ⟨a, u, w₁, w₂, rfl, ha, hput, halike⟩ := exec_handlePutAuthConfig hx
    obtain ⟨-, rfl⟩ := sem_sql_ok hput
    have hsame : w'.db.authConfigs = ((Sql.putAuthConfig a).apply w₁.db).2.authConfigs :=
      halike.tbl .authConfigs (by decide)
    have hrow := (Sql.get?_putAuthConfig a w₁.db a.vendor).trans (if_pos rfl)
    rw [← hsame, ha] at hrow
    rw [readsBack_authConfig hrow, readsBack_authConfig hrow]
    exact ⟨keepsScopes_throughColumn rfl, sameUnion_throughColumn rfl⟩

namespace Example.Columns

open ClientSecret.Example

/-- A server with the check of URLs that the gateway has. -/
def server : Server :=
  { Local.server with validateExternalHTTPSURL := validateExternalHTTPSURL textOf }

def config (scopes : List String) : AuthConfigPutBody :=
  ⟨"https://github.com/login/oauth/authorize", "https://github.com/login/oauth/access_token",
    "client", "secret", scopes, true, "byo"⟩

def credential : CredentialPutBody :=
  ⟨"secret", "Authorization", "Bearer \x7btoken\x7d", "", ["api.github.com", "*.github.com"]⟩

/-- The world after an auth config was stored. -/
def configured (scopes : List String) : World :=
  Local.partners.after
    (handlePutAuthConfig Local.server admin "github" (.putAuthConfig (config scopes)))
    (.boot .fresh 0)

theorem exec_configured (scopes : List String) (faults : Call → Prop) :
    Exec (sem Partners.outside faults)
      (handlePutAuthConfig server admin "github" (.putAuthConfig (config scopes))) (.boot .fresh 0)
      (writeHeader 204) (configured scopes) := by
  have hcheck (raw : String) :
      server.validateExternalHTTPSURL raw = validateExternalHTTPSURL textOf raw := rfl
  have hauthorize :
      validateExternalHTTPSURL textOf "https://github.com/login/oauth/authorize" = .ok () := by
    decide +kernel
  have htoken :
      validateExternalHTTPSURL textOf "https://github.com/login/oauth/access_token" = .ok () := by
    decide +kernel
  have hhandler := handlePutAuthConfig_congr server Local.server (b := config scopes)
    ((hcheck _).trans hauthorize) ((hcheck _).trans htoken) admin "github"
  rw [hhandler]
  exact Local.partners.exec_of_run rfl faults

/-- The config is accepted and can be read. -/
theorem exec_read (faults : Call → Prop) {scopes read : List String}
    (hread : throughColumn scopes = read) :
    ∃ row,
      Exec (sem Partners.outside faults)
        (handlePutAuthConfig server admin "github" (.putAuthConfig (config scopes)))
        (.boot .fresh 0) (writeHeader 204) (configured scopes) ∧
      Exec (sem Partners.outside faults) (sql (.getAuthConfig "github")) (configured scopes)
        (.ok row) (configured scopes) ∧
      row.defaultScopes = read :=
  ⟨_, exec_configured scopes faults, Local.partners.exec_of_run rfl faults, hread⟩

/-- The world after a credential was stored. -/
def connected : World :=
  Local.partners.after (handlePutCredential admin "github" (.putCredential credential))
    (.boot .fresh 0)

theorem exec_connected (faults : Call → Prop) :
    Exec (sem Partners.outside faults)
      (handlePutCredential admin "github" (.putCredential credential)) (.boot .fresh 0)
      (writeHeader 204) connected :=
  Local.partners.exec_of_run rfl faults

end Example.Columns

open Example.Columns ClientSecret.Example in
theorem columns_keep_lists_github :
    ReadsBack Partners.outside (fun _ ↦ True) connected
      (.getCredential "github" (userTenant admin.effective.id))
      (KeepsHosts ["api.github.com", "*.github.com"]) ∧
    ReadsBack Partners.outside (fun _ ↦ True) (configured ["repo", "user"])
      (.getAuthConfig "github") (KeepsScopes ["repo", "user"]) := by
  have hlists (w' : World) :=
    columns_keep_lists Partners.outside (fun _ ↦ True) server admin (.boot .fresh 0) w'
  -- For any scopes, as a run on fixed ones would be unfolded.
  have hscopes (scopes : List String) :=
    ((hlists (configured scopes)).2.2 "github" (config scopes) (exec_configured scopes _)).1
  exact ⟨(hlists connected).2.1 "github" credential (exec_connected _),
    (hscopes ["repo", "user"]).mpr (by decide)⟩

open Example.Columns ClientSecret.Example in
/-- One scope that comes back as two, which a connection then asks for, and one that is lost. -/
theorem columns_split_scope :
    (∃ row,
      Exec (sem Partners.outside fun _ ↦ False)
        (handlePutAuthConfig server admin "github" (.putAuthConfig (config ["repo\nuser"])))
        (.boot .fresh 0) (writeHeader 204) (configured ["repo\nuser"]) ∧
      Exec (sem Partners.outside fun _ ↦ False) (sql (.getAuthConfig "github"))
        (configured ["repo\nuser"]) (.ok row) (configured ["repo\nuser"]) ∧
      row.defaultScopes = ["repo", "user"]) ∧
    unionScopes [["repo\nuser"], []] = ["repo\nuser"] ∧
    unionScopes [["repo", "user"], []] = ["repo", "user"] ∧
    ∃ row,
      Exec (sem Partners.outside fun _ ↦ False)
        (handlePutAuthConfig server admin "github" (.putAuthConfig (config [""])))
        (.boot .fresh 0) (writeHeader 204) (configured [""]) ∧
      Exec (sem Partners.outside fun _ ↦ False) (sql (.getAuthConfig "github")) (configured [""])
        (.ok row) (configured [""]) ∧
      row.defaultScopes = [] :=
  ⟨exec_read _ (by decide), by decide +kernel, by decide +kernel, exec_read _ (by decide)⟩

end GigMcp.Api
