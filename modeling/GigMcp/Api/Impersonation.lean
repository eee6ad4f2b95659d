import GigMcp.Api.Frame
import GigMcp.Api.Serve
import GigMcp.Auth.Middleware

/-!
# Who may act in view-as

An impersonation is started by an admin and lives on the session.  The role lives on
the user and is rewritten by every login, and the middleware does not look at it again.
`Admins` is the invariant that would make up for this: the user of every session with an
unexpired impersonation is an admin.  Every statement but two keeps it.
-/

namespace GigMcp.Api

open GigMcp.Effect GigMcp.System GigMcp.Store GigMcp.Http GigMcp.Auth GigMcp.Data

variable {O : Outside} {faults : Call → Prop} {w w' : World}

/-- A session with an impersonation that has not expired. -/
def Impersonates (t : Time) (s : Session) : Prop :=
  ∃ target expiresAt, s.impersonatingUserID = some target ∧
    s.impersonationExpiresAt = some expiresAt ∧ t < expiresAt

/-- The users of all impersonating sessions are admins. -/
def Admins (w : World) : Prop :=
  ∀ k s, w.db.sessions.get? k = some s → Impersonates w.now s →
    ∃ u, w.db.users.table.get? s.userID = some u ∧ u.role = .admin

theorem Impersonates.earlier {t t' : Time} {s : Session} (h : Impersonates t' s) (ht : t ≤ t') :
    Impersonates t s := by
  obtain ⟨target, expiresAt, htarget, hexp, hlt⟩ := h
  exact ⟨target, expiresAt, htarget, hexp, lt_of_le_of_lt ht hlt⟩

/-! ## Statements that keep the invariant -/

/-- The statements that may break the invariant: the start of an impersonation and a
login. -/
def AdminSafe : Call → Prop
  | .sql (.setImpersonation ..) | .sql (.upsertUserByOIDC ..) => False
  | _ => True

/-- A call that does not start an impersonation. -/
def Unset : Call → Prop
  | .sql (.setImpersonation ..) => False
  | _ => True

theorem AdminSafe.unset {e : Call} (h : AdminSafe e) : Unset e := by
  unfold Unset
  split
  · exact h
  · trivial

theorem Writes.adminSafe {ts : List Tbl} (hs : Tbl.sessions ∉ ts) (hu : Tbl.users ∉ ts) {e : Call}
    (h : Writes ts e) : AdminSafe e := by
  unfold AdminSafe
  split
  · exact hs (h List.mem_cons_self)
  · exact hu (h List.mem_cons_self)
  · trivial

/-- Only the start of an impersonation makes a session impersonate. -/
theorem impersonating_before {c : Sql} (hc : Unset (.sql c)) {db : Database} {k : String}
    {s : Session} (hs : (c.apply db).2.sessions.get? k = some s)
    (himp : s.impersonatingUserID.isSome) : db.sessions.get? k = some s := by
  by_cases hwrites : Tbl.sessions ∈ c.writes
  · cases c with
    | setImpersonation => exact hc.elim
    | purgeSessions t =>
        rw [Sql.apply, Table.get?_deleteWhere] at hs
        exact (Option.filter_eq_some_iff.mp hs).1
    | reapSession h t =>
        rw [Sql.apply, Table.get?_deleteWhere] at hs
        exact (Option.filter_eq_some_iff.mp hs).1
    | deleteSession h =>
        rw [Sql.apply, Table.get?_deleteWhere] at hs
        exact (Option.filter_eq_some_iff.mp hs).1
    | clearImpersonation h =>
        rw [Sql.apply, Table.get?_update] at hs
        obtain ⟨s₀, hs₀, rfl⟩ := Option.map_eq_some_iff.mp hs
        split at himp
        · cases himp
        · rename_i hne
          rw [if_neg hne]
          exact hs₀
    | insertSession h userID t expiresAt =>
        rw [Sql.apply, Database.insertSession] at hs
        split at hs
        · rw [Table.get?_insertFresh] at hs
          split at hs
          · cases hs
            cases himp
          · exact hs
        · exact hs
    | _ => simp [Sql.writes] at hwrites
  · have hsame : (c.apply db).2.sessions = db.sessions := Sql.apply_frame hwrites db
    rwa [hsame] at hs

theorem sem_adminSafe {e : Call} {r : e.Res} (he : AdminSafe e) (h : sem O faults e w r w')
    (hadmins : Admins w) : Admins w' := by
  intro k s hs himp
  have himp : Impersonates w.now s := himp.earlier (sem_now_le h)
  rcases sem_db h with hdb | ⟨c, rfl, hdb⟩
  · rw [hdb] at hs ⊢
    exact hadmins k s hs himp
  · have hsome : s.impersonatingUserID.isSome := by
      obtain ⟨target, -, htarget, -⟩ := himp
      rw [htarget]
      rfl
    have husers : (c.apply w.db).2.users = w.db.users := by
      refine Sql.apply_frame (t := .users) ?_ w.db
      intro hmem
      cases c with
      | upsertUserByOIDC => exact he
      | _ => simp [Sql.writes] at hmem
    rw [hdb] at hs ⊢
    rw [husers]
    exact hadmins k s (impersonating_before he.unset hs hsome) himp

theorem exec_adminSafe {α : Type} {p : Code α} {a : α} (hp : All AdminSafe p)
    (hx : Exec (sem O faults) p w a w') : Admins w → Admins w' := by
  refine hp.frame (ρ := fun w w' ↦ Admins w → Admins w') ?_ ?_ ?_ hx
  · exact fun _ h ↦ h
  · exact fun _ _ _ h h' hw ↦ h' (h hw)
  · exact fun _ _ _ _ he hr ↦ sem_adminSafe he hr

/-! ## The start of an impersonation -/

/-- An admin's own session may impersonate. -/
theorem setImpersonation_admins {hash : String} {sess : Session} {real : User} {target : Int64}
    {expiresAt : Time} (hadmins : Admins w) (hsess : w.db.sessions.get? hash = some sess)
    (hreal : w.db.users.table.get? sess.userID = some real) (hadmin : real.role = .admin) :
    Admins { w with db := ((Sql.setImpersonation hash target expiresAt).apply w.db).2 } := by
  intro k s hs himp
  have hs : ((Sql.setImpersonation hash target expiresAt).apply w.db).2.sessions.get? k =
    some s := hs
  rw [Sql.apply, Table.get?_update] at hs
  obtain ⟨s₀, hs₀, rfl⟩ := Option.map_eq_some_iff.mp hs
  split at himp
  · rename_i hhash
    have hk : k = hash := (Table.key_of_get? hs₀).symm.trans (of_decide_eq_true hhash)
    rw [hk, hsess, Option.some.injEq] at hs₀
    rw [if_pos hhash, ← hs₀]
    exact ⟨real, hreal, hadmin⟩
  · rename_i hhash
    rw [if_neg hhash]
    exact hadmins k s₀ hs₀ himp

theorem start_admins {ctx : Ctx} {body : Payload} {resp : Response} {sess : Session}
    (hsess : w.db.sessions.get? ctx.sessionHash = some sess)
    (hreal : w.db.users.table.get? sess.userID = some ctx.real) (hadmin : ctx.real.role = .admin)
    (hx : Exec (sem O faults) (handleStartImpersonation ctx body) w resp w')
    (hadmins : Admins w) : Admins w' := by
  unfold handleStartImpersonation at hx
  split at hx
  · split at hx
    · obtain ⟨-, rfl⟩ := hx
      exact hadmins
    split at hx
    · obtain ⟨-, rfl⟩ := hx
      exact hadmins
    obtain ⟨res, w₁, hr, hx₁⟩ := exec_call.mp hx
    obtain rfl : w₁ = w := sem_reads rfl hr
    cases res with
    | error e =>
        obtain ⟨-, rfl⟩ := hx₁
        exact hadmins
    | ok target =>
        obtain ⟨t, w₂, ht, hx₂⟩ := exec_call.mp hx₁
        have hadmins₂ := sem_adminSafe (e := .now) trivial ht hadmins
        obtain ⟨-, rfl⟩ := ht
        obtain ⟨res, w₃, hr₃, hx₃⟩ := exec_call.mp hx₂
        have hset (expiresAt : Time) : Admins { w₁ with
            now := t
            db := ((Sql.setImpersonation ctx.sessionHash target.id expiresAt).apply w₁.db).2 } :=
          setImpersonation_admins hadmins₂ hsess hreal hadmin
        have hadmins₃ : Admins w₃ := by
          rcases hr₃ with ⟨-, rfl⟩ | ⟨-, -, rfl | rfl⟩
          · exact hset _
          · exact hadmins₂
          · exact hset _
        refine exec_adminSafe ?_ hx₃ hadmins₃
        cases res with
        | error e => exact all_ret
        | ok _ =>
            refine All.except ?_ (fun _ ↦ all_ret) fun _ ↦ all_ret
            exact (impersonationEvent_touches (by decide : Tbl.audit ∈ [.audit]) ..).mono
              fun _ h ↦ Writes.adminSafe (by decide) (by decide) h.writes
  · obtain ⟨-, rfl⟩ := hx
    exact hadmins

/-! ## Logins -/

/-- A login of the identity with this role leaves no session impersonate that should
not: the role is the admin's, or no session of the identity's user impersonates. -/
def LoginAllowed (issuer subject : String) (role : Role) (w : World) : Prop :=
  role = .admin ∨ ∀ u ∈ w.db.users.table.rows, u.issuer = issuer → u.subject = subject →
    ∀ s ∈ w.db.sessions.rows, s.userID = u.id → ¬ Impersonates w.now s

theorem upsertUser_admins {issuer subject email displayName : String} {role : Role} {t : Time}
    (hallowed : LoginAllowed issuer subject role w) (hadmins : Admins w) :
    Admins { w with
      db := ((Sql.upsertUserByOIDC issuer subject email displayName role t).apply w.db).2 } := by
  intro k s hs himp
  obtain ⟨users, hdb, -⟩ := w.db.upsertUserByOIDC_snd issuer subject email displayName role t
  have hs : w.db.sessions.get? k = some s := by
    have hs : (w.db.upsertUserByOIDC issuer subject email displayName role t).2.sessions.get? k =
      some s := hs
    rwa [hdb] at hs
  obtain ⟨u, hu, hrole⟩ := hadmins k s hs himp
  show ∃ u, (w.db.upsertUserByOIDC issuer subject email displayName role t).2.users.table.get?
    s.userID = some u ∧ u.role = .admin
  unfold Database.upsertUserByOIDC
  split
  · simp only [AutoTable.table_update, Table.get?_update, hu, Option.map_some]
    refine ⟨_, rfl, ?_⟩
    split
    · rename_i hsubject
      rw [decide_eq_true_eq] at hsubject
      rcases hallowed with hadmin | hnone
      · exact hadmin
      · refine absurd himp (hnone u (Table.mem_of_get? hu) hsubject.1 hsubject.2 s
          (Table.mem_of_get? hs) ?_)
        exact (Table.key_of_get? hu).symm
    · exact hrole
  · split
    · rename_i i t hinsert
      obtain ⟨-, -, hfresh, hget⟩ := AutoTable.insert_eq_some hinsert
      have hne : s.userID ≠ i := by
        intro h
        rw [h, hfresh] at hu
        cases hu
      refine ⟨u, ?_, hrole⟩
      show t.table.get? s.userID = some u
      rw [hget, if_neg hne]
      exact hu
    · exact ⟨u, hu, hrole⟩

theorem LoginAllowed.of_waited {issuer subject : String} {role : Role} (hwait : Waited w w')
    (h : LoginAllowed issuer subject role w) : LoginAllowed issuer subject role w' := by
  obtain ⟨t, hle, rfl⟩ := hwait
  rcases h with hadmin | hnone
  · exact .inl hadmin
  · exact .inr fun u hu hi hs s hmem hid himp ↦
      hnone u hu hi hs s hmem hid (himp.earlier hle)

theorem createSession_adminSafe (hash : String) (userID : Int64) (expiresAt : Time) :
    All AdminSafe (createSession hash userID expiresAt) := by
  refine all_call.mpr ⟨trivial, fun t ↦ ?_⟩
  refine all_call.mpr ⟨trivial, fun _ ↦ ?_⟩
  exact all_call.mpr ⟨trivial, fun t ↦ all_call_iff.mpr trivial⟩

theorem appendAudit_adminSafe (kind : AuditKind) (userID profileID : Option Int64)
    (decision detail : String) :
    All AdminSafe (appendAudit kind userID profileID decision detail) :=
  all_call.mpr ⟨trivial, fun _ ↦ all_call_iff.mpr trivial⟩

theorem issueSession_admins {a : Authenticator} {idt : IDToken} {claims : Claims} {rawID : String}
    {resp : Response}
    (hallowed : LoginAllowed idt.issuer idt.subject (mapRole claims.roles a.adminRole) w)
    (hx : Exec (sem O faults) (a.issueSession idt claims rawID) w resp w')
    (hadmins : Admins w) : Admins w' := by
  obtain ⟨res, w₁, h₁, hx₁⟩ := exec_bind.mp hx
  have hadmins₁ : Admins w₁ := by
    obtain ⟨t, w₂, ht, h₂⟩ := exec_call.mp h₁
    have hadmins₂ := sem_adminSafe (e := .now) trivial ht hadmins
    have hallowed₂ := hallowed.of_waited (sem_now_waited ht).1
    rcases exec_call_iff.mp h₂ with ⟨-, rfl⟩ | ⟨-, -, rfl | rfl⟩
    · exact upsertUser_admins hallowed₂ hadmins₂
    · exact hadmins₂
    · exact upsertUser_admins hallowed₂ hadmins₂
  refine exec_adminSafe ?_ hx₁ hadmins₁
  cases res with
  | error e => exact all_ret
  | ok user =>
      refine All.except (all_call_iff.mpr trivial) (fun _ ↦ all_ret) fun tok ↦ ?_
      refine all_call.mpr ⟨trivial, fun t ↦ ?_⟩
      refine (createSession_adminSafe _ _ _).except (fun _ ↦ all_ret) fun _ ↦ ?_
      exact (appendAudit_adminSafe ..).bind fun _ ↦ all_ret

/-! ## Requests -/

/-- A request, the identity token the provider vouches for if the request is a login,
and the calls that may fail. -/
structure Turn where
  request : Request
  verified : Except Err IDToken
  faults : Call → Prop

/-- The identity provider's answer is the one of the turn. -/
def Vouched (verified : Except Err IDToken) : (e : Call) → e.Res → Prop
  | .oidcVerify _, r => r = verified
  | _, _ => True

/-- The gateway's calls in a turn. -/
def turnSem (O : Outside) (t : Turn) : Sem gateway World := fun e w r w' ↦
  sem O t.faults e w r w' ∧ Vouched t.verified e r

theorem exec_of_turn {α : Type} {p : Code α} {a : α} {t : Turn}
    (hx : Exec (turnSem O t) p w a w') : Exec (sem O t.faults) p w a w' :=
  hx.mono fun _ _ _ _ h ↦ h.1

/-- The control plane serves the request of a turn. -/
def Served (O : Outside) (srv : Server) (t : Turn) (w w' : World) : Prop :=
  ∃ resp, Exec (turnSem O t) (routes srv t.request) w resp w'

/-- The condition on a turn: if it is a login, it does not take the admin role from a
user with a session that impersonates. -/
def KeepsAdmins (srv : Server) (t : Turn) (w : World) : Prop :=
  t.request.segs = ["api", "auth", "callback"] → ∀ a idt claims, srv.authn = some a →
    t.verified = .ok idt → idt.claims = .ok claims →
    LoginAllowed idt.issuer idt.subject (mapRole claims.roles a.adminRole) w

theorem exec_verifyLogin {a : Authenticator} {cookie : String} {res : Except Err FlowState}
    (hx : Exec (sem O faults) (a.verifyFlow cookie) w res w') : Waited w w' := by
  unfold Authenticator.verifyFlow at hx
  split at hx
  · obtain ⟨-, rfl⟩ := hx
    exact .refl _
  · obtain ⟨t, w₁, ht, hx₁⟩ := exec_call.mp hx
    have hwait := (sem_now_waited ht).1
    split at hx₁
    · exact hx₁.2 ▸ hwait
    · exact hx₁.2 ▸ hwait

theorem callback_admins {a : Authenticator} {t : Turn} {resp : Response}
    (hallowed : ∀ idt claims, t.verified = .ok idt → idt.claims = .ok claims →
      LoginAllowed idt.issuer idt.subject (mapRole claims.roles a.adminRole) w)
    (hx : Exec (turnSem O t) (a.callbackHandler t.request) w resp w') (hadmins : Admins w) :
    Admins w' := by
  unfold Authenticator.callbackHandler at hx
  split at hx
  · obtain ⟨-, rfl⟩ := hx
    exact hadmins
  obtain ⟨res, w₁, h₁, hx₁⟩ := exec_bind.mp hx
  have hwait := exec_verifyLogin (exec_of_turn h₁)
  have hadmins₁ : Admins w₁ := by
    obtain ⟨t, hle, rfl⟩ := hwait
    exact fun k s hs himp ↦ hadmins k s hs (himp.earlier hle)
  cases res with
  | error e =>
      obtain ⟨-, rfl⟩ := hx₁
      exact hadmins₁
  | ok fs =>
      dsimp only at hx₁
      split at hx₁
      · obtain ⟨-, rfl⟩ := hx₁
        exact hadmins₁
      split at hx₁
      · obtain ⟨-, rfl⟩ := hx₁
        exact hadmins₁
      obtain ⟨res, w₂, ⟨⟨rfl, -⟩, -⟩, hx₂⟩ := exec_call.mp hx₁
      split at hx₂
      · obtain ⟨-, rfl⟩ := hx₂
        exact hadmins₁
      · obtain ⟨-, rfl⟩ := hx₂
        exact hadmins₁
      · obtain ⟨res, w₃, ⟨⟨rfl, -⟩, hverified⟩, hx₃⟩ := exec_call.mp hx₂
        have hverified : res = t.verified := hverified
        cases res with
        | error e =>
            obtain ⟨-, rfl⟩ := hx₃
            exact hadmins₁
        | ok idt =>
            dsimp only at hx₃
            split at hx₃
            · obtain ⟨-, rfl⟩ := hx₃
              exact hadmins₁
            split at hx₃
            · obtain ⟨-, rfl⟩ := hx₃
              exact hadmins₁
            · rename_i claims hclaims
              have hlogin := (hallowed idt claims hverified.symm hclaims).of_waited hwait
              exact issueSession_admins hlogin (exec_of_turn hx₃) hadmins₁

theorem loginHandler_adminSafe (a : Authenticator) (r : Request) :
    All AdminSafe (a.loginHandler r) := by
  refine All.except (all_call_iff.mpr trivial) (fun _ ↦ all_ret) fun state ↦ ?_
  refine All.except (all_call_iff.mpr trivial) (fun _ ↦ all_ret) fun nonce ↦ ?_
  refine all_call.mpr ⟨trivial, fun pkce ↦ all_call.mpr ⟨trivial, fun t ↦ ?_⟩⟩
  split
  · exact all_ret
  · exact all_ret

theorem adminSafe_of_lookup {e : Call} (h : Lookup e) : AdminSafe e := by
  cases h with
  | _ => trivial

theorem logoutHandler_adminSafe (a : Authenticator) (r : Request) :
    All AdminSafe (a.logoutHandler r) := by
  unfold Authenticator.logoutHandler
  split
  · exact all_ret
  · refine All.bind ?_ fun _ ↦ all_ret
    refine ((getSession_lookup _).mono fun _ ↦ adminSafe_of_lookup).except (fun _ ↦ ?_) fun sess ↦ ?_
    · exact all_call.mpr ⟨trivial, fun _ ↦ all_ret⟩
    · exact (appendAudit_adminSafe ..).bind fun _ ↦ all_call.mpr ⟨trivial, fun _ ↦ all_ret⟩

theorem loadSession_adminSafe (r : Request) : All AdminSafe (loadSession r) :=
  (loadSession_lookup r).mono fun _ ↦ adminSafe_of_lookup

/-- A handler other than the start of an impersonation keeps the invariant. -/
theorem kind_adminSafe {srv : Server} {ctx : Ctx} {r : Request} {method : String}
    {handler : Code Response} (h : RouteKind srv ctx r method handler) :
    handler = requireAdmin ctx (handleStartImpersonation ctx r.body) ∨ All AdminSafe handler := by
  have hsafe {ts : List Tbl} {p : Code Response} (hs : Tbl.sessions ∉ ts) (hu : Tbl.users ∉ ts)
      (hp : All (Writes ts) p) : All AdminSafe p := hp.mono fun _ ↦ Writes.adminSafe hs hu
  have htouches {ts : List Tbl} {p : Code Response} (hs : Tbl.sessions ∉ ts)
      (hu : Tbl.users ∉ ts) (hp : All (Touches ts) p) : All AdminSafe p :=
    hsafe hs hu (hp.mono fun _ ↦ Touches.writes)
  cases h with
  | start => exact .inl rfl
  | reads h => exact .inr (htouches (by decide) (by decide) h)
  | other _ h => exact .inr (htouches (by decide) (by decide) h)
  | profile _ h => exact .inr (htouches (by decide) (by decide) h)
  | callback =>
      exact .inr (htouches (by decide) (by decide) (handleOAuthCallback_touches srv r))
  | stop =>
      refine .inr (requireAdmin_all ?_)
      refine All.except (all_call_iff.mpr trivial) (fun _ ↦ all_ret) fun _ ↦ ?_
      exact All.except (appendAudit_adminSafe ..) (fun _ ↦ all_ret) fun _ ↦ all_ret
  | deleteProfile pid =>
      exact .inr (hsafe (by decide) (by decide) (handleDeleteProfile_writes ctx pid))
  | putProfileServers pid =>
      exact .inr (hsafe (by decide) (by decide) (handlePutProfileServers_writes ctx pid _))
  | installForUser name =>
      exact .inr (htouches (by decide) (by decide) (handleInstallForUser_touches ctx name))
  | uninstallForUser name =>
      exact .inr (htouches (by decide) (by decide) (handleUninstallForUser_touches ctx name))
  | setAppTool name tool =>
      exact .inr (htouches (by decide) (by decide) (handleSetAppTool_touches ctx name tool _))
  | installServer =>
      exact .inr (requireAdmin_all
        (htouches (by decide) (by decide) (handleInstallServer_touches srv ctx _)))
  | uninstallServer name =>
      exact .inr (requireAdmin_all
        (hsafe (by decide) (by decide) (handleUninstallServer_writes srv ctx name)))

/-- Behind the middleware, with the context it made. -/
theorem authed_admins {srv : Server} {ctx : Ctx} {r : Request} {resp : Response} {sess : Session}
    (hsess : w.db.sessions.get? ctx.sessionHash = some sess)
    (hreal : w.db.users.table.get? sess.userID = some ctx.real)
    (hx : Exec (sem O faults) (authed srv r ctx) w resp w') (hadmins : Admins w) :
    Admins w' := by
  rcases authed_cases srv r ctx with ⟨resp', hret⟩ | ⟨segs, method, hsegs, hmem, -⟩
  · rw [hret] at hx
    obtain ⟨-, rfl⟩ := hx
    exact hadmins
  · rcases kind_adminSafe (handlersAt_kind hsegs hmem) with hstart | hsafe
    · rw [hstart] at hx
      unfold requireAdmin at hx
      split at hx
      · rename_i hadmin
        exact start_admins hsess hreal hadmin hx hadmins
      · obtain ⟨-, rfl⟩ := hx
        exact hadmins
    · exact exec_adminSafe hsafe hx hadmins

/-- Every permitted turn keeps the invariant. -/
theorem served_admins {srv : Server} {t : Turn} (hadmins : Admins w) (hok : KeepsAdmins srv t w)
    (h : Served O srv t w w') : Admins w' := by
  obtain ⟨resp, hx⟩ := h
  unfold routes at hx
  split at hx
  · obtain ⟨-, rfl⟩ := hx
    exact hadmins
  split at hx
  · rename_i handler hhandler
    obtain ⟨a, ha, hroute⟩ := Option.bind_eq_some_iff.mp hhandler
    unfold authRoutes at hroute
    split at hroute
    · split at hroute
      · cases hroute
        exact exec_adminSafe (loginHandler_adminSafe a _) (exec_of_turn hx) hadmins
      · cases hroute
    · rename_i hsegs
      split at hroute
      · cases hroute
        exact callback_admins (fun idt claims ↦ hok hsegs a idt claims ha) hx hadmins
      · cases hroute
    · split at hroute
      · cases hroute
        exact exec_adminSafe (logoutHandler_adminSafe a _) (exec_of_turn hx) hadmins
      · cases hroute
    · cases hroute
  · obtain ⟨res, w₁, h₁, hx₁⟩ := exec_bind.mp (exec_of_turn hx)
    have hadmins₁ := exec_adminSafe (loadSession_adminSafe _) h₁ hadmins
    cases res with
    | error resp' =>
        obtain ⟨-, rfl⟩ := hx₁
        exact hadmins₁
    | ok ctx =>
        obtain ⟨hwait, hash, sess, real, -, hsess, hreal, rfl⟩ := exec_loadSession_ok h₁
        dsimp only at hx₁
        split at hx₁
        · obtain ⟨-, rfl⟩ := hx₁
          exact hadmins₁
        · rw [← hwait.db, ← sessionHash_contextOf real hash (viewAs w.db sess w₁.now)] at hsess
          rw [← hwait.db, ← real_contextOf real hash (viewAs w.db sess w₁.now)] at hreal
          exact authed_admins hsess hreal hx₁ hadmins₁

/-! ## Only admins act as others -/

/-- The session middleware hands a request on in a context. -/
def HandsOn (O : Outside) (faults : Call → Prop) (r : Request) (ctx : Ctx) (w w' : World) : Prop :=
  Exec (sem O faults) (loadSession r) w (.ok ctx) w' ∧ blocked ctx r = false

/-- In every run from a store in which nobody impersonates, as long as no login takes the
admin role from a user with an unexpired impersonation: a request that is handed on
with another effective user has a real user whose stored role is admin. -/
theorem impersonator_is_admin {srv : Server} {db : Database} {now : Time}
    (hstart : ∀ s ∈ db.sessions.rows, s.impersonatingUserID = none)
    (hrun : Run (Served O srv) (KeepsAdmins srv) (.boot db now) w) {r : Request} {ctx : Ctx}
    (hx : HandsOn O faults r ctx w w') (hne : ctx.effective ≠ ctx.real) :
    w'.db.users.table.get? ctx.real.id = some ctx.real ∧ ctx.real.role = .admin := by
  have hboot : Admins (.boot db now) := by
    intro k s hs ⟨target, _, htarget, _⟩
    rw [hstart s (Table.mem_of_get? hs)] at htarget
    cases htarget
  have hadmins : Admins w := by
    refine Run.invariant (I := Admins) ?_ hrun hboot
    intro t w w' hadmins hok h
    exact served_admins hadmins hok h
  obtain ⟨hwait, hash, sess, real, -, hsess, hreal, rfl⟩ := exec_loadSession_ok hx.1
  have himp : Impersonates w.now sess := by
    cases hview : viewAs w.db sess w'.now with
    | none =>
        rw [hview] at hne
        exact absurd rfl hne
    | some target =>
        obtain ⟨t, hle, rfl⟩ := hwait
        unfold viewAs at hview
        split at hview
        · rename_i targetID expiresAt htarget hexp
          split at hview
          · rename_i hlt
            exact ⟨targetID, expiresAt, htarget, hexp, lt_of_le_of_lt hle hlt⟩
          · cases hview
        · cases hview
  obtain ⟨u, hu, hrole⟩ := hadmins hash sess hsess himp
  obtain rfl : u = real := Option.some.inj (hu.symm.trans hreal)
  rw [real_contextOf, hwait.db, show u.id = sess.userID from Table.key_of_get? hu]
  exact ⟨hu, hrole⟩

namespace Example.Roles

/-- The local handler, with an identity provider that vouches for one token. -/
def vouching (raw : String) : (e : Call) → World → Option (e.Res × World)
  | .oidcVerify raw', w =>
      if raw' = raw then some (.ok (Partners.idToken raw), w) else none
  | e, w => Local.partners.answer e w

/-- A request that the provider vouches for a token in. -/
def turn (raw : String) (r : Request) : Turn := ⟨r, .ok (Partners.idToken raw), fun _ ↦ False⟩

def next (raw : String) (r : Request) (w : World) : World :=
  ((run (vouching raw) (routes Local.server r) w).map Prod.snd).getD w

theorem served_next {raw : String} {r : Request}
    (h : (run (vouching raw) (routes Local.server r) w).isSome) :
    Served Partners.outside Local.server (turn raw r) w (next raw r w) := by
  obtain ⟨⟨resp, w'⟩, hrun⟩ := Option.isSome_iff_exists.mp h
  rw [next, hrun]
  refine ⟨resp, exec_run ?_ hrun⟩
  intro e w r w' he
  unfold vouching at he
  split at he
  · split at he
    · cases he
      exact ⟨⟨rfl, Partners.foreign_ok _⟩, rfl⟩
    · cases he
  · rename_i hne
    refine ⟨Local.partners.answer_sem he _, ?_⟩
    unfold Vouched
    split
    · exact absurd rfl (hne _)
    · trivial

/-- Alice logs in as an admin, and Bob as a user. -/
def loggedIn : World :=
  next "bob:user" (Local.login "bob:user") (next "alice:admin" (Local.login "alice:admin")
    (.boot .fresh 0))

def impersonate : Request :=
  { Local.request "POST" ["admin", "impersonate"] (some "hash0") with body := .impersonate 2 0 }

/-- Alice starts to look at the gateway as Bob. -/
def viewing : World := next "" impersonate loggedIn

/-- Alice logs in again, in another browser, without the admin role. -/
def demoted : World := next "alice:user" (Local.login "alice:user") viewing

def apps : Request := Local.request "GET" ["apps"] (some "hash0")

def alice (role : Role) : User := ⟨1, "idp", "alice", "alice", "alice", role, 0, 0⟩

def bob : User := ⟨2, "idp", "bob", "bob", "bob", .user, 0, 0⟩

end Example.Roles

open Example.Roles in
/-- Alice is an admin when she looks at the apps as Bob. -/
theorem impersonator_is_admin_alice :
    ∃ w', HandsOn Partners.outside (fun _ ↦ False) apps ⟨alice .admin, bob, "hash0", true⟩
        viewing w' ∧
      w'.db.users.table.get? 1 = some (alice .admin) ∧ (alice .admin).role = .admin := by
  have hrun : Run (Served Partners.outside Local.server) (KeepsAdmins Local.server)
      (.boot .fresh 0) viewing := by
    refine .tail (.tail (.tail .refl ?_ (served_next rfl)) ?_ (served_next rfl)) ?_
      (served_next rfl)
    · exact fun _ _ _ _ _ _ _ ↦ .inr fun u hu ↦ absurd hu List.not_mem_nil
    · intro _ a idt claims _ hidt _
      cases hidt
      refine .inr fun u hu _ hsubject ↦ ?_
      obtain rfl : u = alice .admin := List.mem_singleton.mp hu
      exact absurd hsubject (by decide)
    · exact fun h ↦ absurd h (by decide)
  obtain ⟨w', hx⟩ := Local.partners.exec_of_run_fst (p := loadSession apps) (w := viewing)
    (a := .ok ⟨alice .admin, bob, "hash0", true⟩) rfl fun _ ↦ False
  have hhands : HandsOn Partners.outside (fun _ ↦ False) apps ⟨alice .admin, bob, "hash0", true⟩
    viewing w' := ⟨hx, rfl⟩
  exact ⟨w', hhands, impersonator_is_admin (fun s hs ↦ absurd hs List.not_mem_nil) hrun hhands
    (by decide)⟩

open Example.Roles in
/-- After she has lost the role, Alice still looks at the apps as Bob. -/
theorem impersonator_not_admin :
    Run (Served Partners.outside Local.server) (fun _ _ ↦ True) (.boot .fresh 0) demoted ∧
      ∃ w', HandsOn Partners.outside (fun _ ↦ False) apps ⟨alice .user, bob, "hash0", true⟩
        demoted w' ∧ w'.db.users.table.get? 1 = some (alice .user) := by
  refine ⟨.tail (.tail (.tail (.tail .refl trivial (served_next rfl)) trivial (served_next rfl))
    trivial (served_next rfl)) trivial (served_next rfl), ?_⟩
  refine ⟨Local.partners.after (loadSession apps) demoted, ⟨?_, rfl⟩, rfl⟩
  exact Local.partners.exec_of_run rfl _

end GigMcp.Api
