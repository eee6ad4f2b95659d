import GigMcp.Api.Frame
import GigMcp.Api.Serve
import GigMcp.Auth.Middleware

/-!
# View-as is read-only, but for the connect callback

In view-as the middleware lets through what only reads, by its method, and the
request that stops the impersonation.  One of the routes that are reached by `GET`
writes: the callback of a connect flow stores the account it was started for.
-/

namespace GigMcp.Api

open GigMcp.Effect GigMcp.System GigMcp.Store GigMcp.Http GigMcp.Auth GigMcp.Data

variable {O : Outside} {faults : Call → Prop} {w w' : World} {hash : String}

/-- What may happen to a session while one session is used in view-as: nothing, that it
is reaped after it has expired, or, to the session in use, that its impersonation
ends. -/
def SessionKept (hash : String) (w w' : World) (k : String) : Prop :=
  w'.db.sessions.get? k = w.db.sessions.get? k ∨
    (∃ sess, w.db.sessions.get? k = some sess ∧ sess.expiresAt < w'.now ∧
      w'.db.sessions.get? k = none) ∨
    k = hash ∧ w'.db.sessions.get? k = (w.db.sessions.get? k).map fun s ↦
      { s with impersonatingUserID := none, impersonationExpiresAt := none }

/-- The effect of a request in view-as with the session `hash`. -/
structure ViewOnly (hash : String) (w w' : World) : Prop where
  tbl : ∀ t, t ≠ .audit → t ≠ .sessions → w'.db.tbl t = w.db.tbl t
  audit : w.db.audit.table.rows <+: w'.db.audit.table.rows
  sessions : ∀ k, SessionKept hash w w' k
  host : w'.host = w.host

theorem viewOnly_of_waited (h : Waited w w') : ViewOnly hash w w' := by
  obtain ⟨t, -, rfl⟩ := h
  exact ⟨fun _ _ _ ↦ rfl, List.prefix_refl _, fun _ ↦ .inl rfl, rfl⟩

/-- Waiting first does not matter. -/
theorem ViewOnly.after_waiting {w₁ : World} (h : Waited w w₁) (h' : ViewOnly hash w₁ w') :
    ViewOnly hash w w' := by
  obtain ⟨t, -, rfl⟩ := h
  exact ⟨h'.tbl, h'.audit, h'.sessions, h'.host⟩

theorem exec_audit_grows {α : Type} {p : Code α} {a : α} (hx : Exec (sem O faults) p w a w') :
    w.db.audit.table.rows <+: w'.db.audit.table.rows :=
  (later_of_exec hx).audit_grows

/-- Audit rows may be added afterwards. -/
theorem ViewOnly.then_touches {α : Type} {p : Code α} {a : α} {w₁ : World}
    (h : ViewOnly hash w w₁) (hp : All (Touches [.audit]) p)
    (hx : Exec (sem O faults) p w₁ a w') : ViewOnly hash w w' := by
  have halike := exec_touches hp hx
  have hsessions : w'.db.sessions = w₁.db.sessions := halike.tbl .sessions (by decide)
  refine ⟨fun t ht ht' ↦ (halike.tbl t (by simpa using ht)).trans (h.tbl t ht ht'),
    h.audit.trans (exec_audit_grows hx), fun k ↦ ?_, halike.host.trans h.host⟩
  rw [SessionKept, hsessions]
  rcases h.sessions k with hk | ⟨sess, hsess, hexp, hnone⟩ | hk
  · exact .inl hk
  · exact .inr (.inl ⟨sess, hsess, lt_of_lt_of_le hexp (exec_now_le hx), hnone⟩)
  · exact .inr (.inr hk)

/-- The reaping of an expired session. -/
theorem viewOnly_of_reaped {k : String} {sess : Session} {t : Time}
    (hsess : w.db.sessions.get? k = some sess) (hexp : sess.expiresAt < t) :
    ViewOnly hash w
      { w with now := t, db := ((Sql.reapSession k sess.expiresAt).apply w.db).2 } where
  tbl t' _ ht' := Sql.apply_frame (by simpa [Sql.writes] using ht') w.db
  audit := Sql.audit_grows _ _
  sessions k' := by
    have hkey : sess.tokenHash = k := Table.key_of_get? hsess
    by_cases hk : k' = k
    · subst hk
      refine .inr (.inl ⟨sess, hsess, hexp, ?_⟩)
      rw [Sql.apply, Table.get?_deleteWhere, hsess]
      simp [hkey]
    · left
      rw [Sql.apply, Table.get?_deleteWhere]
      cases hrow : w.db.sessions.get? k' with
      | none => rfl
      | some s =>
          have hne : s.tokenHash ≠ k := fun he ↦ hk ((Table.key_of_get? hrow).symm.trans he)
          simp [hne]
  host := rfl

/-! ## Requests that pass the view-as rule -/

variable {srv : Server} {ctx : Ctx} {r : Request} {method : String} {handler : Code Response}

theorem path_ne {a : String} (segs : List String)
    (h : a.toList.isPrefixOf "admin/impersonate".toList = false) :
    joinChar '/' ("api" :: a :: segs) ≠ "api/admin/impersonate" := by
  intro heq
  have hlist := congrArg String.toList heq
  rw [joinChar, String.toList_ofList] at hlist
  have hrest : [ '/' ].intercalate (a.toList :: segs.map String.toList) =
      "admin/impersonate".toList :=
    List.append_cancel_left (show "api/".toList ++ _ = "api/".toList ++ _ from hlist)
  have hpre : a.toList <+: "admin/impersonate".toList := by
    rw [← hrest]
    cases segs with
    | nil => simp
    | cons b segs => exact List.prefix_append _ _
  rw [List.isPrefixOf_iff_prefix.mpr hpre] at h
  cases h

/-- Only the two impersonation routes stand at the path that the middleware lets
through. -/
theorem segs_of_stopPath {segs : List String} (h : (method, handler) ∈ handlersAt srv ctx r segs)
    (hpath : joinChar '/' ("api" :: segs) = "api/admin/impersonate") :
    segs = ["admin", "impersonate"] := by
  unfold handlersAt at h
  split at h
  all_goals first
    | rfl
    | exact absurd hpath (path_ne _ rfl)
    | exact absurd h List.not_mem_nil

/-- What a request that passes the view-as rule runs: a handler that writes nothing but
audit rows, the connect callback, or the end of the impersonation. -/
theorem authed_passing (himp : ctx.impersonating = true) (hpass : blocked ctx r = false) :
    All (Touches [.audit]) (authed srv r ctx) ∨
      (impersonationSafeMethod r.method = true ∧
        r.segs = ["api", "connections", "oauth", "callback"] ∧
        authed srv r ctx = handleOAuthCallback srv r) ∨
      authed srv r ctx = requireAdmin ctx (handleStopImpersonation ctx) := by
  rcases authed_cases srv r ctx with ⟨resp, hret⟩ | ⟨segs, method, hsegs, hmem, hmatch⟩
  · left
    rw [hret]
    exact all_ret
  have hkind := handlersAt_kind hsegs hmem
  generalize authed srv r ctx = handler at hkind hmem ⊢
  by_cases hsafe : impersonationSafeMethod r.method = true
  · have hmethod : impersonationSafeMethod method = true := by
      simp only [methodMatches, impersonationSafeMethod, Bool.or_eq_true, Bool.and_eq_true,
        decide_eq_true_eq] at hmatch hsafe ⊢
      rcases hmatch with rfl | ⟨rfl, -⟩
      · exact hsafe
      · exact .inl rfl
    cases hkind with
    | reads hreads => exact .inl hreads
    | callback hpath => exact .inr (.inl ⟨hsafe, hpath, rfl⟩)
    | other hm | profile hm => rw [hmethod] at hm; cases hm
    | _ => exact absurd hmethod (by decide)
  · have hstop : r.method = "DELETE" ∧ r.urlPath = stopImpersonationPath := by
      rw [blocked, himp, Bool.not_eq_true _ |>.mp hsafe] at hpass
      simpa using hpass
    have hpath : joinChar '/' ("api" :: segs) = "api/admin/impersonate" := by
      have hurl : r.urlPath = stopImpersonationPath := hstop.2
      have hlist := congrArg String.toList hurl
      rw [Request.urlPath, hsegs, String.toList_append] at hlist
      exact String.toList_inj.mp (List.append_cancel_left (α := Char) hlist)
    obtain rfl := segs_of_stopPath hmem hpath
    right; right
    have hmethod : method = "DELETE" := by
      simp only [methodMatches, hstop.1, Bool.or_eq_true, Bool.and_eq_true,
        decide_eq_true_eq] at hmatch
      rcases hmatch with h | ⟨-, h⟩
      · exact h
      · exact absurd h (by decide)
    subst hmethod
    have hroutes : ("DELETE", handler) ∈
        [("DELETE", requireAdmin ctx (handleStopImpersonation ctx)),
          ("POST", requireAdmin ctx (handleStartImpersonation ctx r.body))] := hmem
    rcases List.mem_cons.mp hroutes with h | h
    · exact (Prod.mk.inj h).2
    · exact absurd (Prod.mk.inj (List.mem_singleton.mp h)).1 (by decide)

/-! ## The end of an impersonation -/

theorem viewOnly_of_stop {resp : Response} (hhash : ctx.sessionHash = hash)
    (hx : Exec (sem O faults) (requireAdmin ctx (handleStopImpersonation ctx)) w resp w') :
    ViewOnly hash w w' := by
  subst hhash
  unfold requireAdmin at hx
  split at hx
  · obtain ⟨res, w₁, hr, hx₁⟩ := exec_call.mp hx
    have hcleared : ViewOnly ctx.sessionHash w
        { w with db := ((Sql.clearImpersonation ctx.sessionHash).apply w.db).2 } := by
      refine ⟨fun t _ ht ↦ Sql.apply_frame (by simpa [Sql.writes] using ht) w.db,
        Sql.audit_grows _ _, fun k ↦ ?_, rfl⟩
      have hget : ((Sql.clearImpersonation ctx.sessionHash).apply w.db).2.sessions.get? k =
          (w.db.sessions.get? k).map fun s ↦ if s.tokenHash = ctx.sessionHash then
            { s with impersonatingUserID := none, impersonationExpiresAt := none } else s := by
        rw [Sql.apply, Table.get?_update]
        simp
      cases hrow : w.db.sessions.get? k with
      | none =>
          left
          rw [hget, hrow]
          rfl
      | some s =>
          have hkey : s.tokenHash = k := Table.key_of_get? hrow
          by_cases hk : k = ctx.sessionHash
          · refine .inr (.inr ⟨hk, ?_⟩)
            rw [hget, hrow]
            simp [hkey, hk]
          · left
            rw [hget, hrow]
            simp [hkey, hk]
    have hw₁ : ViewOnly ctx.sessionHash w w₁ := by
      rcases hr with ⟨-, rfl⟩ | ⟨-, -, rfl | rfl⟩
      · exact hcleared
      · exact viewOnly_of_waited (.refl _)
      · exact hcleared
    cases res with
    | error e =>
        obtain ⟨-, rfl⟩ := hx₁
        exact hw₁
    | ok _ =>
        refine hw₁.then_touches ?_ hx₁
        exact (impersonationEvent_touches (by decide) ..).except (fun _ ↦ all_ret) fun _ ↦ all_ret
  · obtain ⟨-, rfl⟩ := hx
    exact viewOnly_of_waited (.refl _)

/-! ## The connect callback -/

/-- A callback that goes as far as the provider: its flow cookie checks out and has not
expired, the provider reports no error, the state is the one that was signed, and the
vendor's config is there with a client secret that can be opened. -/
def CallbackReady (O : Outside) (b : OAuthBroker) (r : Request) (w : World) : Prop :=
  ∃ cookie fs ac, r.oauthFlow = some cookie ∧ b.flow.check cookie = .ok fs ∧
    w.now.unix ≤ fs.expires ∧ r.queryGet "error" = "" ∧ r.queryGet "state" = fs.state ∧
    w.db.authConfigs.get? fs.vendor = some ac ∧
    (ac.encryptedClientSecret = "" ∨ ∃ p, O.opens ac.encryptedClientSecret = some p)

theorem unix_mono {t t' : Time} (h : t ≤ t') : t.unix ≤ t'.unix :=
  Int.ediv_le_ediv (by decide) h

theorem exec_verifyFlow {b : OAuthBroker} {cookie : String} {res : Except Err OAuthFlowState}
    (hx : Exec (sem O faults) (b.verifyFlow cookie) w res w') :
    Waited w w' ∧ ∀ fs, res = .ok fs → b.flow.check cookie = .ok fs ∧ w.now.unix ≤ fs.expires := by
  unfold OAuthBroker.verifyFlow at hx
  split at hx
  · obtain ⟨rfl, rfl⟩ := hx
    exact ⟨.refl _, fun fs h ↦ nomatch h⟩
  · rename_i fs hcheck
    obtain ⟨t, w₁, ht, hx₁⟩ := exec_call.mp hx
    obtain ⟨hle, rfl⟩ := ht
    split at hx₁
    · obtain ⟨rfl, rfl⟩ := hx₁
      exact ⟨⟨t, hle, rfl⟩, fun fs h ↦ nomatch h⟩
    · rename_i hexp
      obtain ⟨rfl, rfl⟩ := hx₁
      refine ⟨⟨t, hle, rfl⟩, fun fs' h ↦ ?_⟩
      cases h
      exact ⟨hcheck, le_trans (unix_mono hle) (not_lt.mp hexp)⟩

theorem exec_oauthConfigFor {b : OAuthBroker} {ac : AuthConfig} {scopes : List String}
    {res : Except Err OAuthConfig} (hx : Exec (sem O faults) (b.oauthConfigFor ac scopes) w res w') :
    w' = w ∧ ((∃ e, res = .error e) ∨
      ac.encryptedClientSecret = "" ∨ ∃ p, O.opens ac.encryptedClientSecret = some p) := by
  unfold OAuthBroker.oauthConfigFor at hx
  split at hx
  · rename_i hempty
    obtain ⟨-, rfl⟩ := hx
    exact ⟨rfl, .inr (.inl hempty)⟩
  · obtain ⟨r, w₁, ⟨rfl, hr⟩, hx₁⟩ := exec_call.mp hx
    cases r with
    | error e =>
        obtain ⟨rfl, rfl⟩ := hx₁
        exact ⟨rfl, .inl ⟨_, rfl⟩⟩
    | ok secret =>
        obtain ⟨-, rfl⟩ := hx₁
        refine ⟨rfl, .inr (.inr ?_)⟩
        rcases hr with ⟨p, -, hopen⟩ | ⟨-, e, he, -⟩
        · exact ⟨p, hopen⟩
        · cases he

/-- A callback that is not ready changes nothing. -/
theorem exec_callback_waited {b : OAuthBroker} {resp : Response} (hready : ¬ CallbackReady O b r w)
    (hx : Exec (sem O faults) (b.callbackHandler r) w resp w') : Waited w w' := by
  unfold OAuthBroker.callbackHandler at hx
  split at hx
  · obtain ⟨-, rfl⟩ := hx
    exact .refl _
  · rename_i cookie hcookie
    obtain ⟨res, w₁, h₁, hx₁⟩ := exec_bind.mp hx
    obtain ⟨hwait, hflow⟩ := exec_verifyFlow h₁
    cases res with
    | error e =>
        obtain ⟨-, rfl⟩ := hx₁
        exact hwait
    | ok fs =>
        obtain ⟨hcheck, hexp⟩ := hflow fs rfl
        dsimp only at hx₁
        split at hx₁
        · obtain ⟨-, rfl⟩ := hx₁
          exact hwait
        split at hx₁
        · obtain ⟨-, rfl⟩ := hx₁
          exact hwait
        rename_i herror hstate
        obtain ⟨res, w₂, hr, hx₂⟩ := exec_call.mp hx₁
        obtain rfl : w₂ = w₁ := sem_reads rfl hr
        cases res with
        | error e =>
            obtain ⟨-, rfl⟩ := hx₂
            exact hwait
        | ok ac =>
            have hac : w₂.db.authConfigs.get? fs.vendor = some ac :=
              Sql.fetch_eq_ok.mp (sem_read_ok hr rfl).1
            rw [hwait.db] at hac
            obtain ⟨res, w₃, h₃, hx₃⟩ := exec_bind.mp hx₂
            obtain ⟨rfl, ⟨e, rfl⟩ | hopen⟩ := exec_oauthConfigFor h₃
            · obtain ⟨-, rfl⟩ := hx₃
              exact hwait
            · exact absurd ⟨cookie, fs, ac, hcookie, hcheck, hexp, not_not.mp herror,
                not_not.mp hstate, hac, hopen⟩ hready

/-! ## View-as -/

/-- The gateway's calls while the clock stays before a deadline. -/
def semBefore (O : Outside) (faults : Call → Prop) (deadline : Time) : Sem gateway World :=
  fun e w r w' ↦ sem O faults e w r w' ∧ w'.now < deadline

theorem exec_before {α : Type} {p : Code α} {a : α} {deadline : Time} (hnow : w.now < deadline)
    (hx : Exec (semBefore O faults deadline) p w a w') :
    Exec (sem O faults) p w a w' ∧ w'.now < deadline := by
  refine ⟨hx.mono fun _ _ _ _ h ↦ h.1, ?_⟩
  exact hx.frame (ρ := fun w w' ↦ w.now < deadline → w'.now < deadline) (fun _ ↦ id)
    (fun _ _ _ h h' hnow ↦ h' (h hnow)) (fun _ _ _ _ hr _ ↦ hr.2) hnow

/-- A request with a session that is valid and in view-as until a deadline, with a
target that exists. -/
structure ViewingAs (r : Request) (hash : String) (deadline : Time) (w : World) : Prop where
  session : r.session = some hash
  row : ∃ sess target real user, w.db.sessions.get? hash = some sess ∧
    w.now ≤ sess.expiresAt ∧ sess.impersonatingUserID = some target ∧
    sess.impersonationExpiresAt = some deadline ∧ w.db.users.table.get? sess.userID = some real ∧
    w.db.users.table.get? target = some user
  active : w.now < deadline

/-- The request is a connect callback that goes as far as the provider. -/
def Connects (O : Outside) (srv : Server) (r : Request) (w : World) : Prop :=
  impersonationSafeMethod r.method = true ∧ r.clean = true ∧
    r.segs = ["api", "connections", "oauth", "callback"] ∧
    ∃ b, srv.broker = some b ∧ CallbackReady O b r w

/-- Such a request is let in with the target as its effective user. -/
theorem ViewingAs.context {deadline : Time} (h : ViewingAs r hash deadline w)
    (hx : Exec (sem O faults) (loadSession r) w (.ok ctx) w') (hnow : w'.now < deadline) :
    Waited w w' ∧ ctx.impersonating = true ∧ ctx.sessionHash = hash := by
  obtain ⟨hwait, hash', sess', real', hsession, hsess', -, rfl⟩ := exec_loadSession_ok hx
  obtain ⟨sess, target, real, user, hsess, -, htarget, hexp, -, huser⟩ := h.row
  obtain rfl : hash' = hash := Option.some.inj (hsession.symm.trans h.session)
  obtain rfl : sess' = sess := Option.some.inj (hsess'.symm.trans hsess)
  have hview : viewAs w.db sess' w'.now = some user := by
    simp only [viewAs, htarget, hexp, if_pos hnow]
    exact huser
  rw [hview]
  exact ⟨hwait, rfl, rfl⟩

theorem CallbackReady.of_waited {b : OAuthBroker} (hwait : Waited w w')
    (h : CallbackReady O b r w') : CallbackReady O b r w := by
  obtain ⟨t, hle, rfl⟩ := hwait
  obtain ⟨cookie, fs, ac, hcookie, hcheck, hexp, hrest⟩ := h
  exact ⟨cookie, fs, ac, hcookie, hcheck, le_trans (unix_mono hle) hexp, hrest⟩

/-- Any other request in view-as only reads. -/
theorem viewOnly_of_not_connects {deadline : Time} (hview : ViewingAs r hash deadline w)
    (hroute : (srv.authn.bind fun a ↦ authRoutes a r) = none) (hready : ¬ Connects O srv r w)
    {resp : Response} (hx : Exec (semBefore O faults deadline) (routes srv r) w resp w') :
    ViewOnly hash w w' := by
  unfold routes at hx
  split at hx
  · obtain ⟨-, rfl⟩ := hx
    exact viewOnly_of_waited (.refl _)
  rename_i hclean
  rw [hroute] at hx
  obtain ⟨res, w₁, h₁, hx₁⟩ := exec_bind.mp hx
  obtain ⟨h₁, hnow₁⟩ := exec_before hview.active h₁
  obtain ⟨hx₁, -⟩ := exec_before hnow₁ hx₁
  cases res with
  | error resp' =>
      obtain ⟨-, rfl⟩ := hx₁
      rcases exec_loadSession_error h₁ with h | ⟨k, sess, t, -, hsess, hexp, -, rfl⟩
      · exact viewOnly_of_waited h
      · exact viewOnly_of_reaped hsess hexp
  | ok ctx =>
      obtain ⟨hwait, himp, hhash⟩ := hview.context h₁ hnow₁
      dsimp only at hx₁
      split at hx₁
      · obtain ⟨-, rfl⟩ := hx₁
        exact viewOnly_of_waited hwait
      rename_i hpass
      rw [Bool.not_eq_true] at hpass
      rcases authed_passing himp hpass with htouches | ⟨hsafe, hpath, hcode⟩ | hcode
      · exact (viewOnly_of_waited hwait).then_touches htouches hx₁
      · rw [hcode] at hx₁
        unfold handleOAuthCallback at hx₁
        split at hx₁
        · obtain ⟨-, rfl⟩ := hx₁
          exact viewOnly_of_waited hwait
        · rename_i b hb
          refine viewOnly_of_waited (hwait.trans (exec_callback_waited ?_ hx₁))
          intro hcallback
          have hmethod : r.method ≠ "CONNECT" := by
            intro h
            rw [h] at hsafe
            cases hsafe
          have hclean : r.clean = true := by simpa [hmethod] using hclean
          exact hready ⟨hsafe, hclean, hpath, b, hb, hcallback.of_waited hwait⟩
      · rw [hcode] at hx₁
        exact .after_waiting hwait (viewOnly_of_stop hhash hx₁)

/-! ### A callback that writes -/

/-- A statement that finds a row. -/
theorem semBefore_fetch {deadline : Time} {c : Sql} {a : c.Ans} (hnow : w.now < deadline)
    (hc : c.apply w.db = (.ok a, w.db)) : semBefore O faults deadline (.sql c) w (.ok a) w :=
  ⟨.inl ⟨by rw [hc], by rw [hc]⟩, hnow⟩

theorem semBefore_now {deadline : Time} (hnow : w.now < deadline) :
    semBefore O faults deadline .now w w.now w := ⟨⟨le_refl _, rfl⟩, hnow⟩

theorem fetch_some {α : Type} {e : Err} {o : Option α} {a : α} (h : o = some a) (db : Database) :
    (Sql.fetch e o, db) = (.ok a, db) := by
  rw [Sql.fetch_eq_ok.mpr h]

theorem ViewingAs.loads {deadline : Time} (h : ViewingAs r hash deadline w) :
    ∃ ctx, Exec (semBefore O faults deadline) (loadSession r) w (.ok ctx) w := by
  obtain ⟨sess, target, real, user, hsess, hlive, htarget, hexp, hreal, huser⟩ := h.row
  have hget : Exec (semBefore O faults deadline) (getSession hash) w (.ok sess) w := by
    refine exec_call.mpr ⟨_, w, semBefore_fetch h.active (fetch_some hsess _), ?_⟩
    refine exec_call.mpr ⟨_, w, semBefore_now h.active, ?_⟩
    rw [if_neg (not_lt.mpr hlive)]
    exact ⟨rfl, rfl⟩
  refine ⟨⟨real, user, hash, true⟩, ?_⟩
  unfold loadSession
  rw [h.session]
  refine exec_bind.mpr ⟨_, w, hget, ?_⟩
  refine exec_call.mpr ⟨_, w, semBefore_fetch h.active (fetch_some hreal _), ?_⟩
  simp only [loadEffective, htarget, hexp]
  refine exec_call.mpr ⟨_, w, semBefore_now h.active, ?_⟩
  rw [if_pos h.active]
  exact ⟨_, w, semBefore_fetch h.active (fetch_some huser _), rfl, rfl⟩

/-- A provider can always grant a token that expires at another time than a row says. -/
theorem exists_other_expiry (row : Option ConnectedAccount) :
    ∃ t : Time, ∀ a, row = some a → a.expiresAt ≠ t.throughColumn := by
  cases row with
  | none => exact ⟨0, fun a h ↦ nomatch h⟩
  | some a =>
      by_cases ha : a.expiresAt = Time.throughColumn 0
      · refine ⟨Time.second, fun a' h ↦ ?_⟩
        cases h
        rw [ha]
        decide
      · refine ⟨0, fun a' h ↦ ?_⟩
        cases h
        exact ha

theorem putConnectedAccount_expiresAt (db : Database) (c : ConnectedAccount) :
    ∃ row, ((Sql.putConnectedAccount c).apply db).2.connectedAccounts.get? c.key = some row ∧
      row.expiresAt = c.expiresAt.throughColumn := by
  refine ⟨_, (Table.get?_upsert _ _ _ _ _).trans (if_pos rfl), ?_⟩
  generalize db.connectedAccounts.get? _ = before
  cases before with
  | none => rfl
  | some s => rfl

theorem exec_callback_writes {b : OAuthBroker} {deadline : Time} (hnow : w.now < deadline)
    (hvault : ∀ p, ∃ box, O.opens box = some p) (hready : CallbackReady O b r w) :
    ∃ resp w', Exec (semBefore O faults deadline) (b.callbackHandler r) w resp w' ∧
      w'.db.connectedAccounts ≠ w.db.connectedAccounts := by
  obtain ⟨cookie, fs, ac, hcookie, hcheck, hexp, herror, hstate, hac, hsecret⟩ := hready
  obtain ⟨expiry, hexpiry⟩ :=
    exists_other_expiry (w.db.connectedAccounts.get? (fs.userID, fs.vendor))
  obtain ⟨encRefresh, hrefresh⟩ := hvault "refresh"
  obtain ⟨encAccess, haccess⟩ := hvault "access"
  have hflow : Exec (semBefore O faults deadline) (b.verifyFlow cookie) w (.ok fs) w := by
    unfold OAuthBroker.verifyFlow
    rw [hcheck]
    refine exec_call.mpr ⟨_, w, semBefore_now hnow, ?_⟩
    rw [if_neg (not_lt.mpr hexp)]
    exact ⟨rfl, rfl⟩
  have hconf : ∃ conf, Exec (semBefore O faults deadline) (b.oauthConfigFor ac fs.scopes) w
      (.ok conf) w := by
    unfold OAuthBroker.oauthConfigFor
    split
    · exact ⟨_, rfl, rfl⟩
    · rename_i hne
      obtain ⟨p, hp⟩ := hsecret.resolve_left hne
      exact ⟨_, .ok p, w, ⟨⟨rfl, .inl ⟨p, rfl, hp⟩⟩, hnow⟩, rfl, rfl⟩
  obtain ⟨conf, hconf⟩ := hconf
  let tok : OAuthToken := ⟨"access", "refresh", expiry, none⟩
  let row : ConnectedAccount :=
    ⟨fs.userID, fs.vendor, encRefresh, encAccess, expiry, OAuthBroker.grantedScopes fs tok⟩
  let w₁ : World := { w with db := ((Sql.putConnectedAccount row).apply w.db).2 }
  have hstore : ∃ resp, Exec (semBefore O faults deadline) (OAuthBroker.storeAccount fs tok) w
      resp w₁ :=
    ⟨_, .ok encRefresh, w, ⟨⟨rfl, .inl ⟨_, rfl, hrefresh⟩⟩, hnow⟩,
      .ok encAccess, w, ⟨⟨rfl, .inl ⟨_, rfl, haccess⟩⟩, hnow⟩,
      .ok (), w₁, ⟨.inl ⟨rfl, rfl⟩, hnow⟩, rfl, rfl⟩
  obtain ⟨resp, hstore⟩ := hstore
  refine ⟨resp, w₁, ?_, ?_⟩
  · unfold OAuthBroker.callbackHandler
    rw [hcookie]
    refine exec_bind.mpr ⟨_, w, hflow, ?_⟩
    dsimp only
    rw [if_neg (not_not.mpr herror), if_neg (not_not.mpr hstate)]
    refine exec_call.mpr ⟨_, w, semBefore_fetch hnow (fetch_some hac _), ?_⟩
    refine exec_bind.mpr ⟨_, w, hconf, ?_⟩
    refine exec_call.mpr ⟨.ok tok, w, ⟨⟨rfl, fun e h ↦ nomatch h⟩, hnow⟩, ?_⟩
    dsimp only
    have hrefresh : tok.refreshToken ≠ "" := (by decide : "refresh" ≠ "")
    rw [if_neg hrefresh]
    exact hstore
  · intro hsame
    obtain ⟨stored, hget, hstored⟩ := putConnectedAccount_expiresAt w.db row
    have hget : w₁.db.connectedAccounts.get? (fs.userID, fs.vendor) = some stored := hget
    rw [hsame] at hget
    exact hexpiry stored hget hstored

theorem exists_write_of_connects {deadline : Time} (hview : ViewingAs r hash deadline w)
    (hroute : (srv.authn.bind fun a ↦ authRoutes a r) = none)
    (hvault : ∀ p, ∃ box, O.opens box = some p) (hconnects : Connects O srv r w) :
    ∃ resp w', Exec (semBefore O faults deadline) (routes srv r) w resp w' ∧
      w'.db.connectedAccounts ≠ w.db.connectedAccounts := by
  obtain ⟨hsafe, hclean, hpath, b, hb, hready⟩ := hconnects
  obtain ⟨ctx, hload⟩ := hview.loads (O := O)
  obtain ⟨resp, w', hx, hne⟩ := exec_callback_writes hview.active hvault hready
  refine ⟨resp, w', ?_, hne⟩
  unfold routes
  rw [if_neg (by simp [hclean]), hroute]
  refine exec_bind.mpr ⟨_, w, hload, ?_⟩
  have hpass : blocked ctx r = false := by simp [blocked, hsafe]
  have hmatch : methodMatches "GET" r = true := by
    simp only [impersonationSafeMethod, Bool.or_eq_true, decide_eq_true_eq] at hsafe
    rcases hsafe with h | h
    · simp [methodMatches, h]
    · simp [methodMatches, h]
  have hcode : authed srv r ctx = handleOAuthCallback srv r := by
    rw [authed_eq hpath rfl rfl, if_pos hmatch]
  dsimp only
  rw [if_neg (by simp [hpass]), hcode, handleOAuthCallback, hb]
  exact hx

/-- A request in view-as changes nothing but by appending audit rows, ending its own
impersonation and reaping expired sessions, exactly when it is not a connect callback that
goes as far as the provider. -/
theorem view_as_read_only {deadline : Time} (hview : ViewingAs r hash deadline w)
    (hroute : (srv.authn.bind fun a ↦ authRoutes a r) = none)
    (hvault : ∀ p, ∃ box, O.opens box = some p) :
    (∀ resp w', Exec (semBefore O faults deadline) (routes srv r) w resp w' →
        ViewOnly hash w w') ↔ ¬ Connects O srv r w := by
  constructor
  · intro hall hconnects
    obtain ⟨resp, w', hx, hne⟩ := exists_write_of_connects hview hroute hvault hconnects
    exact hne ((hall resp w' hx).tbl .connectedAccounts (by decide) (by decide))
  · intro hready resp w' hx
    exact viewOnly_of_not_connects hview hroute hready hx

namespace Example.Connect

/-- The admin Alice sets up a vendor and starts to look at the gateway as Bob, who is
user 2. -/
def requests : List Request :=
  [Local.login "alice:admin", Local.login "bob:user",
    { Local.request "PUT" ["auth-configs", "github"] (some "hash0") with
      body := .putAuthConfig ⟨"https://a", "https://t", "id", "", [], true, "byo"⟩ },
    { Local.request "POST" ["admin", "impersonate"] (some "hash0") with
      body := .impersonate 2 0 }]

def viewing : World := Local.after requests (.boot .fresh 0)

def deadline : Time := 3600 * Time.second

/-- The callback of a connect flow, in Alice's browser. -/
def callback : Request :=
  { Local.request "GET" ["connections", "oauth", "callback"] (some "hash0") with
    query := [("state", "state"), ("code", "code")], oauthFlow := some "flow" }

def connected : World := Local.partners.after (routes Local.server callback) viewing

theorem viewingAs {r : Request} (h : r.session = some "hash0") :
    ViewingAs r "hash0" deadline viewing where
  session := h
  row := by
    refine ⟨⟨"hash0", 1, 0, 1000 * Time.second, some 2, some deadline⟩, 2,
      ⟨1, "idp", "alice", "alice", "alice", .admin, 0, 0⟩,
      ⟨2, "idp", "bob", "bob", "bob", .user, 0, 0⟩, rfl, ?_, rfl, rfl, rfl, rfl⟩
    decide
  active := by decide

theorem vault_seals (p : String) : ∃ box, Partners.outside.opens box = some p :=
  ⟨Partners.vaultSeal p, Partners.vaultOpen_vaultSeal p⟩

end Example.Connect

open Example.Connect in
/-- The list of apps, as Bob sees it. -/
theorem view_as_read_only_apps :
    ViewingAs (Local.request "GET" ["apps"] (some "hash0")) "hash0" deadline viewing ∧
      ∀ resp w', Exec (semBefore Partners.outside (fun _ ↦ True) deadline)
          (routes Local.server (Local.request "GET" ["apps"] (some "hash0"))) viewing resp w' →
        ViewOnly "hash0" viewing w' := by
  refine ⟨viewingAs rfl, (view_as_read_only (viewingAs rfl) rfl vault_seals).mpr ?_⟩
  rintro ⟨-, -, hpath, -⟩
  exact absurd hpath (by decide)

open Example.Connect in
/-- The callback stores an account for Bob while Alice is in view-as. -/
theorem view_as_connects_account :
    ViewingAs callback "hash0" deadline viewing ∧
      (∃ resp, Exec (sem Partners.outside fun _ ↦ False) (routes Local.server callback) viewing
        resp connected) ∧
      connected.now < deadline ∧ viewing.db.connectedAccounts.get? (2, "github") = none ∧
      connected.db.connectedAccounts.get? (2, "github") =
        some ⟨2, "github", "#refresh", "#access", 0, []⟩ :=
  ⟨viewingAs rfl, Local.partners.exec_after rfl _, by decide, rfl, rfl⟩

end GigMcp.Api
