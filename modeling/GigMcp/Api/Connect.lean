import GigMcp.Api.Announce

/-!
# Whose account a connect flow stores

The user of a connect flow is fixed when the flow is started, from the effective user of that
request, and travels in the signed cookie.  The callback stores the account of that user.  It runs
behind the session middleware as well, but does not look at whose session it is.

`connect_stores_own` is about every run of the control plane in which flows are not started in
view-as, and a cookie comes back with a session of the user it was set for.
-/

namespace GigMcp.Api

open GigMcp.Effect GigMcp.System GigMcp.Store GigMcp.Http GigMcp.Auth GigMcp.Data

variable {O : Outside} {faults : Call → Prop} {srv : Server} {b : OAuthBroker} {r : Request}
  {w w' : World} {resp : Response} {t : List (Event gateway)}

/-- The user of the session that a request comes with. -/
def owner (w : World) (r : Request) : Option Int64 :=
  (r.session.bind w.db.sessions.get?).map Session.userID

def startPath : List String := ["api", "connections", "oauth", "start"]

def callbackPath : List String := ["api", "connections", "oauth", "callback"]

/-! ## Behind the session middleware -/

/-- A request outside the login flow is turned away without a cookie, or it is let in. -/
theorem traced_inner {segs : List String} (hpath : r.segs = "api" :: "connections" :: segs)
    (hx : Traced (sem O faults) (routes srv r) w t resp w') :
    resp.cookies = [] ∧ (∀ x ∈ t, Lookup x.1) ∨
      ∃ ctx w₁ t₁ t₂, t = t₁ ++ t₂ ∧ (∀ x ∈ t₁, Lookup x.1) ∧
        Exec (sem O faults) (loadSession r) w (.ok ctx) w₁ ∧
        Traced (sem O faults) (authed srv r ctx) w₁ t₂ resp w' := by
  have hauth : (srv.authn.bind fun a ↦ authRoutes a r) = none := by
    refine Option.bind_eq_none_iff.mpr fun a _ ↦ ?_
    simp [authRoutes, hpath]
  unfold routes at hx
  split at hx
  · obtain ⟨rfl, rfl, -⟩ := hx
    exact .inl ⟨rfl, List.forall_mem_nil _⟩
  rw [hauth] at hx
  obtain ⟨res, w₁, t₁, t₂, hload, rfl, hx⟩ := traced_bind.mp hx
  have hlookup := hload.all (loadSession_lookup r)
  cases res with
  | error resp' =>
      obtain ⟨rfl, rfl, -⟩ := hx
      rw [List.append_nil]
      exact .inl ⟨(loadSession_plain r).exec hload.exec, hlookup⟩
  | ok ctx =>
      dsimp only at hx
      split at hx
      · obtain ⟨rfl, rfl, -⟩ := hx
        rw [List.append_nil]
        exact .inl ⟨rfl, hlookup⟩
      · exact .inr ⟨ctx, w₁, t₁, t₂, rfl, hlookup, hload.exec, hx⟩

/-- Who is let in. -/
theorem owner_of_loadSession {ctx : Ctx} {w₁ : World}
    (hx : Exec (sem O faults) (loadSession r) w (.ok ctx) w₁) :
    ∃ hash sess, r.session = some hash ∧ w.db.sessions.get? hash = some sess ∧
      owner w r = some sess.userID ∧
      (¬ Impersonates w.now sess → ctx.effective.id = sess.userID) := by
  obtain ⟨⟨t, hle, rfl⟩, hash, sess, real, hsession, hrow, hreal, rfl⟩ := exec_loadSession_ok hx
  refine ⟨hash, sess, hsession, hrow, by simp [owner, hsession, hrow], fun hnot ↦ ?_⟩
  have hview : viewAs w.db sess t = none := by
    unfold viewAs
    split
    · rename_i target expiresAt htarget hexp
      refine if_neg fun hlt ↦ hnot ?_
      exact ⟨target, expiresAt, htarget, hexp, lt_of_le_of_lt hle hlt⟩
    · rfl
  rw [hview]
  exact Table.key_of_get? hreal

/-! ## The start of a flow -/

/-- The cookies that a start sets. -/
def Signs (b : OAuthBroker) (r : Request) (user : Int64) (resp : Response) : Prop :=
  ∀ v, OAuthBroker.setFlowCookie v 600 ∈ resp.cookies →
    ∃ fs, b.flow.sign fs = .ok v ∧ fs.userID = user ∧ fs.vendor = r.queryGet "vendor"

theorem signs_of_plain {user : Int64} (h : resp.cookies = []) : Signs b r user resp := by
  intro v hv
  rw [h] at hv
  cases hv

theorem startHandler_signs (user : Int64) (required : List String) (returnTo : String) :
    Returns (Signs b r user) (b.startHandler r user required returnTo) := by
  unfold OAuthBroker.startHandler
  dsimp only
  split
  · exact signs_of_plain rfl
  refine Returns.except (fun e ↦ ?_) fun ac ↦ ?_
  · dsimp only
    split
    · exact signs_of_plain rfl
    · exact signs_of_plain rfl
  refine Returns.except (fun _ ↦ signs_of_plain rfl) fun conf ↦ ?_
  refine Returns.except (fun _ ↦ signs_of_plain rfl) fun state ↦ ?_
  refine Returns.bind fun pkce ↦ Returns.bind fun t ↦ ?_
  split
  · exact signs_of_plain rfl
  · rename_i signed hsigned
    intro v hv
    obtain rfl : v = signed := by
      simpa [OAuthBroker.setFlowCookie] using List.mem_singleton.mp hv
    exact ⟨_, hsigned, rfl, rfl⟩

theorem authed_signs (hpath : r.segs = startPath) (hb : srv.broker = some b) (ctx : Ctx) :
    Returns (Signs b r ctx.effective.id) (authed srv r ctx) := by
  rw [authed_eq hpath rfl rfl]
  split
  · unfold handleOAuthStart
    rw [hb]
    dsimp only
    split
    · exact signs_of_plain rfl
    split
    · exact signs_of_plain rfl
    · exact Returns.bind fun required ↦ Returns.bind fun _ ↦ startHandler_signs _ _ _
  · exact signs_of_plain rfl

/-! ## The callback -/

/-- The accounts that a callback stores. -/
def Stores (b : OAuthBroker) (r : Request) : Call → Prop
  | .sql (.putConnectedAccount acct) =>
      ∃ v fs, r.oauthFlow = some v ∧ b.flow.check v = .ok fs ∧ acct.userID = fs.userID ∧
        acct.vendor = fs.vendor
  | _ => True

theorem stores_of_lookup {e : Call} (h : Lookup e) : Stores b r e := by
  cases h with
  | _ => trivial

theorem oauthConfigFor_stores (ac : AuthConfig) (scopes : List String) :
    All (Stores b r) (b.oauthConfigFor ac scopes) := by
  unfold OAuthBroker.oauthConfigFor
  split
  · exact all_ret
  · exact All.except (all_call_iff.mpr trivial) (fun _ ↦ all_ret) fun _ ↦ all_ret

theorem storeAccount_stores {v : String} {fs : OAuthFlowState} (hcookie : r.oauthFlow = some v)
    (hcheck : b.flow.check v = .ok fs) (tok : OAuthToken) :
    All (Stores b r) (OAuthBroker.storeAccount fs tok) := by
  refine All.except (all_call_iff.mpr trivial) (fun _ ↦ all_ret) fun encRefresh ↦ ?_
  refine All.except (all_call_iff.mpr trivial) (fun _ ↦ all_ret) fun encAccess ↦ ?_
  refine All.except (all_call_iff.mpr ?_) (fun _ ↦ all_ret) fun _ ↦ all_ret
  exact ⟨v, fs, hcookie, hcheck, rfl, rfl⟩

theorem verifyFlow_stores (v : String) : All (Stores b r) (b.verifyFlow v) := by
  unfold OAuthBroker.verifyFlow
  split
  · exact all_ret
  · refine all_call.mpr ⟨trivial, fun t ↦ ?_⟩
    split
    · exact all_ret
    · exact all_ret

theorem verifyFlow_returns (v : String) :
    Returns (fun res ↦ ∀ fs, res = .ok fs → b.flow.check v = .ok fs) (b.verifyFlow v) := by
  unfold OAuthBroker.verifyFlow
  split
  · rintro fs ⟨⟩
  · rename_i fs hcheck
    refine Returns.bind fun t ↦ ?_
    split
    · rintro fs' ⟨⟩
    · rintro fs' ⟨⟩
      exact hcheck

theorem callbackHandler_stores : All (Stores b r) (b.callbackHandler r) := by
  unfold OAuthBroker.callbackHandler
  split
  · exact all_ret
  rename_i v hcookie
  refine (verifyFlow_stores v).bind_returns (verifyFlow_returns v) fun res hres ↦ ?_
  cases res with
  | error e => exact all_ret
  | ok fs =>
      have hcheck := hres fs rfl
      dsimp only
      split
      · exact all_ret
      split
      · exact all_ret
      refine All.except (all_call_iff.mpr trivial) (fun _ ↦ all_ret) fun ac ↦ ?_
      refine (oauthConfigFor_stores _ _).except (fun _ ↦ all_ret) fun conf ↦ ?_
      refine All.except (all_call_iff.mpr trivial) (fun _ ↦ all_ret) fun tok ↦ ?_
      dsimp only
      split
      · exact all_ret
      · exact storeAccount_stores hcookie hcheck tok

theorem authed_stores (hpath : r.segs = callbackPath) (hb : srv.broker = some b) (ctx : Ctx) :
    All (Stores b r) (authed srv r ctx) := by
  rw [authed_eq hpath rfl rfl]
  split
  · rw [handleOAuthCallback, hb]
    exact callbackHandler_stores
  · exact all_ret

/-! ## Runs -/

variable {n : Nat}

/-- A request of a run has started a flow: it was answered with the cookie of the signed state. -/
def StartsFlow (b : OAuthBroker) (run : Runs (sem O faults) srv n) (j : Nat) (fs : OAuthFlowState) :
    Prop :=
  j < n ∧ (run.request j).segs = startPath ∧ ∃ resp v,
    Traced (sem O faults) (routes srv (run.request j)) (run.world j) (run.trace j) resp
      (run.world (j + 1)) ∧
    OAuthBroker.setFlowCookie v 600 ∈ resp.cookies ∧ b.flow.sign fs = .ok v

/-- Cookies are not forged: a signed cookie is read back as the state that it was made for, and a
cookie that a callback comes with and that checks out is that of a flow started before. -/
structure Sealed (b : OAuthBroker) (run : Runs (sem O faults) srv n) : Prop where
  reads : ∀ fs v, b.flow.sign fs = .ok v → b.flow.check v = .ok fs
  signed : ∀ i < n, ∀ v fs, (run.request i).oauthFlow = some v → b.flow.check v = .ok fs →
    ∃ j < i, StartsFlow b run j fs

/-- The condition on a run: no flow is started in view-as, and the cookie of a flow comes back
with a session of the user whose session it was started in. -/
structure Personal (b : OAuthBroker) (run : Runs (sem O faults) srv n) : Prop where
  start : ∀ j < n, (run.request j).segs = startPath → ∀ hash sess,
    (run.request j).session = some hash → (run.world j).db.sessions.get? hash = some sess →
    ¬ Impersonates (run.world j).now sess
  callback : ∀ i < n, (run.request i).segs = callbackPath → ∀ v fs,
    (run.request i).oauthFlow = some v → b.flow.check v = .ok fs →
    ∀ j < i, StartsFlow b run j fs →
      owner (run.world i) (run.request i) = owner (run.world j) (run.request j)

/-- A callback of a run has stored an account of its own user, who has started the flow for the
vendor. -/
def StoresOwn (b : OAuthBroker) (run : Runs (sem O faults) srv n) (i : Nat) (user : Int64)
    (vendor : String) : Prop :=
  owner (run.world i) (run.request i) = some user ∧
    ∃ j < i, ∃ fs, StartsFlow b run j fs ∧ (run.request j).queryGet "vendor" = vendor ∧
      owner (run.world j) (run.request j) = some user

/-- Whose flow was started. -/
theorem StartsFlow.owner {run : Runs (sem O faults) srv n} {j : Nat} {fs : OAuthFlowState}
    (h : StartsFlow b run j fs) (hb : srv.broker = some b) (hsealed : Sealed b run)
    (hpersonal : Personal b run) :
    owner (run.world j) (run.request j) = some fs.userID ∧
      (run.request j).queryGet "vendor" = fs.vendor := by
  obtain ⟨hj, hpath, resp, v, hx, hcookie, hsign⟩ := h
  rcases traced_inner hpath hx with ⟨hplain, -⟩ | ⟨ctx, w₁, t₁, t₂, -, -, hload, hx₁⟩
  · rw [hplain] at hcookie
    cases hcookie
  · obtain ⟨fs', hsign', huser, hvendor⟩ := (authed_signs hpath hb ctx).exec hx₁.exec v hcookie
    -- The cookie is that of one state only.
    obtain rfl : fs' = fs :=
      Except.ok.inj ((hsealed.reads fs' v hsign').symm.trans (hsealed.reads fs v hsign))
    obtain ⟨hash, sess, hsession, hrow, howner, heffective⟩ := owner_of_loadSession hload
    have hnot := hpersonal.start j hj hpath hash sess hsession hrow
    rw [howner, huser, heffective hnot]
    exact ⟨rfl, hvendor.symm⟩

/-- **An account is stored for the session's own user** in every run that meets the condition. -/
theorem connect_stores_own {run : Runs (sem O faults) srv n} (hb : srv.broker = some b)
    (hsealed : Sealed b run) (hpersonal : Personal b run) {i : Nat} (hi : i < n)
    (hpath : (run.request i).segs = callbackPath) {acct : ConnectedAccount} {res : Except Err Unit}
    (hput : (⟨.sql (.putConnectedAccount acct), res⟩ : Event gateway) ∈ run.trace i) :
    StoresOwn b run i acct.userID acct.vendor := by
  obtain ⟨resp, hx⟩ := run.served i hi
  obtain ⟨v, fs, hcookie, hcheck, huser, hvendor⟩ : Stores b (run.request i)
      (.sql (.putConnectedAccount acct)) := by
    rcases traced_inner hpath hx with ⟨-, hlookup⟩ | ⟨ctx, w₁, t₁, t₂, ht, hlookup, -, hx₁⟩
    · exact stores_of_lookup (hlookup _ hput)
    · rw [ht] at hput
      rcases List.mem_append.mp hput with hput | hput
      · exact stores_of_lookup (hlookup _ hput)
      · exact hx₁.all (authed_stores hpath hb ctx) _ hput
  obtain ⟨j, hji, hstarts⟩ := hsealed.signed i hi v fs hcookie hcheck
  obtain ⟨howner, hquery⟩ := hstarts.owner hb hsealed hpersonal
  have hsame := hpersonal.callback i hi hpath v fs hcookie hcheck j hji hstarts
  rw [huser, hvendor]
  exact ⟨hsame.trans howner, j, hji, fs, hstarts, hquery, howner⟩

namespace Example.Own

/-- Alice and Bob have logged in, and Alice has set up a vendor. -/
def ready : World := Local.after
  [Local.login "alice:admin", Local.login "bob:user",
    { Local.request "PUT" ["auth-configs", "github"] (some "hash0") with
      body := .putAuthConfig ⟨"https://a", "https://t", "id", "", [], true, "byo"⟩ }]
  (.boot .fresh 0)

/-- The flow that Alice starts. -/
def flow : OAuthFlowState :=
  ⟨"random", "verifier", "github", 1, "/connected-accounts", [], 600⟩

/-- A codec for this flow. -/
def broker : OAuthBroker where
  flow := ⟨fun fs ↦ if fs = flow then .ok "signed" else .error (.new "not signed"), fun v ↦
    if v = "signed" then .ok flow else .error (.new "bad oauth flow cookie signature")⟩
  redirect := ""
  authCodeURL := fun _ _ _ ↦ ""

def server : Server := { Local.server with broker := some broker }

def start : Request :=
  { Local.request "GET" ["connections", "oauth", "start"] (some "hash0") with
    query := [("vendor", "github")] }

/-- The callback of the flow, with some session. -/
def callback (hash : String) : Request :=
  { Local.request "GET" ["connections", "oauth", "callback"] (some hash) with
    query := [("state", "random"), ("code", "code")], oauthFlow := some "signed" }

def served (r : Request) (w : World) : Option (List (Event gateway) × Response × World) :=
  record Local.partners.answer (routes server r) w

def started : World := ((served start ready).get rfl).2.2

/-- Alice starts the flow, and the cookie comes back with a session. -/
def comesBack (hash : String) (h : (served (callback hash) started).isSome) :
    Runs (sem Partners.outside fun _ ↦ False) server 2 where
  world i := if i = 0 then ready else if i = 1 then started
    else ((served (callback hash) started).get h).2.2
  request i := if i = 0 then start else callback hash
  trace i := if i = 0 then ((served start ready).get rfl).1
    else ((served (callback hash) started).get h).1
  served i hi := by
    have hR := fun e w r w' (h : Local.partners.answer e w = some (r, w')) ↦
      Local.partners.answer_sem h fun _ ↦ False
    rcases i with _ | _ | i
    · exact ⟨_, traced_record hR (Option.some_get (rfl : (served start ready).isSome)).symm⟩
    · exact ⟨_, traced_record hR (Option.some_get h).symm⟩
    · omega

variable {hash : String} {h : (served (callback hash) started).isSome}

theorem starts_comesBack : StartsFlow broker (comesBack hash h) 0 flow := by
  refine ⟨by decide, rfl, ((served start ready).get rfl).2.1, "signed", ?_, .head _, rfl⟩
  exact traced_record (fun e w r w' h ↦ Local.partners.answer_sem h _)
    (Option.some_get (rfl : (served start ready).isSome)).symm

theorem sealed_comesBack : Sealed broker (comesBack hash h) where
  reads fs v hsign := by
    dsimp only [broker] at hsign
    split at hsign
    · rename_i hfs
      cases hsign
      rw [hfs]
      rfl
    · cases hsign
  signed i hi v fs hcookie hcheck := by
    rcases i with _ | _ | i
    · cases hcookie
    · cases hcookie
      cases hcheck
      exact ⟨0, Nat.zero_lt_one, starts_comesBack⟩
    · omega

def account : ConnectedAccount := ⟨1, "github", "#refresh", "#access", 0, []⟩

end Example.Own

open Example.Own in
/-- Alice starts a flow and comes back with it. -/
theorem connect_stores_own_alice :
    ∃ run : Runs (sem Partners.outside fun _ ↦ False) server 2,
      (⟨.sql (.putConnectedAccount account), .ok ()⟩ : Event gateway) ∈ run.trace 1 ∧
        StoresOwn broker run 1 1 "github" := by
  have hput : (⟨.sql (.putConnectedAccount account), .ok ()⟩ : Event gateway) ∈
      (comesBack "hash0" rfl).trace 1 := List.mem_of_getElem? (i := 8) rfl
  refine ⟨comesBack "hash0" rfl, hput, ?_⟩
  refine connect_stores_own rfl sealed_comesBack ⟨?_, ?_⟩ (by decide) rfl hput
  · intro j hj hpath hash sess hsession hrow
    rcases j with _ | _ | j
    · cases hsession
      cases hrow
      rintro ⟨target, expiresAt, htarget, -⟩
      cases htarget
    · exact absurd hpath (by decide)
    · omega
  · intro i hi hpath v fs hcookie hcheck j hji hstarts
    rcases i with _ | _ | i
    · omega
    · obtain rfl := Nat.lt_one_iff.mp hji
      rfl
    · omega

open Example.Own in
/-- Alice starts a flow, the cookie comes back with Bob's session, and the account is stored for
Alice. -/
theorem connect_stores_other :
    ∃ run : Runs (sem Partners.outside fun _ ↦ False) server 2, Sealed broker run ∧
      (run.request 1).segs = callbackPath ∧
      (⟨.sql (.putConnectedAccount account), .ok ()⟩ : Event gateway) ∈ run.trace 1 ∧
      owner (run.world 1) (run.request 1) = some 2 ∧
      ¬ StoresOwn broker run 1 account.userID account.vendor := by
  refine ⟨comesBack "hash1" rfl, sealed_comesBack, rfl, List.mem_of_getElem? (i := 8) rfl, rfl, ?_⟩
  rintro ⟨howner, -⟩
  have hbob : owner started (callback "hash1") = some 2 := rfl
  exact absurd (hbob.symm.trans howner) (by decide)

end GigMcp.Api
