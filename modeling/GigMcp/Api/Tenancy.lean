import GigMcp.Api.Actions
import GigMcp.Api.Serve
import GigMcp.Data.View
import GigMcp.Effect.Pool

/-!
# Whose rows a request writes

Any number of requests are served side by side, their calls interleaving with each other and with
the rest of the gateway.  A request of a user without the admin role leaves every row that belongs
to somebody else as it is: `Untouched` says so of one call, for each table of the store.

Most statements name the user they act for.  Those on a profile name its id only.  A handler has
read the profile before, and found that the user owns it; the request's record keeps what was read.
Between the read and the write others may have deleted the profile, but its id is never given to
another one and a profile never changes its owner, so what was read stays true (`Owned`).
-/

namespace GigMcp.Api.Tenancy

open GigMcp.Effect GigMcp.System GigMcp.Store GigMcp.Http GigMcp.Auth GigMcp.Data

/-! ## Rows of others -/

/-- Between two states of the store, only rows of the user `u` have changed, and the audit rows
that came to it are of `real`. -/
structure Untouched (u real : Int64) (db db' : Database) : Prop where
  servers : db'.servers = db.servers
  manifests : db'.manifests = db.manifests
  disabledTools : db'.disabledTools = db.disabledTools
  users : db'.users = db.users
  sessions : db'.sessions = db.sessions
  authConfigs : db'.authConfigs = db.authConfigs
  credentials : ∀ k, k.2 ≠ userTenant u → db'.credentials.get? k = db.credentials.get? k
  connectedAccounts : ∀ k, k.1 ≠ u → db'.connectedAccounts.get? k = db.connectedAccounts.get? k
  userInstalls : ∀ k, k.1 ≠ u → db'.userInstalls.get? k = db.userInstalls.get? k
  userDisabledTools : ∀ k, k.1 ≠ u → db'.userDisabledTools.get? k = db.userDisabledTools.get? k
  profiles : ∀ p, p.userID ≠ u → (p ∈ db'.profiles.table.rows ↔ p ∈ db.profiles.table.rows)
  profileServers : ∀ s, (∃ p ∈ db.profiles.table.rows, p.id = s.1 ∧ p.userID ≠ u) →
    (s ∈ db'.profileServers.rows ↔ s ∈ db.profileServers.rows)
  audit : ∃ es, db'.audit.table.rows = db.audit.table.rows ++ es ∧ ∀ e ∈ es, e.userID = some real

variable {u real : Int64} {db : Database}

theorem Untouched.refl (u real : Int64) (db : Database) : Untouched u real db db where
  servers := rfl
  manifests := rfl
  disabledTools := rfl
  users := rfl
  sessions := rfl
  authConfigs := rfl
  credentials := fun _ _ ↦ rfl
  connectedAccounts := fun _ _ ↦ rfl
  userInstalls := fun _ _ ↦ rfl
  userDisabledTools := fun _ _ ↦ rfl
  profiles := fun _ _ ↦ Iff.rfl
  profileServers := fun _ _ ↦ Iff.rfl
  audit := ⟨[], (List.append_nil _).symm, List.forall_mem_nil _⟩

/-! ## What a request may call -/

/-- The profiles a request has read: their ids and their owners. -/
abbrev Record := List (Int64 × Int64)

def Record.noted (g : Record) : (c : Sql) → Except Err c.Ans → Record
  | .getProfileByID _, .ok p => (p.id, p.userID) :: g
  | _, _ => g

def Record.track : (e : Call) → Record → e.Res → Record
  | .sql c, g, r => g.noted c r
  | _, g, _ => g

/-- A profile has the owner that was read, or is gone for good. -/
def Owned (db : Database) (x : Int64 × Int64) : Prop :=
  x.1.toInt ≤ db.profiles.seq ∧ ∀ p, db.profiles.table.get? x.1 = some p → p.userID = x.2

/-- A statement that only writes what belongs to the effective user. -/
def ConfinedSql (ctx : Ctx) (g : Record) : Sql → Prop
  | .putCredential c => c.tenant = userTenant ctx.effective.id
  | .deleteCredential _ tenant => tenant = userTenant ctx.effective.id
  | .createProfile _ _ userID _ _ => userID = ctx.effective.id
  | .updateProfileName pid _ | .setProfileToken pid _ | .deleteProfile pid
  | .setProfileServers pid _ => (pid, ctx.effective.id) ∈ g
  | .putConnectedAccount c => c.userID = ctx.effective.id
  | .deleteConnectedAccount userID _ | .installForUser userID _ _
  | .deleteOwnProfileServers userID _ | .deleteOwnDisabledTools userID _
  | .deleteOwnInstall userID _ | .setUserToolEnabled userID _ _ _ => userID = ctx.effective.id
  | .appendAudit e => e.userID = some ctx.real.id
  | c => c.Reads = true

/-- A call that only bears on what belongs to the effective user. -/
def Confined (ctx : Ctx) : Call → Record → Prop
  | .sql c, g => ConfinedSql ctx g c
  | .takeRuntime pid, g => (pid, ctx.effective.id) ∈ g
  | .enter _, _ | .commit .., _ | .closeChan _, _ | .takeAll, _ | .spawn .., _ => False
  | _, _ => True

variable {O : Outside} {faults : Call → Prop} {w w' : World} {ctx : Ctx} {g : Record}

section Conducts

variable {srv : Server} {r : Request} {α : Type}

/-- The program keeps to calls that only bear on what belongs to the effective user. -/
abbrev Conducts (ctx : Ctx) (p : Code α) (g : Record) : Prop :=
  Conforms (S := gateway) Record.track (Confined ctx) (fun _ _ ↦ True) p g

theorem reads_of_writes {c : Sql} (h : c.writes ⊆ []) : c.Reads = true := by
  cases c <;> first | rfl | exact absurd (List.subset_nil.mp h) (List.cons_ne_nil _ _)

/-- A program that writes nothing. -/
theorem conducts_of_touches {p : Code α} (hp : All (Touches []) p) : Conducts ctx p g := by
  refine Conforms.of_all_pre (fun e g he ↦ ?_) hp
  cases e with
  | sql c =>
      have hreads := reads_of_writes he
      cases c <;> first | exact hreads | cases hreads
  | enter pid | commit pid built | closeChan ch | takeAll | spawn srv tenant placeholder
  | takeRuntime pid | cleanup b => exact he.elim
  | _ => trivial

theorem audit_conducts (decision detail : String) (profileID : Option Int64) :
    Conforms (S := gateway) Record.track (Confined ctx) (fun _ g' ↦ g' = g)
      (audit ctx decision detail profileID) g :=
  ⟨trivial, fun _ ↦ ⟨rfl, fun _ ↦ rfl⟩⟩

/-- A profile that was loaded is the effective user's own. -/
theorem loadOwnedProfile_conducts (hrole : ctx.real.role ≠ .admin) (pathID : String) :
    Conforms (S := gateway) Record.track (Confined ctx)
      (fun res g' ↦ ∀ p, res = .ok p → (p.id, ctx.effective.id) ∈ g')
      (loadOwnedProfile ctx pathID) g := by
  unfold loadOwnedProfile
  split
  · rintro p ⟨⟩
  · refine conforms_call.mpr ⟨rfl, fun res ↦ ?_⟩
    cases res with
    | error e =>
        dsimp only
        split
        · rintro p ⟨⟩
        · rintro p ⟨⟩
    | ok p =>
        dsimp only
        split
        · rintro p ⟨⟩
        · rename_i howner
          rintro q ⟨⟩
          have hown : p.userID = ctx.effective.id := by
            by_contra hne
            exact howner ⟨hne, hrole⟩
          exact hown ▸ List.mem_cons_self

theorem runCleanups_conducts (bs : List Gateway.EgressBackend) :
    Conforms (S := gateway) Record.track (Confined ctx) (fun _ g' ↦ g' = g)
      (Gateway.runCleanups bs) g := by
  have heach : Conforms (S := gateway) Record.track (Confined ctx) (fun _ g' ↦ g' = g)
      (Prog.each (fun b ↦ perform (.cleanup b)) bs) g := by
    refine Conforms.of_all_at (All.each (fun b ↦ ?_) bs)
    exact all_call_iff.mpr ⟨trivial, fun _ ↦ rfl⟩
  exact heach.bind fun _ _ h ↦ h

theorem invalidate_conducts {pid : Int64} (hpid : (pid, ctx.effective.id) ∈ g) :
    Conforms (S := gateway) Record.track (Confined ctx) (fun _ g' ↦ g' = g)
      (Gateway.invalidate pid) g := by
  refine conforms_call.mpr ⟨hpid, fun rt ↦ ?_⟩
  cases rt with
  | none => rfl
  | some rt => exact runCleanups_conducts rt.cleanups

/-- An audit row and an answer that needs no more than reads. -/
theorem audited_conducts {decision detail : String} {profileID : Option Int64} {p : Code α}
    (hp : All (Touches []) p) :
    Conducts ctx (audit ctx decision detail profileID >>= fun _ ↦ p) g :=
  (audit_conducts decision detail profileID).bind fun _ _ _ ↦ conducts_of_touches hp

theorem handleDeleteProfile_conducts (hrole : ctx.real.role ≠ .admin) (pathID : String) :
    Conducts ctx (handleDeleteProfile ctx pathID) g := by
  refine (loadOwnedProfile_conducts hrole pathID).bind fun res g' hown ↦ ?_
  cases res with
  | error resp => trivial
  | ok p =>
      refine conforms_call.mpr ⟨hown p rfl, fun res ↦ ?_⟩
      cases res with
      | error e => trivial
      | ok _ => exact (invalidate_conducts (hown p rfl)).bind fun _ _ _ ↦ audited_conducts all_ret

theorem storeAccount_conducts {fs : OAuthFlowState} (hown : fs.userID = ctx.effective.id)
    (tok : OAuthToken) : Conducts ctx (OAuthBroker.storeAccount fs tok) g := by
  refine conforms_call.mpr ⟨trivial, fun encRefresh ↦ ?_⟩
  cases encRefresh with
  | error e => trivial
  | ok encRefresh =>
      refine conforms_call.mpr ⟨trivial, fun encAccess ↦ ?_⟩
      cases encAccess with
      | error e => trivial
      | ok encAccess =>
          refine conforms_call.mpr ⟨hown, fun res ↦ ?_⟩
          cases res with
          | error e => trivial
          | ok _ => trivial

end Conducts

/-! ## Requests side by side -/

/-- What the mux and the session middleware do before a handler runs: answer the request, or make
the handler's context. -/
def admission (srv : Server) (r : Request) : Code (Response ⊕ Ctx) :=
  if r.method ≠ "CONNECT" ∧ !r.clean then return .inl redirectClean
  else
    match srv.authn.bind fun a ↦ authRoutes a r with
    | some handler => do
        let resp ← handler
        return .inl resp
    | none => do
        match ← loadSession r with
        | .error resp => return .inl resp
        | .ok ctx =>
            if blocked ctx r then
              return .inl (writeErr 403 "impersonating"
                "mutations are blocked while impersonating (view-as is read-only)")
            else return .inr ctx

/-- A request is admitted, and then handled. -/
theorem routes_eq (srv : Server) (r : Request) :
    routes srv r = admission srv r >>= fun
      | .inl resp => Prog.ret resp
      | .inr ctx => authed srv r ctx := by
  unfold routes admission
  split
  · rfl
  · cases srv.authn.bind fun a ↦ authRoutes a r with
    | some handler =>
        dsimp only
        rw [bind_assoc]
        exact (bind_pure handler).symm
    | none =>
        dsimp only
        rw [sessionMiddleware, bind_assoc]
        refine bind_congr fun res ↦ ?_
        cases res with
        | error resp => rfl
        | ok ctx =>
            dsimp only
            split
            · rfl
            · rfl

/-- A request on its way. -/
inductive Job
  | request (r : Request)
  | handle (ctx : Ctx) (r : Request)

def Job.body (srv : Server) : Job → Code (Response ⊕ Job)
  | request r => do
      match ← admission srv r with
      | .inl resp => return .inl resp
      | .inr ctx => return .inr (.handle ctx r)
  | handle ctx r => do
      let resp ← authed srv r ctx
      return .inl resp

/-- Requests of any number, each at any point of its way.  Everything else the gateway does goes on
meanwhile: whatever calls, by whomever. -/
def plane (O : Outside) (srv : Server) : Effect.System gateway Response Job Record World where
  sem := sem O fun _ ↦ True
  starts := fun j ↦ ∃ r, j = .request r
  body := Job.body srv
  init := fun _ ↦ []
  track := Record.track
  env := fun w w' ↦ ∃ (e : Call) (r : e.Res), sem O (fun _ ↦ True) e w r w'

variable {srv : Server}

/-- What was read of a profile stays true. -/
theorem Owned.call {x : Int64 × Int64} {e : Call} {r : e.Res} (hx : Owned w.db x)
    (h : sem O faults e w r w') : Owned w'.db x := by
  rcases sem_db h with hdb | ⟨c, -, hdb⟩
  · exact hdb ▸ hx
  · rw [hdb]
    have hfollows := c.profiles_follows w.db
    have hseq := hfollows.seq_le
    refine ⟨by have := hx.1; omega, fun p hp ↦ ?_⟩
    obtain ⟨q, hq, howner⟩ := hfollows.same x.1 p hx.1 hp
    exact howner.symm.trans (hx.2 q hq)

namespace TwoUsers

/-- Two users with a profile each, and a session of the second one. -/
def store : Database :=
  [Sql.upsertUserByOIDC "idp" "alice" "" "Alice" .user 0,
    .upsertUserByOIDC "idp" "bob" "" "Bob" .user 0, .createProfile "home" "Home" 1 "hash1" 0,
    .createProfile "work" "Work" 2 "hash2" 0,
    .insertSession "cookie" 2 0 (1000 * Time.second)].foldl (fun db c ↦ (c.apply db).2) .fresh

def bob : User := ⟨2, "idp", "bob", "", "Bob", .user, 0, 0⟩

/-- The second user deletes the profile that is theirs. -/
def delete : Request := Local.request "DELETE" ["profiles", "2"] (some "cookie")

def pool (moves : List (Move Job)) : Pool gateway Response Job Record World :=
  (plane Partners.outside Local.server).play Local.partners.answer ⟨.boot store 0, []⟩ moves

end TwoUsers

end GigMcp.Api.Tenancy
