import GigMcp.Api.Impersonation
import GigMcp.Effect.Trace

/-!
# Impersonation is announced

The start of an impersonation writes twice: first the session, and then the loud audit row
that shows in the target's own view.  The second write may fail after the first has taken
effect, and nobody takes the first one back.

`Runs` is a run of the control plane, one request after the other, with the calls of each.
As long as the two writes stand or fall together (`Loud`), a session that impersonates is
`Announced`: the request that made it impersonate has appended the row.
-/

namespace GigMcp.Api

open GigMcp.Effect GigMcp.System GigMcp.Store GigMcp.Http GigMcp.Auth GigMcp.Data

variable {O : Outside} {srv : Server} {w w' : World} {tr : List (Event gateway)}

/-! ## Runs -/

/-- A run of `n` requests, one after the other, with the calls each of them made. -/
structure Runs (R : Sem gateway World) (srv : Server) (n : Nat) where
  world : Nat → World
  request : Nat → Request
  trace : Nat → List (Event gateway)
  served : ∀ i < n, ∃ resp,
    Traced R (routes srv (request i)) (world i) (trace i) resp (world (i + 1))

/-- A request has made a session impersonate. -/
def Activates (tr : List (Event gateway)) (hash : String) (target : Int64) : Prop :=
  ∃ expiresAt, (⟨.sql (.setImpersonation hash target expiresAt), .ok ()⟩ : Event gateway) ∈ tr

/-- The row that announces an impersonation: attributed to the target, and naming the user of
the session. -/
structure StartRow (db : Database) (userID target : Int64) (e : AuditEvent) : Prop where
  kind : e.kind = .admin
  decision : e.decision = "impersonate_start"
  attributed : e.userID = some target
  detail : ∃ admin user, db.users.table.get? userID = some admin ∧
    db.users.table.get? target = some user ∧
    e.detail = "admin=" ++ admin.email ++ " target=" ++ user.email

/-- A session's impersonation is announced: the last request to have made the session
impersonate has appended the row, which is still there. -/
def Announced {R : Sem gateway World} {n : Nat} (run : Runs R srv n) (hash : String)
    (userID target : Int64) : Prop :=
  ∃ i < n, Activates (run.trace i) hash target ∧
    (∀ j, i < j → j < n → ∀ target', ¬ Activates (run.trace j) hash target') ∧
    ∃ e, e ∉ (run.world i).db.audit.table.rows ∧ e ∈ (run.world (i + 1)).db.audit.table.rows ∧
      e ∈ (run.world n).db.audit.table.rows ∧ StartRow (run.world i).db userID target e

/-- The condition on a call: a `SetImpersonation` that reports a failure has done nothing, and
the row of a start does not fail. -/
def Loud : (e : Call) → World → e.Res → World → Prop
  | .sql (.setImpersonation ..), w, .error _, w' => w' = w
  | .sql (.appendAudit e), _, .error _, _ => e.decision ≠ "impersonate_start"
  | _, _, _, _ => True

/-- The gateway's calls, any of which may fail, as far as the condition permits. -/
def loudSem (O : Outside) : Sem gateway World := fun e w r w' ↦
  sem O (fun _ ↦ True) e w r w' ∧ Loud e w r w'

theorem exec_of_loud {α : Type} {p : Code α} {a : α} (hx : Traced (loudSem O) p w tr a w') :
    Exec (sem O fun _ ↦ True) p w a w' :=
  hx.exec.mono fun _ _ _ _ h ↦ h.1

/-! ## Requests that start nothing -/

/-- Every session that impersonates afterwards is as it was before. -/
def SessionsKept (w w' : World) : Prop :=
  ∀ k s, w'.db.sessions.get? k = some s → s.impersonatingUserID.isSome →
    w.db.sessions.get? k = some s

theorem sessionsKept_of_unset {α : Type} {p : Code α} {a : α} {faults : Call → Prop} (hp : All Unset p)
    (hx : Exec (sem O faults) p w a w') : SessionsKept w w' := by
  refine hp.frame (ρ := SessionsKept) (fun _ _ _ hs _ ↦ hs) ?_ ?_ hx
  · exact fun w₁ w₂ w₃ h₁ h₂ k s hs himp ↦ h₁ k s (h₂ k s hs himp) himp
  · intro e w r w' he hr k s hs himp
    rcases sem_db hr with hdb | ⟨c, rfl, hdb⟩
    · rwa [hdb] at hs
    · rw [hdb] at hs
      exact impersonating_before he hs himp

/-- A request, or a part of one, that has started nothing. -/
structure Silent (tr : List (Event gateway)) (w w' : World) : Prop where
  activates : ∀ hash target, ¬ Activates tr hash target
  kept : SessionsKept w w'

theorem silent_of_unset {α : Type} {p : Code α} {a : α} (hp : All Unset p)
    (hx : Traced (loudSem O) p w tr a w') : Silent tr w w' := by
  refine ⟨?_, sessionsKept_of_unset hp (exec_of_loud hx)⟩
  rintro hash target ⟨expiresAt, hmem⟩
  exact hx.all hp _ hmem

theorem activates_append {t₁ t₂ : List (Event gateway)} {hash : String} {target : Int64} :
    Activates (t₁ ++ t₂) hash target ↔ Activates t₁ hash target ∨ Activates t₂ hash target := by
  simp only [Activates, List.mem_append, exists_or]

theorem Silent.append {t₁ t₂ : List (Event gateway)} {w₁ : World} (h₁ : Silent t₁ w w₁)
    (h₂ : Silent t₂ w₁ w') : Silent (t₁ ++ t₂) w w' := by
  refine ⟨fun hash target hact ↦ ?_, fun k s hs himp ↦ h₁.kept k s (h₂.kept k s hs himp) himp⟩
  rcases activates_append.mp hact with hact | hact
  · exact h₁.activates hash target hact
  · exact h₂.activates hash target hact

/-- A call that starts nothing and leaves the sessions alone. -/
theorem silent_call {e : Call} {r : e.Res} (he : Unset e)
    (hsessions : w'.db.sessions = w.db.sessions) : Silent [⟨e, r⟩] w w' := by
  refine ⟨?_, fun k s hs _ ↦ hsessions ▸ hs⟩
  rintro hash target ⟨expiresAt, hmem⟩
  cases List.mem_singleton.mp hmem
  exact he

/-- A start that has failed without effect. -/
theorem silent_failed {hash : String} {target : Int64} {expiresAt : Time} {e : Err} :
    Silent [⟨.sql (.setImpersonation hash target expiresAt), .error e⟩] w w := by
  refine ⟨?_, fun k s hs _ ↦ hs⟩
  rintro hash' target' ⟨expiresAt', hmem⟩
  cases List.mem_singleton.mp hmem

theorem issueSession_unset (a : Authenticator) (idt : IDToken) (claims : Claims) (rawID : String) :
    All Unset (a.issueSession idt claims rawID) := by
  refine All.except (all_call.mpr ⟨trivial, fun _ ↦ all_call_iff.mpr trivial⟩) (fun _ ↦ all_ret)
    fun user ↦ ?_
  refine All.except (all_call_iff.mpr trivial) (fun _ ↦ all_ret) fun tok ↦ ?_
  refine all_call.mpr ⟨trivial, fun t ↦ ?_⟩
  refine All.except ?_ (fun _ ↦ all_ret) fun _ ↦ ?_
  · exact (createSession_adminSafe ..).mono fun _ ↦ AdminSafe.unset
  · refine All.bind ?_ fun _ ↦ all_ret
    exact (appendAudit_adminSafe ..).mono fun _ ↦ AdminSafe.unset

theorem callbackHandler_unset (a : Authenticator) (r : Request) :
    All Unset (a.callbackHandler r) := by
  unfold Authenticator.callbackHandler
  split
  · exact all_ret
  · refine All.except ?_ (fun _ ↦ all_ret) fun fs ↦ ?_
    · unfold Authenticator.verifyFlow
      split
      · exact all_ret
      · refine all_call.mpr ⟨trivial, fun t ↦ ?_⟩
        split
        · exact all_ret
        · exact all_ret
    · dsimp only
      split
      · exact all_ret
      split
      · exact all_ret
      refine All.except (all_call_iff.mpr trivial) (fun _ ↦ all_ret) fun rawID ↦ ?_
      cases rawID with
      | none => exact all_ret
      | some rawID =>
          refine All.except (all_call_iff.mpr trivial) (fun _ ↦ all_ret) fun idt ↦ ?_
          dsimp only
          split
          · exact all_ret
          split
          · exact all_ret
          · exact issueSession_unset _ _ _ _

/-! ## The start of an impersonation -/

/-- A request that has made a session impersonate, and said so. -/
structure Starts (tr : List (Event gateway)) (w w' : World) (hash : String) (userID target : Int64) :
    Prop where
  activates : Activates tr hash target
  only : ∀ k target', Activates tr k target' → k = hash ∧ target' = target
  session : ∀ s, w'.db.sessions.get? hash = some s →
    s.impersonatingUserID = some target ∧ s.userID = userID
  others : ∀ k s, k ≠ hash → w'.db.sessions.get? k = some s → w.db.sessions.get? k = some s
  row : ∃ e, e ∉ w.db.audit.table.rows ∧ e ∈ w'.db.audit.table.rows ∧
    StartRow w.db userID target e

/-- What comes before a start and writes nothing. -/
theorem Starts.after {t₁ : List (Event gateway)} {w₁ : World} {hash : String}
    {userID target : Int64} (h : Starts tr w₁ w' hash userID target) (h₁ : Silent t₁ w w₁)
    (hdb : w₁.db = w.db) : Starts (t₁ ++ tr) w w' hash userID target := by
  obtain ⟨hact, honly, hsession, hothers, hrow⟩ := h
  rw [hdb] at hothers hrow
  refine ⟨activates_append.mpr (.inr hact), fun k target' hk ↦ ?_, hsession, hothers, hrow⟩
  exact honly k target' ((activates_append.mp hk).resolve_left (h₁.activates k target'))

/-- A row that was appended was not there before. -/
theorem appendAudit_row {ev : AuditEvent} {db : Database} {u : Unit}
    (h : ((Sql.appendAudit ev).apply db).1 = .ok u) :
    ∃ i, { ev with id := i, ts := ev.ts.throughColumn } ∉ db.audit.table.rows ∧
      { ev with id := i, ts := ev.ts.throughColumn } ∈
        ((Sql.appendAudit ev).apply db).2.audit.table.rows := by
  rw [Sql.apply, Database.appendAudit] at h ⊢
  split at h
  · rename_i i t hinsert
    refine ⟨i, fun hmem ↦ ?_, ?_⟩
    · have hfresh := (AutoTable.insert_eq_some hinsert).2.2.1
      exact Table.get?_eq_none.mp hfresh _ hmem rfl
    · simp only [AutoTable.rows_insert hinsert]
      exact List.mem_append_right _ (List.mem_singleton_self _)
  · cases h

/-- The two writes of a start, one after the other. -/
theorem starts_of_writes {hash : String} {target : User} {expiresAt t u : Time}
    {sess : Session} {admin : User} (hsess : w.db.sessions.get? hash = some sess)
    (hadmin : w.db.users.table.get? sess.userID = some admin)
    (htarget : w.db.users.table.get? target.id = some target)
    {db : Database} (hdb : db = ((Sql.setImpersonation hash target.id expiresAt).apply w.db).2)
    {ev : AuditEvent} (hev : ev = ⟨0, t, .admin, some target.id, none, "", "", "impersonate_start",
      "admin=" ++ admin.email ++ " target=" ++ target.email⟩)
    (hok : ((Sql.appendAudit ev).apply db).1 = .ok ())
    (hw' : w'.db = ((Sql.appendAudit ev).apply db).2) :
    Starts [⟨.sql (.setImpersonation hash target.id expiresAt), .ok ()⟩, ⟨.now, u⟩,
      ⟨.sql (.appendAudit ev), .ok ()⟩] w w' hash sess.userID target.id := by
  have hsessions : w'.db.sessions = db.sessions := by
    rw [hw']
    exact Sql.apply_frame (t := .sessions) (by simp [Sql.writes]) db
  have haudit : db.audit = w.db.audit := by
    rw [hdb]
    exact Sql.apply_frame (t := .audit) (by simp [Sql.writes]) w.db
  have hget (k : String) : w'.db.sessions.get? k = (w.db.sessions.get? k).map fun s ↦
      if s.tokenHash = hash then { s with
        impersonatingUserID := some target.id
        impersonationExpiresAt := some expiresAt.throughColumn } else s := by
    rw [hsessions, hdb, Sql.apply, Table.get?_update]
    simp only [decide_eq_true_eq]
  refine ⟨⟨expiresAt, List.mem_cons_self⟩, ?_, ?_, ?_, ?_⟩
  · rintro k target' ⟨_, hmem⟩
    rcases List.mem_cons.mp hmem with heq | hmem
    · cases heq
      exact ⟨rfl, rfl⟩
    · simp at hmem
  · intro s hs
    rw [hget, hsess, Option.map_some, if_pos (Table.key_of_get? hsess)] at hs
    cases hs
    exact ⟨rfl, rfl⟩
  · intro k s hk hs
    rw [hget] at hs
    obtain ⟨s₀, hs₀, rfl⟩ := Option.map_eq_some_iff.mp hs
    have hkey : s₀.tokenHash = k := Table.key_of_get? hs₀
    rw [if_neg fun h ↦ hk (hkey.symm.trans h)]
    exact hs₀
  · obtain ⟨i, hnew, hmem⟩ := appendAudit_row hok
    rw [haudit] at hnew
    rw [← hw'] at hmem
    refine ⟨_, hnew, hmem, ?_⟩
    subst hev
    exact ⟨rfl, rfl, rfl, admin, target, hadmin, htarget, rfl⟩

theorem traced_start {ctx : Ctx} {body : Payload} {resp : Response} {sess : Session}
    (hsess : w.db.sessions.get? ctx.sessionHash = some sess)
    (hreal : w.db.users.table.get? sess.userID = some ctx.real)
    (hx : Traced (loudSem O) (handleStartImpersonation ctx body) w tr resp w') :
    Silent tr w w' ∨ ∃ target, Starts tr w w' ctx.sessionHash sess.userID target := by
  unfold handleStartImpersonation at hx
  split at hx
  · split at hx
    · exact .inl (silent_of_unset all_ret hx)
    split at hx
    · exact .inl (silent_of_unset all_ret hx)
    rename_i userID _ _ _
    obtain ⟨res, w₁, t₁, ⟨hr, -⟩, rfl, hx₁⟩ := traced_call.mp hx
    obtain rfl : w₁ = w := sem_reads rfl hr
    have hread : Silent [⟨.sql (.getUser userID), res⟩] w₁ w₁ :=
      silent_call (e := .sql (.getUser userID)) trivial rfl
    cases res with
    | error e => exact .inl (hread.append (silent_of_unset all_ret hx₁))
    | ok target =>
        have htarget : w₁.db.users.table.get? userID = some target :=
          Sql.fetch_eq_ok.mp (sem_read_ok hr rfl).1
        rw [show userID = target.id from (Table.key_of_get? htarget).symm] at htarget
        obtain ⟨t, w₂, t₂, ⟨⟨-, rfl⟩, -⟩, rfl, hx₂⟩ := traced_call.mp hx₁
        have hclock : Silent [⟨.now, t⟩] w₁ { w₁ with now := t } :=
          silent_call (e := .now) trivial rfl
        obtain ⟨res, w₃, t₃, ⟨hr₃, hloud⟩, rfl, hx₃⟩ := traced_call.mp hx₂
        cases res with
        | error e =>
            left
            obtain ⟨rfl, -, rfl⟩ := hx₃
            obtain rfl : w' = _ := hloud
            exact hread.append (hclock.append silent_failed)
        | ok u =>
            right
            obtain ⟨t', w₄, t₄, ⟨⟨-, rfl⟩, -⟩, rfl, hx₄⟩ := traced_call.mp hx₃
            obtain ⟨res, w₅, t₅, ⟨hr₅, hloud₅⟩, rfl, hx₅⟩ := traced_call.mp hx₄
            cases res with
            | error e => exact absurd rfl hloud₅
            | ok u =>
                obtain ⟨rfl, -, rfl⟩ := hx₅
                obtain ⟨hok, hw'⟩ := sem_sql_ok hr₅
                have hdb := (sem_sql_ok hr₃).2
                have hstarts := starts_of_writes (w := { w₁ with now := t }) (u := t') hsess hreal
                  htarget (congrArg World.db hdb) rfl hok (congrArg World.db hw')
                exact ⟨target.id, hstarts.after (hread.append hclock) rfl⟩
  · exact .inl (silent_of_unset all_ret hx)

/-! ## A request -/

/-- **Step lemma.**  A request of which every call meets the condition has started nothing, or
has started an impersonation on its own session and announced it. -/
theorem traced_routes {r : Request} {resp : Response}
    (hx : Traced (loudSem O) (routes srv r) w tr resp w') :
    Silent tr w w' ∨ ∃ hash userID target, Starts tr w w' hash userID target := by
  unfold routes at hx
  split at hx
  · exact .inl (silent_of_unset all_ret hx)
  split at hx
  · rename_i handler hauth
    left
    obtain ⟨a, -, hroute⟩ := Option.bind_eq_some_iff.mp hauth
    refine silent_of_unset ?_ hx
    unfold authRoutes at hroute
    split at hroute
    · split at hroute
      · cases hroute
        exact (loginHandler_adminSafe a r).mono fun _ ↦ AdminSafe.unset
      · cases hroute
    · split at hroute
      · cases hroute
        exact callbackHandler_unset a r
      · cases hroute
    · split at hroute
      · cases hroute
        exact (logoutHandler_adminSafe a r).mono fun _ ↦ AdminSafe.unset
      · cases hroute
    · cases hroute
  · obtain ⟨res, w₁, t₁, t₂, hload, rfl, hx₁⟩ := traced_bind.mp hx
    have hloaded := silent_of_unset ((loadSession_adminSafe r).mono fun _ ↦ AdminSafe.unset) hload
    cases res with
    | error resp' => exact .inl (hloaded.append (silent_of_unset all_ret hx₁))
    | ok ctx =>
        obtain ⟨hwait, hash, sess, real, -, hsess, hreal, rfl⟩ :=
          exec_loadSession_ok (exec_of_loud hload)
        dsimp only at hx₁
        split at hx₁
        · exact .inl (hloaded.append (silent_of_unset all_ret hx₁))
        rcases authed_cases srv r (contextOf real hash (viewAs w.db sess w₁.now)) with
          ⟨resp', hret⟩ | ⟨segs, method, hsegs, hmem, -⟩
        · rw [hret] at hx₁
          exact .inl (hloaded.append (silent_of_unset all_ret hx₁))
        rcases kind_adminSafe (handlersAt_kind hsegs hmem) with hstart | hsafe
        · rw [hstart] at hx₁
          unfold requireAdmin at hx₁
          split at hx₁
          · rw [← hwait.db, ← sessionHash_contextOf real hash (viewAs w.db sess w₁.now)] at hsess
            rw [← hwait.db, ← real_contextOf real hash (viewAs w.db sess w₁.now)] at hreal
            rcases traced_start hsess hreal hx₁ with hsilent | ⟨target, hstarts⟩
            · exact .inl (hloaded.append hsilent)
            · exact .inr ⟨_, _, _, hstarts.after hloaded hwait.db⟩
          · exact .inl (hloaded.append (silent_of_unset all_ret hx₁))
        · exact .inl (hloaded.append (silent_of_unset (hsafe.mono fun _ ↦ AdminSafe.unset) hx₁))

/-! ## Every run -/

/-- The run up to an earlier request. -/
def Runs.take {R : Sem gateway World} {n : Nat} (run : Runs R srv (n + 1)) : Runs R srv n :=
  { run with served := fun i hi ↦ run.served i (Nat.lt_succ_of_lt hi) }

theorem Runs.audit_grows {n : Nat} (run : Runs (loudSem O) srv n) {i : Nat} (hi : i < n) :
    (run.world i).db.audit.table.rows <+: (run.world (i + 1)).db.audit.table.rows := by
  obtain ⟨resp, hx⟩ := run.served i hi
  exact (later_of_exec (exec_of_loud hx)).audit_grows

/-- What was announced stays announced by a request that starts nothing on the session. -/
theorem Announced.next {n : Nat} {run : Runs (loudSem O) srv (n + 1)} {hash : String}
    {userID target : Int64} (h : Announced run.take hash userID target)
    (hlast : ∀ target', ¬ Activates (run.trace n) hash target') :
    Announced run hash userID target := by
  obtain ⟨i, hi, hact, hnone, e, hnew, hrow, hmem, hstart⟩ := h
  refine ⟨i, Nat.lt_succ_of_lt hi, hact, fun j hij hj ↦ ?_, e, hnew, hrow, ?_, hstart⟩
  · rcases Nat.lt_succ_iff_lt_or_eq.mp hj with hj | rfl
    · exact hnone j hij hj
    · exact hlast
  · exact (run.audit_grows (Nat.lt_succ_self n)).subset hmem

/-- As long as every call meets the condition: in every state a run from a store in which nobody
impersonates comes to, a session that impersonates is announced. -/
theorem impersonation_announced {n : Nat} (run : Runs (loudSem O) srv n)
    (hboot : ∀ s ∈ (run.world 0).db.sessions.rows, s.impersonatingUserID = none) {hash : String}
    {s : Session} {target : Int64} (hs : (run.world n).db.sessions.get? hash = some s)
    (himp : s.impersonatingUserID = some target) : Announced run hash s.userID target := by
  induction n generalizing hash s target with
  | zero =>
      rw [hboot s (Table.mem_of_get? hs)] at himp
      cases himp
  | succ n ih =>
      have hbefore (hs : (run.world n).db.sessions.get? hash = some s) :
          Announced run.take hash s.userID target := ih run.take hboot hs himp
      have hsome : s.impersonatingUserID.isSome := by
        rw [himp]
        rfl
      obtain ⟨resp, hx⟩ := run.served n (Nat.lt_succ_self n)
      rcases traced_routes hx with hsilent | ⟨hash', userID, target', hstarts⟩
      · exact (hbefore (hsilent.kept hash s hs hsome)).next fun target' ↦ hsilent.activates _ _
      · by_cases hhash : hash = hash'
        · subst hhash
          obtain ⟨himp', rfl⟩ := hstarts.session s hs
          obtain rfl : target' = target := Option.some.inj (himp'.symm.trans himp)
          obtain ⟨e, hnew, hrow, hstart⟩ := hstarts.row
          refine ⟨n, Nat.lt_succ_self n, hstarts.activates, fun j hnj hj ↦ ?_, e, hnew, hrow, hrow,
            hstart⟩
          exact absurd hj (Nat.not_lt.mpr (Nat.succ_le_of_lt hnj))
        · refine (hbefore (hstarts.others hash s hhash hs)).next fun target'' hact ↦ ?_
          exact hhash (hstarts.only hash target'' hact).1

namespace Example.Audit

open GigMcp.Api.Example.Roles

/-- The local partners, as long as every statement succeeds. -/
def heard : (e : Call) → World → Option (e.Res × World)
  | .sql c, w =>
      match c.apply w.db with
      | (.ok a, db) => some (.ok a, { w with db := db })
      | (.error _, _) => none
  | e, w => Local.partners.answer e w

theorem loud_ok {c : Sql} {a : c.Ans} : Loud (.sql c) w (.ok a) w' := by
  cases c with
  | _ => trivial

theorem heard_sem {e : Call} {w w' : World} {r : e.Res} (h : heard e w = some (r, w')) :
    loudSem Partners.outside e w r w' := by
  unfold heard at h
  split at h
  · split at h
    · rename_i c w a db hc
      cases h
      exact ⟨.inl ⟨by rw [hc], by rw [hc]⟩, loud_ok⟩
    · cases h
  · rename_i hsql
    refine ⟨Local.partners.answer_sem h _, ?_⟩
    unfold Loud
    split
    · exact absurd rfl (hsql _)
    · exact absurd rfl (hsql _)
    · trivial

/-- A store on which the row of a start fails. -/
def unheard : (e : Call) → World → Option (e.Res × World) :=
  Local.partners.faulty fun c ↦ match c with
    | .appendAudit e => if e.decision = "impersonate_start" then some false else none
    | _ => none

/-- The request of the admin to look at the gateway as Bob, served with a handler. -/
def starting (R : Sem gateway World) (h : (e : Call) → World → Option (e.Res × World))
    (hR : ∀ e w r w', h e w = some (r, w') → R e w r w')
    (hsome : (record h (routes Local.server impersonate) loggedIn).isSome) :
    Runs R Local.server 1 where
  world := fun i ↦ if i = 0 then loggedIn
    else ((record h (routes Local.server impersonate) loggedIn).get hsome).2.2
  request := fun _ ↦ impersonate
  trace := fun _ ↦ ((record h (routes Local.server impersonate) loggedIn).get hsome).1
  served := by
    intro i hi
    obtain rfl : i = 0 := Nat.lt_one_iff.mp hi
    exact ⟨_, traced_record hR (Option.some_get hsome).symm⟩

theorem nobody (s : Session) (hs : s ∈ loggedIn.db.sessions.rows) :
    s.impersonatingUserID = none := by
  have hall : loggedIn.db.sessions.rows.all (fun s ↦ s.impersonatingUserID = none) = true := rfl
  exact of_decide_eq_true (List.all_eq_true.mp hall s hs)

end Example.Audit

open Example.Roles Example.Audit in
/-- Alice looks at the gateway as Bob, and Bob's own audit view says so. -/
theorem impersonation_announced_alice :
    ∃ run : Runs (loudSem Partners.outside) Local.server 1,
      ((run.world 1).db.sessions.get? "hash0").bind Session.impersonatingUserID = some 2 ∧
        Announced run "hash0" 1 2 := by
  refine ⟨starting _ heard (fun _ _ _ _ ↦ heard_sem) rfl, rfl, ?_⟩
  exact impersonation_announced (starting _ heard (fun _ _ _ _ ↦ heard_sem) rfl) nobody
    (s := ⟨"hash0", 1, 0, 1000 * Time.second, some 2, some (3600 * Time.second)⟩) rfl rfl

open Example.Roles Example.Audit in
/-- The row fails, the request reports the failure, and Alice looks at the gateway as Bob all the
same. -/
theorem impersonation_silent :
    ∃ run : Runs (sem Partners.outside fun _ ↦ True) Local.server 1,
      (∀ s ∈ (run.world 0).db.sessions.rows, s.impersonatingUserID = none) ∧
      Exec (sem Partners.outside fun _ ↦ True) (routes Local.server impersonate) (run.world 0)
        (writeErr 500 "internal" "audit impersonation") (run.world 1) ∧
      ((run.world 1).db.sessions.get? "hash0").bind Session.impersonatingUserID = some 2 ∧
      (∀ e ∈ (run.world 1).db.audit.table.rows, e.decision ≠ "impersonate_start") := by
  refine ⟨starting _ unheard (fun _ _ _ _ h ↦ Local.partners.faulty_sem h) rfl, nobody, ?_, rfl, ?_⟩
  · exact exec_run (h := unheard) (fun _ _ _ _ h ↦ Local.partners.faulty_sem h) rfl
  · have hall : (((record unheard (routes Local.server impersonate) loggedIn).get
        rfl).2.2.db.audit.table.rows.all fun e ↦ e.decision ≠ "impersonate_start") = true := rfl
    exact fun e he ↦ of_decide_eq_true (List.all_eq_true.mp hall e he)

end GigMcp.Api
