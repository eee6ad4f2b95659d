import GigMcp.Auth.Session
import GigMcp.System.World

/-!
# What the session middleware hands on

The middleware reads the session, its user and, when the session is in view-as, the
target.  `viewAs` is whom a session looks at the gateway as, and `contextOf` the
context that follows from it.
-/

namespace GigMcp.Auth

open GigMcp.Effect GigMcp.System GigMcp.Store GigMcp.Http

variable {O : Outside} {faults : Call → Prop} {w w' : World}

/-- The target of a session's impersonation, as long as it has not expired and the
target exists. -/
def viewAs (db : Database) (sess : Session) (t : Time) : Option User :=
  match sess.impersonatingUserID, sess.impersonationExpiresAt with
  | some targetID, some expiresAt => if t < expiresAt then db.users.table.get? targetID else none
  | _, _ => none

def contextOf (real : User) (hash : String) : Option User → Ctx
  | some target => ⟨real, target, hash, true⟩
  | none => ⟨real, real, hash, false⟩

@[simp] theorem sessionHash_contextOf (real : User) (hash : String) (target : Option User) :
    (contextOf real hash target).sessionHash = hash := by
  cases target with
  | none => rfl
  | some u => rfl

@[simp] theorem real_contextOf (real : User) (hash : String) (target : Option User) :
    (contextOf real hash target).real = real := by
  cases target with
  | none => rfl
  | some u => rfl

/-- The world at a later time, otherwise unchanged. -/
def Waited (w w' : World) : Prop := ∃ t, w.now ≤ t ∧ w' = { w with now := t }

theorem Waited.refl (w : World) : Waited w w := ⟨w.now, le_refl _, rfl⟩

theorem Waited.trans {w₁ w₂ w₃ : World} (h : Waited w₁ w₂) (h' : Waited w₂ w₃) :
    Waited w₁ w₃ := by
  obtain ⟨t, hle, rfl⟩ := h
  obtain ⟨t', hle', rfl⟩ := h'
  exact ⟨t', le_trans hle hle', rfl⟩

theorem Waited.db (h : Waited w w') : w'.db = w.db := by
  obtain ⟨t, -, rfl⟩ := h
  rfl

theorem sem_now_waited {t : Time} (h : sem O faults .now w t w') : Waited w w' ∧ w'.now = t := by
  obtain ⟨hle, rfl⟩ := h
  exact ⟨⟨t, hle, rfl⟩, rfl⟩

/-- A session that `GetSession` finds is in the store and has not expired. -/
theorem exec_getSession_ok {hash : String} {sess : Session}
    (hx : Exec (sem O faults) (getSession hash) w (.ok sess) w') :
    Waited w w' ∧ w.db.sessions.get? hash = some sess ∧ w'.now ≤ sess.expiresAt := by
  obtain ⟨row, w₁, hr, hx₁⟩ := exec_ok hx fun _ _ ↦ not_exec_error
  obtain ⟨hfetch, rfl⟩ := sem_read_ok (exec_call_iff.mp hr) rfl
  have hrow : w₁.db.sessions.get? hash = some row := Sql.fetch_eq_ok.mp hfetch
  obtain ⟨t, w₂, ht, hx₂⟩ := exec_call.mp hx₁
  obtain ⟨hwait, rfl⟩ := sem_now_waited ht
  split at hx₂
  · obtain ⟨_, w₃, -, hx₃⟩ := exec_call.mp hx₂
    cases hx₃.1
  · rename_i hlive
    obtain ⟨hsess, rfl⟩ := hx₂
    cases hsess
    exact ⟨hwait, hrow, not_lt.mp hlive⟩

/-- What a failing `GetSession` may have done: nothing, or reaped the session it was
asked for, which has expired. -/
theorem exec_getSession_error {hash : String} {e : Err}
    (hx : Exec (sem O faults) (getSession hash) w (.error e) w') :
    Waited w w' ∨ ∃ sess t, w.db.sessions.get? hash = some sess ∧ sess.expiresAt < t ∧
      w.now ≤ t ∧
      w' = { w with now := t, db := ((Sql.reapSession hash sess.expiresAt).apply w.db).2 } := by
  obtain ⟨r, w₁, hr, hx₁⟩ := exec_call.mp hx
  obtain rfl : w₁ = w := sem_reads rfl hr
  cases r with
  | error e' =>
      obtain ⟨-, rfl⟩ := hx₁
      exact .inl (.refl _)
  | ok sess =>
      have hrow := Sql.fetch_eq_ok.mp (sem_read_ok hr rfl).1
      obtain ⟨t, w₂, ⟨hle, rfl⟩, hx₂⟩ := exec_call.mp hx₁
      split at hx₂
      · rename_i hexp
        obtain ⟨_, w₃, hreap, hx₃⟩ := exec_call.mp hx₂
        obtain ⟨-, rfl⟩ := hx₃
        rcases hreap with ⟨-, rfl⟩ | ⟨-, -, rfl | rfl⟩
        · exact .inr ⟨sess, t, hrow, hexp, hle, rfl⟩
        · exact .inl ⟨t, hle, rfl⟩
        · exact .inr ⟨sess, t, hrow, hexp, hle, rfl⟩
      · cases hx₂.1

theorem exec_loadEffective {sess : Session} {real : User} {hash : String}
    {res : Except Response Ctx}
    (hx : Exec (sem O faults) (loadEffective sess real hash) w res w') :
    Waited w w' ∧
      ∀ ctx, res = .ok ctx → ctx = contextOf real hash (viewAs w.db sess w'.now) := by
  unfold loadEffective at hx
  split at hx
  · rename_i targetID expiresAt htarget hexp
    obtain ⟨t, w₁, ht, hx₁⟩ := exec_call.mp hx
    obtain ⟨hwait, rfl⟩ := sem_now_waited ht
    split at hx₁
    · rename_i hlt
      obtain ⟨r, w₂, hr, hx₂⟩ := exec_call.mp hx₁
      obtain rfl : w₂ = w₁ := sem_reads rfl hr
      have hview (t : Time) (hlt : t < expiresAt) :
          viewAs w.db sess t = w.db.users.table.get? targetID := by
        simp only [viewAs, htarget, hexp, if_pos hlt]
      cases r with
      | ok target =>
          obtain ⟨rfl, rfl⟩ := hx₂
          refine ⟨hwait, fun ctx hctx ↦ ?_⟩
          have hrow : w'.db.users.table.get? targetID = some target :=
            Sql.fetch_eq_ok.mp (sem_read_ok hr rfl).1
          rw [hview _ hlt, ← hwait.db, hrow]
          exact (Except.ok.inj hctx).symm
      | error e =>
          dsimp only at hx₂
          split at hx₂
          · rename_i hmiss
            obtain ⟨rfl, rfl⟩ := hx₂
            refine ⟨hwait, fun ctx hctx ↦ ?_⟩
            have hrow : w'.db.users.table.get? targetID = none := by
              rcases sem_reads_answer hr with h | ⟨e', he', hforeign⟩
              · exact (Sql.fetch_eq_error.mp h.symm).1
              · cases he'
                rw [hforeign.is_eq_false id] at hmiss
                cases hmiss
            rw [hview _ hlt, ← hwait.db, hrow]
            exact (Except.ok.inj hctx).symm
          · obtain ⟨rfl, rfl⟩ := hx₂
            refine ⟨hwait, ?_⟩
            rintro ctx ⟨⟩
    · rename_i hlt
      obtain ⟨rfl, rfl⟩ := hx₁
      refine ⟨hwait, fun ctx hctx ↦ ?_⟩
      simp only [viewAs, htarget, hexp, if_neg hlt]
      exact (Except.ok.inj hctx).symm
  · rename_i hnone
    obtain ⟨rfl, rfl⟩ := hx
    refine ⟨.refl _, fun ctx hctx ↦ ?_⟩
    have hview : viewAs w'.db sess w'.now = none := by
      unfold viewAs
      split
      · rename_i a b ha hb
        exact absurd hb (hnone a b ha)
      · rfl
    rw [hview]
    exact (Except.ok.inj hctx).symm

/-- A request that is let in comes with a session in the store, its user, and the
context that follows from the session at that time. -/
theorem exec_loadSession_ok {r : Request} {ctx : Ctx}
    (hx : Exec (sem O faults) (loadSession r) w (.ok ctx) w') :
    Waited w w' ∧ ∃ hash sess real, r.session = some hash ∧
      w.db.sessions.get? hash = some sess ∧ w.db.users.table.get? sess.userID = some real ∧
      ctx = contextOf real hash (viewAs w.db sess w'.now) := by
  unfold loadSession at hx
  split at hx
  · cases hx.1
  · rename_i hash hsession
    obtain ⟨res, w₁, h₁, hx₁⟩ := exec_bind.mp hx
    cases res with
    | error e =>
        dsimp only at hx₁
        split at hx₁
        · cases hx₁.1
        · cases hx₁.1
    | ok sess =>
        obtain ⟨hwait, hrow, -⟩ := exec_getSession_ok h₁
        obtain ⟨res, w₂, hr, hx₂⟩ := exec_call.mp hx₁
        obtain rfl : w₂ = w₁ := sem_reads rfl hr
        cases res with
        | error e =>
            dsimp only at hx₂
            split at hx₂
            · cases hx₂.1
            · cases hx₂.1
        | ok real =>
            have hreal : w₂.db.users.table.get? sess.userID = some real :=
              Sql.fetch_eq_ok.mp (sem_read_ok hr rfl).1
            obtain ⟨hwait₂, hctx⟩ := exec_loadEffective hx₂
            rw [hwait.db] at hreal hctx
            exact ⟨hwait.trans hwait₂, hash, sess, real, hsession, hrow, hreal, hctx ctx rfl⟩

/-- A request that is turned away has at most had its own expired session reaped. -/
theorem exec_loadSession_error {r : Request} {resp : Response}
    (hx : Exec (sem O faults) (loadSession r) w (.error resp) w') :
    Waited w w' ∨ ∃ hash sess t, r.session = some hash ∧
      w.db.sessions.get? hash = some sess ∧ sess.expiresAt < t ∧ w.now ≤ t ∧
      w' = { w with now := t, db := ((Sql.reapSession hash sess.expiresAt).apply w.db).2 } := by
  unfold loadSession at hx
  split at hx
  · obtain ⟨-, rfl⟩ := hx
    exact .inl (.refl _)
  · rename_i hash hsession
    obtain ⟨res, w₁, h₁, hx₁⟩ := exec_bind.mp hx
    cases res with
    | error e =>
        obtain rfl : w' = w₁ := by
          dsimp only at hx₁
          split at hx₁
          · exact hx₁.2
          · exact hx₁.2
        rcases exec_getSession_error h₁ with h | ⟨sess, t, h⟩
        · exact .inl h
        · exact .inr ⟨hash, sess, t, hsession, h⟩
    | ok sess =>
        left
        obtain ⟨hwait, -, -⟩ := exec_getSession_ok h₁
        obtain ⟨res, w₂, hr, hx₂⟩ := exec_call.mp hx₁
        obtain rfl : w₂ = w₁ := sem_reads rfl hr
        cases res with
        | error e =>
            dsimp only at hx₂
            split at hx₂
            · exact hx₂.2 ▸ hwait
            · exact hx₂.2 ▸ hwait
        | ok real => exact hwait.trans (exec_loadEffective hx₂).1

/-! ## What the middleware calls and answers -/

/-- The calls by which a session is looked up. -/
inductive Lookup : Call → Prop
  | select (hash : String) : Lookup (.sql (.selectSession hash))
  | now : Lookup .now
  | reap (hash : String) (expiresAt : Time) : Lookup (.sql (.reapSession hash expiresAt))
  | user (id : Int64) : Lookup (.sql (.getUser id))

theorem getSession_lookup (hash : String) : All Lookup (getSession hash) := by
  refine All.except (all_call_iff.mpr (.select hash)) (fun _ ↦ all_ret) fun sess ↦ ?_
  refine all_call.mpr ⟨.now, fun t ↦ ?_⟩
  split
  · exact all_call.mpr ⟨.reap _ _, fun _ ↦ all_ret⟩
  · exact all_ret

theorem loadEffective_lookup (sess : Session) (real : User) (hash : String) :
    All Lookup (loadEffective sess real hash) := by
  unfold loadEffective
  split
  · refine all_call.mpr ⟨.now, fun t ↦ ?_⟩
    split
    · refine all_call.mpr ⟨.user _, fun r ↦ ?_⟩
      split
      · exact all_ret
      · split
        · exact all_ret
        · exact all_ret
    · exact all_ret
  · exact all_ret

theorem loadSession_lookup (r : Request) : All Lookup (loadSession r) := by
  unfold loadSession
  split
  · exact all_ret
  · refine (getSession_lookup _).except (fun e ↦ ?_) fun sess ↦ ?_
    · dsimp only
      split
      · exact all_ret
      · exact all_ret
    · refine All.except (all_call_iff.mpr (.user _)) (fun e ↦ ?_) fun real ↦ ?_
      · dsimp only
        split
        · exact all_ret
        · exact all_ret
      · exact loadEffective_lookup _ _ _

/-- A request that is turned away is not given a cookie. -/
def Plain : Except Response Ctx → Prop
  | .error resp => resp.cookies = []
  | .ok _ => True

theorem loadEffective_plain (sess : Session) (real : User) (hash : String) :
    Returns Plain (loadEffective sess real hash) := by
  unfold loadEffective
  split
  · refine Returns.bind fun t ↦ ?_
    split
    · refine Returns.except (fun e ↦ ?_) fun target ↦ trivial
      dsimp only
      split
      · exact trivial
      · exact rfl
    · exact trivial
  · exact trivial

theorem loadSession_plain (r : Request) : Returns Plain (loadSession r) := by
  unfold loadSession
  split
  · exact rfl
  · refine Returns.except (fun e ↦ ?_) fun sess ↦ ?_
    · dsimp only
      split
      · exact rfl
      · exact rfl
    · refine Returns.except (fun e ↦ ?_) fun real ↦ loadEffective_plain sess real _
      dsimp only
      split
      · exact rfl
      · exact rfl

end GigMcp.Auth
