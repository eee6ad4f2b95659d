import GigMcp.Api.Frame
import GigMcp.Api.Serve
import GigMcp.Effect.Pool

/-!
# Updates of an auth config side by side

An update of an auth config that brings no client secret is to keep the stored one.  It reads
the row, takes the secret out of it and writes the whole row back.  A read that fails counts as
a missing row, and the row may have been written between the read and the write.

A request's record is the secret it is about to write back.  As long as reads do not fail, and
nobody stores another secret while such a request is on its way (`Apart`), what the requests are
about to write back is what is there (`Current`), and so no write of theirs changes a secret.
-/

namespace GigMcp.Api.ClientSecret

open GigMcp.Effect GigMcp.System GigMcp.Store GigMcp.Auth GigMcp.Http GigMcp.Data

/-! ## Requests -/

/-- A request that writes an auth config. -/
inductive Update
  | put (ctx : Ctx) (vendor : String) (body : Payload)
  | delete (ctx : Ctx) (vendor : String)

/-- An update without a client secret. -/
def Update.MetadataOnly : Update → Prop
  | .put _ _ (.putAuthConfig b) => b.clientSecret = ""
  | _ => False

/-- The vendor and the client secret that a request has read and has yet to write back. -/
abbrev Read := Option (String × String)

/-- What a request has read, after a call. -/
def Read.track : (e : Call) → Read → e.Res → Read
  | .sql (.getAuthConfig v), _, .ok cur => some (v, cur.encryptedClientSecret)
  | .sql (.getAuthConfig v), _, .error _ => some (v, "")
  | .sql (.putAuthConfig _), _, _ => none
  | _, g, _ => g

/-- Requests that write auth configs, any number at once. -/
def updates (O : Outside) (faults : Call → Prop) (srv : Server) :
    Effect.System gateway Response Update Read World where
  sem := sem O faults
  starts := fun _ ↦ True
  body
    | .put ctx vendor body => do
        let resp ← handlePutAuthConfig srv ctx vendor body
        return .inl resp
    | .delete ctx vendor => do
        let resp ← handleDeleteAuthConfig ctx vendor
        return .inl resp
  init := fun _ ↦ none
  track := Read.track
  env := Eq

/-- The condition on the calls of a run: nobody stores a client secret, or deletes the row, while
another request has the vendor's secret in its hands. -/
def Apart : Guard gateway Update Read World
  | u, .sql (.putAuthConfig a), _, _, others =>
      u.MetadataOnly ∨ ∀ x ∈ others, ∀ s, x.2 ≠ some (a.vendor, s)
  | _, .sql (.deleteAuthConfig v), _, _, others => ∀ x ∈ others, ∀ s, x.2 ≠ some (v, s)
  | _, _, _, _, _ => True

/-! ## How requests conduct themselves -/

/-- When a request may make which call. -/
def Permitted (u : Update) : Call → Read → Prop
  | .sql (.putAuthConfig a), g => u.MetadataOnly → g = some (a.vendor, a.encryptedClientSecret)
  | .sql (.deleteAuthConfig _), g => g = none ∧ ¬ u.MetadataOnly
  | e, _ => Touches [.audit] e

section Conducts

variable {u : Update} {g : Read}

/-- Whatever a request has read. -/
def Ends {α : Type} (_ : α) (_ : Read) : Prop := True

theorem audit_conducts (ctx : Ctx) (decision detail : String) (profileID : Option Int64) :
    Conforms (S := gateway) Read.track (Permitted u) Ends (audit ctx decision detail profileID) g :=
  ⟨trivial, fun _ ↦ ⟨List.Subset.refl _, fun _ ↦ trivial⟩⟩

/-- The secret to write back is the one that was read. -/
theorem sealClientSecret_conducts {vendor secret : String} :
    Conforms (S := gateway) Read.track (Permitted u)
      (fun r g ↦ secret = "" → ∀ enc, r = .ok enc → g = some (vendor, enc))
      (sealClientSecret vendor secret) none := by
  unfold sealClientSecret
  split
  · rename_i hne
    exact ⟨trivial, fun _ hempty ↦ absurd hempty hne⟩
  · refine conforms_call.mpr ⟨List.nil_subset _, fun r ↦ ?_⟩
    cases r with
    | ok cur =>
        intro _ enc henc
        cases henc
        rfl
    | error e =>
        intro _ enc henc
        cases henc
        rfl

theorem put_conducts (srv : Server) (ctx : Ctx) (vendor : String) (body : Payload) :
    Conforms (S := gateway) Read.track (Permitted (.put ctx vendor body)) Ends
      (handlePutAuthConfig srv ctx vendor body) none := by
  unfold handlePutAuthConfig
  split
  · trivial
  split
  · rename_i b
    split
    · trivial
    · refine sealClientSecret_conducts.bind fun r g hread ↦ ?_
      cases r with
      | error e => trivial
      | ok enc =>
          refine conforms_call.mpr ⟨fun hmeta ↦ hread hmeta enc rfl, fun r ↦ ?_⟩
          cases r with
          | error e => trivial
          | ok _ => exact (audit_conducts ..).bind fun _ _ _ ↦ trivial
  · trivial

theorem delete_conducts (ctx : Ctx) (vendor : String) :
    Conforms (S := gateway) Read.track (Permitted (.delete ctx vendor)) Ends
      (handleDeleteAuthConfig ctx vendor) none := by
  unfold handleDeleteAuthConfig
  split
  · trivial
  · refine conforms_call.mpr ⟨⟨rfl, id⟩, fun r ↦ ?_⟩
    cases r with
    | error e => trivial
    | ok _ => exact (audit_conducts ..).bind fun _ _ _ ↦ trivial

end Conducts

/-! ## The invariant -/

/-- The stored client secret of a vendor, empty without a row. -/
def secretOf (db : Database) (vendor : String) : String :=
  ((db.authConfigs.get? vendor).map AuthConfig.encryptedClientSecret).getD ""

/-- What requests are about to write back is what is there. -/
def Current (w : World) (xs : Multiset (Update × Read)) : Prop :=
  ∀ x ∈ xs, ∀ v s, x.2 = some (v, s) → secretOf w.db v = s

section Steps

variable {O : Outside} {faults : Call → Prop} {w w' : World} {u : Update} {g : Read}
  {xs : Multiset (Update × Read)}

theorem secretOf_putAuthConfig (a : AuthConfig) (db : Database) (v : String) :
    secretOf ((Sql.putAuthConfig a).apply db).2 v =
      if v = a.vendor then a.encryptedClientSecret else secretOf db v := by
  rw [secretOf, Sql.get?_putAuthConfig]
  split
  · rfl
  · rfl

theorem secretOf_deleteAuthConfig {vendor v : String} (hne : v ≠ vendor) (db : Database) :
    secretOf ((Sql.deleteAuthConfig vendor).apply db).2 v = secretOf db v := by
  rw [secretOf, secretOf, Sql.apply, Table.get?_deleteWhere]
  cases hrow : db.authConfigs.get? v with
  | none => rfl
  | some s =>
      have hvendor : s.vendor = v := Table.key_of_get? hrow
      rw [Option.filter_some, if_pos]
      rw [hvendor, decide_eq_false hne]
      rfl

/-- A call that keeps every secret that is in somebody's hands. -/
theorem Current.keep {g' : Read} (h : Current w ((u, g) ::ₘ xs))
    (hxs : ∀ x ∈ xs, ∀ v s, x.2 = some (v, s) → secretOf w'.db v = secretOf w.db v)
    (hme : ∀ v s, g' = some (v, s) → secretOf w'.db v = s) : Current w' ((u, g') ::ₘ xs) := by
  refine Multiset.forall_mem_cons.mpr ⟨hme, fun x hx v s hread ↦ ?_⟩
  rw [hxs x hx v s hread]
  exact h x (Multiset.mem_cons_of_mem hx) v s hread

/-- A call that leaves the auth configs alone. -/
theorem Current.quiet (h : Current w ((u, g) ::ₘ xs))
    (hsame : w'.db.authConfigs = w.db.authConfigs) : Current w' ((u, g) ::ₘ xs) := by
  have hsecret (v : String) : secretOf w'.db v = secretOf w.db v := by
    rw [secretOf, hsame, secretOf]
  refine h.keep (fun _ _ v _ _ ↦ hsecret v) fun v s hread ↦ ?_
  rw [hsecret]
  exact h _ (Multiset.mem_cons_self _ _) v s hread

theorem Current.put {a : AuthConfig} {r : Except Err Unit} (h : Current w ((u, g) ::ₘ xs))
    (hpre : Permitted u (.sql (.putAuthConfig a)) g)
    (hok : u.MetadataOnly ∨ ∀ x ∈ xs, ∀ s, x.2 ≠ some (a.vendor, s))
    (hr : sem O faults (.sql (.putAuthConfig a)) w r w') : Current w' ((u, none) ::ₘ xs) := by
  refine h.keep (fun x hx v s hread ↦ ?_) nofun
  rcases sem_db hr with hdb | ⟨c, hc, hdb⟩
  · rw [hdb]
  · cases hc
    rw [hdb, secretOf_putAuthConfig]
    split
    · rename_i hv
      subst hv
      rcases hok with hmeta | hapart
      · exact (h _ (Multiset.mem_cons_self _ _) _ _ (hpre hmeta)).symm
      · exact absurd hread (hapart x hx s)
    · rfl

theorem Current.delete {vendor : String} {r : Except Err Unit} (h : Current w ((u, g) ::ₘ xs))
    (hpre : Permitted u (.sql (.deleteAuthConfig vendor)) g)
    (hok : ∀ x ∈ xs, ∀ s, x.2 ≠ some (vendor, s))
    (hr : sem O faults (.sql (.deleteAuthConfig vendor)) w r w') : Current w' ((u, g) ::ₘ xs) := by
  obtain ⟨rfl, -⟩ := hpre
  refine h.keep (fun x hx v s hread ↦ ?_) nofun
  have hne : v ≠ vendor := by
    rintro rfl
    exact hok x hx s hread
  rcases sem_db hr with hdb | ⟨c, hc, hdb⟩
  · rw [hdb]
  · cases hc
    rw [hdb, secretOf_deleteAuthConfig hne]

/-- A read that does not fail shows the secret that is there. -/
theorem Current.read {vendor : String} {r : Except Err AuthConfig} (h : Current w ((u, g) ::ₘ xs))
    (hread : ¬ faults (.sql (.getAuthConfig vendor)))
    (hr : sem O faults (.sql (.getAuthConfig vendor)) w r w') :
    Current w' ((u, Read.track (.sql (.getAuthConfig vendor)) g r) ::ₘ xs) := by
  obtain rfl : w' = w := sem_reads rfl hr
  refine h.keep (fun _ _ _ _ _ ↦ rfl) fun v s htrack ↦ ?_
  have hanswer := ((sem_healthy hread).mp hr).1
  cases hrow : w'.db.authConfigs.get? vendor with
  | none =>
      rw [Sql.apply, hrow] at hanswer
      subst hanswer
      cases htrack
      rw [secretOf, hrow]
      rfl
  | some cur =>
      rw [Sql.apply, hrow] at hanswer
      subst hanswer
      cases htrack
      rw [secretOf, hrow]
      rfl

/-- A permitted call that is no statement on auth configs. -/
theorem sem_aside {e : Call} {r : e.Res} (hr : sem O faults e w r w') (he : Touches [.audit] e) :
    w'.db.authConfigs = w.db.authConfigs :=
  (sem_touches he hr).tbl .authConfigs (by decide)

/-- **Step lemma.**  A permitted call that meets the condition keeps what requests are about to
write back up to date. -/
theorem Current.call {e : Call} {r : e.Res} (h : Current w ((u, g) ::ₘ xs)) (hpre : Permitted u e g)
    (hok : Apart u e g w xs) (hread : ∀ v, ¬ faults (.sql (.getAuthConfig v)))
    (hr : sem O faults e w r w') : Current w' ((u, Read.track e g r) ::ₘ xs) := by
  cases e with
  | sql c =>
      cases c with
      | putAuthConfig a => exact h.put hpre hok hr
      | deleteAuthConfig v => exact h.delete hpre hok hr
      | getAuthConfig v => exact h.read (hread v) hr
      | _ => exact h.quiet (sem_aside hr hpre)
  | _ => exact h.quiet (sem_aside hr hpre)

/-- A call of a request without a client secret keeps the secret of every row. -/
theorem keeps_secret {e : Call} {r : e.Res} (h : Current w ((u, g) ::ₘ xs))
    (hmeta : u.MetadataOnly) (hpre : Permitted u e g) (hr : sem O faults e w r w') {v : String}
    {row : AuthConfig} (hrow : w.db.authConfigs.get? v = some row) :
    ∃ row', w'.db.authConfigs.get? v = some row' ∧
      row'.encryptedClientSecret = row.encryptedClientSecret := by
  have haside (hsame : w'.db.authConfigs = w.db.authConfigs) :
      ∃ row', w'.db.authConfigs.get? v = some row' ∧
        row'.encryptedClientSecret = row.encryptedClientSecret := ⟨row, hsame ▸ hrow, rfl⟩
  cases e with
  | sql c =>
      cases c with
      | putAuthConfig a =>
          rcases sem_db hr with hdb | ⟨c, hc, hdb⟩
          · exact haside (hdb ▸ rfl)
          · cases hc
            rw [hdb, Sql.get?_putAuthConfig]
            split
            · rename_i hv
              have hcurrent := h _ (Multiset.mem_cons_self _ _) _ _ (hpre hmeta)
              rw [← hv, secretOf, hrow] at hcurrent
              exact ⟨_, rfl, hcurrent.symm⟩
            · exact ⟨row, hrow, rfl⟩
      | deleteAuthConfig vendor => exact absurd hmeta hpre.2
      | _ => exact haside (sem_aside hr hpre)
  | _ => exact haside (sem_aside hr hpre)

end Steps

/-- Requests that stay apart are up to date. -/
def upToDate (O : Outside) {faults : Call → Prop} (hread : ∀ v, ¬ faults (.sql (.getAuthConfig v)))
    (srv : Server) : GuardedDiscipline (updates O faults srv) Apart where
  pre := Permitted
  fin := fun _ x _ ↦ ∃ resp, x = .inl resp
  Inv := Current
  body_conforms := by
    intro u _
    cases u with
    | put ctx vendor body => exact (put_conducts srv ctx vendor body).bind fun resp _ _ ↦ ⟨resp, rfl⟩
    | delete ctx vendor => exact (delete_conducts ctx vendor).bind fun resp _ _ ↦ ⟨resp, rfl⟩
  again_conforms := by
    rintro _ _ _ _ _ _ ⟨_, ⟨⟩⟩
  inv_start := fun _ _ _ _ h ↦ Multiset.forall_mem_cons.mpr ⟨nofun, h⟩
  inv_call := fun _ _ _ _ _ _ _ h hpre hok hr ↦ h.call hpre hok hread hr
  inv_again := by
    rintro _ _ _ _ _ _ ⟨_, ⟨⟩⟩
  inv_env := by
    rintro _ _ _ h rfl
    exact h

/-- However updates and deletions of auth configs interleave, as long as the reads of the updates
do not fail and nobody stores a client secret, or deletes the row, while another request has the
vendor's secret in its hands: no call of an update without a client secret changes the secret of a
row. -/
theorem metadata_keeps_secret {O : Outside} {faults : Call → Prop} {srv : Server} {w : World}
    (hread : ∀ v, ¬ faults (.sql (.getAuthConfig v)))
    {c : Pool gateway Response Update Read World}
    (h : (updates O faults srv).ReachIf Apart ⟨w, []⟩ c)
    {t : Thread gateway Response Update Read} (ht : t ∈ c.threads) (hmeta : t.job.MetadataOnly)
    {e : Call} {k : e.Res → Code (Response ⊕ Update)} (hcall : t.cur = .vis e k) {r : e.Res}
    {w' : World} (hr : sem O faults e c.shared r w') {v : String} {row : AuthConfig}
    (hrow : c.shared.db.authConfigs.get? v = some row) :
    ∃ row', w'.db.authConfigs.get? v = some row' ∧
      row'.encryptedClientSecret = row.encryptedClientSecret := by
  have hempty : Current w 0 := fun x hx ↦ absurd hx (Multiset.notMem_zero x)
  obtain ⟨hconf, hinv⟩ := (upToDate O hread srv).good ((upToDate O hread srv).good_nil hempty) h
  have hpre := hconf t ht
  rw [hcall] at hpre
  obtain ⟨xs, hxs⟩ := Multiset.exists_cons_of_mem (Pool.mem_records ht)
  have hcurrent : Current c.shared ((t.job, t.record) ::ₘ xs) := hxs ▸ hinv
  exact keeps_secret hcurrent hmeta hpre.1 hr hrow

namespace Example

/-- The context of an admin. -/
def admin : Ctx :=
  let u : User := ⟨1, "idp", "alice", "alice", "alice", .admin, 0, 0⟩
  ⟨u, u, "hash0", false⟩

/-- An update of the config of one vendor. -/
def update (clientID clientSecret : String) : Update :=
  .put admin "github" (.putAuthConfig
    ⟨"https://github.com/a", "https://github.com/t", clientID, clientSecret, [], true, "byo"⟩)

/-- A config is stored, and an update without a secret reads it. -/
def reading : List (Move Update) :=
  .start (update "one" "old") :: List.replicate 4 (.step 0) ++ [.start (update "two" ""), .step 1]

/-- Another update stores a new secret before the update without one writes. -/
def overtaken : List (Move Update) :=
  reading ++ .start (update "three" "new") :: List.replicate 4 (.step 2)

abbrev pool (fails : Sql → Option Bool) (moves : List (Move Update)) :
    Pool gateway Response Update Read World :=
  (updates Partners.outside (fun _ ↦ True) Local.server).play (Local.partners.faulty fails)
    ⟨.boot .fresh 0, []⟩ moves

/-- A store on which reads of auth configs fail. -/
def unread : Sql → Option Bool
  | .getAuthConfig _ => some false
  | _ => none

/-- No statement fails. -/
abbrev calm (moves : List (Move Update)) : Pool gateway Response Update Read World :=
  (updates Partners.outside (fun _ ↦ False) Local.server).play Local.partners.answer
    ⟨.boot .fresh 0, []⟩ moves

theorem calm_meets : System.Meets (updates Partners.outside (fun _ ↦ False) Local.server)
    Local.partners.answer Apart ⟨.boot .fresh 0, []⟩ reading := by
  refine ⟨trivial, trivial, ?_, trivial, trivial, trivial, trivial, trivial⟩
  exact .inr fun x hx ↦ absurd hx (Multiset.notMem_zero x)

theorem reach_pool (fails : Sql → Option Bool) (moves : List (Move Update)) :
    (updates Partners.outside (fun _ ↦ True) Local.server).Reach ⟨.boot .fresh 0, []⟩
      (pool fails moves) :=
  System.reach_play (fun _ _ _ _ h ↦ Local.partners.faulty_sem h) (fun _ _ ↦ trivial) _

end Example

open Example in
/-- An update without a secret writes back the one it has read. -/
theorem metadata_keeps_secret_github :
    ∃ row, (calm (reading ++ [.step 1])).shared.db.authConfigs.get? "github" = some row ∧
      row.encryptedClientSecret = "#old" := by
  have hreach : (updates Partners.outside (fun _ ↦ False) Local.server).ReachIf Apart
      ⟨.boot .fresh 0, []⟩ (calm reading) :=
    System.reachIf_play (fun _ _ _ _ h ↦ Local.partners.answer_sem h fun _ ↦ False) (fun _ _ ↦ trivial) _
      calm_meets
  have hwrite : Local.partners.answer (.sql (.putAuthConfig ⟨"github", "https://github.com/a",
      "https://github.com/t", "two", "#old", [], true, "byo"⟩)) (calm reading).shared =
      some (.ok (), (calm (reading ++ [.step 1])).shared) := rfl
  exact metadata_keeps_secret (fun _ h ↦ h) hreach (List.mem_cons_of_mem _ List.mem_cons_self) rfl
    rfl (Local.partners.answer_sem hwrite _) (v := "github") rfl

open Example in
/-- A read that fails erases the secret, and an update that is overtaken brings back the secret
that was replaced. -/
theorem metadata_changes_secret :
    ((updates Partners.outside (fun _ ↦ True) Local.server).Reach ⟨.boot .fresh 0, []⟩
        (pool unread (reading ++ [.step 1])) ∧
      secretOf (pool unread reading).shared.db "github" = "#old" ∧
      secretOf (pool unread (reading ++ [.step 1])).shared.db "github" = "") ∧
    ((updates Partners.outside (fun _ ↦ True) Local.server).Reach ⟨.boot .fresh 0, []⟩
        (pool (fun _ ↦ none) (overtaken ++ [.step 1])) ∧
      secretOf (pool (fun _ ↦ none) overtaken).shared.db "github" = "#new" ∧
      secretOf (pool (fun _ ↦ none) (overtaken ++ [.step 1])).shared.db "github" = "#old") :=
  ⟨⟨reach_pool _ _, rfl, rfl⟩, reach_pool _ _, rfl, rfl⟩

end GigMcp.Api.ClientSecret
