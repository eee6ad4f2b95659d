import GigMcp.Effect.Channel
import GigMcp.Effect.Trace
import GigMcp.Gateway.Cap
import GigMcp.Gateway.Threads
import Mathlib.Algebra.Order.Group.Multiset
import Mathlib.Tactic.Abel

/-!
# The auditing resolver

`AuditingResolver` (`gateway/audit_resolver.go`): a resolver that passes on what the one
inside it answers and records the decision.  The record goes through a channel of 256 to one
writer; a record that finds the channel full or the resolver closed is counted as dropped,
and so is one whose row the store does not take.

The goroutines are a pool: any number of `Resolve` and `Close` calls, and the writer.  A
section of `a.mu` is one call, as are a channel operation and a change of the counter.  A
statement of the store that fails leaves no row.
-/

namespace GigMcp.Gateway

open GigMcp.Effect GigMcp.System GigMcp.Store GigMcp.Data

/-! ## The code -/

/-- `auditRecord`. -/
structure AuditRecord where
  server : String
  tenant : String
  host : String
  decision : String
  detail : String
deriving DecidableEq

/-- The record of a resolution. -/
def auditRecord (id : Identity) (host : String) : Except Err ProxyCredential → AuditRecord
  | .error e => ⟨id.server, id.tenant, host, "error", e.text⟩
  | .ok cred =>
      if Proxy.hostAllowed host cred.allowedHosts then
        ⟨id.server, id.tenant, host, "resolved", ""⟩
      else ⟨id.server, id.tenant, host, "denied", "host not in allowlist"⟩

/-- The fields of `AuditingResolver` that change. -/
structure AuditState where
  ch : Chan AuditRecord
  closed : Bool
  dropped : Nat
  done : Bool

namespace AuditState

def fresh : AuditState := ⟨.fresh, false, 0, false⟩

/-- The section of `Resolve`. -/
def offer (s : AuditState) (rec : AuditRecord) : AuditState :=
  if s.closed then { s with dropped := s.dropped + 1 }
  else
    match s.ch.trySend 256 rec with
    | (.full, ch) => { s with ch := ch, dropped := s.dropped + 1 }
    | (_, ch) => { s with ch := ch }

/-- As long as the channel is not closed before the flag is set, a record is counted as
dropped or sent. -/
theorem offer_cases {s : AuditState} (h : s.ch.closed = true → s.closed = true)
    (rec : AuditRecord) :
    s.offer rec = { s with dropped := s.dropped + 1 } ∨
      (s.ch.closed = false ∧
        s.offer rec = { s with ch := { s.ch with queue := s.ch.queue ++ [rec] } }) := by
  by_cases hclosed : s.closed = true
  · rw [offer, if_pos hclosed]
    exact .inl rfl
  · have hopen : s.ch.closed = false := Bool.eq_false_iff.mpr fun hch ↦ hclosed (h hch)
    rw [offer, if_neg hclosed]
    rcases s.ch.trySend_of_open 256 hopen rec with hsend | hsend
    · rw [hsend]
      exact .inr ⟨hopen, rfl⟩
    · rw [hsend]
      exact .inl rfl

end AuditState

/-- A call of the auditing resolver's code. -/
inductive AuditCall
  | offer (rec : AuditRecord)
  | receive
  | drop
  | finish
  | shut
  | closeCh
  | await

/-- What a call answers. -/
@[reducible] def AuditCall.Res : AuditCall → Type
  | offer _ | drop | finish | closeCh | await => Unit
  | receive => Option AuditRecord
  | shut => Bool

/-- The signature of the auditing resolver. -/
@[reducible] def auditing : Signature := ⟨AuditCall, AuditCall.Res⟩

/-- What a call does. -/
def AuditCall.step : (e : AuditCall) → AuditState → e.Res → AuditState → Prop
  | offer rec, s, _, s' => s' = s.offer rec
  | receive, s, r, s' => ∃ ch, s.ch.receive = some (r, ch) ∧ s' = { s with ch := ch }
  | drop, s, _, s' => s' = { s with dropped := s.dropped + 1 }
  | finish, s, _, s' => s' = { s with done := true }
  | shut, s, first, s' => first = !s.closed ∧ s' = { s with closed := true }
  | closeCh, s, _, s' => s' = { s with ch := s.ch.close }
  | await, s, _, s' => s.done = true ∧ s' = s

/-- A resolver. -/
abbrev Inner := Identity → String → Code (Except Err ProxyCredential)

/-- Code of the auditing resolver. -/
abbrev AuditCode (α : Type) := Prog (gateway.sum auditing) α

namespace AuditingResolver

/-- `Resolve`. -/
def resolve (inner : Inner) (id : Identity) (host : String) :
    AuditCode (Except Err ProxyCredential) := do
  let res ← (inner id host).left
  let _ ← Prog.right (S := gateway) (T := auditing) (.offer (auditRecord id host res))
  return res

/-- The row that the writer appends for a record. -/
def append (rec : AuditRecord) : Code (Except Err Unit) := do
  let (_, profileID, userID) ← resolveTenant rec.tenant
  let t ← now
  sql (.appendAudit
    ⟨0, t, .egress, userID, profileID, rec.server, rec.host, rec.decision, rec.detail⟩)

/-- One round of `writer`. -/
def writer : AuditCode (Unit ⊕ Unit) := do
  match ← Prog.right (S := gateway) (T := auditing) .receive with
  | none => do
      let _ ← Prog.right (S := gateway) (T := auditing) .finish
      return .inl ()
  | some rec => do
      match ← (append rec).left with
      | .ok _ => return .inr ()
      | .error _ => do
          let _ ← Prog.right (S := gateway) (T := auditing) .drop
          return .inr ()

/-- `Close`, which answers whether it was the closing one. -/
def close : AuditCode Bool := do
  if ← Prog.right (S := gateway) (T := auditing) .shut then
    let _ ← Prog.right (S := gateway) (T := auditing) .closeCh
    let _ ← Prog.right (S := gateway) (T := auditing) .await
    return true
  else return false

end AuditingResolver

/-! ## The goroutines -/

/-- What a goroutine does with the resolver. -/
inductive AuditJob
  | resolve (id : Identity) (host : String)
  | writer
  | close
deriving DecidableEq

/-- What it ends with. -/
inductive AuditOutcome
  | resolved (res : Except Err ProxyCredential)
  | stopped
  | closed (first : Bool)

namespace AuditJob

/-- The code of a job. -/
def body (inner : Inner) : AuditJob → AuditCode (AuditOutcome ⊕ AuditJob)
  | resolve id host => do
      let res ← AuditingResolver.resolve inner id host
      return .inl (.resolved res)
  | writer => do
      match ← AuditingResolver.writer with
      | .inl () => return .inl .stopped
      | .inr () => return .inr .writer
  | close => do
      let first ← AuditingResolver.close
      return .inl (.closed first)

end AuditJob

/-- How far a thread has come: a `Resolve` call that has left its record, the writer with a
record in its hands or at the end of the channel, the closing call on its way. -/
inductive AuditStage
  | start
  | settled (rec : AuditRecord)
  | holding (rec : AuditRecord)
  | drained
  | shutting
  | waiting
  | returned
deriving DecidableEq

namespace AuditStage

/-- The stage after a call. -/
def track : (e : (gateway.sum auditing).Op) → AuditStage → (gateway.sum auditing).Res e → AuditStage
  | .inl (.sql (.appendAudit _)), holding _, .ok _ => start
  | .inr (.offer rec), _, _ => settled rec
  | .inr .receive, _, some rec => holding rec
  | .inr .receive, _, none => drained
  | .inr .drop, _, _ => start
  | .inr .shut, _, true => shutting
  | .inr .closeCh, _, _ => waiting
  | .inr .await, _, _ => returned
  | _, g, _ => g

end AuditStage

/-- A failed append leaves no row. -/
def AllOrNothing : (e : Call) → World → e.Res → World → Prop
  | .sql (.appendAudit _), w, .error _, w' => w' = w
  | _, _, _, _ => True

/-- A call that appends no row about egress. -/
def NotEgress : Call → Prop
  | .sql (.appendAudit ev) => ev.kind ≠ .egress
  | _ => True

/-- The goroutines of an auditing resolver.  The rest of the gateway works on the same store,
and leaves the rows about egress to the writer. -/
def audits (O : Outside) (inner : Inner) :
    Effect.System (gateway.sum auditing) AuditOutcome AuditJob AuditStage (World × AuditState) where
  sem
    | .inl e, x, r, y => sem O (fun _ ↦ True) e x.1 r y.1 ∧ AllOrNothing e x.1 r y.1 ∧ y.2 = x.2
    | .inr e, x, r, y => y.1 = x.1 ∧ e.step x.2 r y.2
  starts := fun j ↦ j ≠ .writer
  body := AuditJob.body inner
  init := fun _ ↦ .start
  track := AuditStage.track
  env := fun x y ↦
    y.2 = x.2 ∧ ∃ (e : Call) (r : e.Res), NotEgress e ∧ sem O (fun _ ↦ True) e x.1 r y.1

/-- A pool of such goroutines. -/
abbrev Audits := Pool (gateway.sum auditing) AuditOutcome AuditJob AuditStage (World × AuditState)

/-- `NewAuditingResolver`, which starts the writer. -/
def newAuditingResolver (inner : Inner) (w : World) : Audits :=
  ⟨(w, .fresh), [⟨.writer, AuditJob.writer.body inner, .start⟩]⟩

/-! ## Rows -/

/-- What a row about egress says. -/
structure AuditRow where
  server : String
  host : String
  decision : String
  detail : String
deriving DecidableEq

def AuditRecord.row (rec : AuditRecord) : AuditRow :=
  ⟨rec.server, rec.host, rec.decision, rec.detail⟩

def eventRow (ev : AuditEvent) : AuditRow := ⟨ev.server, ev.host, ev.decision, ev.detail⟩

/-- The rows about egress. -/
def egressRows (db : Database) : Multiset AuditRow :=
  ((db.audit.table.rows.filter fun ev ↦ ev.kind = .egress).map eventRow : List AuditRow)

/-- An append succeeds and adds its row, or fails and adds none. -/
theorem egressRows_appendAudit (ev : AuditEvent) (db : Database) :
    (((Sql.appendAudit ev).apply db).1 = .ok () ∧
      egressRows ((Sql.appendAudit ev).apply db).2 =
        if ev.kind = .egress then eventRow ev ::ₘ egressRows db else egressRows db) ∨
    ((∃ e, ((Sql.appendAudit ev).apply db).1 = .error e) ∧
      ((Sql.appendAudit ev).apply db).2 = db) := by
  simp only [Sql.apply, Database.appendAudit]
  split
  · rename_i i t ht
    refine .inl ⟨rfl, ?_⟩
    simp only [egressRows, AutoTable.rows_insert ht, List.filter_append, List.map_append,
      List.filter_cons, List.filter_nil]
    by_cases hkind : ev.kind = .egress
    · rw [if_pos (decide_eq_true hkind), if_pos hkind, ← Multiset.coe_add, Multiset.add_comm]
      exact Multiset.singleton_add _ _
    · rw [if_neg (by simpa using hkind), if_neg hkind, List.map_nil, List.append_nil]
  · exact .inr ⟨⟨_, rfl⟩, rfl⟩

/-- Nothing but an append about egress changes the rows. -/
theorem egressRows_apply {c : Sql} (hc : NotEgress (.sql c)) (db : Database) :
    egressRows (c.apply db).2 = egressRows db := by
  by_cases h : Tbl.audit ∈ c.writes
  · cases c with
    | appendAudit ev =>
        rcases egressRows_appendAudit ev db with ⟨-, hrows⟩ | ⟨-, hdb⟩
        · rw [hrows, if_neg hc]
        · rw [hdb]
    | _ => exact absurd h (by simp [Sql.writes])
  · have hsame : (c.apply db).2.audit = db.audit := Sql.apply_frame h db
    rw [egressRows, hsame, egressRows]

theorem egressRows_sem {O : Outside} {e : Call} {w w' : World} {r : e.Res} (he : NotEgress e)
    (h : sem O (fun _ ↦ True) e w r w') : egressRows w'.db = egressRows w.db := by
  rcases sem_db h with hdb | ⟨c, rfl, hdb⟩
  · rw [hdb]
  · rw [hdb, egressRows_apply he]

/-! ## What the goroutines keep to -/

namespace AuditStage

/-- What the record says that a call has left. -/
def left : AuditStage → Option AuditRow
  | settled rec => some rec.row
  | _ => none

/-- What the record says that the writer has in its hands. -/
def hand : AuditStage → Option AuditRow
  | holding rec => some rec.row
  | _ => none

/-- A call that is about to close the channel. -/
def shuts : AuditStage → Option Unit
  | shutting => some ()
  | _ => none

/-- When a job may make a call. -/
def Permits (j : AuditJob) : (gateway.sum auditing).Op → AuditStage → Prop
  | .inl (.sql (.appendAudit ev)), g =>
      (∃ rec, g = holding rec ∧ ev.kind = .egress ∧ eventRow ev = rec.row) ∨
        (g = start ∧ ev.kind ≠ .egress)
  | .inl _, g => g.left = none
  | .inr (.offer _), g | .inr .shut, g => g = start
  | .inr .receive, g => g = start ∧ j = .writer
  | .inr .drop, g => ∃ rec, g = holding rec
  | .inr .finish, g => g = drained
  | .inr .closeCh, g => g = shutting
  | .inr .await, g => g = waiting

/-- How a job may end. -/
def Ends (j : AuditJob) : AuditOutcome ⊕ AuditJob → AuditStage → Prop
  | .inl (.resolved res), g => ∃ id host, j = .resolve id host ∧ g = settled (auditRecord id host res)
  | .inl .stopped, g => g = drained
  | .inl (.closed first), g => g = if first then returned else start
  | .inr j', g => j = .writer ∧ j' = .writer ∧ g = start

theorem Permits.left_eq_none {j : AuditJob} {e : (gateway.sum auditing).Op} {g : AuditStage}
    (h : Permits j e g) : g.left = none := by
  unfold Permits at h
  split at h
  · rcases h with ⟨rec, rfl, -⟩ | ⟨rfl, -⟩
    · rfl
    · rfl
  · exact h
  · rw [h]
    rfl
  · rw [h]
    rfl
  · rw [h.1]
    rfl
  · obtain ⟨rec, rfl⟩ := h
    rfl
  · rw [h]
    rfl
  · rw [h]
    rfl
  · rw [h]
    rfl

end AuditStage

/-- A call that appends a row. -/
def Appends : Call → Prop
  | .sql (.appendAudit _) => True
  | _ => False

theorem permits_of_not_appends {j : AuditJob} {e : Call} {g : AuditStage} (he : ¬ Appends e)
    (hg : g.left = none) :
    AuditStage.Permits j (.inl e) g ∧ ∀ r, AuditStage.track (.inl e) g r = g := by
  cases e with
  | sql c =>
      cases c with
      | appendAudit ev => exact absurd trivial he
      | _ => exact ⟨hg, fun _ ↦ rfl⟩
  | _ => exact ⟨hg, fun _ ↦ rfl⟩

theorem permits_of_notEgress {j : AuditJob} {e : Call} (he : NotEgress e) :
    AuditStage.Permits j (.inl e) .start ∧ ∀ r, AuditStage.track (.inl e) .start r = .start := by
  cases e with
  | sql c =>
      cases c with
      | appendAudit ev => exact ⟨.inr ⟨rfl, he⟩, fun _ ↦ rfl⟩
      | _ => exact ⟨rfl, fun _ ↦ rfl⟩
  | _ => exact ⟨rfl, fun _ ↦ rfl⟩

theorem resolve_conforms {inner : Inner} (hinner : ∀ id host, All NotEgress (inner id host))
    {j : AuditJob} (id : Identity) (host : String) :
    Conforms AuditStage.track (AuditStage.Permits j)
      (fun res g ↦ g = .settled (auditRecord id host res))
      (AuditingResolver.resolve inner id host) .start := by
  have hcalls := (hinner id host).mono fun e he ↦ permits_of_notEgress (j := j) he
  refine (Conforms.left (.of_all_at hcalls)).bind ?_
  rintro res g rfl
  exact ⟨rfl, fun _ ↦ rfl⟩

/-- An append that succeeds frees the writer's hands. -/
theorem append_conforms {j : AuditJob} (rec : AuditRecord) :
    Conforms AuditStage.track (AuditStage.Permits j)
      (fun r g ↦ match r with
        | .ok _ => g = .start
        | .error _ => g = .holding rec)
      (AuditingResolver.append rec).left (.holding rec) := by
  have htenant : All (fun e ↦ AuditStage.Permits j (.inl e) (.holding rec) ∧
      ∀ r, AuditStage.track (.inl e) (.holding rec) r = .holding rec) (resolveTenant rec.tenant) := by
    refine (resolveTenant_calls rec.tenant).mono fun e he ↦ permits_of_not_appends ?_ rfl
    intro happ
    cases e with
    | sql c =>
        cases c with
        | appendAudit ev => exact he
        | _ => exact happ
    | _ => exact happ
  refine Conforms.left ((Conforms.of_all_at htenant).bind ?_)
  rintro ⟨tenant, profileID, userID⟩ g rfl
  refine ⟨rfl, fun t ↦ ⟨.inl ⟨rec, rfl, rfl, rfl⟩, fun r ↦ ?_⟩⟩
  cases r with
  | ok u => rfl
  | error e => rfl

theorem writer_conforms :
    Conforms AuditStage.track (AuditStage.Permits .writer)
      (fun r g ↦ match r with
        | .inl () => g = .drained
        | .inr () => g = .start)
      AuditingResolver.writer .start := by
  refine ⟨⟨rfl, rfl⟩, fun r ↦ ?_⟩
  cases r with
  | none => exact ⟨rfl, fun _ ↦ rfl⟩
  | some rec =>
      refine (append_conforms rec).bind ?_
      intro r g hg
      cases r with
      | ok u => exact hg
      | error e => exact ⟨⟨rec, hg⟩, fun _ ↦ rfl⟩

theorem close_conforms {j : AuditJob} :
    Conforms AuditStage.track (AuditStage.Permits j)
      (fun first g ↦ g = if first then .returned else .start)
      AuditingResolver.close .start := by
  refine ⟨rfl, fun first ↦ ?_⟩
  cases first with
  | true => exact ⟨rfl, fun _ ↦ ⟨rfl, fun _ ↦ rfl⟩⟩
  | false => rfl

theorem auditBody_conforms {inner : Inner} (hinner : ∀ id host, All NotEgress (inner id host))
    (j : AuditJob) :
    Conforms AuditStage.track (AuditStage.Permits j) (AuditStage.Ends j) (j.body inner) .start := by
  cases j with
  | resolve id host =>
      refine (resolve_conforms hinner id host).bind ?_
      rintro res g rfl
      exact ⟨id, host, rfl, rfl⟩
  | writer =>
      refine writer_conforms.bind ?_
      intro r g hg
      cases r with
      | inl u => exact hg
      | inr u => exact ⟨rfl, rfl, hg⟩
  | close =>
      refine close_conforms.bind ?_
      rintro first g rfl
      rfl

end GigMcp.Gateway
