import GigMcp.Store.Frame
import GigMcp.System.Call

/-!
# The world the gateway runs in

`World` is the state the gateway's calls read and write, and `sem` what a call
may answer there.  Two things are left to the outside (`Outside`): what the
vault's key opens, and which tokens the OAuth provider grants for a refresh
token.  Everything else a third party answers is arbitrary, except that it never
answers with one of the store's own sentinel errors.

`sem` is given the calls that may go wrong.  A statement in `faults` may also fail
with a foreign error, whether or not it took effect, and the vault may fail to
open a box it could open.
-/

namespace GigMcp.System

open GigMcp.Effect

/-- The state the gateway's calls read and write. -/
structure World where
  db : Store.Database
  now : Time
  host : Gateway.Host
  /-- The backends spawns have returned, the latest first. -/
  spawned : List Gateway.EgressBackend
  /-- The cleanups that were run, the latest first. -/
  cleaned : List Gateway.EgressBackend

/-- A gateway that has just been started over a store. -/
def World.boot (db : Store.Database) (now : Time) : World := ⟨db, now, .fresh, [], []⟩

/-- What the vault's key opens, and what the provider grants. -/
structure Outside where
  opens : String → Option String
  grants : Auth.OAuthConfig → String → Auth.OAuthToken → Prop

/-- An answer of a third party: any value, or an error that is not ours. -/
def Foreign {α : Type} (r : Except Err α) : Prop := ∀ e, r = .error e → e.Foreign

/-- A failed answer of a third party. -/
def Fails {α : Type} (r : Except Err α) : Prop := ∃ e, r = .error e ∧ e.Foreign

variable (O : Outside) (faults : Call → Prop)

/-- What a call may answer and do. -/
def sem : Sem gateway World
  | .sql c, w, r, w' =>
      (r = (c.apply w.db).1 ∧ w' = { w with db := (c.apply w.db).2 }) ∨
        (faults (.sql c) ∧ Fails r ∧ (w' = w ∨ w' = { w with db := (c.apply w.db).2 }))
  | .now, w, r, w' => w.now ≤ r ∧ w' = { w with now := r }
  | .encrypt p, w, r, w' => w' = w ∧ ((∃ box, r = .ok box ∧ O.opens box = some p) ∨ Fails r)
  | .decrypt box, w, r, w' =>
      w' = w ∧ ((∃ p, r = .ok p ∧ O.opens box = some p) ∨
        ((O.opens box = none ∨ faults (.decrypt box)) ∧ Fails r))
  | .newToken, w, r, w' => w' = w ∧ Foreign r
  | .random, w, r, w' => w' = w ∧ Foreign r
  | .newVerifier, w, _, w' => w' = w
  | .exchange .., w, r, w' => w' = w ∧ Foreign r
  | .refreshGrant conf rt, w, r, w' =>
      w' = w ∧ Foreign r ∧ ∀ tok, r = .ok tok → O.grants conf rt tok
  | .oidcExchange .., w, r, w' => w' = w ∧ Foreign r
  | .oidcVerify _, w, r, w' => w' = w ∧ Foreign r
  | .enter pid, w, r, w' =>
      r = (w.host.enter pid).1 ∧ w' = { w with host := (w.host.enter pid).2 }
  | .await ch, w, _, w' => ch ∈ w.host.closedChans ∧ w' = w
  | .commit pid built, w, r, w' =>
      r = (w.host.commit pid built).1.1 ∧
        w' = { w with
          host := (w.host.commit pid built).2
          cleaned := (w.host.commit pid built).1.2.reverse ++ w.cleaned }
  | .closeChan ch, w, _, w' => w' = { w with host := w.host.closeChan ch }
  | .takeRuntime pid, w, r, w' =>
      r = (w.host.take pid).1 ∧ w' = { w with host := (w.host.take pid).2 }
  | .takeAll, w, r, w' => r = w.host.takeAll.1 ∧ w' = { w with host := w.host.takeAll.2 }
  | .spawn srv tenant _, w, r, w' =>
      (r = .ok ⟨w.spawned.length, srv.name, tenant⟩ ∧
        w' = { w with spawned := ⟨w.spawned.length, srv.name, tenant⟩ :: w.spawned }) ∨
        (w' = w ∧ Fails r)
  | .cleanup b, w, _, w' => w' = { w with cleaned := b :: w.cleaned }
  | .listTools _, w, r, w' => w' = w ∧ Foreign r
  | .fetchIndex, w, r, w' => w' = w ∧ Foreign r
  | .stat _, w, _, w' => w' = w
  | .extract .., w, r, w' => w' = w ∧ Foreign r
  | .extractBundle .., w, r, w' => w' = w ∧ Foreign r
  | .readFile _, w, r, w' => w' = w ∧ Foreign r
  | .glob _, w, r, w' => w' = w ∧ Foreign r
  | .removeAll _, w, r, w' => w' = w ∧ Foreign r

variable {O faults}

/-- What a call can do to the world: nothing, the effect of a statement, an
advance of the clock, a new backend, or a section of the host's lock with the
cleanups it runs. -/
theorem sem_cases {e : Call} {w w' : World} {r : e.Res} (h : sem O faults e w r w') :
    w' = w ∨
    (∃ c, e = .sql c ∧ w' = { w with db := (c.apply w.db).2 }) ∨
    (∃ t, w.now ≤ t ∧ w' = { w with now := t }) ∨
    (∃ b, w' = { w with spawned := b :: w.spawned }) ∨
    (∃ host bs, w' = { w with host := host, cleaned := bs ++ w.cleaned }) := by
  cases e with
  | sql c =>
      rcases h with ⟨-, h⟩ | ⟨-, -, h | h⟩
      · exact .inr (.inl ⟨c, rfl, h⟩)
      · exact .inl h
      · exact .inr (.inl ⟨c, rfl, h⟩)
  | now => exact .inr (.inr (.inl ⟨r, h⟩))
  | spawn srv tenant placeholder =>
      rcases h with ⟨-, h⟩ | ⟨h, -⟩
      · exact .inr (.inr (.inr (.inl ⟨_, h⟩)))
      · exact .inl h
  | enter pid => exact .inr (.inr (.inr (.inr ⟨_, [], h.2⟩)))
  | takeRuntime pid => exact .inr (.inr (.inr (.inr ⟨_, [], h.2⟩)))
  | takeAll => exact .inr (.inr (.inr (.inr ⟨_, [], h.2⟩)))
  | commit pid built => exact .inr (.inr (.inr (.inr ⟨_, _, h.2⟩)))
  | closeChan ch => exact .inr (.inr (.inr (.inr ⟨_, [], h⟩)))
  | cleanup b => exact .inr (.inr (.inr (.inr ⟨w.host, [b], h⟩)))
  | newVerifier => exact .inl h
  | stat path => exact .inl h
  | await ch => exact .inl h.2
  | _ => exact .inl h.1

/-- Only a statement changes the store. -/
theorem sem_db {e : Call} {w w' : World} {r : e.Res} (h : sem O faults e w r w') :
    w'.db = w.db ∨ ∃ c, e = .sql c ∧ w'.db = (c.apply w.db).2 := by
  rcases sem_cases h with rfl | ⟨c, hc, rfl⟩ | ⟨t, -, rfl⟩ | ⟨b, rfl⟩ | ⟨host, bs, rfl⟩
  · exact .inl rfl
  · exact .inr ⟨c, hc, rfl⟩
  · exact .inl rfl
  · exact .inl rfl
  · exact .inl rfl

/-- The clock never runs backwards. -/
theorem sem_now_le {e : Call} {w w' : World} {r : e.Res} (h : sem O faults e w r w') :
    w.now ≤ w'.now := by
  rcases sem_cases h with rfl | ⟨c, -, rfl⟩ | ⟨t, ht, rfl⟩ | ⟨b, rfl⟩ | ⟨host, bs, rfl⟩
  · exact le_refl _
  · exact le_refl _
  · exact ht
  · exact le_refl _
  · exact le_refl _

theorem exec_now_le {α : Type} {p : Code α} {w w' : World} {a : α}
    (hx : Exec (sem O faults) p w a w') : w.now ≤ w'.now :=
  hx.frame (ρ := fun w w' ↦ w.now ≤ w'.now) (fun _ ↦ le_refl _) (fun _ _ _ ↦ le_trans)
    fun _ _ _ _ ↦ sem_now_le

/-- A statement that only reads leaves the world alone. -/
theorem sem_reads {c : Store.Sql} (hc : c.Reads = true) {w w' : World}
    {r : Except Err c.Ans} (h : sem O faults (.sql c) w r w') : w' = w := by
  have hdb := Store.Sql.apply_of_reads hc w.db
  rcases h with ⟨-, rfl⟩ | ⟨-, -, rfl | rfl⟩
  · rw [hdb]
  · rfl
  · rw [hdb]

/-- What a statement that only reads answers: the rows, or a foreign error. -/
theorem sem_reads_answer {c : Store.Sql} {w w' : World} {r : Except Err c.Ans}
    (h : sem O faults (.sql c) w r w') : r = (c.apply w.db).1 ∨ Fails r := by
  rcases h with ⟨h, -⟩ | ⟨-, h, -⟩
  · exact .inl h
  · exact .inr h

/-- Rows that a statement answered are the store's. -/
theorem sem_sql_ok {c : Store.Sql} {w w' : World} {a : c.Ans}
    (h : sem O faults (.sql c) w (.ok a) w') :
    (c.apply w.db).1 = .ok a ∧ w' = { w with db := (c.apply w.db).2 } := by
  rcases h with ⟨h, h'⟩ | ⟨-, ⟨e, he, -⟩, -⟩
  · exact ⟨h.symm, h'⟩
  · cases he

/-- The same for a statement that only reads. -/
theorem sem_read_ok {c : Store.Sql} {w w' : World} {a : c.Ans}
    (h : sem O faults (.sql c) w (.ok a) w') (hc : c.Reads = true) :
    (c.apply w.db).1 = .ok a ∧ w' = w :=
  ⟨(sem_sql_ok h).1, sem_reads hc h⟩

/-- What the vault opened. -/
theorem sem_decrypt_ok {box p : String} {w w' : World}
    (h : sem O faults (.decrypt box) w (.ok p) w') : O.opens box = some p ∧ w' = w := by
  obtain ⟨rfl, ⟨q, hq, hopen⟩ | ⟨-, e, he, -⟩⟩ := h
  · cases hq
    exact ⟨hopen, rfl⟩
  · cases he

/-- A statement that cannot fail does exactly what SQLite does with it. -/
theorem sem_healthy {c : Store.Sql} (hc : ¬ faults (.sql c)) {w w' : World}
    {r : Except Err c.Ans} :
    sem O faults (.sql c) w r w' ↔
      r = (c.apply w.db).1 ∧ w' = { w with db := (c.apply w.db).2 } := by
  constructor
  · rintro (h | ⟨h, -⟩)
    · exact h
    · exact absurd h hc
  · exact .inl

/-- More calls that may go wrong allow more. -/
theorem sem_mono {faults' : Call → Prop} (hf : ∀ e, faults e → faults' e) {e : Call}
    {w w' : World} {r : e.Res} (h : sem O faults e w r w') : sem O faults' e w r w' := by
  cases e with
  | sql c =>
      rcases h with h | ⟨hc, h⟩
      · exact .inl h
      · exact .inr ⟨hf _ hc, h⟩
  | decrypt box =>
      obtain ⟨rfl, h | ⟨h, hr⟩⟩ := h
      · exact ⟨rfl, .inl h⟩
      · exact ⟨rfl, .inr ⟨h.imp_right (hf _), hr⟩⟩
  | _ => exact h

/-! ## Statements that fail as planned -/

/-- The world when the store fails as planned: `some took` makes a statement fail, `took` saying
whether it has taken effect. -/
def planned (O : Outside) (plan : Store.Sql → Option Bool) : Sem gateway World
  | .sql c, w, r, w' =>
      match plan c with
      | none => r = (c.apply w.db).1 ∧ w' = { w with db := (c.apply w.db).2 }
      | some took => Fails r ∧ w' = if took then { w with db := (c.apply w.db).2 } else w
  | e, w, r, w' => sem O (fun _ ↦ False) e w r w'

section Planned

variable {plan : Store.Sql → Option Bool} {c : Store.Sql} {w w' : World} {r : Except Err c.Ans}

theorem planned_none (hc : plan c = none) :
    planned O plan (.sql c) w r w' ↔
      r = (c.apply w.db).1 ∧ w' = { w with db := (c.apply w.db).2 } := by
  simp only [planned, hc]

theorem planned_some {took : Bool} (hc : plan c = some took) :
    planned O plan (.sql c) w r w' ↔
      Fails r ∧ w' = if took then { w with db := (c.apply w.db).2 } else w := by
  simp only [planned, hc]

/-- A statement that answered did not fail. -/
theorem planned_ok {a : c.Ans} (h : planned O plan (.sql c) w (.ok a) w') : plan c = none := by
  cases hc : plan c with
  | none => rfl
  | some took =>
      obtain ⟨⟨e, he, -⟩, -⟩ := (planned_some hc).mp h
      cases he

end Planned

/-- What is planned is among what may happen. -/
theorem planned_sem {plan : Store.Sql → Option Bool} {e : Call} {w w' : World} {r : e.Res}
    (h : planned O plan e w r w') : sem O (fun _ ↦ True) e w r w' := by
  cases e with
  | sql c =>
      cases hc : plan c with
      | none => exact .inl ((planned_none hc).mp h)
      | some took =>
          obtain ⟨hr, rfl⟩ := (planned_some hc).mp h
          refine .inr ⟨trivial, hr, ?_⟩
          cases took with
          | false => exact .inl rfl
          | true => exact .inr rfl
  | _ => exact sem_mono (fun _ ↦ False.elim) h

/-! ## What a program leaves alone -/

/-- Worlds that differ at most in the given tables and the clock. -/
structure Alike (ts : List Store.Tbl) (w w' : World) : Prop where
  tbl : ∀ t, t ∉ ts → w'.db.tbl t = w.db.tbl t
  host : w'.host = w.host
  spawned : w'.spawned = w.spawned
  cleaned : w'.cleaned = w.cleaned

theorem Alike.refl (ts : List Store.Tbl) (w : World) : Alike ts w w :=
  ⟨fun _ _ ↦ rfl, rfl, rfl, rfl⟩

theorem Alike.trans {ts : List Store.Tbl} {w₁ w₂ w₃ : World} (h : Alike ts w₁ w₂)
    (h' : Alike ts w₂ w₃) : Alike ts w₁ w₃ :=
  ⟨fun t ht ↦ (h'.tbl t ht).trans (h.tbl t ht), h'.host.trans h.host,
    h'.spawned.trans h.spawned, h'.cleaned.trans h.cleaned⟩

/-- A call that only touches the given tables and the clock. -/
def Touches (ts : List Store.Tbl) : Call → Prop
  | .sql c => c.writes ⊆ ts
  | .enter _ | .commit .. | .closeChan _ | .takeRuntime _ | .takeAll | .spawn .. | .cleanup _ =>
      False
  | _ => True

theorem Touches.mono {ts ts' : List Store.Tbl} (hts : ts ⊆ ts') {e : Call} (h : Touches ts e) :
    Touches ts' e := by
  cases e with
  | sql c => exact List.Subset.trans h hts
  | _ => exact h

theorem sem_touches {ts : List Store.Tbl} {e : Call} {w w' : World} {r : e.Res}
    (he : Touches ts e) (h : sem O faults e w r w') : Alike ts w w' := by
  cases e with
  | sql c =>
      have halike : Alike ts w { w with db := (c.apply w.db).2 } :=
        ⟨fun t ht ↦ Store.Sql.apply_frame (fun hc ↦ ht (he hc)) w.db, rfl, rfl, rfl⟩
      rcases h with ⟨-, rfl⟩ | ⟨-, -, rfl | rfl⟩
      · exact halike
      · exact .refl ts _
      · exact halike
  | now =>
      obtain ⟨-, rfl⟩ := h
      exact ⟨fun _ _ ↦ rfl, rfl, rfl, rfl⟩
  | enter pid | commit pid built | closeChan ch | takeRuntime pid | takeAll
  | spawn srv tenant placeholder | cleanup b => exact he.elim
  | newVerifier => exact h ▸ .refl ts _
  | stat path => exact h ▸ .refl ts _
  | await ch => exact h.2 ▸ .refl ts _
  | _ => exact h.1 ▸ .refl ts _

/-- A program that only touches the given tables leaves the rest alone. -/
theorem exec_touches {α : Type} {ts : List Store.Tbl} {p : Code α} (hp : All (Touches ts) p)
    {w w' : World} {a : α} (hx : Exec (sem O faults) p w a w') : Alike ts w w' :=
  hp.frame (ρ := Alike ts) (.refl ts) (fun _ _ _ ↦ .trans)
    (fun _ _ _ _ he hr ↦ sem_touches he hr) hx

/-- A call that writes no other tables than the given ones. -/
def Writes (ts : List Store.Tbl) : Call → Prop
  | .sql c => c.writes ⊆ ts
  | _ => True

theorem Touches.writes {ts : List Store.Tbl} {e : Call} (h : Touches ts e) : Writes ts e := by
  cases e with
  | sql c => exact h
  | _ => trivial

theorem sem_writes {ts : List Store.Tbl} {e : Call} {w w' : World} {r : e.Res}
    (he : Writes ts e) (h : sem O faults e w r w') {t : Store.Tbl} (ht : t ∉ ts) :
    w'.db.tbl t = w.db.tbl t := by
  rcases sem_db h with hdb | ⟨c, rfl, hdb⟩
  · rw [hdb]
  · rw [hdb]
    exact Store.Sql.apply_frame (fun hc ↦ ht (he hc)) w.db

/-! ## Worlds over time -/

/-- `w'` may come after `w`: the gateway's code made calls in between, for
whatever requests and in whatever order, and any of them may have failed. -/
def Later (O : Outside) : World → World → Prop :=
  Relation.ReflTransGen fun w w' ↦ ∃ (e : Call) (r : e.Res), sem O (fun _ ↦ True) e w r w'

/-- Whatever a program does comes after the world it started in. -/
theorem later_of_exec {α : Type} {p : Code α} {w w' : World} {a : α}
    (h : Exec (sem O faults) p w a w') : Later O w w' :=
  h.frame (ρ := Later O) (fun _ ↦ .refl) (fun _ _ _ ↦ .trans)
    fun e _ r _ hr ↦ .single ⟨e, r, sem_mono (fun _ _ ↦ trivial) hr⟩

/-- A property of the rows of a table that every statement keeps is kept over any time. -/
theorem Later.follows {α β : Type} {id : α → Int64} {proj : α → β}
    {tbl : Store.Database → Data.AutoTable id}
    (hsql : ∀ (c : Store.Sql) db, Data.AutoTable.Follows proj (tbl db) (tbl (c.apply db).2))
    {w w' : World} (h : Later O w w') : Data.AutoTable.Follows proj (tbl w.db) (tbl w'.db) := by
  induction h with
  | refl => exact .refl _
  | tail _ hstep ih =>
      obtain ⟨e, r, hr⟩ := hstep
      refine ih.trans ?_
      rcases sem_db hr with hdb | ⟨c, -, hdb⟩
      · rw [hdb]
        exact .refl _
      · rw [hdb]
        exact hsql c _

/-- Profiles keep their owners and deleted ones their ids, over any time. -/
theorem Later.profiles {w w' : World} (h : Later O w w') :
    Data.AutoTable.Follows Store.Profile.userID w.db.profiles w'.db.profiles :=
  h.follows fun c db ↦ c.profiles_follows db

theorem Later.audit_grows {w w' : World} (h : Later O w w') :
    w.db.audit.table.rows <+: w'.db.audit.table.rows := by
  induction h with
  | refl => exact List.prefix_refl _
  | tail _ hstep ih =>
      obtain ⟨e, r, hr⟩ := hstep
      refine ih.trans ?_
      rcases sem_db hr with hdb | ⟨c, -, hdb⟩
      · exact hdb ▸ List.prefix_refl _
      · rw [hdb]
        exact c.audit_grows _

/-- Audit rows stay, and rows that come later have ids of their own. -/
theorem Later.mem_audit {w w' : World} (h : Later O w w') {e : Store.AuditEvent}
    (he : e.id.toInt ≤ w.db.audit.seq) :
    e ∈ w'.db.audit.table.rows ↔ e ∈ w.db.audit.table.rows := by
  have hfollows : Data.AutoTable.Follows (fun e ↦ e) w.db.audit w'.db.audit :=
    h.follows fun c db ↦ c.audit_follows db
  constructor
  · intro hmem
    obtain ⟨e', hrow, rfl⟩ := hfollows.same e.id e he (Data.Table.get?_of_mem hmem)
    exact Data.Table.mem_of_get? hrow
  · exact fun hmem ↦ h.audit_grows.subset hmem

end GigMcp.System
