import GigMcp.Api.Handlers
import GigMcp.Auth.Middleware

/-!
# Reading the audit log in pages

`handleListAudit` answers with a page of the log, newest first, and the id to ask for the
next page with.  A client starts without an id and follows `next_before` until it is zero,
while the gateway goes on writing.

`newestFirst` is the log a client may see.  A page is a piece of what is left of it
(`exec_page`), what is left after the page is below the last id of the page, and there nothing
ever changes, since ids are handed out in ascending order (`remaining_of_later`).
-/

namespace GigMcp.Api

open GigMcp.Effect GigMcp.System GigMcp.Store GigMcp.Data GigMcp.Auth GigMcp.Http

/-! ## The log of a user -/

/-- An event that a user filter lets through; zero is no filter. -/
def Matches (userID : Int64) (e : AuditEvent) : Prop := userID = 0 ∨ e.userID = some userID

instance (userID : Int64) : DecidablePred (Matches userID) := fun _ ↦ instDecidableOr

/-- An event that comes after the id `before`; zero is the start. -/
def Below (before : Int64) (e : AuditEvent) : Prop := before ≤ 0 ∨ e.id < before

instance (before : Int64) : DecidablePred (Below before) := fun _ ↦ instDecidableOr

/-- The events that a filter lets through. -/
def newestFirst (db : Database) (userID : Int64) : List AuditEvent :=
  (orderBy AuditEvent.id (db.audit.table.rows.filter fun e ↦ Matches userID e)).reverse

/-- What a client that has come to the id `before` has yet to see. -/
def remaining (db : Database) (userID before : Int64) : List AuditEvent :=
  (newestFirst db userID).filter fun e ↦ Below before e

section Log

variable {db : Database} {userID before : Int64} {e : AuditEvent}

theorem mem_newestFirst :
    e ∈ newestFirst db userID ↔ e ∈ db.audit.table.rows ∧ Matches userID e := by
  rw [newestFirst, List.mem_reverse, mem_orderBy, List.mem_filter, decide_eq_true_eq]

theorem mem_remaining : e ∈ remaining db userID before ↔
    (e ∈ db.audit.table.rows ∧ Matches userID e) ∧ Below before e := by
  rw [remaining, List.mem_filter, mem_newestFirst, decide_eq_true_eq]

/-- Rows of the audit table, in order of their ids and then reversed. -/
theorem descending_of_orderBy (db : Database) (p : AuditEvent → Bool) :
    (orderBy AuditEvent.id (db.audit.table.rows.filter p)).reverse.Pairwise
      fun a b ↦ b.id.toInt < a.id.toInt := by
  have htotal : Std.Total fun a b : AuditEvent ↦ a.id ≤ b.id := ⟨fun a b ↦ Int64.le_total a.id b.id⟩
  have htrans : IsTrans AuditEvent fun a b ↦ a.id ≤ b.id := ⟨fun _ _ _ ↦ Int64.le_trans⟩
  have hle := List.pairwise_insertionSort (fun a b : AuditEvent ↦ a.id ≤ b.id)
    (db.audit.table.rows.filter p)
  have hne : (orderBy AuditEvent.id (db.audit.table.rows.filter p)).Pairwise
      fun a b ↦ a.id ≠ b.id := by
    rw [← List.pairwise_map (R := (· ≠ ·))]
    refine List.Nodup.perm ?_ ((List.perm_insertionSort _ _).map _).symm
    exact db.audit.table.nodup.sublist (List.filter_sublist.map _)
  rw [List.pairwise_reverse]
  refine (hle.and hne).imp fun {a b} h ↦ ?_
  have hne' : a.id.toInt ≠ b.id.toInt := fun heq ↦ h.2 (Int64.toInt_inj.mp heq)
  exact lt_of_le_of_ne (Int64.le_iff_toInt_le.mp h.1) hne'

theorem remaining_descending (db : Database) (userID before : Int64) :
    (remaining db userID before).Pairwise fun a b ↦ b.id.toInt < a.id.toInt :=
  (descending_of_orderBy db _).filter _

/-- At the start, all of the log remains. -/
theorem remaining_zero (db : Database) (userID : Int64) :
    remaining db userID 0 = newestFirst db userID :=
  List.filter_eq_self.mpr fun _ _ ↦ decide_eq_true (.inl (Int64.le_refl 0))

/-- `ListAudit` answers with a piece of what remains. -/
theorem listAudit_eq (limit : Nat) :
    (Sql.listAudit before limit userID).apply db =
      (.ok ((remaining db userID before).take limit), db) := by
  have hsame : (orderBy AuditEvent.id (db.audit.table.rows.filter fun e ↦
      (before ≤ 0 ∨ e.id < before) ∧ (userID = 0 ∨ e.userID = some userID))).reverse =
      remaining db userID before := by
    refine eq_of_descending (descending_of_orderBy db _) (remaining_descending ..) fun e ↦ ?_
    rw [mem_remaining, List.mem_reverse, mem_orderBy, List.mem_filter, decide_eq_true_eq, and_assoc,
      and_comm (a := Matches userID e)]
    rfl
  rw [Sql.apply, hsame]

/-- What remains after the event `e`. -/
theorem remaining_below (hbelow : Below before e) (hpos : 0 < e.id.toInt) :
    (remaining db userID before).filter (fun a ↦ a.id.toInt < e.id.toInt) =
      remaining db userID e.id := by
  have hpos' : ¬ e.id ≤ 0 := by
    rw [Int64.le_iff_toInt_le, Int64.toInt_zero]
    exact not_le.mpr hpos
  rw [remaining, remaining, List.filter_filter]
  refine List.filter_congr fun a _ ↦ ?_
  rw [← Bool.decide_and]
  refine decide_eq_decide.mpr ?_
  rw [Below, Below, or_iff_right hpos', Int64.lt_iff_toInt_lt, Int64.lt_iff_toInt_lt]
  refine and_iff_left_of_imp fun hlt ↦ ?_
  rcases hbelow with hzero | hlt'
  · exact .inl hzero
  · exact .inr (lt_trans hlt (Int64.lt_iff_toInt_lt.mp hlt'))

/-- Whatever the gateway does, nothing changes below an id that was handed out. -/
theorem remaining_of_later {O : Outside} {w w' : World} (h : Later O w w') (hpos : 0 < before.toInt)
    (hseq : before.toInt ≤ w.db.audit.seq) :
    remaining w'.db userID before = remaining w.db userID before := by
  refine eq_of_descending (remaining_descending ..) (remaining_descending ..) fun e ↦ ?_
  rw [mem_remaining, mem_remaining]
  refine and_congr_left fun hbelow ↦ and_congr_left fun _ ↦ h.mem_audit ?_
  rcases hbelow with hzero | hlt
  · rw [Int64.le_iff_toInt_le, Int64.toInt_zero] at hzero
    omega
  · have := Int64.lt_iff_toInt_lt.mp hlt
    omega

end Log

/-! ## Pages -/

/-- What a client asks for, apart from where to go on: the texts of `limit` and `user_id`. -/
structure AuditQuery where
  limit : String
  userID : String

/-- A request for the page after `before`. -/
def AuditQuery.Asks (q : AuditQuery) (before : Int64) (r : Request) : Prop :=
  parseIntValue (r.queryGet "before") = before ∧ r.queryGet "limit" = q.limit ∧
    r.queryGet "user_id" = q.userID

section Pages

variable (O : Outside) (ctx : Ctx) (q : AuditQuery)

/-- A request for the page after `before` was answered with events and a next id. -/
def Page (before : Int64) (w : World) (events : List AuditEvent) (next : Int64) (w' : World) :
    Prop :=
  ∃ r, q.Asks before r ∧
    Exec (sem O fun _ ↦ True) (handleListAudit ctx r) w (writeJSON 200 (.audit events next)) w'

/-- The pages a client gets that follows `next_before` from `before` until it is zero, the
gateway doing anything between two requests. -/
inductive Pages : Int64 → World → List (List AuditEvent) → Prop
  | /-- There is no next page. -/
    last {before w events w'} : Page O ctx q before w events 0 w' → Pages before w [events]
  | /-- The client goes on. -/
    more {before w events next w' w'' pages} : Page O ctx q before w events next w' → next ≠ 0 →
      Later O w' w'' → Pages next w'' pages → Pages before w (events :: pages)

/-- Following `next_before` from `before` comes to an end, whatever the gateway does between
two requests: every answer to a request is a page, with no next one or one from which following
comes to an end. -/
inductive Ends : Int64 → World → Prop
  | intro {before w}
      (answers : ∀ r, q.Asks before r → ∀ resp w',
        Exec (sem O fun _ ↦ False) (handleListAudit ctx r) w resp w' →
        ∃ events next, resp = writeJSON 200 (.audit events next))
      (follow : ∀ events next w' w'', Page O ctx q before w events next w' → next ≠ 0 →
        Later O w' w'' → Ends next w'') : Ends before w

end Pages

/-- Whom a caller's filter is forced to, if it is. -/
def forcedTo (ctx : Ctx) : Option Int64 :=
  if ctx.impersonating then some ctx.effective.id
  else if ctx.real.role ≠ .admin then some ctx.real.id
  else none

section Follow

variable {O : Outside} {faults : Call → Prop} {ctx : Ctx} {q : AuditQuery} {w w' : World}
  {before next : Int64} {events : List AuditEvent}

/-- The number of events on a full page. -/
def pageSize (q : AuditQuery) : Nat := (auditLimit q.limit).toInt.toNat

/-- A page has between one and 200 events, so the store's own bounds do not matter. -/
theorem pageSize_bounds (q : AuditQuery) : 1 ≤ pageSize q ∧ pageSize q ≤ 200 ∧
    (pageSize q : Int) = (auditLimit q.limit).toInt := by
  have hlimit : 1 ≤ (auditLimit q.limit).toInt ∧ (auditLimit q.limit).toInt ≤ 200 := by
    unfold auditLimit
    dsimp only
    split
    · decide
    · rename_i h
      rw [not_or, Int64.le_iff_toInt_le, gt_iff_lt, Int64.lt_iff_toInt_lt] at h
      obtain ⟨hpos, hle⟩ := h
      have hzero : (0 : Int64).toInt = 0 := rfl
      have hmax : (200 : Int64).toInt = 200 := rfl
      omega
  unfold pageSize
  omega

/-- The id to go on with after a page. -/
def nextBefore (q : AuditQuery) (events : List AuditEvent) : Int64 :=
  if (events.length : Int) < (auditLimit q.limit).toInt then 0
  else (events.getLast?.map AuditEvent.id).getD 0

/-- What a request for a page is answered with. -/
theorem exec_handleListAudit {r : Request} (hr : q.Asks before r) {resp : Response}
    (hx : Exec (sem O faults) (handleListAudit ctx r) w resp w') :
    w' = w ∧ ((∃ e, faults e) ∧ resp = writeErr 500 "internal" "list audit" ∨
      resp = writeJSON 200 (.audit
        ((remaining w.db (auditFilter ctx q.userID) before).take (pageSize q))
        (nextBefore q ((remaining w.db (auditFilter ctx q.userID) before).take (pageSize q))))) := by
  obtain ⟨rfl, hlimit, huser⟩ := hr
  obtain ⟨hpos, hle, hsize⟩ := pageSize_bounds q
  have hclamp : (if (auditLimit q.limit).toInt ≤ 0 then 100
      else min (auditLimit q.limit).toInt 500).toNat = pageSize q := by
    rw [← hsize, if_neg (by omega), min_eq_left (by omega), Int.toNat_natCast]
  unfold handleListAudit at hx
  rw [hlimit, huser] at hx
  obtain ⟨res, w₁, hres, hx₁⟩ := exec_call.mp hx
  obtain rfl : w₁ = w := sem_reads rfl hres
  rw [hclamp] at hres
  rcases hres with ⟨hrows, -⟩ | ⟨hfault, ⟨e, rfl, -⟩, -⟩
  · rw [listAudit_eq] at hrows
    subst hrows
    obtain ⟨rfl, rfl⟩ := hx₁
    exact ⟨rfl, .inr rfl⟩
  · obtain ⟨rfl, rfl⟩ := hx₁
    exact ⟨rfl, .inl ⟨⟨_, hfault⟩, rfl⟩⟩

/-- A page is a piece of what remains. -/
theorem Page.eq (h : Page O ctx q before w events next w') :
    w' = w ∧ events = (remaining w.db (auditFilter ctx q.userID) before).take (pageSize q) ∧
      next = nextBefore q events := by
  obtain ⟨r, hr, hx⟩ := h
  obtain ⟨rfl, ⟨-, hresp⟩ | hresp⟩ := exec_handleListAudit hr hx
  · cases hresp
  · cases hresp
    exact ⟨rfl, rfl, rfl⟩

/-- A full page ends with an event. -/
theorem Page.exists_last (h : Page O ctx q before w events next w')
    (hfull : pageSize q ≤ events.length) :
    ∃ e, e ∈ w.db.audit.table.rows ∧ Below before e ∧ events.getLast? = some e := by
  obtain ⟨-, hevents, -⟩ := h.eq
  cases hlast : events.getLast? with
  | none =>
      rw [List.getLast?_eq_none_iff.mp hlast, List.length_nil] at hfull
      exact absurd (pageSize_bounds q).1 (by omega)
  | some e =>
      have hmem : e ∈ remaining w.db (auditFilter ctx q.userID) before :=
        List.mem_of_mem_take (hevents ▸ List.mem_of_getLast? hlast)
      obtain ⟨⟨hrow, -⟩, hbelow⟩ := mem_remaining.mp hmem
      exact ⟨e, hrow, hbelow, rfl⟩

/-- A page that has a next one ends with the event whose id is handed to the client. -/
theorem Page.more (h : Page O ctx q before w events next w') (hnext : next ≠ 0) :
    ∃ e, e ∈ w.db.audit.table.rows ∧ Below before e ∧ events.getLast? = some e ∧ next = e.id := by
  obtain ⟨-, -, hnext'⟩ := h.eq
  rw [nextBefore, ← (pageSize_bounds q).2.2] at hnext'
  split at hnext'
  · exact absurd hnext' hnext
  · rename_i hfull
    obtain ⟨e, hrow, hbelow, hlast⟩ := h.exists_last (by omega)
    rw [hlast] at hnext'
    exact ⟨e, hrow, hbelow, hlast, hnext'⟩

/-- The last page is all that remains: a full page is never the last one, since its last id is
not zero. -/
theorem Page.last (h : Page O ctx q before w events 0 w') :
    events = remaining w.db (auditFilter ctx q.userID) before := by
  obtain ⟨-, hevents, hnext⟩ := h.eq
  have hshort : events.length < pageSize q := by
    by_contra hfull
    obtain ⟨e, hrow, -, hlast⟩ := h.exists_last (by omega)
    rw [nextBefore, ← (pageSize_bounds q).2.2, if_neg (by omega), hlast] at hnext
    have hzero : e.id = 0 := hnext.symm
    have hpos := w.db.audit.pos e hrow
    rw [hzero, Int64.toInt_zero] at hpos
    exact lt_irrefl 0 hpos
  rw [hevents, List.length_take] at hshort
  rw [hevents, List.take_of_length_le (by omega)]

/-- **Run lemma.**  The pages a client gets are what remains at the first request. -/
theorem Pages.flatten {pages : List (List AuditEvent)} (h : Pages O ctx q before w pages) :
    pages.flatten = remaining w.db (auditFilter ctx q.userID) before := by
  induction h with
  | last hpage => rw [List.flatten_singleton, hpage.last]
  | @more before w events next w' w'' pages hpage hnext hlater _ ih =>
      obtain ⟨e, hmem, hbelow, hlast, rfl⟩ := hpage.more hnext
      obtain ⟨rfl, hevents, -⟩ := hpage.eq
      have hpos : 0 < e.id.toInt := w'.db.audit.pos e hmem
      have hseq : e.id.toInt ≤ w'.db.audit.seq := w'.db.audit.le_seq e hmem
      rw [List.flatten_cons, ih, remaining_of_later hlater hpos hseq, ← remaining_below hbelow hpos,
        hevents]
      rw [hevents] at hlast
      exact take_append_filter_lt (remaining_descending ..) hlast

theorem answers_page {r : Request} (hr : q.Asks before r) {resp : Response}
    (hx : Exec (sem O fun _ ↦ False) (handleListAudit ctx r) w resp w') :
    ∃ events next, resp = writeJSON 200 (.audit events next) := by
  obtain ⟨-, ⟨⟨e, he⟩, -⟩ | hresp⟩ := exec_handleListAudit hr hx
  · exact he.elim
  · exact ⟨_, _, hresp⟩

/-- Following from an id comes to an end, since every page leads to a smaller id. -/
theorem ends_of_pos (hpos : 0 < before.toInt) : Ends O ctx q before w := by
  obtain ⟨n, hn⟩ : ∃ n : Nat, before.toInt = n := ⟨before.toInt.toNat, by omega⟩
  induction n using Nat.strongRecOn generalizing before w with
  | ind n ih =>
      refine .intro (fun r hr resp w' hx ↦ answers_page hr hx) ?_
      intro events next w' w'' hpage hnext _
      obtain ⟨e, hrow, hbelow, -, rfl⟩ := hpage.more hnext
      have hid : 0 < e.id.toInt := w.db.audit.pos e hrow
      have hlt : e.id.toInt < before.toInt := by
        rcases hbelow with hzero | hlt
        · rw [Int64.le_iff_toInt_le, Int64.toInt_zero] at hzero
          omega
        · exact Int64.lt_iff_toInt_lt.mp hlt
      exact ih e.id.toInt.toNat (by omega) hid (by omega)

/-- So does following from the start. -/
theorem ends_zero : Ends O ctx q 0 w := by
  refine .intro (fun r hr resp w' hx ↦ answers_page hr hx) ?_
  intro events next w' w'' hpage hnext _
  obtain ⟨e, hrow, -, -, rfl⟩ := hpage.more hnext
  exact ends_of_pos (w.db.audit.pos e hrow)

variable (O ctx q) in
/-- A client can always ask. -/
theorem exists_page (before : Int64) (w : World) :
    ∃ events next w', Page O ctx q before w events next w' := by
  let r : Request := ⟨"GET", ["api", "audit"], true,
    [("before", formatInt before), ("limit", q.limit), ("user_id", q.userID)], none, none, none,
    none, .malformed false ""⟩
  have hr : q.Asks before r := ⟨parseIntValue_formatInt before, rfl, rfl⟩
  have hx : Exec (sem O fun _ ↦ True) (handleListAudit ctx r) w _ w :=
    exec_call.mpr ⟨_, _, .inl ⟨rfl, rfl⟩, rfl, rfl⟩
  exact ⟨_, _, _, r, hr, hx⟩

theorem Ends.pages (h : Ends O ctx q before w) : ∃ pages, Pages O ctx q before w pages := by
  induction h with
  | @intro before w _ _ ih =>
      obtain ⟨events, next, w', hpage⟩ := exists_page O ctx q before w
      by_cases hnext : next = 0
      · subst hnext
        exact ⟨_, .last hpage⟩
      · obtain ⟨pages, hpages⟩ := ih events next w' w' hpage hnext .refl
        exact ⟨_, .more hpage hnext .refl hpages⟩

end Follow

/-- A context as the session middleware makes them. -/
def Admitted (O : Outside) (ctx : Ctx) : Prop :=
  ∃ r w w', Exec (sem O fun _ ↦ True) (loadSession r) w (.ok ctx) w'

/-- A user id that a context has is not zero, the filter for everybody. -/
theorem Admitted.ne_zero {O : Outside} {ctx : Ctx} (h : Admitted O ctx) :
    ctx.real.id ≠ 0 ∧ ctx.effective.id ≠ 0 := by
  obtain ⟨r, w, w', hx⟩ := h
  obtain ⟨-, hash, sess, real, -, -, hreal, rfl⟩ := exec_loadSession_ok hx
  have hpos {k : Int64} {u : User} (hrow : w.db.users.table.get? k = some u) : u.id ≠ 0 := by
    intro hzero
    have := w.db.users.pos u (Table.mem_of_get? hrow)
    rw [hzero, Int64.toInt_zero] at this
    exact lt_irrefl 0 this
  cases hview : viewAs w.db sess w'.now with
  | none => exact ⟨hpos hreal, hpos hreal⟩
  | some target =>
      refine ⟨hpos hreal, ?_⟩
      unfold viewAs at hview
      split at hview
      · split at hview
        · exact hpos hview
        · cases hview
      · cases hview

/-- A forced filter is the one the handler uses, and it is not the one for everybody. -/
theorem auditFilter_of_forcedTo {O : Outside} {ctx : Ctx} (h : Admitted O ctx) {userID : Int64}
    (hforced : forcedTo ctx = some userID) (text : String) :
    auditFilter ctx text = userID ∧ userID ≠ 0 := by
  obtain ⟨hreal, heffective⟩ := h.ne_zero
  unfold forcedTo at hforced
  unfold auditFilter
  split at hforced
  · rename_i himp
    cases hforced
    exact ⟨if_pos himp, heffective⟩
  · rename_i himp
    rw [if_neg himp]
    split at hforced
    · rename_i hrole
      cases hforced
      exact ⟨if_pos hrole, hreal⟩
    · cases hforced

/-- What a client gets that reads the audit log in pages. -/
structure Paged (O : Outside) (ctx : Ctx) (q : AuditQuery) (w : World) : Prop where
  /-- Following `next_before` comes to an end. -/
  ends : Ends O ctx q 0 w
  pages : ∃ pages, Pages O ctx q 0 w pages
  /-- The events are those that were in the log at the first request and match the filter. -/
  complete : ∀ pages, Pages O ctx q 0 w pages → ∀ e,
    e ∈ pages.flatten ↔ e ∈ w.db.audit.table.rows ∧ Matches (auditFilter ctx q.userID) e
  /-- Each comes once, in strictly descending order of ids. -/
  descending : ∀ pages, Pages O ctx q 0 w pages → pages.flatten.Pairwise fun a b ↦ b.id < a.id
  /-- A caller who is in view-as, or is no admin, gets the events of one user. -/
  forced : Admitted O ctx → ∀ userID, forcedTo ctx = some userID →
    ∀ pages, Pages O ctx q 0 w pages → ∀ e ∈ pages.flatten, e.userID = some userID

/-- Reading the audit log in pages loses and repeats nothing. -/
theorem audit_paged (O : Outside) (ctx : Ctx) (q : AuditQuery) (w : World) : Paged O ctx q w := by
  have hflatten {pages : List (List AuditEvent)} (h : Pages O ctx q 0 w pages) :
      pages.flatten = newestFirst w.db (auditFilter ctx q.userID) := by
    rw [h.flatten, remaining_zero]
  refine ⟨ends_zero, ends_zero.pages, fun pages h e ↦ ?_, fun pages h ↦ ?_,
    fun hctx userID hforced pages h e he ↦ ?_⟩
  · rw [hflatten h, mem_newestFirst]
  · rw [hflatten h]
    exact (descending_of_orderBy w.db _).imp Int64.lt_iff_toInt_lt.mpr
  · rw [hflatten h, mem_newestFirst] at he
    obtain ⟨hfilter, hne⟩ := auditFilter_of_forcedTo hctx hforced q.userID
    rw [hfilter] at he
    exact he.2.resolve_left hne

end GigMcp.Api
