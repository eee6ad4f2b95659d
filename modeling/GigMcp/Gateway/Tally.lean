import GigMcp.Effect.Trace
import GigMcp.Gateway.Audit
import GigMcp.Gateway.Cap
import Mathlib.Algebra.Order.Group.Multiset
import Mathlib.Tactic.Abel

/-!
# The records of an auditing resolver

`Tallied` says where the records are: each call that is through has one, and it is a row, or
dropped, or in the channel, or in the writer's hands.  Every step of every goroutine keeps it.
-/

namespace GigMcp.Gateway

open GigMcp.Effect GigMcp.System GigMcp.Store GigMcp.Data

/-! ## Where the records are -/

/-- The rows that the records in the channel say. -/
def AuditState.queued (s : AuditState) : Multiset AuditRow :=
  (s.ch.queue.map AuditRecord.row : List _)

/-- Each record that was left is a row, or dropped, or in the channel, or in the writer's
hands; `rows₀` are the rows there were before. -/
def Balanced (rows₀ : Multiset AuditRow) (x : World × AuditState)
    (gs : Multiset (AuditJob × AuditStage)) : Prop :=
  ∃ lost : Multiset AuditRow, lost.card = x.2.dropped ∧
    rows₀ + having AuditStage.left gs =
      egressRows x.1.db + lost + x.2.queued + having AuditStage.hand gs

/-- A step of one thread moves records between these places; `new` are those it drops. -/
theorem Balanced.move {rows₀ : Multiset AuditRow} {x y : World × AuditState} {j : AuditJob}
    {g g' : AuditStage} {gs : Multiset (AuditJob × AuditStage)}
    (h : Balanced rows₀ x ((j, g) ::ₘ gs)) (new : Multiset AuditRow)
    (hdropped : y.2.dropped = x.2.dropped + new.card)
    (hmove : (g'.left.toList : Multiset AuditRow) +
        (egressRows x.1.db + x.2.queued + (g.hand.toList : Multiset AuditRow)) =
      (g.left.toList : Multiset AuditRow) +
        (egressRows y.1.db + new + y.2.queued + (g'.hand.toList : Multiset AuditRow))) :
    Balanced rows₀ y ((j, g') ::ₘ gs) := by
  obtain ⟨lost, hlost, hbalance⟩ := h
  refine ⟨lost + new, by rw [Multiset.card_add, hlost, hdropped], ?_⟩
  rw [having_cons_add, having_cons_add] at hbalance ⊢
  refine add_left_cancel (a := (g.left.toList : Multiset AuditRow)) ?_
  calc (g.left.toList : Multiset AuditRow) +
        (rows₀ + ((g'.left.toList : Multiset AuditRow) + having AuditStage.left gs))
      = (g'.left.toList : Multiset AuditRow) +
        (rows₀ + ((g.left.toList : Multiset AuditRow) + having AuditStage.left gs)) := by abel
    _ = (g'.left.toList : Multiset AuditRow) +
        (egressRows x.1.db + x.2.queued + (g.hand.toList : Multiset AuditRow)) +
        (lost + having AuditStage.hand gs) := by
          rw [hbalance]
          abel
    _ = _ := by
          rw [hmove]
          abel

/-- The invariant of an auditing resolver. -/
structure Tallied (rows₀ : Multiset AuditRow) (x : World × AuditState)
    (gs : Multiset (AuditJob × AuditStage)) : Prop where
  balance : Balanced rows₀ x gs
  unspoilt : x.2.ch.misused = false
  /-- The flag is set before the channel is closed, by the call that then closes it. -/
  flag : x.2.ch.closed = true → x.2.closed = true
  shutters : (having AuditStage.shuts gs).card =
    if x.2.closed = true ∧ x.2.ch.closed = false then 1 else 0
  drained : ∀ t ∈ gs, t.2 = .drained → x.2.ch.closed = true ∧ x.2.ch.queue = []
  done : x.2.done = true → ∃ t ∈ gs, t.2 = .drained
  returned : ∀ t ∈ gs, t.2 = .returned → x.2.done = true
  /-- There is one writer. -/
  writer : ∀ t ∈ gs, (∃ rec, t.2 = .holding rec) ∨ t.2 = .drained → t.1 = .writer
  single : gs.countP (·.1 = .writer) ≤ 1

namespace Tallied

variable {rows₀ : Multiset AuditRow} {x y : World × AuditState} {j : AuditJob} {g g' : AuditStage}
  {gs : Multiset (AuditJob × AuditStage)}

/-- The invariant after a step of one thread, from what concerns the thread and the state. -/
theorem of_thread (h : Tallied rows₀ x ((j, g) ::ₘ gs))
    (hbalance : Balanced rows₀ y ((j, g') ::ₘ gs)) (hunspoilt : y.2.ch.misused = false)
    (hflag : y.2.ch.closed = true → y.2.closed = true)
    (hshutters : (having AuditStage.shuts ((j, g') ::ₘ gs)).card =
      if y.2.closed = true ∧ y.2.ch.closed = false then 1 else 0)
    (hempty : x.2.ch.closed = true → x.2.ch.queue = [] →
      y.2.ch.closed = true ∧ y.2.ch.queue = [])
    (hdrained : g' = .drained → y.2.ch.closed = true ∧ y.2.ch.queue = [])
    (hdone : y.2.done = true → x.2.done = true ∨ g' = .drained)
    (hstays : g = .drained → g' = .drained) (hkeeps : x.2.done = true → y.2.done = true)
    (hreturned : g' = .returned → y.2.done = true)
    (hwriter : (∃ rec, g' = .holding rec) ∨ g' = .drained → j = .writer) :
    Tallied rows₀ y ((j, g') ::ₘ gs) where
  balance := hbalance
  unspoilt := hunspoilt
  flag := hflag
  shutters := hshutters
  drained := by
    intro t ht hd
    rcases Multiset.mem_cons.mp ht with rfl | ht
    · exact hdrained hd
    · obtain ⟨hclosed, hqueue⟩ := h.drained t (Multiset.mem_cons_of_mem ht) hd
      exact hempty hclosed hqueue
  done := by
    intro hd
    rcases hdone hd with hd | hd
    · obtain ⟨t, ht, hstage⟩ := h.done hd
      rcases Multiset.mem_cons.mp ht with rfl | ht
      · exact ⟨_, Multiset.mem_cons_self .., hstays hstage⟩
      · exact ⟨t, Multiset.mem_cons_of_mem ht, hstage⟩
    · exact ⟨_, Multiset.mem_cons_self .., hd⟩
  returned := by
    intro t ht ho
    rcases Multiset.mem_cons.mp ht with rfl | ht
    · exact hreturned ho
    · exact hkeeps (h.returned t (Multiset.mem_cons_of_mem ht) ho)
  writer := by
    intro t ht hw
    rcases Multiset.mem_cons.mp ht with rfl | ht
    · exact hwriter hw
    · exact h.writer t (Multiset.mem_cons_of_mem ht) hw
  single := by
    have hsingle := h.single
    rw [Multiset.countP_cons] at hsingle ⊢
    exact hsingle

/-- A step that leaves the resolver and the stage of its thread alone. -/
theorem still (h : Tallied rows₀ x gs) (hstate : y.2 = x.2)
    (hrows : egressRows y.1.db = egressRows x.1.db) : Tallied rows₀ y gs := by
  obtain ⟨⟨lost, hlost, hbalance⟩, hunspoilt, hflag, hshutters, hdrained, hdone, hreturned, hwriter,
    hsingle⟩ := h
  rw [← hstate] at hlost hbalance hunspoilt hflag hshutters hdrained hdone hreturned
  rw [← hrows] at hbalance
  exact ⟨⟨lost, hlost, hbalance⟩, hunspoilt, hflag, hshutters, hdrained, hdone, hreturned, hwriter,
    hsingle⟩

/-- Nothing is in the writer's hands once it has found the end of the channel. -/
theorem hand_eq_zero (h : Tallied rows₀ x gs) {t : AuditJob × AuditStage} (ht : t ∈ gs)
    (hd : t.2 = .drained) : having AuditStage.hand gs = 0 := by
  refine Multiset.eq_zero_of_forall_notMem fun row hrow ↦ ?_
  obtain ⟨t', ht', hhand⟩ := mem_having.mp hrow
  have hholding : ∃ rec, t'.2 = .holding rec := by
    cases hs : t'.2 with
    | holding rec => exact ⟨rec, rfl⟩
    | _ =>
        rw [hs] at hhand
        cases hhand
  have hne : t' ≠ t := by
    rintro rfl
    obtain ⟨rec, hrec⟩ := hholding
    rw [hd] at hrec
    cases hrec
  obtain ⟨rest, rfl⟩ := Multiset.exists_cons_of_mem ht
  have hrest : t' ∈ rest := (Multiset.mem_cons.mp ht').resolve_left hne
  have hsingle := h.single
  have hpos : 0 < rest.countP (·.1 = AuditJob.writer) :=
    Multiset.countP_pos.mpr ⟨t', hrest, h.writer t' ht' (.inl hholding)⟩
  rw [Multiset.countP_cons, if_pos (h.writer t ht (.inr hd))] at hsingle
  omega

/-- The number of calls that are about to close the channel, one thread changed. -/
theorem shutters_congr (h : Tallied rows₀ x ((j, g) ::ₘ gs)) (hg : g'.shuts = g.shuts) :
    (having AuditStage.shuts ((j, g') ::ₘ gs)).card =
      if x.2.closed = true ∧ x.2.ch.closed = false then 1 else 0 := by
  rw [having_cons_congr (t := (j, g)) hg]
  exact h.shutters

/-- The section of `Resolve`: the record is dropped or goes into the channel, which is open
as long as the flag is not set. -/
theorem offer (h : Tallied rows₀ x ((j, .start) ::ₘ gs)) (rec : AuditRecord) :
    Tallied rows₀ (x.1, x.2.offer rec) ((j, .settled rec) ::ₘ gs) := by
  rcases AuditState.offer_cases h.flag rec with heq | ⟨hopen, heq⟩
  · rw [heq]
    refine h.of_thread (h.balance.move {rec.row} rfl ?_) h.unspoilt h.flag (h.shutters_congr rfl)
      (fun hc hq ↦ ⟨hc, hq⟩) nofun .inl nofun id nofun nofun
    show {rec.row} + (_ + x.2.queued + 0) = 0 + (_ + {rec.row} + x.2.queued + 0)
    abel
  · rw [heq]
    refine h.of_thread (h.balance.move 0 rfl ?_) h.unspoilt h.flag (h.shutters_congr rfl)
      ?_ nofun .inl nofun id nofun nofun
    · have hqueued : ((x.2.ch.queue ++ [rec]).map AuditRecord.row : Multiset AuditRow) =
          x.2.queued + {rec.row} := by
        rw [List.map_append, ← Multiset.coe_add]
        rfl
      show {rec.row} + (_ + x.2.queued + 0) =
        0 + (_ + 0 + ((x.2.ch.queue ++ [rec]).map AuditRecord.row : Multiset AuditRow) + 0)
      rw [hqueued]
      abel
    · intro hc
      exact absurd (hopen.symm.trans hc) Bool.false_ne_true

theorem receive_some (h : Tallied rows₀ x ((j, .start) ::ₘ gs)) (hj : j = .writer)
    {rec : AuditRecord} {rest : List AuditRecord} (hqueue : x.2.ch.queue = rec :: rest) :
    Tallied rows₀ (x.1, { x.2 with ch := { x.2.ch with queue := rest } })
      ((j, .holding rec) ::ₘ gs) := by
  refine h.of_thread (h.balance.move 0 rfl ?_) h.unspoilt h.flag (h.shutters_congr rfl)
    ?_ nofun .inl nofun id nofun fun _ ↦ hj
  · have hqueued : x.2.queued = {rec.row} + (rest.map AuditRecord.row : Multiset AuditRow) := by
      rw [AuditState.queued, hqueue]
      rfl
    rw [hqueued]
    show 0 + (_ + ({rec.row} + _) + 0) = 0 + (_ + 0 + (rest.map AuditRecord.row : Multiset AuditRow) + {rec.row})
    abel
  · intro _ hnil
    rw [hqueue] at hnil
    cases hnil

theorem receive_none (h : Tallied rows₀ x ((j, .start) ::ₘ gs)) (hj : j = .writer)
    (hqueue : x.2.ch.queue = []) (hclosed : x.2.ch.closed = true) :
    Tallied rows₀ x ((j, .drained) ::ₘ gs) :=
  h.of_thread (h.balance.move 0 rfl (by abel)) h.unspoilt h.flag (h.shutters_congr rfl)
    (fun hc hq ↦ ⟨hc, hq⟩) (fun _ ↦ ⟨hclosed, hqueue⟩) .inl nofun id nofun fun _ ↦ hj

/-- A record whose row the store did not take is dropped. -/
theorem drop {rec : AuditRecord} (h : Tallied rows₀ x ((j, .holding rec) ::ₘ gs)) :
    Tallied rows₀ (x.1, { x.2 with dropped := x.2.dropped + 1 }) ((j, .start) ::ₘ gs) := by
  refine h.of_thread (h.balance.move {rec.row} rfl ?_) h.unspoilt h.flag (h.shutters_congr rfl)
    (fun hc hq ↦ ⟨hc, hq⟩) nofun .inl nofun id nofun nofun
  show 0 + (_ + x.2.queued + {rec.row}) = 0 + (_ + {rec.row} + x.2.queued + 0)
  abel

theorem append {rec : AuditRecord} {w : World} (h : Tallied rows₀ x ((j, .holding rec) ::ₘ gs))
    (hrows : egressRows w.db = rec.row ::ₘ egressRows x.1.db) :
    Tallied rows₀ (w, x.2) ((j, .start) ::ₘ gs) := by
  refine h.of_thread (h.balance.move 0 rfl ?_) h.unspoilt h.flag (h.shutters_congr rfl)
    (fun hc hq ↦ ⟨hc, hq⟩) nofun .inl nofun id nofun nofun
  show 0 + (_ + x.2.queued + {rec.row}) = 0 + (egressRows w.db + 0 + x.2.queued + 0)
  rw [hrows, ← Multiset.singleton_add]
  abel

theorem finish (h : Tallied rows₀ x ((j, .drained) ::ₘ gs)) :
    Tallied rows₀ (x.1, { x.2 with done := true }) ((j, .drained) ::ₘ gs) :=
  h.of_thread h.balance h.unspoilt h.flag h.shutters (fun hc hq ↦ ⟨hc, hq⟩)
    (h.drained _ (Multiset.mem_cons_self ..)) (fun _ ↦ .inr rfl) id (fun _ ↦ rfl) nofun
    (h.writer _ (Multiset.mem_cons_self ..))

/-- The section of `Close`, for the call that sets the flag. -/
theorem shut (h : Tallied rows₀ x ((j, .start) ::ₘ gs)) (hclosed : x.2.closed = false) :
    Tallied rows₀ (x.1, { x.2 with closed := true }) ((j, .shutting) ::ₘ gs) := by
  have hopen : x.2.ch.closed = false := by
    refine Bool.eq_false_iff.mpr fun hch ↦ ?_
    rw [h.flag hch] at hclosed
    cases hclosed
  refine h.of_thread (h.balance.move 0 rfl (by abel)) h.unspoilt (fun _ ↦ rfl) ?_
    (fun hc hq ↦ ⟨hc, hq⟩) nofun .inl nofun id nofun nofun
  have hshutters := h.shutters
  rw [having_cons, hclosed, if_neg (by simp)] at hshutters
  rw [having_cons, if_pos ⟨rfl, hopen⟩]
  exact (Multiset.card_cons ..).trans (congrArg (· + 1) hshutters)

/-- Only the call that has set the flag closes the channel. -/
theorem closeCh (h : Tallied rows₀ x ((j, .shutting) ::ₘ gs)) :
    Tallied rows₀ (x.1, { x.2 with ch := x.2.ch.close }) ((j, .waiting) ::ₘ gs) := by
  have hshutters := h.shutters
  rw [having_cons] at hshutters
  have hcard : (having AuditStage.shuts gs).card + 1 =
      if x.2.closed = true ∧ x.2.ch.closed = false then 1 else 0 :=
    (Multiset.card_cons ..).symm.trans hshutters
  by_cases hc : x.2.closed = true ∧ x.2.ch.closed = false
  · rw [if_pos hc] at hcard
    rw [Chan.close_of_open hc.2]
    refine h.of_thread (h.balance.move 0 rfl (by abel)) h.unspoilt (fun _ ↦ hc.1) ?_ ?_
      nofun .inl nofun id nofun nofun
    · rw [having_cons, if_neg (by simp)]
      exact Nat.succ.inj hcard
    · intro hch
      exact absurd (hc.2.symm.trans hch) Bool.false_ne_true
  · rw [if_neg hc] at hcard
    cases hcard

theorem await (h : Tallied rows₀ x ((j, .waiting) ::ₘ gs)) (hdone : x.2.done = true) :
    Tallied rows₀ x ((j, .returned) ::ₘ gs) :=
  h.of_thread (h.balance.move 0 rfl (by abel)) h.unspoilt h.flag (h.shutters_congr rfl)
    (fun hc hq ↦ ⟨hc, hq⟩) nofun .inl nofun id (fun _ ↦ hdone) nofun

/-- A thread that is not the writer arrives. -/
theorem start (h : Tallied rows₀ x gs) (hj : j ≠ .writer) : Tallied rows₀ x ((j, .start) ::ₘ gs) where
  balance := by
    obtain ⟨lost, hlost, hbalance⟩ := h.balance
    refine ⟨lost, hlost, ?_⟩
    rw [having_cons, having_cons]
    exact hbalance
  unspoilt := h.unspoilt
  flag := h.flag
  shutters := by
    rw [having_cons]
    exact h.shutters
  drained := by
    intro t ht hd
    rcases Multiset.mem_cons.mp ht with rfl | ht
    · cases hd
    · exact h.drained t ht hd
  done := by
    intro hd
    obtain ⟨t, ht, hstage⟩ := h.done hd
    exact ⟨t, Multiset.mem_cons_of_mem ht, hstage⟩
  returned := by
    intro t ht ho
    rcases Multiset.mem_cons.mp ht with rfl | ht
    · cases ho
    · exact h.returned t ht ho
  writer := by
    intro t ht hw
    rcases Multiset.mem_cons.mp ht with rfl | ht
    · rcases hw with ⟨rec, hrec⟩ | hd
      · cases hrec
      · cases hd
    · exact h.writer t ht hw
  single := by
    rw [Multiset.countP_cons, if_neg hj]
    exact h.single

/-- The writer has been started. -/
theorem fresh (w : World) : Tallied (egressRows w.db) (w, .fresh) {(.writer, .start)} where
  balance := ⟨0, rfl, by
    show _ + 0 = _ + 0 + 0 + 0
    abel⟩
  unspoilt := rfl
  flag := nofun
  shutters := rfl
  drained := by
    intro t ht hd
    obtain rfl := Multiset.mem_singleton.mp ht
    cases hd
  done := nofun
  returned := by
    intro t ht ho
    obtain rfl := Multiset.mem_singleton.mp ht
    cases ho
  writer := by
    intro t ht _
    obtain rfl := Multiset.mem_singleton.mp ht
    rfl
  single := Nat.le_refl 1

/-- A call of the gateway's keeps the tally. -/
theorem gatewayCall {O : Outside} {e : Call} {r : e.Res} {w : World}
    (h : Tallied rows₀ x ((j, g) ::ₘ gs)) (hpre : AuditStage.Permits j (.inl e) g)
    (hr : sem O (fun _ ↦ True) e x.1 r w) (hall : AllOrNothing e x.1 r w) :
    Tallied rows₀ (w, x.2) ((j, AuditStage.track (.inl e) g r) ::ₘ gs) := by
  by_cases happ : Appends e
  · obtain ⟨ev, rfl⟩ : ∃ ev, e = .sql (.appendAudit ev) := by
      cases e with
      | sql c =>
          cases c with
          | appendAudit ev => exact ⟨ev, rfl⟩
          | _ => exact happ.elim
      | _ => exact happ.elim
    rcases hpre with ⟨rec, rfl, hkind, hrow⟩ | ⟨rfl, hkind⟩
    · cases r with
      | ok u =>
          obtain ⟨hok, rfl⟩ := sem_sql_ok hr
          refine h.append ?_
          rcases egressRows_appendAudit ev x.1.db with ⟨-, hrows⟩ | ⟨⟨e, he⟩, -⟩
          · rw [if_pos hkind, hrow] at hrows
            exact hrows
          · rw [hok] at he
            cases he
      | error e =>
          obtain rfl : w = x.1 := hall
          exact h
    · have hrows := egressRows_sem (e := .sql (.appendAudit ev)) hkind hr
      exact h.still rfl hrows
  · rw [(permits_of_not_appends (j := j) happ (AuditStage.Permits.left_eq_none hpre)).2 r]
    refine h.still rfl (egressRows_sem ?_ hr)
    cases e with
    | sql c =>
        cases c with
        | appendAudit ev => exact absurd trivial happ
        | _ => trivial
    | _ => trivial

/-- A call of the auditing resolver's keeps the tally. -/
theorem auditCall {e : AuditCall} {r : e.Res} {s : AuditState}
    (h : Tallied rows₀ x ((j, g) ::ₘ gs)) (hpre : AuditStage.Permits j (.inr e) g)
    (hr : e.step x.2 r s) :
    Tallied rows₀ (x.1, s) ((j, AuditStage.track (.inr e) g r) ::ₘ gs) := by
  cases e with
  | offer rec =>
      obtain rfl : g = .start := hpre
      obtain rfl := hr
      exact h.offer rec
  | receive =>
      obtain ⟨rfl, hj⟩ := hpre
      obtain ⟨ch, hch, rfl⟩ := hr
      cases r with
      | some rec =>
          obtain ⟨rest, hqueue, rfl⟩ := Chan.receive_eq_some hch
          exact h.receive_some hj hqueue
      | none =>
          obtain ⟨hqueue, hclosed, rfl⟩ := Chan.receive_eq_none hch
          exact h.receive_none hj hqueue hclosed
  | drop =>
      obtain ⟨rec, rfl⟩ := hpre
      obtain rfl := hr
      exact h.drop
  | finish =>
      obtain rfl : g = .drained := hpre
      obtain rfl := hr
      exact h.finish
  | shut =>
      obtain rfl : g = .start := hpre
      obtain ⟨rfl, rfl⟩ := hr
      cases hclosed : x.2.closed with
      | false => exact h.shut hclosed
      | true =>
          refine h.still ?_ rfl
          show { x.2 with closed := true } = x.2
          rw [← hclosed]
  | closeCh =>
      obtain rfl : g = .shutting := hpre
      obtain rfl := hr
      exact h.closeCh
  | await =>
      obtain rfl : g = .waiting := hpre
      obtain ⟨hdone, rfl⟩ := hr
      exact h.await hdone

end Tallied

/-- The discipline of an auditing resolver. -/
def tallied (O : Outside) {inner : Inner} (hinner : ∀ id host, All NotEgress (inner id host))
    (rows₀ : Multiset AuditRow) : Discipline (audits O inner) where
  pre := AuditStage.Permits
  fin := AuditStage.Ends
  Inv := Tallied rows₀
  body_conforms := fun j _ ↦ auditBody_conforms hinner j
  again_conforms := by
    rintro x gs j j' g - ⟨-, rfl, rfl⟩
    exact auditBody_conforms hinner .writer
  inv_start := fun _ _ _ hj h ↦ h.start hj
  inv_call := by
    rintro x gs j g (e | e) r y h hpre hr
    · obtain ⟨hsem, hall, hstate⟩ := hr
      have hy : y = (y.1, x.2) := Prod.ext rfl hstate
      rw [hy]
      exact h.gatewayCall hpre hsem hall
    · obtain ⟨hworld, hstep⟩ := hr
      have hy : y = (x.1, y.2) := Prod.ext hworld rfl
      rw [hy]
      exact h.auditCall hpre hstep
  inv_again := by
    rintro x gs j j' g h ⟨rfl, rfl, rfl⟩
    exact h
  inv_env := by
    rintro x gs y h ⟨hstate, e, r, he, hr⟩
    exact h.still hstate (egressRows_sem he hr)

/-! ## The proxy's decision -/

/-- The decision that is recorded of a resolution is the one that `Proxy.handle` makes of it:
`resolved` exactly when it goes past its allowlist check, to ask for the connection. -/
def Agrees (id : Identity) (host : String) (res : Except Err ProxyCredential) : Prop :=
  ∀ {W : Type} {R : Sem Proxy.proxy W} {r : Proxy.ConnectRequest} {w w' : W}
    {t : List (Event Proxy.proxy)} {a : Option Proxy.Tunnel},
    Traced R (Proxy.accept r) w t a w' → ⟨.resolve id host, res⟩ ∈ t →
      ((auditRecord id host res).decision = "resolved" ↔ ∃ b, ⟨.hijacker, b⟩ ∈ t)

section Agrees

variable {W : Type} {R : Sem Proxy.proxy W} {r : Proxy.ConnectRequest} {w w' : W}
  {t : List (Event Proxy.proxy)} {id : Identity} {a : Option Proxy.Tunnel}

def NotResolve : Proxy.Call → Prop
  | .resolve .. => False
  | _ => True

/-- The tunnel's resolution comes first, and the connection is asked for exactly when the
resolution is recorded as resolved. -/
theorem traced_openTunnel (hx : Traced R (Proxy.openTunnel r id) w t a w') :
    ∃ res t', t = ⟨.resolve id (Proxy.hostname r.host), res⟩ :: t' ∧ (∀ x ∈ t', NotResolve x.1) ∧
      ((auditRecord id (Proxy.hostname r.host) res).decision = "resolved" ↔
        ∃ b, ⟨.hijacker, b⟩ ∈ t') := by
  obtain ⟨res, w₁, t', -, rfl, hx₁⟩ := traced_call.mp hx
  refine ⟨res, t', rfl, ?_⟩
  have hdenied {status : Nat} {msg : String} {w₁ : W} {t' : List (Event Proxy.proxy)}
      (hx : Traced R (Proxy.perform (.httpError status msg) >>= fun _ ↦ .ret none) w₁ t' a w') :
      (∀ x ∈ t', NotResolve x.1) ∧ ¬ ∃ b, ⟨.hijacker, b⟩ ∈ t' := by
    obtain ⟨_, _, _, -, rfl, rfl, -⟩ := traced_call.mp hx
    refine ⟨List.forall_mem_singleton.mpr trivial, ?_⟩
    rintro ⟨b, hb⟩
    cases List.mem_singleton.mp hb
  cases res with
  | error e =>
      obtain ⟨hcalls, hnot⟩ := hdenied hx₁
      exact ⟨hcalls, iff_of_false (by simp [auditRecord]) hnot⟩
  | ok cred =>
      dsimp only at hx₁
      split at hx₁
      · rename_i hhost
        obtain ⟨hcalls, hnot⟩ := hdenied hx₁
        rw [Bool.not_eq_true'] at hhost
        exact ⟨hcalls, iff_of_false (by simp [auditRecord, hhost]) hnot⟩
      · rename_i hhost
        obtain ⟨b, w₂, t₂, -, rfl, hx₂⟩ := traced_call.mp hx₁
        rw [Bool.not_eq_true', Bool.not_eq_false] at hhost
        refine ⟨List.forall_mem_cons.mpr ⟨trivial, hx₂.all ?_⟩,
          iff_of_true (by simp [auditRecord, hhost]) ⟨b, .head _⟩⟩
        split
        · exact all_call.mpr ⟨trivial, fun _ ↦ all_ret⟩
        · refine All.except (all_call_iff.mpr trivial) (fun _ ↦ all_ret) fun _ ↦ ?_
          refine All.except (all_call_iff.mpr trivial) (fun _ ↦ all_ret) fun _ ↦ ?_
          refine All.except (all_call_iff.mpr trivial) (fun _ ↦ all_ret) fun _ ↦ ?_
          refine All.except (all_call_iff.mpr trivial) (fun _ ↦ all_ret) fun _ ↦ ?_
          exact All.except (all_call_iff.mpr trivial) (fun _ ↦ all_ret) fun _ ↦ all_ret

/-- Every call is recorded as the proxy decides it. -/
theorem agrees (id : Identity) (host : String) (res : Except Err ProxyCredential) :
    Agrees id host res := by
  intro W R r w w' t a hx hres
  have hnone {t : List (Event Proxy.proxy)} (ht : ∀ x ∈ t, NotResolve x.1) :
      ⟨.resolve id host, res⟩ ∉ t := fun h ↦ ht _ h
  have hdenied {status : Nat} {msg : String} : All NotResolve
      (Proxy.perform (.httpError status msg) >>= fun _ ↦ .ret (none : Option Proxy.Tunnel)) :=
    all_call.mpr ⟨trivial, fun _ ↦ all_ret⟩
  unfold Proxy.accept at hx
  split at hx
  · exact absurd hres (hnone (hx.all hdenied))
  · obtain ⟨found, w₁, t₁, -, rfl, hx₁⟩ := traced_call.mp hx
    cases found with
    | none => exact absurd hres (hnone (List.forall_mem_cons.mpr ⟨trivial, hx₁.all hdenied⟩))
    | some id' =>
        obtain ⟨acquired, w₂, t₂, -, rfl, hx₂⟩ := traced_call.mp hx₁
        split at hx₂
        · refine absurd hres (hnone (List.forall_mem_cons.mpr ⟨trivial, ?_⟩))
          exact List.forall_mem_cons.mpr ⟨trivial, hx₂.all hdenied⟩
        · obtain ⟨tun, w₃, t₃, t₄, hx₃, rfl, hx₄⟩ := traced_bind.mp hx₂
          obtain ⟨res', t₅, rfl, hcalls, hdecides⟩ := traced_openTunnel hx₃
          have hend : t₄ = [] ∨ t₄ = [⟨.release id', ()⟩] := by
            cases tun with
            | none =>
                obtain ⟨_, _, _, -, rfl, rfl, -⟩ := traced_call.mp hx₄
                exact .inr rfl
            | some tun => exact .inl hx₄.1
          have hplain : ∀ x ∈ t₅ ++ t₄, NotResolve x.1 := by
            refine List.forall_mem_append.mpr ⟨hcalls, ?_⟩
            rcases hend with rfl | rfl
            · exact List.forall_mem_nil _
            · exact List.forall_mem_singleton.mpr trivial
          -- the resolution is the only one
          rcases List.mem_cons.mp hres with h | hres
          · cases h
          rcases List.mem_cons.mp hres with h | hres
          · cases h
          rcases List.mem_cons.mp hres with h | hres
          · cases h
            refine hdecides.trans ⟨fun ⟨b, hb⟩ ↦ ⟨b, ?_⟩, fun ⟨b, hb⟩ ↦ ⟨b, ?_⟩⟩
            · exact .tail _ (.tail _ (.tail _ (List.mem_append_left _ hb)))
            · rcases List.mem_cons.mp hb with h | hb
              · cases h
              rcases List.mem_cons.mp hb with h | hb
              · cases h
              rcases List.mem_cons.mp hb with h | hb
              · cases h
              rcases List.mem_append.mp hb with hb | hb
              · exact hb
              · rcases hend with rfl | rfl
                · cases hb
                · cases List.mem_singleton.mp hb
          · exact absurd hres (hnone hplain)

end Agrees

/-! ## Conservation -/

/-- What the record of a `Resolve` call that is through says. -/
def completedRow (t : Thread (gateway.sum auditing) AuditOutcome AuditJob AuditStage) :
    Option AuditRow :=
  match t.job, t.cur with
  | .resolve id host, .ret (.inl (.resolved res)) => some (auditRecord id host res).row
  | _, _ => none

/-- The records of the calls that are through. -/
def completed (c : Audits) : Multiset AuditRow := (c.threads.filterMap completedRow : List _)

/-- The records in the writer's hands. -/
def inWriter (c : Audits) : Multiset AuditRow := having AuditStage.hand c.records

/-- Every call is accounted for once; `rows₀` are the rows there were before. -/
structure Conserved (rows₀ : Multiset AuditRow) (c : Audits) : Prop where
  /-- Nothing was sent on the channel after it was closed, and it was not closed again. -/
  unspoilt : c.shared.2.ch.misused = false
  /-- The records of the calls are the rows that were appended, and as many as were dropped,
  are queued, or are in the writer's hands. -/
  records : ∃ lost : Multiset AuditRow, lost.card = c.shared.2.dropped ∧
    rows₀ + completed c =
      egressRows c.shared.1.db + lost + c.shared.2.queued + inWriter c
  count : rows₀.card + (completed c).card =
    (egressRows c.shared.1.db).card + c.shared.2.dropped + c.shared.2.ch.queue.length +
      (inWriter c).card
  /-- After the closing call has returned nothing is on its way. -/
  flushed : ∀ t ∈ c.threads, t.cur = .ret (.inl (.closed true)) →
    c.shared.2.ch.queue = [] ∧ inWriter c = 0 ∧
      rows₀.card + (completed c).card = (egressRows c.shared.1.db).card + c.shared.2.dropped

theorem completedRow_eq {O : Outside} {inner : Inner}
    {hinner : ∀ id host, All NotEgress (inner id host)} {rows₀ : Multiset AuditRow} {c : Audits}
    (hc : (tallied O hinner rows₀).Good c)
    {t : Thread (gateway.sum auditing) AuditOutcome AuditJob AuditStage} (ht : t ∈ c.threads) :
    completedRow t = t.record.left := by
  have hconf := hc.conforms t ht
  obtain ⟨j, p, g⟩ := t
  cases p with
  | vis e k =>
      have hleft : g.left = none := AuditStage.Permits.left_eq_none hconf.1
      rw [hleft]
      cases j with
      | _ => rfl
  | ret o =>
      cases o with
      | inr j' =>
          obtain ⟨rfl, rfl, rfl⟩ := hconf
          rfl
      | inl o =>
          cases o with
          | resolved res =>
              obtain ⟨id, host, rfl, rfl⟩ := hconf
              rfl
          | stopped =>
              obtain rfl : g = .drained := hconf
              cases j with
              | _ => rfl
          | closed first =>
              obtain rfl : g = if first then .returned else .start := hconf
              cases first with
              | _ =>
                  cases j with
                  | _ => rfl

/-- **Audit conservation and agreement.** -/
theorem audit_conserved {O : Outside} {inner : Inner}
    (hinner : ∀ id host, All NotEgress (inner id host)) {w : World} {c : Audits}
    (h : (audits O inner).Reach (newAuditingResolver inner w) c) :
    Conserved (egressRows w.db) c ∧ ∀ id host res, Agrees id host res := by
  have hfresh : (tallied O hinner (egressRows w.db)).Good (newAuditingResolver inner w) := by
    refine ⟨fun t ht ↦ ?_, .fresh w⟩
    obtain rfl := List.mem_singleton.mp ht
    exact auditBody_conforms hinner .writer
  have hgood := (tallied O hinner (egressRows w.db)).good hfresh h
  have hcompleted : completed c = having AuditStage.left c.records := by
    rw [completed, having, Pool.records, Multiset.filterMap_coe, List.filterMap_map]
    exact congrArg _ (List.filterMap_congr fun t ht ↦ completedRow_eq hgood ht)
  obtain ⟨lost, hlost, hbalance⟩ := hgood.inv.balance
  rw [← hcompleted] at hbalance
  have hcount : (egressRows w.db).card + (completed c).card =
      (egressRows c.shared.1.db).card + c.shared.2.dropped + c.shared.2.ch.queue.length +
        (inWriter c).card := by
    have hcard := congrArg Multiset.card hbalance
    simpa [hlost, AuditState.queued, inWriter] using hcard
  refine ⟨⟨hgood.inv.unspoilt, ⟨lost, hlost, hbalance⟩, hcount, fun t ht hcur ↦ ?_⟩, agrees⟩
  have hreturned : t.record = .returned := by
    have hends := hgood.conforms t ht
    rw [hcur] at hends
    exact hends
  obtain ⟨d, hd, hdrained⟩ := hgood.inv.done (hgood.inv.returned _ (Pool.mem_records ht) hreturned)
  have hqueue := (hgood.inv.drained d hd hdrained).2
  have hhand : inWriter c = 0 := hgood.inv.hand_eq_zero hd hdrained
  rw [hqueue, hhand] at hcount
  exact ⟨hqueue, hhand, hcount⟩

/-! ## One call -/

/-- The answer to a call, unless it waits. -/
def AuditCall.answer : (e : AuditCall) → AuditState → Option (e.Res × AuditState)
  | offer rec, s => some ((), s.offer rec)
  | receive, s => s.ch.receive.map fun r ↦ (r.1, { s with ch := r.2 })
  | drop, s => some ((), { s with dropped := s.dropped + 1 })
  | finish, s => some ((), { s with done := true })
  | shut, s => some (!s.closed, { s with closed := true })
  | closeCh, s => some ((), { s with ch := s.ch.close })
  | await, s => if s.done then some ((), s) else none

theorem AuditCall.answer_step {e : AuditCall} {s s' : AuditState} {r : e.Res}
    (h : e.answer s = some (r, s')) : e.step s r s' := by
  cases e with
  | receive =>
      obtain ⟨⟨r', ch⟩, hch, heq⟩ := Option.map_eq_some_iff.mp h
      cases heq
      exact ⟨ch, hch, rfl⟩
  | shut =>
      cases h
      exact ⟨rfl, rfl⟩
  | await =>
      simp only [AuditCall.answer] at h
      split at h
      · rename_i hdone
        cases h
        exact ⟨hdone, rfl⟩
      · cases h
  | _ =>
      cases h
      rfl

namespace Example.Echo

/-- Every call succeeds. -/
def answerAudit : (e : (gateway.sum auditing).Op) → World × AuditState →
    Option ((gateway.sum auditing).Res e × World × AuditState)
  | .inl e, x => (Partners.answer ⟨⟨[]⟩, []⟩ e x.1).map fun r ↦ (r.1, r.2, x.2)
  | .inr e, x => (e.answer x.2).map fun r ↦ (r.1, x.1, r.2)

/-- The resolver without a broker. -/
def inner : Inner := CredResolver.resolve ⟨none⟩

theorem inner_notEgress (id : Identity) (host : String) : All NotEgress (inner id host) := by
  refine (resolve_calls ⟨none⟩ id host).mono fun e he ↦ ?_
  cases e with
  | sql c =>
      cases c with
      | appendAudit ev => exact he.elim
      | _ => trivial
  | _ => trivial

theorem answer_allOrNothing (P : Partners) {e : Call} {w w' : World} {r : e.Res}
    (h : P.answer e w = some (r, w')) : AllOrNothing e w r w' := by
  cases e with
  | sql c =>
      cases c with
      | appendAudit ev =>
          cases r with
          | ok u => trivial
          | error err =>
              obtain ⟨hans, rfl⟩ := Prod.mk.inj (Option.some.inj h)
              rcases egressRows_appendAudit ev w.db with ⟨hok, -⟩ | ⟨-, hdb⟩
              · rw [hok] at hans
                cases hans
              · exact congrArg (fun db ↦ { w with db := db }) hdb
      | _ => trivial
  | _ => trivial

theorem answerAudit_sem {e : (gateway.sum auditing).Op} {x y : World × AuditState}
    {r : (gateway.sum auditing).Res e} (h : answerAudit e x = some (r, y)) :
    (audits Partners.outside inner).sem e x r y := by
  rcases e with e | e
  · obtain ⟨⟨r', w⟩, hw, heq⟩ := Option.map_eq_some_iff.mp h
    cases heq
    exact ⟨Partners.answer_sem _ hw fun _ ↦ True, answer_allOrNothing _ hw, rfl⟩
  · obtain ⟨⟨r', s⟩, hs, heq⟩ := Option.map_eq_some_iff.mp h
    cases heq
    exact ⟨rfl, AuditCall.answer_step hs⟩

/-- A call, the writer's work on it, and a closing call. -/
def schedule : List (Move AuditJob) :=
  [.start (.resolve ⟨"echo", "1"⟩ "api.example.com")] ++ List.replicate 4 (.step 1) ++
    List.replicate 5 (.step 0) ++ [.start .close, .step 2, .step 2, .step 0, .step 0, .step 2]

def closed : Audits :=
  (audits Partners.outside inner).play answerAudit (newAuditingResolver inner (.boot store 0))
    schedule

/-- The closing call has returned, and the call has left one row. -/
theorem audit_conserved_closed :
    (∃ t ∈ closed.threads, t.cur = .ret (.inl (.closed true))) ∧
      (egressRows closed.shared.1.db).card = 1 ∧ Conserved (egressRows store) closed := by
  have hreach : (audits Partners.outside inner).Reach (newAuditingResolver inner (.boot store 0))
      closed := by
    refine Effect.System.reach_play (fun _ _ _ _ ↦ answerAudit_sem) ?_ _
    rintro j hj rfl
    simp [schedule] at hj
  exact ⟨⟨_, .tail _ (.tail _ (.head _)), rfl⟩, rfl, (audit_conserved inner_notEgress hreach).1⟩

end Example.Echo

end GigMcp.Gateway
