import GigMcp.Api.Frame
import GigMcp.Effect.Panic
import GigMcp.Gateway.Threads

/-!
# Builds that crash

`getOrCreate` closes the channel of a build in a deferred call, which runs on every way out,
and takes the build's entry out of `building` in the statements after `spawnProfile`, which
a panic skips.  Here a build may panic at any point; the panic ends the request, and the
host lives on.

A thread's `Stage` says how far its build has come.  `Tended` is what the lock sections
keep: the entries of `building` are those of the threads that are building or have crashed,
and the channel of a thread that is building is open.  So a profile is `Unwedged` exactly as
long as no build of it has crashed (`unwedged_iff`).  After a crash the entry stays for good,
with a channel that is closed: `Example.Echo.getOrCreate_spins` has a request that goes round
the loop and finds the host as it was.
-/

namespace GigMcp.Gateway

open GigMcp.Effect GigMcp.System GigMcp.Store GigMcp.Data

/-! ## Requests that may panic -/

/-- One round of `getOrCreate`, in which the build may panic; `none` is a request that a
panic has ended. -/
def getOrCreateRound (p : Profile) :
    Prog (gateway.sum panics) (Option (Except Err ProfileRuntime) ⊕ Unit) := do
  match ← (perform (.enter p.id)).left with
  | .closed => return .inl (some (.error errProfileHostClosed))
  | .warm rt => return .inl (some (.ok rt))
  | .inflight ch => do
      let _ ← (perform (.await ch)).left
      return .inr ()
  | .claimed ch => do
      match ← (spawnProfile p).panicky with
      | none =>
          -- Only what was deferred still runs.
          let _ ← (perform (.closeChan ch)).left
          return .inl none
      | some built =>
          let r ← (perform (.commit p.id built)).left
          let _ ← (perform (.closeChan ch)).left
          return .inl (some r)

/-- A round in which nothing panics is one of `getOrCreateBody`. -/
theorem calm_getOrCreateRound (p : Profile) :
    (getOrCreateRound p).calm = getOrCreateBody p >>= fun r ↦ .ret (r.map some id) := by
  unfold getOrCreateRound getOrCreateBody
  simp only [Prog.calm_bind, Prog.calm_left, Prog.bind_assoc']
  congr 1
  funext entry
  cases entry with
  | closed => rfl
  | warm rt => rfl
  | inflight ch => rfl
  | claimed ch =>
      simp only [Prog.calm_bind, Prog.calm_panicky, Prog.bind_assoc']
      rfl

/-- The code of a job whose builds may panic. -/
def Job.panickyBody : Job → Prog (gateway.sum panics) (Option Outcome ⊕ Job)
  | .getOrCreate p => do
      match ← getOrCreateRound p with
      | .inl r => return .inl (r.map .runtime)
      | .inr () => return .inr (.getOrCreate p)
  | j => do
      let r ← j.body.left
      return r.map some id

/-- How far the build of a thread has come. -/
inductive Stage
  | /-- The thread has claimed no slot. -/
    idle
  | /-- It has put its channel into `building`, and builds. -/
    building (pid : Int64) (ch : Nat)
  | /-- Its build has panicked. -/
    crashed (pid : Int64) (ch : Nat)
  | /-- Its build has ended, and its entry is gone. -/
    settled (pid : Int64) (ch : Nat)
deriving DecidableEq

namespace Stage

/-- The channel a thread has made. -/
def chan : Stage → Option Nat
  | idle => none
  | building _ ch | crashed _ ch | settled _ ch => some ch

/-- The entry of `building` it has not taken out. -/
def entry : Stage → Option (Int64 × Nat)
  | building pid ch | crashed pid ch => some (pid, ch)
  | idle | settled .. => none

/-- The stage after a call. -/
def track : (e : (gateway.sum panics).Op) → Stage → (gateway.sum panics).Res e → Stage
  | .inl (.enter pid), idle, .claimed ch => building pid ch
  | .inl (.commit ..), building pid ch, _ => settled pid ch
  | .inr (), building pid ch, true => crashed pid ch
  | _, g, _ => g

/-- When a thread may make a call. -/
def Permits : (gateway.sum panics).Op → Stage → Prop
  | .inl (.enter _), g => g = idle
  | .inl (.commit pid _), g => ∃ ch, g = building pid ch
  | .inl (.closeChan ch), g => ∃ pid, g = crashed pid ch ∨ g = settled pid ch
  | .inr (), g => ∃ pid ch, g = building pid ch
  | _, _ => True

/-- How a job may end: not in the middle of a build, and going on only before it has begun
one. -/
def Ends : Option Outcome ⊕ Job → Stage → Prop
  | .inl _, g => ∀ pid ch, g ≠ building pid ch
  | .inr _, g => g = idle

end Stage

/-- The goroutines of a profile host whose builds may panic. -/
def crashing (O : Outside) (starts : Job → Prop) :
    Effect.System (gateway.sum panics) (Option Outcome) Job Stage World where
  sem := panickySem (sem O fun _ ↦ True)
  starts := starts
  body := Job.panickyBody
  init := fun _ ↦ .idle
  track := Stage.track
  env := elsewhere O

/-! ## The code keeps to it -/

/-- A call that does not touch `building` or a channel. -/
def Aside : Call → Prop
  | .enter _ | .commit .. | .closeChan _ => False
  | _ => True

theorem Aside.permits {e : Call} (h : Aside e) (g : Stage) : Stage.Permits (.inl e) g := by
  cases e with
  | enter pid => exact h.elim
  | commit pid built => exact h.elim
  | closeChan ch => exact h.elim
  | _ => trivial

theorem Aside.track_eq {e : Call} (h : Aside e) (g : Stage) (r : e.Res) :
    Stage.track (.inl e) g r = g := by
  cases e with
  | enter pid => exact h.elim
  | commit pid built => exact h.elim
  | closeChan ch => exact h.elim
  | _ => cases g <;> rfl

theorem BuildCall.aside {p : Profile} {e : Call} (h : BuildCall p e) : Aside e := by
  cases e with
  | enter pid => exact h.elim
  | commit pid built => exact h.elim
  | closeChan ch => exact h.elim
  | _ => trivial

theorem Touches.aside {ts : List Tbl} {e : Call} (h : Touches ts e) : Aside e := by
  cases e with
  | enter pid => exact h.elim
  | commit pid built => exact h.elim
  | closeChan ch => exact h.elim
  | _ => trivial

theorem runCleanups_aside (bs : List EgressBackend) : All Aside (runCleanups bs) := by
  refine All.bind (All.each (fun b ↦ ?_) bs) fun _ ↦ all_ret
  exact all_call_iff.mpr trivial

theorem invalidate_aside (pid : Int64) : All Aside (invalidate pid) := by
  refine all_call.mpr ⟨trivial, fun rt ↦ ?_⟩
  cases rt with
  | none => exact all_ret
  | some rt => exact runCleanups_aside _

/-- Only `getOrCreate` touches `building`. -/
theorem body_aside (j : Job) (hj : ∀ p, j ≠ .getOrCreate p) : All Aside j.body := by
  cases j with
  | getOrCreate p => exact absurd rfl (hj p)
  | serve slug bearer =>
      refine All.bind ?_ fun p ↦ ?_
      · cases bearer with
        | none => exact all_ret
        | some hash => exact All.except (all_call_iff.mpr trivial) (fun _ ↦ all_ret) fun _ ↦ all_ret
      · cases p with
        | none => exact all_ret
        | some p => exact all_ret
  | invalidate pid => exact (invalidate_aside pid).bind fun _ ↦ all_ret
  | close =>
      refine All.bind (all_call.mpr ⟨trivial, fun rts ↦ ?_⟩) fun _ ↦ all_ret
      exact runCleanups_aside _
  | deleteProfile ctx pathID =>
      have hload : All (Touches []) (Api.loadOwnedProfile ctx pathID) :=
        Api.loadOwnedProfile_touches ctx pathID
      refine All.bind ?_ fun _ ↦ all_ret
      refine All.except (hload.mono fun _ ↦ Touches.aside) (fun _ ↦ all_ret) fun p ↦ ?_
      refine All.except (all_call_iff.mpr trivial) (fun _ ↦ all_ret) fun _ ↦ ?_
      refine (invalidate_aside p.id).bind fun _ ↦ ?_
      exact ((Api.audit_touches ctx (List.mem_singleton_self Tbl.audit) ..).mono fun _ ↦
        Touches.aside).bind fun _ ↦ all_ret

theorem Aside.conforms {α : Type} {g : Stage} {p : Code α} (hp : All Aside p) :
    Conforms Stage.track Stage.Permits (fun _ g' ↦ g' = g) p.left g := by
  refine Conforms.left (Conforms.of_all ?_)
  exact hp.mono fun e he ↦ ⟨he.permits, he.track_eq⟩

/-- A round of `getOrCreate` closes its channel after the build has ended, one way or the
other. -/
theorem getOrCreateRound_conforms (p : Profile) :
    Conforms Stage.track Stage.Permits
      (fun r g ↦ match r with
        | .inl _ => ∀ pid ch, g ≠ .building pid ch
        | .inr () => g = .idle)
      (getOrCreateRound p) .idle := by
  refine ⟨rfl, fun entry ↦ ?_⟩
  cases entry with
  | closed => exact nofun
  | warm rt => exact nofun
  | inflight ch => exact ⟨trivial, fun _ ↦ rfl⟩
  | claimed ch =>
      have hbuild : All (fun e ↦ Stage.Permits (.inl e) (.building p.id ch) ∧
          ∀ r, Stage.track (.inl e) (.building p.id ch) r = .building p.id ch) (spawnProfile p) :=
        (spawnProfile_buildCalls p).mono fun e he ↦
          ⟨he.aside.permits _, he.aside.track_eq _⟩
      refine (Conforms.panicky hbuild ⟨p.id, ch, rfl⟩ rfl).bind ?_
      rintro r g (⟨⟨built, rfl⟩, rfl⟩ | ⟨rfl, rfl⟩)
      · refine ⟨⟨ch, rfl⟩, fun r ↦ ?_⟩
        exact ⟨⟨p.id, .inr rfl⟩, fun _ ↦ nofun⟩
      · exact ⟨⟨p.id, .inl rfl⟩, fun _ ↦ nofun⟩

theorem panickyBody_conforms (j : Job) :
    Conforms Stage.track Stage.Permits Stage.Ends j.panickyBody .idle := by
  by_cases hj : ∃ p, j = .getOrCreate p
  · obtain ⟨p, rfl⟩ := hj
    refine (getOrCreateRound_conforms p).bind ?_
    intro r g hg
    cases r with
    | inl r => exact hg
    | inr u => exact hg
  · rw [not_exists] at hj
    have hbody := Aside.conforms (g := .idle) (body_aside j hj)
    have heq : j.panickyBody = j.body.left >>= fun r ↦ .ret (r.map some id) := by
      cases j with
      | getOrCreate p => exact absurd rfl (hj p)
      | _ => rfl
    rw [heq]
    refine hbody.bind ?_
    rintro r g rfl
    cases r with
    | inl r => exact nofun
    | inr j' => exact rfl

/-! ## What the lock sections keep -/

/-- Worlds with the same builds and channels. -/
structure SameBuilds (w w' : World) : Prop where
  building : w'.host.building = w.host.building
  nextChan : w'.host.nextChan = w.host.nextChan
  closedChans : w'.host.closedChans = w.host.closedChans

theorem Aside.sameBuilds {O : Outside} {faults : Call → Prop} {e : Call} {w w' : World} {r : e.Res}
    (he : Aside e) (h : sem O faults e w r w') : SameBuilds w w' := by
  cases e with
  | enter pid => exact he.elim
  | commit pid built => exact he.elim
  | closeChan ch => exact he.elim
  | sql c =>
      rcases h with ⟨-, rfl⟩ | ⟨-, -, rfl | rfl⟩
      · exact ⟨rfl, rfl, rfl⟩
      · exact ⟨rfl, rfl, rfl⟩
      · exact ⟨rfl, rfl, rfl⟩
  | spawn srv tenant placeholder =>
      rcases h with ⟨-, rfl⟩ | ⟨rfl, -⟩
      · exact ⟨rfl, rfl, rfl⟩
      · exact ⟨rfl, rfl, rfl⟩
  | now | await ch | takeRuntime pid | takeAll =>
      obtain ⟨-, rfl⟩ := h
      exact ⟨rfl, rfl, rfl⟩
  | cleanup b | newVerifier | stat path =>
      obtain rfl := h
      exact ⟨rfl, rfl, rfl⟩
  | _ =>
      obtain ⟨rfl, -⟩ := h
      exact ⟨rfl, rfl, rfl⟩

/-- The entries of `building` and the channels are those of the threads. -/
structure Tended (w : World) (gs : Multiset (Job × Stage)) : Prop where
  /-- Each entry is that of a thread that builds or has crashed. -/
  entries : (w.host.building.rows : Multiset (Int64 × Nat)) = having Stage.entry gs
  /-- No two threads have made one channel. -/
  distinct : (having Stage.chan gs).Nodup
  made : ∀ t ∈ gs, ∀ ch, t.2.chan = some ch → ch < w.host.nextChan
  closed : ∀ ch ∈ w.host.closedChans, ch < w.host.nextChan
  /-- The channel of a build is open. -/
  opened : ∀ t ∈ gs, ∀ pid ch, t.2 = .building pid ch → ch ∉ w.host.closedChans

namespace Tended

variable {w w' : World} {j j' : Job} {g g' : Stage} {gs : Multiset (Job × Stage)}

theorem boot (db : Database) (now : Time) : Tended (.boot db now) 0 :=
  ⟨rfl, Multiset.nodup_zero, fun _ ht ↦ absurd ht (Multiset.notMem_zero _), nofun,
    fun _ ht ↦ absurd ht (Multiset.notMem_zero _)⟩

/-- A step that leaves `building` and the channels alone, of a thread that keeps its
stage or crashes. -/
theorem still (h : Tended w ((j, g) ::ₘ gs)) (hsame : SameBuilds w w')
    (hentry : g'.entry = g.entry) (hchan : g'.chan = g.chan) (hbuilds : ∀ pid ch, g' = .building pid ch → g = g') :
    Tended w' ((j', g') ::ₘ gs) where
  entries := by
    rw [hsame.building, h.entries]
    exact (having_cons_congr hentry).symm
  distinct := by
    rw [having_cons_congr (t := (j, g)) hchan]
    exact h.distinct
  made := by
    intro t ht ch hch
    rw [hsame.nextChan]
    rcases Multiset.mem_cons.mp ht with rfl | ht
    · exact h.made (j, g) (Multiset.mem_cons_self ..) ch (hchan ▸ hch)
    · exact h.made t (Multiset.mem_cons_of_mem ht) ch hch
  closed := by
    rw [hsame.nextChan, hsame.closedChans]
    exact h.closed
  opened := by
    intro t ht pid ch hch
    rw [hsame.closedChans]
    rcases Multiset.mem_cons.mp ht with rfl | ht
    · exact h.opened (j, g) (Multiset.mem_cons_self ..) pid ch ((hbuilds pid ch hch).trans hch)
    · exact h.opened t (Multiset.mem_cons_of_mem ht) pid ch hch

/-- The same without a thread that moves. -/
theorem env (h : Tended w gs) (hsame : SameBuilds w w') : Tended w' gs := by
  obtain ⟨hentries, hdistinct, hmade, hclosed, hopened⟩ := h
  rw [← hsame.building] at hentries
  rw [← hsame.nextChan] at hmade hclosed
  rw [← hsame.closedChans] at hclosed hopened
  exact ⟨hentries, hdistinct, hmade, hclosed, hopened⟩

/-- A channel is that of one thread. -/
theorem unique (h : Tended w gs) {t t' : Job × Stage} (ht : t ∈ gs) (ht' : t' ∈ gs) {ch : Nat}
    (hch : t.2.chan = some ch) (hch' : t'.2.chan = some ch) : t' = t := by
  by_contra hne
  obtain ⟨rest, rfl⟩ := Multiset.exists_cons_of_mem ht
  have hdistinct := h.distinct
  rw [having_cons, hch] at hdistinct
  have hrest : t' ∈ rest := (Multiset.mem_cons.mp ht').resolve_left hne
  exact (Multiset.nodup_cons.mp hdistinct).1 (mem_having.mpr ⟨t', hrest, hch'⟩)

/-- A thread that has made no channel arrives. -/
theorem start (h : Tended w gs) (j : Job) : Tended w ((j, .idle) ::ₘ gs) where
  entries := by
    rw [h.entries, having_cons]
    rfl
  distinct := by
    rw [having_cons]
    exact h.distinct
  made := by
    intro t ht ch hch
    rcases Multiset.mem_cons.mp ht with rfl | ht
    · cases hch
    · exact h.made t ht ch hch
  closed := h.closed
  opened := by
    intro t ht pid ch hch
    rcases Multiset.mem_cons.mp ht with rfl | ht
    · cases hch
    · exact h.opened t ht pid ch hch

/-- A claim: the new channel is one that nobody has made and nobody has closed. -/
theorem claim (h : Tended w ((j, .idle) ::ₘ gs)) {pid : Int64}
    (hrows : w'.host.building.rows = w.host.building.rows ++ [(pid, w.host.nextChan)])
    (hnext : w'.host.nextChan = w.host.nextChan + 1)
    (hclosed : w'.host.closedChans = w.host.closedChans) :
    Tended w' ((j, .building pid w.host.nextChan) ::ₘ gs) where
  entries := by
    have hentries : (w.host.building.rows : Multiset _) = having Stage.entry gs :=
      h.entries.trans having_cons
    rw [having_cons, hrows, ← Multiset.coe_add, hentries, Multiset.add_comm]
    exact Multiset.singleton_add _ _
  distinct := by
    have hdistinct := h.distinct
    rw [having_cons] at hdistinct ⊢
    refine Multiset.nodup_cons.mpr ⟨fun hmem ↦ ?_, hdistinct⟩
    obtain ⟨t, ht, hch⟩ := mem_having.mp hmem
    exact Nat.lt_irrefl _ (h.made t (Multiset.mem_cons_of_mem ht) _ hch)
  made := by
    intro t ht ch hch
    rw [hnext]
    rcases Multiset.mem_cons.mp ht with rfl | ht
    · obtain rfl := Option.some.inj hch
      exact Nat.lt_succ_self _
    · exact Nat.lt_succ_of_lt (h.made t (Multiset.mem_cons_of_mem ht) ch hch)
  closed := by
    intro ch hch
    rw [hclosed] at hch
    rw [hnext]
    exact Nat.lt_succ_of_lt (h.closed ch hch)
  opened := by
    intro t ht q ch hch
    rw [hclosed]
    rcases Multiset.mem_cons.mp ht with rfl | ht
    · obtain ⟨rfl, rfl⟩ := Stage.building.inj hch
      exact fun hmem ↦ Nat.lt_irrefl _ (h.closed _ hmem)
    · exact h.opened t (Multiset.mem_cons_of_mem ht) q ch hch

theorem enter (h : Tended w ((j, .idle) ::ₘ gs)) (pid : Int64) :
    Tended { w with host := (w.host.enter pid).2 }
      ((j, Stage.track (.inl (.enter pid)) .idle (w.host.enter pid).1) ::ₘ gs) := by
  rcases w.host.enter_cases pid with ⟨-, he⟩ | ⟨-, rt, -, he⟩ | ⟨-, ch, he⟩ |
    ⟨-, -, hbuilding, he⟩
  · rw [he]
    exact h
  · rw [he]
    exact h.still ⟨rfl, rfl, rfl⟩ rfl rfl fun _ _ h ↦ nomatch h
  · rw [he]
    exact h.still ⟨rfl, rfl, rfl⟩ rfl rfl fun _ _ h ↦ nomatch h
  · rw [he]
    exact h.claim (Table.rows_upsert_of_get?_none hbuilding) rfl rfl

/-- A commit takes the entry of its build out of `building`, and no other. -/
theorem commit {pid : Int64} {ch : Nat} (h : Tended w ((j, .building pid ch) ::ₘ gs))
    (hrows : w'.host.building = w.host.building.deleteWhere (·.1 = pid))
    (hnext : w'.host.nextChan = w.host.nextChan)
    (hclosed : w'.host.closedChans = w.host.closedChans) :
    Tended w' ((j, .settled pid ch) ::ₘ gs) where
  entries := by
    have hentries : (w.host.building.rows : Multiset _) = (pid, ch) ::ₘ having Stage.entry gs :=
      h.entries.trans having_cons
    have hmem : (pid, ch) ∈ w.host.building.rows := by
      rw [← Multiset.mem_coe, hentries]
      exact Multiset.mem_cons_self ..
    have hperm := Table.rows_perm_of_get? (Table.get?_of_mem hmem)
    rw [Multiset.coe_eq_coe.mpr hperm, ← Multiset.cons_coe] at hentries
    rw [hrows, having_cons]
    exact (Multiset.cons_inj_right _).mp hentries
  distinct := by
    have hdistinct := h.distinct
    rw [having_cons] at hdistinct ⊢
    exact hdistinct
  made := by
    intro t ht c hc
    rw [hnext]
    rcases Multiset.mem_cons.mp ht with rfl | ht
    · exact h.made _ (Multiset.mem_cons_self ..) c hc
    · exact h.made t (Multiset.mem_cons_of_mem ht) c hc
  closed := by
    rw [hnext, hclosed]
    exact h.closed
  opened := by
    intro t ht q c hc
    rw [hclosed]
    rcases Multiset.mem_cons.mp ht with rfl | ht
    · cases hc
    · exact h.opened t (Multiset.mem_cons_of_mem ht) q c hc

/-- A thread that has stopped building closes its channel, which is nobody else's. -/
theorem closeChan {ch : Nat} (h : Tended w ((j, g) ::ₘ gs)) (hchan : g.chan = some ch)
    (hg : ∀ q c, g ≠ .building q c) :
    Tended { w with host := w.host.closeChan ch } ((j, g) ::ₘ gs) where
  entries := h.entries
  distinct := h.distinct
  made := h.made
  closed := by
    intro c hc
    rcases List.mem_cons.mp hc with rfl | hc
    · exact h.made _ (Multiset.mem_cons_self ..) c hchan
    · exact h.closed c hc
  opened := by
    intro t ht q c hc hmem
    rcases List.mem_cons.mp hmem with rfl | hmem
    · have hc' : t.2.chan = some c := by
        rw [hc]
        rfl
      obtain rfl := h.unique (Multiset.mem_cons_self ..) ht hchan hc'
      exact hg q c hc
    · exact h.opened t ht q c hc hmem

/-- A call keeps the entries and the channels in order. -/
theorem call {O : Outside} {e : (gateway.sum panics).Op} {r : (gateway.sum panics).Res e}
    (h : Tended w ((j, g) ::ₘ gs)) (hpre : Stage.Permits e g)
    (hr : panickySem (sem O fun _ ↦ True) e w r w') :
    Tended w' ((j, Stage.track e g r) ::ₘ gs) := by
  rcases e with e | u
  · change sem O (fun _ ↦ True) e w r w' at hr
    by_cases haside : Aside e
    · rw [haside.track_eq]
      exact h.still (haside.sameBuilds hr) rfl rfl fun _ _ _ ↦ rfl
    · cases e with
      | enter pid =>
          obtain rfl : g = .idle := hpre
          obtain ⟨rfl, rfl⟩ := hr
          exact h.enter pid
      | commit pid built =>
          obtain ⟨ch, rfl⟩ := hpre
          obtain ⟨-, rfl⟩ := hr
          exact h.commit (w.host.building_commit pid built) (w.host.nextChan_commit pid built)
            (w.host.closedChans_commit pid built)
      | closeChan ch =>
          obtain rfl := hr
          obtain ⟨pid, rfl | rfl⟩ := hpre
          · exact h.closeChan rfl nofun
          · exact h.closeChan rfl nofun
      | _ => exact absurd trivial haside
  · obtain ⟨pid, ch, rfl⟩ := hpre
    obtain rfl := hr
    cases r with
    | true => exact h.still ⟨rfl, rfl, rfl⟩ rfl rfl nofun
    | false => exact h

end Tended

/-- The discipline of a host whose builds may panic. -/
def tended (O : Outside) (starts : Job → Prop) : Discipline (crashing O starts) where
  pre := fun _ ↦ Stage.Permits
  fin := fun _ ↦ Stage.Ends
  Inv := Tended
  body_conforms := fun j _ ↦ panickyBody_conforms j
  again_conforms := by
    rintro w gs j j' g - rfl
    exact panickyBody_conforms j'
  inv_start := fun _ _ j _ h ↦ h.start j
  inv_call := fun _ _ _ _ _ _ _ h hpre hr ↦ h.call hpre hr
  inv_again := by
    rintro w gs j j' g h rfl
    exact h.still ⟨rfl, rfl, rfl⟩ rfl rfl fun _ _ _ ↦ rfl
  inv_env := by
    rintro w gs w' h (⟨c, r, hr⟩ | ⟨t, -, rfl⟩)
    · exact h.env (Aside.sameBuilds (e := .sql c) trivial hr)
    · exact h.env ⟨rfl, rfl, rfl⟩

/-! ## Wedged profiles -/

/-- A pool of goroutines whose builds may panic. -/
abbrev Requests := Pool (gateway.sum panics) (Option Outcome) Job Stage World

/-- A build of a profile is still running. -/
def Builds (c : Requests) (pid : Int64) : Prop :=
  ∃ t ∈ c.threads, ¬ t.Finished ∧ ∃ ch, t.record = .building pid ch

/-- A build of a profile has panicked. -/
def Crashed (c : Requests) (pid : Int64) : Prop :=
  ∃ t ∈ c.threads, ∃ ch, t.record = .crashed pid ch

/-- Requests for a profile make progress. -/
structure Unwedged (c : Requests) (pid : Int64) : Prop where
  /-- An entry in `building` means that a build is running. -/
  running : (c.shared.host.building.get? pid).isSome → Builds c pid
  /-- Who was woken by a channel does not find it again. -/
  woken : ∀ ch ∈ c.shared.host.closedChans, (c.shared.host.enter pid).1 ≠ .inflight ch
  /-- Nobody is sent round the loop of `getOrCreate` without a build in progress. -/
  progress : ¬ Builds c pid → ∀ ch, (c.shared.host.enter pid).1 ≠ .inflight ch

/-- A thread in the middle of a build has not finished. -/
theorem not_finished_of_building {O : Outside} {starts : Job → Prop} {c : Requests}
    (hc : (tended O starts).Good c) {t : Thread (gateway.sum panics) (Option Outcome) Job Stage}
    (ht : t ∈ c.threads) {pid : Int64} {ch : Nat} (hrec : t.record = .building pid ch) :
    ¬ t.Finished := by
  rintro ⟨a, ha⟩
  have hends := hc.conforms t ht
  rw [ha] at hends
  exact hends pid ch hrec

/-- An entry is that of a build that is running or has crashed. -/
theorem builds_or_crashed {O : Outside} {starts : Job → Prop} {c : Requests}
    (hc : (tended O starts).Good c) {pid : Int64} {ch : Nat}
    (hrow : c.shared.host.building.get? pid = some (pid, ch)) :
    Builds c pid ∧ ch ∉ c.shared.host.closedChans ∨ Crashed c pid := by
  have hentry : (pid, ch) ∈ having Stage.entry c.records :=
    hc.inv.entries ▸ Multiset.mem_coe.mpr (Table.mem_of_get? hrow)
  obtain ⟨x, hx, hentry⟩ := mem_having.mp hentry
  obtain ⟨t, ht, rfl⟩ := List.mem_map.mp (Multiset.mem_coe.mp hx)
  dsimp only at hentry
  cases hrec : t.record with
  | idle => simp [hrec, Stage.entry] at hentry
  | settled q c => simp [hrec, Stage.entry] at hentry
  | crashed q c =>
      rw [hrec] at hentry
      obtain ⟨rfl, rfl⟩ := Prod.mk.inj (Option.some.inj hentry)
      exact .inr ⟨t, ht, c, hrec⟩
  | building q c =>
      rw [hrec] at hentry
      obtain ⟨rfl, rfl⟩ := Prod.mk.inj (Option.some.inj hentry)
      exact .inl ⟨⟨t, ht, not_finished_of_building hc ht hrec, c, hrec⟩,
        hc.inv.opened _ hx q c hrec⟩

/-- The entry of a build that has crashed stays, and nobody else builds. -/
theorem Crashed.entry {O : Outside} {starts : Job → Prop} {c : Requests}
    (hc : (tended O starts).Good c) {pid : Int64} (hcrashed : Crashed c pid) :
    (c.shared.host.building.get? pid).isSome ∧ ¬ Builds c pid := by
  have hrow {t : Thread (gateway.sum panics) (Option Outcome) Job Stage} (ht : t ∈ c.threads)
      {ch : Nat} (hentry : t.record.entry = some (pid, ch)) :
      c.shared.host.building.get? pid = some (pid, ch) := by
    have hmem := mem_having.mpr ⟨_, Pool.mem_records ht, hentry⟩
    rw [← hc.inv.entries] at hmem
    exact Table.get?_of_mem (Multiset.mem_coe.mp hmem)
  obtain ⟨t, ht, ch, hrec⟩ := hcrashed
  have hget := hrow ht (by rw [hrec]; rfl)
  refine ⟨by rw [hget]; rfl, ?_⟩
  rintro ⟨t', ht', -, ch', hrec'⟩
  have hget' := hrow ht' (by rw [hrec']; rfl)
  obtain rfl : ch = ch' := congrArg Prod.snd (Option.some.inj (hget.symm.trans hget'))
  have hsame := hc.inv.unique (Pool.mem_records ht) (Pool.mem_records ht')
    (by rw [hrec]; rfl) (by rw [hrec']; rfl)
  have hstage : t'.record = t.record := congrArg Prod.snd hsame
  rw [hrec, hrec'] at hstage
  cases hstage

/-- **A profile is unwedged exactly as long as no build of it has panicked.** -/
theorem unwedged_iff {O : Outside} {starts : Job → Prop} {db : Database} {now : Time}
    {c : Requests} (h : (crashing O starts).Reach ⟨.boot db now, []⟩ c) (pid : Int64) :
    Unwedged c pid ↔ ¬ Crashed c pid := by
  have hgood := (tended O starts).good ((tended O starts).good_nil (.boot db now)) h
  constructor
  · intro hun hcrashed
    obtain ⟨hentry, hbuilds⟩ := hcrashed.entry hgood
    exact hbuilds (hun.running hentry)
  · intro hcrashed
    have hruns {ch : Nat} (hrow : c.shared.host.building.get? pid = some (pid, ch)) :=
      (builds_or_crashed hgood hrow).resolve_right hcrashed
    refine ⟨fun hentry ↦ ?_, fun ch hch hin ↦ ?_, fun hbuilds ch hin ↦ ?_⟩
    · obtain ⟨⟨q, ch⟩, hrow⟩ := Option.isSome_iff_exists.mp hentry
      obtain rfl : q = pid := Table.key_of_get? hrow
      exact (hruns hrow).1
    · exact (hruns (Host.building_of_inflight hin)).2 hch
    · exact hbuilds (hruns (Host.building_of_inflight hin)).1

/-! ## A host with one profile -/

namespace Example.Echo

/-- Every call succeeds, and the builds panic or do not. -/
def answerOr (panic : Bool) :
    (e : (gateway.sum panics).Op) → World → Option ((gateway.sum panics).Res e × World)
  | .inl e, w => Partners.answer ⟨⟨[]⟩, ["say"]⟩ e w
  | .inr (), w => some (panic, w)

/-- The pool after a schedule. -/
def serve (panic : Bool) (c : Requests) (s : List (Move Job)) : Requests :=
  (crashing Partners.outside fun _ ↦ True).play (answerOr panic) c s

theorem reach_serve (panic : Bool) (c : Requests) (s : List (Move Job)) :
    (crashing Partners.outside fun _ ↦ True).Reach c (serve panic c s) := by
  refine Effect.System.reach_play ?_ (fun _ _ ↦ trivial) c
  rintro (e | u) w r w' h
  · exact Partners.answer_sem _ h fun _ ↦ True
  · cases h
    rfl

/-- The host before its first request. -/
def quiet : Requests := ⟨.boot store 0, []⟩

/-- One request claims the slot and starts to build. -/
def claiming : List (Move Job) := [.start (.getOrCreate profile), .step 0]

/-- The slot is claimed, and the build runs. -/
theorem unwedged_claimed :
    ((serve false quiet claiming).shared.host.building.get? 1).isSome ∧
      Unwedged (serve false quiet claiming) 1 := by
  refine ⟨rfl, (unwedged_iff (reach_serve false quiet claiming) 1).mpr ?_⟩
  rintro ⟨t, ht, ch, hrec⟩
  obtain rfl := List.mem_singleton.mp ht
  cases hrec

/-- The build panics, its request ends, and another request arrives. -/
def wedged : Requests :=
  serve true quiet (claiming ++ [.step 0, .step 0, .start (.getOrCreate profile)])

/-- A request that arrives after a panic goes round the loop and finds everything as it
was: the entry is there, its channel is closed, and nobody builds. -/
theorem getOrCreate_spins :
    (crashing Partners.outside fun _ ↦ True).Reach quiet wedged ∧
      ¬ Unwedged wedged 1 ∧ ¬ Builds wedged 1 ∧
      wedged.threads[1]? =
        some ⟨.getOrCreate profile, (Job.getOrCreate profile).panickyBody, .idle⟩ ∧
      serve true wedged [.step 1, .step 1, .step 1] = wedged := by
  refine ⟨reach_serve true quiet _, ?_, ?_, rfl, rfl⟩
  · intro h
    exact h.woken 0 (.head _) rfl
  · rintro ⟨t, ht, -, ch, hrec⟩
    rcases List.mem_cons.mp ht with rfl | ht
    · cases hrec
    · rcases List.mem_cons.mp ht with rfl | ht
      · cases hrec
      · cases ht

end Example.Echo

end GigMcp.Gateway
