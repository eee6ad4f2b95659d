import GigMcp.Api.Handlers
import GigMcp.Effect.Pool
import GigMcp.System.Local

/-!
# The profile host under concurrency

The goroutines that share a `ProfileHost`, as a pool of threads: MCP requests
(`serve`: the token lookup, then `getOrCreate` with the profile it found), bare
calls of `getOrCreate`, `Invalidate` and `Close`, and the handler that deletes a
profile.  A section of `h.mu` is one call, so everything the lock does not cover
interleaves: the build, the wait for another goroutine's build, and the cleanups
that `Invalidate` and `Close` run after they have let go of the lock.  Spawns,
session I/O and statements may fail at any time, and the rest of the gateway
works on the same store.

A thread's record says what it owes: the slot it has claimed, and the backends it
has to hand on or clean up.
-/

namespace GigMcp.Gateway

open GigMcp.Effect GigMcp.System GigMcp.Store GigMcp.Data

/-- What a goroutine does with the host. -/
inductive Job
  | serve (slug : String) (bearer : Option String)
  | getOrCreate (p : Profile)
  | invalidate (pid : Int64)
  | close
  | deleteProfile (ctx : Auth.Ctx) (pathID : String)

/-- What it ends with. -/
inductive Outcome
  | unauthorized
  | runtime (r : Except Err ProfileRuntime)
  | done
  | response (r : Http.Response)

namespace Job

/-- The profile a job builds a runtime for. -/
def builds : Job → Option Int64
  | getOrCreate p => some p.id
  | _ => none

/-- A job that tears runtimes down. -/
def TearsDown : Job → Prop
  | invalidate _ | close | deleteProfile .. => True
  | serve .. | getOrCreate _ => False

instance instDecidableTearsDown : DecidablePred TearsDown
  | invalidate _ | close | deleteProfile .. => isTrue trivial
  | serve .. | getOrCreate _ => isFalse id

/-- The code of a job. -/
def body : Job → Code (Outcome ⊕ Job)
  | serve slug bearer => do
      match ← lookupProfile slug bearer with
      | none => return .inl .unauthorized
      | some p => return .inr (.getOrCreate p)
  | getOrCreate p => do
      match ← getOrCreateBody p with
      | .inl r => return .inl (.runtime r)
      | .inr () => return .inr (.getOrCreate p)
  | invalidate pid => do
      Gateway.invalidate pid
      return .inl .done
  | close => do
      Gateway.close
      return .inl .done
  | deleteProfile ctx pathID => do
      let resp ← Api.handleDeleteProfile ctx pathID
      return .inl (.response resp)

end Job

/-- What a thread's calls so far amount to. -/
structure Record where
  /-- The profile whose slot in `building` it has claimed and not given back. -/
  claim : Option Int64
  /-- The backends it has to hand on or clean up. -/
  held : List EgressBackend
  /-- It has closed the host. -/
  shut : Bool
  /-- The ids of the profiles it has read. -/
  seen : List Int64
  /-- The profile whose row it has deleted. -/
  dropped : Option Int64

namespace Record

def fresh : Record := ⟨none, [], false, [], none⟩

/-- A thread owes nothing. -/
def Idle (g : Record) : Prop := g.claim = none ∧ g.held = []

/-- The record after a statement. -/
def noted (g : Record) : (c : Sql) → Except Err c.Ans → Record
  | .getProfileByID _, .ok p => { g with seen := p.id :: g.seen }
  | .getProfileBySlugAndTokenHash .., .ok p => { g with seen := p.id :: g.seen }
  | .deleteProfile pid, .ok _ => { g with dropped := some pid }
  | _, _ => g

/-- The record after a call. -/
def track : (e : Call) → Record → e.Res → Record
  | .sql c, g, r => g.noted c r
  | .enter pid, g, .claimed _ => { g with claim := some pid }
  | .spawn .., g, .ok b => { g with held := g.held ++ [b] }
  | .cleanup b, g, _ => { g with held := g.held.erase b }
  | .commit .., g, _ => { g with claim := none, held := [] }
  | .takeRuntime _, g, some rt => { g with held := rt.cleanups }
  | .takeAll, g, rts => { g with held := rts.flatMap ProfileRuntime.cleanups, shut := true }
  | _, g, _ => g

/-- A statement changes nothing of what a thread owes. -/
theorem noted_owed (g : Record) (c : Sql) (r : Except Err c.Ans) :
    (g.noted c r).claim = g.claim ∧ (g.noted c r).held = g.held ∧
      (g.noted c r).shut = g.shut := by
  unfold noted
  split
  · exact ⟨rfl, rfl, rfl⟩
  · exact ⟨rfl, rfl, rfl⟩
  · exact ⟨rfl, rfl, rfl⟩
  · exact ⟨rfl, rfl, rfl⟩

end Record

/-- What the rest of the gateway does meanwhile: statements and the passing of time. -/
def elsewhere (O : Outside) (w w' : World) : Prop :=
  (∃ (c : Sql) (r : Except Err c.Ans), sem O (fun _ ↦ True) (.sql c) w r w') ∨
    ∃ t, w.now ≤ t ∧ w' = { w with now := t }

/-- The goroutines of a profile host, those in `starts` arriving at any time. -/
def host (O : Outside) (starts : Job → Prop) : Effect.System gateway Outcome Job Record World where
  sem := sem O fun _ ↦ True
  starts := starts
  body := Job.body
  init := fun _ ↦ .fresh
  track := Record.track
  env := elsewhere O

/-! ## A host with one profile -/

namespace Example.Echo

/-- One user, whose profile has the server `echo` in it. -/
def store : Database :=
  [Sql.ensureServer "echo" "/bin/echo" "", .upsertUserByOIDC "idp" "alice" "" "Alice" .user 0,
    .createProfile "work" "Work" 1 "hash" 0, .installForUser 1 "echo" 0,
    .setProfileServers 1 ["echo"]].foldl (fun db c ↦ (c.apply db).2) .fresh

def profile : Profile := ⟨1, "work", "Work", 1, "hash", false, 0⟩

def backend : EgressBackend := ⟨0, "echo", "1"⟩

/-- The host before its first request. -/
def idle : Pool gateway Outcome Job Record World := ⟨.boot store 0, []⟩

/-- The pool after a schedule, every call succeeding. -/
def play (starts : Job → Prop) (c : Pool gateway Outcome Job Record World) (s : List (Move Job)) :
    Pool gateway Outcome Job Record World :=
  (host Partners.outside starts).play (Partners.answer ⟨⟨[]⟩, ["say"]⟩) c s

theorem reach_play {starts : Job → Prop} {c : Pool gateway Outcome Job Record World}
    {s : List (Move Job)} (hs : ∀ j, .start j ∈ s → starts j) :
    (host Partners.outside starts).Reach c (play starts c s) :=
  Effect.System.reach_play (fun _ _ _ _ h ↦ Partners.answer_sem _ h fun _ ↦ True) hs c

end Example.Echo

end GigMcp.Gateway
