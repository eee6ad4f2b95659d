import GigMcp.Store.Methods

/-!
# The profile host

`ProfileHost` (`gateway/profilehost.go`), the aggregator `New`
(`gateway/gateway.go`) and the production `Spawn` closure (`cmd/gateway/main.go`).

`getOrCreate` is a loop: `getOrCreateBody` is one round of it, which returns
`Sum.inr` when it has waited for another goroutine's build and tries again.
-/

namespace GigMcp.Gateway

open GigMcp.Effect GigMcp.System GigMcp.Store GigMcp.Data

/-! ## Spawning one backend -/

def reconsentErr (name : String) : Err :=
  .new ("server \"" ++ name ++ "\" requires re-consent (manifest changed); refusing to spawn")

/-- The production `Spawn`: refuse a server whose manifest was not consented to,
look up its placeholder, and spawn. -/
def spawnBackend (srv : Server) (tenant : String) : Code (Except Err EgressBackend) := do
  match ← sql (.getManifest srv.name) with
  | .ok rec =>
      if rec.needsReconsent then return .error (reconsentErr srv.name)
      else
        perform (.spawn srv tenant ((rec.injections.head?.map Injection.placeholder).getD ""))
  | .error e =>
      if e.is .manifestNotFound then perform (.spawn srv tenant "")
      else return .error (.wrap ("manifest for \"" ++ srv.name ++ "\"") e)

/-! ## The aggregator -/

/-- A connected upstream server; `expose = none` exposes every tool. -/
structure Backend where
  name : String
  session : EgressBackend
  expose : Option (List String)

/-- `New` rejects a name with the separator in it and a name that comes twice. -/
def checkNames : List String → List Backend → Except Err Unit
  | _, [] => .ok ()
  | seen, b :: bs =>
      if b.name.toList.contains '_' then
        .error (.new ("backend name \"" ++ b.name ++
          "\" must not contain '_' (it is the tool-namespace separator)"))
      else if seen.contains b.name then
        .error (.new ("duplicate backend name \"" ++ b.name ++ "\""))
      else checkNames (b.name :: seen) bs

/-- A tool passes a backend's filter. -/
def Backend.exposes (b : Backend) (tool : String) : Bool :=
  b.expose.all fun names ↦ names.contains tool

/-- `AddTool`, which replaces a tool of the same name. -/
def addTool (tools : List AggTool) (t : AggTool) : List AggTool :=
  tools.filter (·.name ≠ t.name) ++ [t]

/-- Add the tools a backend lists and exposes. -/
def addTools (b : Backend) (listed : List String) (tools : List AggTool) : List AggTool :=
  (listed.filter b.exposes).foldl
    (fun ts tool ↦ addTool ts ⟨b.name ++ "_" ++ tool, b.name, b.session, tool⟩) tools

/-- The session I/O of `New`. -/
def aggregate : List Backend → List AggTool → Code (Except Err (List AggTool))
  | [], tools => return .ok tools
  | b :: bs, tools => do
      match ← perform (.listTools b.session) with
      | .error e => return .error (.wrap ("list tools for backend \"" ++ b.name ++ "\"") e)
      | .ok listed => aggregate bs (addTools b listed tools)

/-- `New`. -/
def newAggregator (backends : List Backend) : Code (Except Err (List AggTool)) :=
  match checkNames [] backends with
  | .error e => return .error e
  | .ok _ => aggregate backends []

/-! ## Building a runtime -/

/-- The tools of a manifest the owner has not turned off. -/
def exposedTools (rec : ManifestRecord) (disabled : List String) : List String :=
  (rec.tools.map ToolEntry.name).filter fun t ↦ !disabled.contains t

/-- The filter for one server of a profile, and whether to skip the server.  A
failing read of the owner's disabled set counts as nothing disabled. -/
def exposeFor (p : Profile) (server : String) :
    Code (Except Err (Option (List String) × Bool)) := do
  match ← sql (.isUserInstalled p.userID server) with
  | .error e => return .error e
  | .ok false => return .ok (none, true)
  | .ok true =>
      match ← sql (.getManifest server) with
      | .error e =>
          if e.is .manifestNotFound then return .ok (none, false) else return .error e
      | .ok rec =>
          let disabled ← sql (.listUserDisabledTools p.userID server)
          return .ok (some (exposedTools rec (disabled.toOption.getD [])), false)

/-- Run cleanups in order. -/
def runCleanups (bs : List EgressBackend) : Code Unit := do
  let _ ← Prog.each (fun b ↦ perform (.cleanup b)) bs
  return ()

/-- Give up on a build: run the cleanups collected so far. -/
def failBuild {α : Type} (cleanups : List EgressBackend) (e : Err) : Code (Except Err α) := do
  runCleanups cleanups
  return .error e

/-- The loop of `spawnProfile` over the profile's servers. -/
def spawnServers (p : Profile) (all : List Server) :
    List String → List Backend → List EgressBackend →
      Code (Except Err (List Backend × List EgressBackend))
  | [], backends, cleanups => return .ok (backends, cleanups)
  | name :: names, backends, cleanups =>
      match all.reverse.find? fun s ↦ s.name = name with
      | none => spawnServers p all names backends cleanups
      | some srv => do
          match ← exposeFor p name with
          | .error e => failBuild cleanups (.wrap ("expose \"" ++ name ++ "\"") e)
          | .ok (_, true) => spawnServers p all names backends cleanups
          | .ok (expose, false) =>
              match ← spawnBackend srv (formatInt p.id) with
              | .error e => failBuild cleanups (.wrap ("spawn \"" ++ name ++ "\"") e)
              | .ok eb =>
                  spawnServers p all names (backends ++ [⟨srv.name, eb, expose⟩])
                    (cleanups ++ [eb])

/-- Spawn a profile's servers and build its aggregator. -/
def spawnProfile (p : Profile) : Code (Except Err ProfileRuntime) := do
  match ← sql (.getProfileServers p.id) with
  | .error e => return .error e
  | .ok names =>
      match ← sql .listServers with
      | .error e => return .error e
      | .ok all =>
          match ← spawnServers p all names [] [] with
          | .error e => return .error e
          | .ok (backends, cleanups) =>
              match ← newAggregator backends with
              | .error e => failBuild cleanups e
              | .ok tools => return .ok ⟨tools, cleanups⟩

/-! ## The calls of a build -/

/-- The calls a build of a profile makes: it reads what the profile lists and what its owner
has installed and turned off, spawns for the profile, and talks to its backends. -/
def BuildCall (p : Profile) : Call → Prop
  | .sql (.getProfileServers pid) => pid = p.id
  | .sql (.isUserInstalled userID _) | .sql (.listUserDisabledTools userID _) => userID = p.userID
  | .sql .listServers | .sql (.getManifest _) => True
  | .spawn _ tenant _ => tenant = formatInt p.id
  | .cleanup _ | .listTools _ => True
  | _ => False

section BuildCalls

variable (p : Profile)

theorem spawnBackend_buildCalls (srv : Server) :
    All (BuildCall p) (spawnBackend srv (formatInt p.id)) := by
  refine all_call.mpr ⟨trivial, ?_⟩
  intro r
  cases r with
  | ok rec =>
      dsimp only
      split
      · exact all_ret
      · exact all_call_iff.mpr rfl
  | error e =>
      dsimp only
      split
      · exact all_call_iff.mpr rfl
      · exact all_ret

theorem exposeFor_buildCalls (server : String) : All (BuildCall p) (exposeFor p server) := by
  refine all_call.mpr ⟨rfl, ?_⟩
  intro r
  split
  · exact all_ret
  · exact all_ret
  · refine all_call.mpr ⟨trivial, ?_⟩
    intro r
    split
    · split
      · exact all_ret
      · exact all_ret
    · exact all_call.mpr ⟨rfl, fun _ ↦ all_ret⟩

theorem failBuild_buildCalls {α : Type} (bs : List EgressBackend) (e : Err) :
    All (BuildCall p) (failBuild bs e : Code (Except Err α)) := by
  refine All.bind (All.bind (All.each (fun b ↦ ?_) bs) fun _ ↦ all_ret) fun _ ↦ all_ret
  exact all_call_iff.mpr trivial

theorem aggregate_buildCalls (backends : List Backend) (tools : List AggTool) :
    All (BuildCall p) (aggregate backends tools) := by
  induction backends generalizing tools with
  | nil => exact all_ret
  | cons b bs ih =>
      refine all_call.mpr ⟨trivial, fun r ↦ ?_⟩
      split
      · exact all_ret
      · exact ih _

theorem spawnServers_buildCalls (all : List Server) (names : List String)
    (backends : List Backend) (cleanups : List EgressBackend) :
    All (BuildCall p) (spawnServers p all names backends cleanups) := by
  induction names generalizing backends cleanups with
  | nil => exact all_ret
  | cons name names ih =>
      unfold spawnServers
      split
      · exact ih backends cleanups
      · refine (exposeFor_buildCalls p name).bind fun r ↦ ?_
        split
        · exact failBuild_buildCalls p _ _
        · exact ih backends cleanups
        · refine (spawnBackend_buildCalls p _).bind fun r ↦ ?_
          split
          · exact failBuild_buildCalls p _ _
          · exact ih _ _

theorem spawnProfile_buildCalls : All (BuildCall p) (spawnProfile p) := by
  refine all_call.mpr ⟨rfl, fun r ↦ ?_⟩
  split
  · exact all_ret
  · refine all_call.mpr ⟨trivial, fun r ↦ ?_⟩
    split
    · exact all_ret
    · refine (spawnServers_buildCalls p _ _ _ _).bind fun r ↦ ?_
      split
      · exact all_ret
      · rename_i backends cleanups
        refine All.bind (p := newAggregator backends) ?_ fun r ↦ ?_
        · unfold newAggregator
          split
          · exact all_ret
          · exact aggregate_buildCalls p _ _
        · split
          · exact failBuild_buildCalls p _ _
          · exact all_ret

end BuildCalls

/-! ## The host's methods -/

/-- One round of `getOrCreate`. -/
def getOrCreateBody (p : Profile) : Code (Except Err ProfileRuntime ⊕ Unit) := do
  match ← perform (.enter p.id) with
  | .closed => return .inl (.error errProfileHostClosed)
  | .warm rt => return .inl (.ok rt)
  | .inflight ch => do
      let _ ← perform (.await ch)
      return .inr ()
  | .claimed ch => do
      let built ← spawnProfile p
      let r ← perform (.commit p.id built)
      let _ ← perform (.closeChan ch)
      return .inl r

/-- `Invalidate`. -/
def invalidate (pid : Int64) : Code Unit := do
  match ← perform (.takeRuntime pid) with
  | none => return ()
  | some rt => runCleanups rt.cleanups

/-- `Close`. -/
def close : Code Unit := do
  let rts ← perform .takeAll
  runCleanups (rts.flatMap ProfileRuntime.cleanups)

/-- The token lookup that opens `serve`; `bearer` is the hash of the bearer token
when the request carries one. -/
def lookupProfile (slug : String) (bearer : Option String) : Code (Option Profile) := do
  match bearer with
  | none => return none
  | some hash =>
      match ← sql (.getProfileBySlugAndTokenHash slug hash) with
      | .error _ => return none
      | .ok p => return some p

end GigMcp.Gateway
