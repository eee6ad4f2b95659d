import GigMcp.Effect.Pool
import GigMcp.Netmgr.Addresses

/-!
# Spawning sandboxes

`SpawnEgressBackend` (`gateway/spawn.go`) and the cleanup it returns, as programs
over the calls that matter for source addresses: the sections of the allocator's and
the registry's locks.  Everything else a spawn does (pipes, the process, the veth pair,
the handshake, the MCP session) is a step of the host that may fail and leaves the two
alone.  File descriptors that are closed on the way are left out.
-/

namespace GigMcp.Gateway

open GigMcp.Effect GigMcp.Netmgr GigMcp.Proxy

/-- A step of the host. -/
inductive HostStep
  | checkBinaryArch (srv : Store.Server)
  | pipe (name : String)
  | stdoutPipe
  | stdinPipe
  | start
  | readChildPid
  | writeUIDGIDMaps
  | createVethToHost (sub : Subnet)
  | injectPeer (sub : Subnet)
  | writeInjectDone
  | awaitNetReady
  | connect
  | sandboxPayloadPID
  | closeSession
  | deleteVeth (sub : Subnet)
  | killAndWait

/-- A call of a spawn. -/
inductive SpawnCall
  | allocate
  | free (sub : Subnet)
  | bind (ip : UInt32) (id : Identity)
  | unbind (ip : UInt32)
  | host (h : HostStep)

/-- What a call answers. -/
@[reducible] def SpawnCall.Res : SpawnCall → Type
  | allocate => Except Err Subnet
  | host _ => Except Err Unit
  | _ => Unit

/-- The signature of a spawn. -/
@[reducible] def spawning : Signature := ⟨SpawnCall, SpawnCall.Res⟩

/-- Make a call. -/
@[reducible] def does (e : SpawnCall) : Prog spawning e.Res := Prog.call (S := spawning) e

/-- A step of the host, with what to release when it fails. -/
def attempt {α : Type} (h : HostStep) (msg : String) (release : Prog spawning Unit)
    (next : Prog spawning (Except Err α)) : Prog spawning (Except Err α) := do
  match ← does (.host h) with
  | .error e => do
      release
      return .error (.wrap msg e)
  | .ok _ => next

/-- `earlyCleanup`. -/
def earlyCleanup (sub : Subnet) : Prog spawning Unit := do
  does (.free sub)
  let _ ← does (.host .killAndWait)
  return ()

/-- What is released between the veth pair and the binding. -/
def vethCleanup (sub : Subnet) : Prog spawning Unit := do
  let _ ← does (.host (.deleteVeth sub))
  earlyCleanup sub

/-- What is released when the MCP session does not come up. -/
def connectCleanup (sub : Subnet) : Prog spawning Unit := do
  let _ ← does (.host (.deleteVeth sub))
  does (.unbind sub.sandboxIP)
  earlyCleanup sub

/-- `finalCleanup`. -/
def finalCleanup (sub : Subnet) : Prog spawning Unit := do
  let _ ← does (.host .closeSession)
  let _ ← does (.host (.deleteVeth sub))
  does (.unbind sub.sandboxIP)
  does (.free sub)
  let _ ← does (.host .killAndWait)
  return ()

/-- From the binding on. -/
def bindAndConnect (srv : Store.Server) (tenant : String) (sub : Subnet) :
    Prog spawning (Except Err Subnet) := do
  does (.bind sub.sandboxIP ⟨srv.name, tenant⟩)
  attempt .connect ("connect MCP session for \"" ++ srv.name ++ "\"") (connectCleanup sub) do
    let _ ← does (.host .sandboxPayloadPID)
    return .ok sub

/-- From the veth pair to the handshake. -/
def network (sub : Subnet) (next : Prog spawning (Except Err Subnet)) :
    Prog spawning (Except Err Subnet) :=
  attempt (.createVethToHost sub) "create veth" (earlyCleanup sub) <|
  attempt (.injectPeer sub) "inject peer" (vethCleanup sub) <|
  attempt .writeInjectDone "write inject-done" (vethCleanup sub) <|
  attempt .awaitNetReady "await net-ready" (vethCleanup sub) next

/-- The process: pipes, start, its pid and its id maps. -/
def process (sub : Subnet) (next : Prog spawning (Except Err Subnet)) :
    Prog spawning (Except Err Subnet) :=
  attempt (.pipe "inject-done") "pipe inject-done" (does (.free sub)) <|
  attempt (.pipe "net-ready") "pipe net-ready" (does (.free sub)) <|
  attempt (.pipe "info-fd") "pipe info-fd" (does (.free sub)) <|
  attempt (.pipe "userns-block") "pipe userns-block" (does (.free sub)) <|
  attempt .stdoutPipe "stdout pipe" (does (.free sub)) <|
  attempt .stdinPipe "stdin pipe" (does (.free sub)) <|
  attempt .start "start bwrap" (does (.free sub)) <|
  attempt .readChildPid "read child pid" (earlyCleanup sub) <|
  attempt .writeUIDGIDMaps "write uid/gid maps" (earlyCleanup sub) next

/-- `SpawnEgressBackend`; of the backend only the subnet its cleanup releases matters. -/
def spawnEgressBackend (srv : Store.Server) (tenant : String) :
    Prog spawning (Except Err Subnet) := do
  match ← does (.host (.checkBinaryArch srv)) with
  | .error e => return .error e
  | .ok _ =>
      match ← does .allocate with
      | .error e => return .error (.wrap "allocate subnet" e)
      | .ok sub => process sub (network sub (bindAndConnect srv tenant sub))

/-! ## Spawns side by side -/

/-- The allocator and the registry. -/
structure Net where
  alloc : Allocator
  reg : Proxy.Registry

def Net.fresh (base : UInt32) : Net := ⟨⟨base, ∅⟩, .fresh⟩

/-- What a call may answer and do, `Allocate` being called only where `room` permits. -/
def spawnSem (room : Allocator → Prop) : Sem spawning Net
  | .allocate, w, r, w' =>
      room w.alloc ∧ r = w.alloc.allocate.1 ∧ w' = { w with alloc := w.alloc.allocate.2 }
  | .free sub, w, _, w' => w' = { w with alloc := w.alloc.free sub }
  | .bind ip id, w, _, w' => w' = { w with reg := w.reg.bind ip id }
  | .unbind ip, w, _, w' => w' = { w with reg := w.reg.unbind ip }
  | .host _, w, _, w' => w' = w

/-- What a goroutine does with a sandbox: spawn it, and later clean it up. -/
inductive SandboxJob
  | spawn (srv : Store.Server) (tenant : String)
  | up (srv : Store.Server) (tenant : String) (sub : Subnet)

/-- The identity a sandbox is made for. -/
def SandboxJob.identity : SandboxJob → Identity
  | spawn srv tenant => ⟨srv.name, tenant⟩
  | up srv tenant _ => ⟨srv.name, tenant⟩

/-- A spawn that succeeds leaves a backend whose `Cleanup` may run once, at any time. -/
def SandboxJob.body : SandboxJob → Prog spawning (Unit ⊕ SandboxJob)
  | spawn srv tenant => do
      match ← spawnEgressBackend srv tenant with
      | .error _ => return .inl ()
      | .ok sub => return .inr (.up srv tenant sub)
  | up _ _ sub => do
      finalCleanup sub
      return .inl ()

/-- What a spawn has allocated and not freed, and whether it is bound. -/
structure Holding where
  held : Option Subnet
  bound : Bool
deriving DecidableEq

namespace Holding

def nothing : Holding := ⟨none, false⟩

/-- The record after a call. -/
def track : (e : SpawnCall) → Holding → e.Res → Holding
  | .allocate, g, .ok sub => { g with held := some sub }
  | .free _, g, _ => { g with held := none }
  | .bind .., g, _ => { g with bound := true }
  | .unbind _, g, _ => { g with bound := false }
  | _, g, _ => g

end Holding

/-- Any number of spawns and cleanups over one allocator and one registry. -/
def spawns (room : Allocator → Prop) :
    Effect.System spawning Unit SandboxJob Holding Net where
  sem := spawnSem room
  starts := fun j ↦ ∃ srv tenant, j = .spawn srv tenant
  body := SandboxJob.body
  init := fun _ ↦ .nothing
  track := Holding.track
  env := Eq

end GigMcp.Gateway
