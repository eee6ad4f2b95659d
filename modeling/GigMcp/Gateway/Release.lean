import GigMcp.Effect.Account
import GigMcp.Gateway.Spawn

/-!
# What a failed spawn releases

`SpawnEgressBackend` once more, with the resources it acquires on the way: the subnet, the ends of
the handshake pipes, the process, the veth pair and the binding.  `spawn_refines` says that it is
the spawn of `GigMcp.Gateway.Spawn` with these calls added.

From the start of the process until the handshake is over, the ends of two pipes that the gateway
keeps for itself are not among what `earlyCleanup` closes.  A spawn that fails elsewhere releases
everything once, and a spawn that fails there leaves them open.
-/

namespace GigMcp.Gateway.Fds

open GigMcp.Effect GigMcp.Netmgr GigMcp.Proxy

/-- The ends of the handshake pipes, as the source names them. -/
inductive Fd
  | r3
  | w3
  | r4
  | w4
  | rInfo
  | wInfo
  | rBlock
  | wBlock
deriving DecidableEq

/-- What a spawn asks of the host, which may fail. -/
inductive HostCall
  | checkBinaryArch (srv : Store.Server)
  | pipe (name : String) (r w : Fd)
  | stdoutPipe
  | stdinPipe
  | start
  | /-- The JSON that bwrap writes to its info descriptor. -/
    decodeInfo
  | writeUIDGIDMaps
  | linkAdd (sub : Subnet)
  | addrAdd (sub : Subnet)
  | linkSetUp (sub : Subnet)
  | injectPeer (sub : Subnet)
  | writeInjectDone
  | readNetReady
  | connect

/-- A call of a spawn. -/
inductive SpawnOp
  | host (h : HostCall)
  | allocate
  | free (sub : Subnet)
  | close (fd : Fd)
  | linkDel (sub : Subnet)
  | deleteVeth (sub : Subnet)
  | bind (ip : UInt32) (id : Identity)
  | unbind (ip : UInt32)
  | sandboxPayloadPID
  | killAndWait

/-- What a call answers. -/
@[reducible] def SpawnOp.Res : SpawnOp → Type
  | host _ => Except Err Unit
  | allocate => Except Err Subnet
  | _ => Unit

@[reducible] def spawningFds : Signature := ⟨SpawnOp, SpawnOp.Res⟩

/-- Make a call. -/
@[reducible] def does (e : SpawnOp) : Prog spawningFds e.Res := Prog.call (S := spawningFds) e

/-- Ask the host. -/
@[reducible] def asks (h : HostCall) : Prog spawningFds (Except Err Unit) := does (.host h)

/-- A step, with what to release when it fails. -/
def attempt {α : Type} (step : Prog spawningFds (Except Err Unit)) (msg : String)
    (release : Prog spawningFds Unit) (next : Prog spawningFds (Except Err α)) :
    Prog spawningFds (Except Err α) := do
  match ← step with
  | .error e => do
      release
      return .error (.wrap msg e)
  | .ok _ => next

def closeAll : List Fd → Prog spawningFds Unit
  | [] => return ()
  | fd :: fds => do
      does (.close fd)
      closeAll fds

/-- `readChildPid`; the deferred `Close` runs whatever was read. -/
def readChildPid : Prog spawningFds (Except Err Unit) := do
  let r ← asks .decodeInfo
  does (.close .rInfo)
  return r

/-- `CreateVethToHost`. -/
def createVethToHost (sub : Subnet) : Prog spawningFds (Except Err Unit) := do
  match ← asks (.linkAdd sub) with
  | .error e => return .error (.wrap "link add" e)
  | .ok _ =>
      match ← asks (.addrAdd sub) with
      | .error e => do
          does (.linkDel sub)
          return .error (.wrap "addr add host" e)
      | .ok _ =>
          match ← asks (.linkSetUp sub) with
          | .error e => do
              does (.linkDel sub)
              return .error (.wrap "link up host" e)
          | .ok _ => return .ok ()

/-- `earlyCleanup`; `wBlock` is nil once the child has been unblocked. -/
def earlyCleanup (wBlock : Option Fd) (sub : Subnet) : Prog spawningFds Unit := do
  closeAll wBlock.toList
  does (.free sub)
  does .killAndWait

/-- What is released between the veth pair and the binding. -/
def vethCleanup (sub : Subnet) : Prog spawningFds Unit := do
  does (.deleteVeth sub)
  earlyCleanup none sub

/-- What is released when the MCP session does not come up. -/
def connectCleanup (sub : Subnet) : Prog spawningFds Unit := do
  does (.deleteVeth sub)
  does (.unbind sub.sandboxIP)
  earlyCleanup none sub

/-- What is released before the process runs. -/
def pipesCleanup (fds : List Fd) (sub : Subnet) : Prog spawningFds Unit := do
  closeAll fds
  does (.free sub)

/-- From the binding on. -/
def bindAndConnect (srv : Store.Server) (tenant : String) (sub : Subnet) :
    Prog spawningFds (Except Err Subnet) := do
  does (.bind sub.sandboxIP ⟨srv.name, tenant⟩)
  attempt (asks .connect) ("connect MCP session for \"" ++ srv.name ++ "\"") (connectCleanup sub) do
    does .sandboxPayloadPID
    return .ok sub

/-- From the veth pair to the handshake. -/
def network (sub : Subnet) (next : Prog spawningFds (Except Err Subnet)) :
    Prog spawningFds (Except Err Subnet) :=
  attempt (createVethToHost sub) "create veth" (earlyCleanup none sub) <|
  attempt (asks (.injectPeer sub)) "inject peer" (vethCleanup sub) <|
  attempt (asks .writeInjectDone) "write inject-done" (vethCleanup sub) do
    does (.close .w3)
    attempt (asks .readNetReady) "await net-ready" (vethCleanup sub) do
      does (.close .r4)
      next

/-- The process once it runs: its pid and its id maps. -/
def started (sub : Subnet) (next : Prog spawningFds (Except Err Subnet)) :
    Prog spawningFds (Except Err Subnet) := do
  closeAll [.r3, .w4, .wInfo, .rBlock]
  attempt readChildPid "read child pid" (earlyCleanup (some .wBlock) sub) <|
    attempt (asks .writeUIDGIDMaps) "write uid/gid maps" (earlyCleanup (some .wBlock) sub) do
      does (.close .wBlock)
      next

/-- The pipes and the start of the process. -/
def process (sub : Subnet) (next : Prog spawningFds (Except Err Subnet)) :
    Prog spawningFds (Except Err Subnet) :=
  attempt (asks (.pipe "inject-done" .r3 .w3)) "pipe inject-done" (does (.free sub)) <|
  attempt (asks (.pipe "net-ready" .r4 .w4)) "pipe net-ready" (pipesCleanup [.r3, .w3] sub) <|
  attempt (asks (.pipe "info-fd" .rInfo .wInfo)) "pipe info-fd"
    (pipesCleanup [.r3, .w3, .r4, .w4] sub) <|
  attempt (asks (.pipe "userns-block" .rBlock .wBlock)) "pipe userns-block"
    (pipesCleanup [.r3, .w3, .r4, .w4, .rInfo, .wInfo] sub) <|
  attempt (asks .stdoutPipe) "stdout pipe"
    (pipesCleanup [.r3, .w3, .r4, .w4, .rInfo, .wInfo, .rBlock, .wBlock] sub) <|
  attempt (asks .stdinPipe) "stdin pipe"
    (pipesCleanup [.r3, .w3, .r4, .w4, .rInfo, .wInfo, .rBlock, .wBlock] sub) <|
  attempt (asks .start) "start bwrap"
    (pipesCleanup [.r3, .w3, .r4, .w4, .rInfo, .wInfo, .rBlock, .wBlock] sub) next

/-- `SpawnEgressBackend`. -/
def spawnEgressBackend (srv : Store.Server) (tenant : String) :
    Prog spawningFds (Except Err Subnet) := do
  match ← asks (.checkBinaryArch srv) with
  | .error e => return .error e
  | .ok _ =>
      match ← does .allocate with
      | .error e => return .error (.wrap "allocate subnet" e)
      | .ok sub => process sub (started sub (network sub (bindAndConnect srv tenant sub)))

/-! ## The same spawn -/

/-- What a call may answer and do to the allocator and the registry. -/
def spawnSem (room : Allocator → Prop) : Sem spawningFds Net
  | .allocate, n, r, n' =>
      room n.alloc ∧ r = n.alloc.allocate.1 ∧ n' = { n with alloc := n.alloc.allocate.2 }
  | .free sub, n, _, n' => n' = { n with alloc := n.alloc.free sub }
  | .bind ip id, n, _, n' => n' = { n with reg := n.reg.bind ip id }
  | .unbind ip, n, _, n' => n' = { n with reg := n.reg.unbind ip }
  | _, n, _, n' => n' = n

/-- What one program does to the allocator and the registry, with the result it has, another one
may do too. -/
def Refines {α : Type} (p : Prog spawningFds α) (q : Prog spawning α) : Prop :=
  ∀ room n a n', Exec (spawnSem room) p n a n' → Exec (Gateway.spawnSem room) q n a n'

/-- A program that leaves the allocator and the registry alone. -/
def Idle {α : Type} (p : Prog spawningFds α) : Prop :=
  ∀ room n a n', Exec (spawnSem room) p n a n' → n' = n

section Refines

variable {α β : Type}

theorem Refines.ret (a : α) : Refines (Prog.ret a) (Prog.ret a) := fun _ _ _ _ h ↦ h

theorem Refines.bind {p : Prog spawningFds α} {q : Prog spawning α} {f : α → Prog spawningFds β}
    {g : α → Prog spawning β} (hp : Refines p q) (hf : ∀ a, Refines (f a) (g a)) :
    Refines (p >>= f) (q >>= g) := by
  intro room n b n' hx
  obtain ⟨a, n₁, hx₁, hx₂⟩ := exec_bind.mp hx
  exact exec_bind.mpr ⟨a, n₁, hp room n a n₁ hx₁, hf a room n₁ b n' hx₂⟩

/-- What is idle can be left out. -/
theorem Refines.skip {p : Prog spawningFds α} {f : α → Prog spawningFds β} {q : Prog spawning β}
    (hp : Idle p) (hf : ∀ a, Refines (f a) q) : Refines (p >>= f) q := by
  intro room n b n' hx
  obtain ⟨a, n₁, hx₁, hx₂⟩ := exec_bind.mp hx
  obtain rfl := hp room n a n₁ hx₁
  exact hf a room n₁ b n' hx₂

/-- An idle program is a step of the host. -/
theorem Idle.host {p : Prog spawningFds (Except Err Unit)} (hp : Idle p) (h : HostStep) :
    Refines p (Gateway.does (.host h)) := by
  intro room n r n' hx
  exact exec_call_iff.mpr (hp room n r n' hx)

/-- So is one whose result does not matter. -/
theorem Idle.host_bind {p : Prog spawningFds α} (hp : Idle p) (h : HostStep)
    {f : α → Prog spawningFds β} {q : Prog spawning β} (hf : ∀ a, Refines (f a) q) :
    Refines (p >>= f) (do let _ ← Gateway.does (.host h); q) := by
  intro room n b n' hx
  obtain ⟨a, n₁, hx₁, hx₂⟩ := exec_bind.mp hx
  obtain rfl := hp room n a n₁ hx₁
  exact exec_call.mpr ⟨.ok (), n₁, rfl, hf a room n₁ b n' hx₂⟩

theorem Refines.attempt {step : Prog spawningFds (Except Err Unit)} (hstep : Idle step)
    (h : HostStep) (msg : String) {release : Prog spawningFds Unit} {release' : Prog spawning Unit}
    (hrelease : Refines release release') {next : Prog spawningFds (Except Err α)}
    {next' : Prog spawning (Except Err α)} (hnext : Refines next next') :
    Refines (attempt step msg release next) (Gateway.attempt h msg release' next') := by
  refine (hstep.host h).bind fun r ↦ ?_
  cases r with
  | error e => exact hrelease.bind fun _ ↦ .ret _
  | ok _ => exact hnext

theorem idle_bind {p : Prog spawningFds α} {f : α → Prog spawningFds β} (hp : Idle p)
    (hf : ∀ a, Idle (f a)) : Idle (p >>= f) := by
  intro room n b n' hx
  obtain ⟨a, n₁, hx₁, hx₂⟩ := exec_bind.mp hx
  rw [hf a room n₁ b n' hx₂, hp room n a n₁ hx₁]

theorem idle_ret (a : α) : Idle (Prog.ret a) := fun _ _ _ _ h ↦ h.2

end Refines

theorem idle_closeAll (fds : List Fd) : Idle (closeAll fds) := by
  induction fds with
  | nil => exact idle_ret ()
  | cons fd fds ih => exact idle_bind (fun _ _ _ _ hx ↦ exec_call_iff.mp hx) fun _ ↦ ih

theorem idle_readChildPid : Idle readChildPid := by
  refine idle_bind (fun _ _ _ _ hx ↦ exec_call_iff.mp hx) fun r ↦ ?_
  exact idle_bind (fun _ _ _ _ hx ↦ exec_call_iff.mp hx) fun _ ↦ idle_ret r

theorem idle_createVethToHost (sub : Subnet) : Idle (createVethToHost sub) := by
  have hdel (e : Err) : Idle (do does (.linkDel sub); return (.error e : Except Err Unit)) :=
    idle_bind (fun _ _ _ _ hx ↦ exec_call_iff.mp hx) fun _ ↦ idle_ret _
  refine idle_bind (fun _ _ _ _ hx ↦ exec_call_iff.mp hx) fun r ↦ ?_
  cases r with
  | error e => exact idle_ret _
  | ok _ =>
      refine idle_bind (fun _ _ _ _ hx ↦ exec_call_iff.mp hx) fun r ↦ ?_
      cases r with
      | error e => exact hdel _
      | ok _ =>
          refine idle_bind (fun _ _ _ _ hx ↦ exec_call_iff.mp hx) fun r ↦ ?_
          cases r with
          | error e => exact hdel _
          | ok _ => exact idle_ret _

section Parts

variable (sub : Subnet)

theorem free_refines : Refines (does (.free sub)) (Gateway.does (.free sub)) :=
  fun _ _ _ _ hx ↦ exec_call_iff.mpr (exec_call_iff.mp hx)

theorem earlyCleanup_refines (wBlock : Option Fd) :
    Refines (earlyCleanup wBlock sub) (Gateway.earlyCleanup sub) := by
  refine .skip (idle_closeAll _) fun _ ↦ (free_refines sub).bind fun _ ↦ ?_
  have hkill : Idle (does .killAndWait) := fun _ _ _ _ hx ↦ exec_call_iff.mp hx
  exact hkill.host_bind .killAndWait (f := Prog.ret) fun _ ↦ .ret _

theorem pipesCleanup_refines (fds : List Fd) :
    Refines (pipesCleanup fds sub) (Gateway.does (.free sub)) :=
  .skip (idle_closeAll fds) fun _ ↦ free_refines sub

theorem idle_deleteVeth : Idle (does (.deleteVeth sub)) := fun _ _ _ _ hx ↦ exec_call_iff.mp hx

theorem vethCleanup_refines : Refines (vethCleanup sub) (Gateway.vethCleanup sub) :=
  (idle_deleteVeth sub).host_bind (.deleteVeth sub) fun _ ↦ earlyCleanup_refines sub none

theorem connectCleanup_refines : Refines (connectCleanup sub) (Gateway.connectCleanup sub) := by
  refine (idle_deleteVeth sub).host_bind (.deleteVeth sub) fun _ ↦ ?_
  have hunbind : Refines (does (.unbind sub.sandboxIP)) (Gateway.does (.unbind sub.sandboxIP)) :=
    fun _ _ _ _ hx ↦ exec_call_iff.mpr (exec_call_iff.mp hx)
  exact hunbind.bind fun _ ↦ earlyCleanup_refines sub none

theorem bindAndConnect_refines (srv : Store.Server) (tenant : String) :
    Refines (bindAndConnect srv tenant sub) (Gateway.bindAndConnect srv tenant sub) := by
  have hbind : Refines (does (.bind sub.sandboxIP ⟨srv.name, tenant⟩))
      (Gateway.does (.bind sub.sandboxIP ⟨srv.name, tenant⟩)) :=
    fun _ _ _ _ hx ↦ exec_call_iff.mpr (exec_call_iff.mp hx)
  have hpid : Idle (does .sandboxPayloadPID) := fun _ _ _ _ hx ↦ exec_call_iff.mp hx
  refine hbind.bind fun _ ↦ .attempt (fun _ _ _ _ hx ↦ exec_call_iff.mp hx) _ _
    (connectCleanup_refines sub) ?_
  exact hpid.host_bind .sandboxPayloadPID fun _ ↦ .ret _

variable {next : Prog spawningFds (Except Err Subnet)} {next' : Prog spawning (Except Err Subnet)}

theorem network_refines (hnext : Refines next next') :
    Refines (network sub next) (Gateway.network sub next') := by
  have hclose (fd : Fd) : Idle (does (.close fd)) := fun _ _ _ _ hx ↦ exec_call_iff.mp hx
  refine .attempt (idle_createVethToHost sub) _ _ (earlyCleanup_refines sub none) ?_
  refine .attempt (fun _ _ _ _ hx ↦ exec_call_iff.mp hx) _ _ (vethCleanup_refines sub) ?_
  refine .attempt (fun _ _ _ _ hx ↦ exec_call_iff.mp hx) _ _ (vethCleanup_refines sub) ?_
  refine .skip (hclose .w3) fun _ ↦ ?_
  refine .attempt (fun _ _ _ _ hx ↦ exec_call_iff.mp hx) _ _ (vethCleanup_refines sub) ?_
  exact .skip (hclose .r4) fun _ ↦ hnext

theorem process_refines (hnext : Refines next next') :
    Refines (process sub (started sub next)) (Gateway.process sub next') := by
  refine .attempt (fun _ _ _ _ hx ↦ exec_call_iff.mp hx) _ _ (free_refines sub) ?_
  refine .attempt (fun _ _ _ _ hx ↦ exec_call_iff.mp hx) _ _ (pipesCleanup_refines sub _) ?_
  refine .attempt (fun _ _ _ _ hx ↦ exec_call_iff.mp hx) _ _ (pipesCleanup_refines sub _) ?_
  refine .attempt (fun _ _ _ _ hx ↦ exec_call_iff.mp hx) _ _ (pipesCleanup_refines sub _) ?_
  refine .attempt (fun _ _ _ _ hx ↦ exec_call_iff.mp hx) _ _ (pipesCleanup_refines sub _) ?_
  refine .attempt (fun _ _ _ _ hx ↦ exec_call_iff.mp hx) _ _ (pipesCleanup_refines sub _) ?_
  refine .attempt (fun _ _ _ _ hx ↦ exec_call_iff.mp hx) _ _ (pipesCleanup_refines sub _) ?_
  refine .skip (idle_closeAll _) fun _ ↦ ?_
  refine .attempt idle_readChildPid _ _ (earlyCleanup_refines sub _) ?_
  refine .attempt (fun _ _ _ _ hx ↦ exec_call_iff.mp hx) _ _ (earlyCleanup_refines sub _) ?_
  exact .skip (fun _ _ _ _ hx ↦ exec_call_iff.mp hx) fun _ ↦ hnext

end Parts

/-- The spawn with its descriptors does to the allocator and the registry what the spawn without
them does. -/
theorem spawn_refines (srv : Store.Server) (tenant : String) :
    Refines (spawnEgressBackend srv tenant) (Gateway.spawnEgressBackend srv tenant) := by
  have harch : Idle (asks (.checkBinaryArch srv)) := fun _ _ _ _ hx ↦ exec_call_iff.mp hx
  have hallocate : Refines (does .allocate) (Gateway.does .allocate) :=
    fun _ _ _ _ hx ↦ exec_call_iff.mpr (exec_call_iff.mp hx)
  refine (harch.host (.checkBinaryArch srv)).bind fun r ↦ ?_
  cases r with
  | error e => exact .ret _
  | ok _ =>
      refine hallocate.bind fun r ↦ ?_
      cases r with
      | error e => exact .ret _
      | ok sub =>
          exact process_refines sub (network_refines sub (bindAndConnect_refines sub srv tenant))

/-! ## What it acquires and releases -/

/-- What a spawn acquires. -/
inductive Resource
  | subnet (sub : Subnet)
  | fd (fd : Fd)
  | process
  | veth (sub : Subnet)
  | binding (ip : UInt32)
deriving DecidableEq

/-- What the host gives when it does as asked. -/
@[simp] def HostCall.gives : HostCall → List Resource
  | pipe _ r w => [.fd r, .fd w]
  | start => [.process]
  | linkAdd sub => [.veth sub]
  | _ => []

/-- What a call that answers this has acquired. -/
def acquires : (e : SpawnOp) → e.Res → List Resource
  | .host h, .ok _ => h.gives
  | .allocate, .ok sub => [.subnet sub]
  | .bind ip _, _ => [.binding ip]
  | _, _ => []

/-- What a call releases.  `LinkDel` and `DeleteVeth` report nothing back to the spawn. -/
def releases : SpawnOp → Option Resource
  | .free sub => some (.subnet sub)
  | .close fd => some (.fd fd)
  | .killAndWait => some .process
  | .linkDel sub | .deleteVeth sub => some (.veth sub)
  | .unbind ip => some (.binding ip)
  | _ => none

/-- The steps between the start of the process and the end of the handshake. -/
@[simp] def HostCall.inHandshake : HostCall → Bool
  | decodeInfo | writeUIDGIDMaps | linkAdd _ | addrAdd _ | linkSetUp _ | injectPeer _
  | writeInjectDone | readNetReady => true
  | _ => false

/-- Such a step has failed. -/
def failsInHandshake : (e : SpawnOp) → e.Res → Bool
  | .host h, .error _ => h.inHandshake
  | _, _ => false

/-- The account of a spawn, and whether it failed in the handshake. -/
structure Books where
  account : Account Resource
  late : Bool

namespace Books

def track (e : SpawnOp) (g : Books) (r : e.Res) : Books where
  account := Account.track (S := spawningFds) acquires releases e g.account r
  late := g.late || failsInHandshake e r

def Permits (e : SpawnOp) (g : Books) : Prop :=
  Account.Permits (S := spawningFds) acquires releases e g.account

/-- A spawn that ends without its handshake having failed holds nothing, and one whose handshake
failed holds something. -/
def Settled (g : Books) : Prop := g.account.held = [] ↔ g.late = false

/-- What is left of a spawn that failed. -/
def Ends : Except Err Subnet → Books → Prop
  | .error _, g => g.Settled
  | .ok _, _ => True

variable {got held : List Resource} {late : Bool}

/-- A program conforms, and ends with these books. -/
abbrev Turns {α : Type} (p : Prog spawningFds α) (g g' : Books) : Prop :=
  Conforms (S := spawningFds) track Permits (fun _ b ↦ b = g') p g

/-- A call that acquires nothing and releases what is held. -/
theorem turns_call {e : SpawnOp} (hheld : ∀ x, releases e = some x → x ∈ held)
    (hquiet : ∀ r, acquires e r = [] ∧ failsInHandshake e r = false) :
    Turns (does e) ⟨⟨got, held⟩, late⟩
      ⟨⟨got, (releases e).elim held held.erase⟩, late⟩ := by
  refine ⟨⟨hheld, ?_, ?_⟩, ?_⟩
  · intro r
    rw [(hquiet r).1]
    exact List.nodup_nil
  · intro r x hx
    rw [(hquiet r).1] at hx
    cases hx
  · intro r
    simp only [conforms_ret, track, Account.track, (hquiet r).1, (hquiet r).2, List.nil_append,
      Bool.or_false]
    cases releases e <;> rfl

theorem turns_release {e : SpawnOp} {x : Resource} (he : releases e = some x) (hx : x ∈ held)
    (hquiet : ∀ r, acquires e r = [] ∧ failsInHandshake e r = false) :
    Turns (does e) ⟨⟨got, held⟩, late⟩ ⟨⟨got, held.erase x⟩, late⟩ := by
  have hcall : Turns (does e) ⟨⟨got, held⟩, late⟩
      ⟨⟨got, (releases e).elim held held.erase⟩, late⟩ :=
    turns_call (fun y hy ↦ Option.some.inj (he.symm.trans hy) ▸ hx) hquiet
  rwa [he] at hcall

theorem Turns.bind {α β : Type} {p : Prog spawningFds α} {f : α → Prog spawningFds β}
    {fin : β → Books → Prop} {g g' : Books} (hp : Turns p g g')
    (hf : ∀ a, Conforms (S := spawningFds) track Permits fin (f a) g') :
    Conforms (S := spawningFds) track Permits fin (p >>= f) g := by
  refine Conforms.bind hp ?_
  rintro a _ rfl
  exact hf a

theorem turns_bind {ip : UInt32} (id : Identity) (hnew : .binding ip ∉ got) :
    Turns (does (.bind ip id)) ⟨⟨got, held⟩, late⟩
      ⟨⟨.binding ip :: got, .binding ip :: held⟩, late⟩ := by
  refine ⟨⟨?_, ?_, ?_⟩, fun _ ↦ ?_⟩
  · rintro x ⟨⟩
  · exact fun _ ↦ List.nodup_singleton _
  · rintro _ x hx
    rw [List.mem_singleton.mp hx]
    exact hnew
  · simp only [conforms_ret, track, Bool.or_false, failsInHandshake]
    rfl

theorem turns_close {fd : Fd} (hfd : .fd fd ∈ held) :
    Turns (does (.close fd)) ⟨⟨got, held⟩, late⟩ ⟨⟨got, held.erase (.fd fd)⟩, late⟩ :=
  turns_release rfl hfd fun _ ↦ ⟨rfl, rfl⟩

theorem turns_closeAll {fds : List Fd} (hnodup : fds.Nodup) (hheld : ∀ fd ∈ fds, .fd fd ∈ held) :
    Turns (closeAll fds) ⟨⟨got, held⟩, late⟩ ⟨⟨got, held.diff (fds.map .fd)⟩, late⟩ := by
  induction fds generalizing held with
  | nil => rfl
  | cons fd fds ih =>
      obtain ⟨hfd, hnodup⟩ := List.nodup_cons.mp hnodup
      refine (turns_close (hheld fd List.mem_cons_self)).bind fun _ ↦ ?_
      rw [List.map_cons, List.diff_cons]
      refine ih hnodup fun fd' hfd' ↦ ?_
      have hne : Resource.fd fd' ≠ .fd fd := by
        rintro ⟨⟩
        exact hfd hfd'
      exact (List.mem_erase_of_ne hne).mpr (hheld fd' (List.mem_cons_of_mem _ hfd'))

/-! ### The cleanups -/

section Cleanup

variable {sub : Subnet}

theorem turns_free (hsub : .subnet sub ∈ held) :
    Turns (does (.free sub)) ⟨⟨got, held⟩, late⟩ ⟨⟨got, held.erase (.subnet sub)⟩, late⟩ :=
  turns_release rfl hsub fun _ ↦ ⟨rfl, rfl⟩

theorem mem_diff_fds {x : Resource} {fds : List Fd} (hx : x ∈ held) (hfd : ∀ fd, x ≠ .fd fd) :
    x ∈ held.diff (fds.map .fd) := by
  refine List.mem_diff_of_mem hx fun hmem ↦ ?_
  obtain ⟨fd, -, rfl⟩ := List.mem_map.mp hmem
  exact hfd fd rfl

theorem turns_pipesCleanup {fds : List Fd} (hnodup : fds.Nodup)
    (hheld : ∀ fd ∈ fds, .fd fd ∈ held) (hsub : .subnet sub ∈ held) :
    Turns (pipesCleanup fds sub) ⟨⟨got, held⟩, late⟩
      ⟨⟨got, (held.diff (fds.map .fd)).erase (.subnet sub)⟩, late⟩ := by
  refine (turns_closeAll hnodup hheld).bind fun _ ↦ turns_free ?_
  exact mem_diff_fds hsub fun _ h ↦ by cases h

theorem turns_earlyCleanup (wBlock : Option Fd) (hheld : ∀ fd ∈ wBlock.toList, .fd fd ∈ held)
    (hsub : .subnet sub ∈ held) (hprocess : .process ∈ held) :
    Turns (earlyCleanup wBlock sub) ⟨⟨got, held⟩, late⟩
      ⟨⟨got, ((held.diff (wBlock.toList.map .fd)).erase (.subnet sub)).erase .process⟩, late⟩ := by
  have hnodup : wBlock.toList.Nodup := by cases wBlock <;> simp
  refine (turns_closeAll hnodup hheld).bind fun _ ↦ ?_
  refine (turns_free (mem_diff_fds hsub fun _ h ↦ by cases h)).bind fun _ ↦ ?_
  refine turns_release rfl ((List.mem_erase_of_ne ?_).mpr ?_) fun _ ↦ ⟨rfl, rfl⟩
  · rintro ⟨⟩
  · exact mem_diff_fds hprocess fun _ h ↦ by cases h

theorem turns_vethCleanup (hveth : .veth sub ∈ held) (hsub : .subnet sub ∈ held)
    (hprocess : .process ∈ held) :
    Turns (vethCleanup sub) ⟨⟨got, held⟩, late⟩
      ⟨⟨got, ((held.erase (.veth sub)).erase (.subnet sub)).erase .process⟩, late⟩ := by
  refine (turns_release rfl hveth fun _ ↦ ⟨rfl, rfl⟩).bind fun _ ↦ turns_earlyCleanup none ?_ ?_ ?_
  · intro fd hfd
    cases hfd
  · exact (List.mem_erase_of_ne (by rintro ⟨⟩)).mpr hsub
  · exact (List.mem_erase_of_ne (by rintro ⟨⟩)).mpr hprocess

theorem turns_connectCleanup (hveth : .veth sub ∈ held) (hbinding : .binding sub.sandboxIP ∈ held)
    (hsub : .subnet sub ∈ held) (hprocess : .process ∈ held) :
    Turns (connectCleanup sub) ⟨⟨got, held⟩, late⟩
      ⟨⟨got, (((held.erase (.veth sub)).erase (.binding sub.sandboxIP)).erase (.subnet sub)).erase
        .process⟩, late⟩ := by
  refine (turns_release rfl hveth fun _ ↦ ⟨rfl, rfl⟩).bind fun _ ↦ ?_
  have hbinding := (List.mem_erase_of_ne (b := .veth sub) (by rintro ⟨⟩)).mpr hbinding
  refine (turns_release rfl hbinding fun _ ↦ ⟨rfl, rfl⟩).bind fun _ ↦ ?_
  refine turns_earlyCleanup none ?_ ?_ ?_
  · intro fd hfd
    cases hfd
  · refine (List.mem_erase_of_ne (by rintro ⟨⟩)).mpr ?_
    exact (List.mem_erase_of_ne (by rintro ⟨⟩)).mpr hsub
  · refine (List.mem_erase_of_ne (by rintro ⟨⟩)).mpr ?_
    exact (List.mem_erase_of_ne (by rintro ⟨⟩)).mpr hprocess

end Cleanup

/-! ### The steps -/

/-- A step conforms.  If it fails it leaves `held`, and if not it leaves these books. -/
def Tries (step : Prog spawningFds (Except Err Unit)) (g : Books) (held : List Resource)
    (late : Bool) (good : Books) : Prop :=
  Conforms (S := spawningFds) track Permits (fun r b ↦ match r with
    | .error _ => ∃ got, b = ⟨⟨got, held⟩, late⟩
    | .ok _ => b = good) step g

/-- The rule of a step with its cleanup. -/
theorem conforms_attempt {step : Prog spawningFds (Except Err Unit)} {msg : String}
    {release : Prog spawningFds Unit} {next : Prog spawningFds (Except Err Subnet)}
    {g good : Books} {held left : List Resource} {late : Bool} (hstep : Tries step g held late good)
    (hrelease : ∀ got, Turns release ⟨⟨got, held⟩, late⟩ ⟨⟨got, left⟩, late⟩)
    (hleft : left = [] ↔ late = false) (hnext : Conforms track Permits Ends next good) :
    Conforms (S := spawningFds) track Permits Ends (attempt step msg release next) g := by
  refine Conforms.bind hstep fun r b hb ↦ ?_
  cases r with
  | error e =>
      obtain ⟨got, rfl⟩ := hb
      refine Conforms.bind (hrelease got) ?_
      rintro _ _ rfl
      exact hleft
  | ok _ =>
      obtain rfl := hb
      exact hnext

/-- A step that is asked of the host. -/
theorem tries_asks {h : HostCall} (hnodup : h.gives.Nodup) (hnew : ∀ x ∈ h.gives, x ∉ got) :
    Tries (asks h) ⟨⟨got, held⟩, false⟩ held h.inHandshake
      ⟨⟨h.gives ++ got, h.gives ++ held⟩, false⟩ := by
  refine ⟨⟨?_, ?_, ?_⟩, ?_⟩
  · rintro x ⟨⟩
  · rintro (_ | _)
    · exact List.nodup_nil
    · exact hnodup
  · rintro (_ | _) x hx
    · cases hx
    · exact hnew x hx
  · rintro (_ | _)
    · exact ⟨got, rfl⟩
    · rfl

/-- One that gives nothing. -/
theorem tries_quiet {h : HostCall} (hgives : h.gives = []) :
    Tries (asks h) ⟨⟨got, held⟩, false⟩ held h.inHandshake ⟨⟨got, held⟩, false⟩ := by
  have hnew : ∀ x ∈ h.gives, x ∉ got := by
    intro x hx
    rw [hgives] at hx
    cases hx
  have hasks : Tries (asks h) ⟨⟨got, held⟩, false⟩ held h.inHandshake
      ⟨⟨h.gives ++ got, h.gives ++ held⟩, false⟩ := tries_asks (hgives ▸ List.nodup_nil) hnew
  rwa [hgives] at hasks

section Stages

variable {sub : Subnet} {next : Prog spawningFds (Except Err Subnet)}

theorem bindAndConnect_conforms (srv : Store.Server) (tenant : String)
    (hnew : .binding sub.sandboxIP ∉ got) :
    Conforms (S := spawningFds) track Permits Ends (bindAndConnect srv tenant sub)
      ⟨⟨got, [.veth sub, .process, .subnet sub]⟩, false⟩ := by
  refine (turns_bind _ hnew).bind fun _ ↦ ?_
  refine conforms_attempt (tries_quiet rfl) (fun _ ↦ turns_connectCleanup ?_ ?_ ?_ ?_) ?_ ?_
  any_goals simp
  exact (turns_call (fun x hx ↦ by cases hx) fun _ ↦ ⟨rfl, rfl⟩).bind fun _ ↦ trivial

/-- The descriptor of the pid is closed in any case. -/
theorem readChildPid_tries :
    Tries readChildPid
      ⟨⟨got, [.process, .fd .wBlock, .fd .rInfo, .fd .r4, .fd .w3, .subnet sub]⟩, false⟩
      [.process, .fd .wBlock, .fd .r4, .fd .w3, .subnet sub] true
      ⟨⟨got, [.process, .fd .wBlock, .fd .r4, .fd .w3, .subnet sub]⟩, false⟩ := by
  refine Conforms.bind (tries_quiet rfl) fun r b hb ↦ ?_
  cases r with
  | error _ =>
      obtain ⟨got, rfl⟩ := hb
      exact Turns.bind (turns_close (by simp)) fun _ ↦ ⟨got, rfl⟩
  | ok _ =>
      obtain rfl := hb
      exact Turns.bind (turns_close (by simp)) fun _ ↦ rfl

/-- A veth pair that could not be set up is gone again. -/
theorem createVethToHost_tries (hnew : .veth sub ∉ got) :
    Tries (createVethToHost sub) ⟨⟨got, held⟩, false⟩ held true
      ⟨⟨.veth sub :: got, .veth sub :: held⟩, false⟩ := by
  have hdel (e : Err) (got : List Resource) (good : Books) :
      Tries (do does (.linkDel sub); return .error e) ⟨⟨got, .veth sub :: held⟩, true⟩ held true
        good := by
    refine (turns_release rfl List.mem_cons_self fun _ ↦ ⟨rfl, rfl⟩).bind fun _ ↦ ⟨got, ?_⟩
    rw [List.erase_cons_head]
  have hadd : Tries (asks (.linkAdd sub)) ⟨⟨got, held⟩, false⟩ held true
      ⟨⟨.veth sub :: got, .veth sub :: held⟩, false⟩ :=
    tries_asks (List.nodup_singleton _) fun x hx ↦ by rwa [List.mem_singleton.mp hx]
  refine Conforms.bind hadd fun r b hb ↦ ?_
  cases r with
  | error _ => exact hb
  | ok _ =>
      obtain rfl := hb
      refine Conforms.bind (tries_quiet rfl) fun r b hb ↦ ?_
      cases r with
      | error _ =>
          obtain ⟨got, rfl⟩ := hb
          exact hdel _ _ _
      | ok _ =>
          obtain rfl := hb
          refine Conforms.bind (tries_quiet rfl) fun r b hb ↦ ?_
          cases r with
          | error _ =>
              obtain ⟨got, rfl⟩ := hb
              exact hdel _ _ _
          | ok _ => exact hb

/-- Whatever fails before the handshake is over, what the gateway keeps of the two pipes stays
open. -/
theorem network_conforms (hnew : .veth sub ∉ got)
    (hnext : Conforms track Permits Ends next
      ⟨⟨.veth sub :: got, [.veth sub, .process, .subnet sub]⟩, false⟩) :
    Conforms (S := spawningFds) track Permits Ends (network sub next)
      ⟨⟨got, [.process, .fd .r4, .fd .w3, .subnet sub]⟩, false⟩ := by
  refine conforms_attempt (createVethToHost_tries hnew)
    (fun _ ↦ turns_earlyCleanup _ (by simp) (by simp) (by simp)) (by simp) ?_
  refine conforms_attempt (tries_quiet rfl)
    (fun _ ↦ turns_vethCleanup (by simp) (by simp) (by simp)) (by simp) ?_
  refine conforms_attempt (tries_quiet rfl)
    (fun _ ↦ turns_vethCleanup (by simp) (by simp) (by simp)) (by simp) ?_
  refine Turns.bind (turns_close (by simp)) fun _ ↦ ?_
  refine conforms_attempt (tries_quiet rfl)
    (fun _ ↦ turns_vethCleanup (by simp) (by simp) (by simp)) (by simp) ?_
  refine Turns.bind (turns_close (by simp)) fun _ ↦ ?_
  exact hnext

theorem started_conforms
    (hnext : Conforms track Permits Ends next
      ⟨⟨got, [.process, .fd .r4, .fd .w3, .subnet sub]⟩, false⟩) :
    Conforms (S := spawningFds) track Permits Ends (started sub next)
      ⟨⟨got, [.process, .fd .rBlock, .fd .wBlock, .fd .rInfo, .fd .wInfo, .fd .r4, .fd .w4,
        .fd .r3, .fd .w3, .subnet sub]⟩, false⟩ := by
  refine Turns.bind (turns_closeAll (by decide) (by simp)) fun _ ↦ ?_
  refine conforms_attempt readChildPid_tries
    (fun _ ↦ turns_earlyCleanup _ (by simp) (by simp) (by simp)) (by simp) ?_
  refine conforms_attempt (tries_quiet rfl)
    (fun _ ↦ turns_earlyCleanup _ (by simp) (by simp) (by simp)) (by simp) ?_
  exact Turns.bind (turns_close (by simp)) fun _ ↦ hnext

/-- Before the process runs everything is closed again. -/
theorem process_conforms
    (hnext : Conforms track Permits Ends next
      ⟨⟨[.process, .fd .rBlock, .fd .wBlock, .fd .rInfo, .fd .wInfo, .fd .r4, .fd .w4, .fd .r3,
        .fd .w3, .subnet sub], [.process, .fd .rBlock, .fd .wBlock, .fd .rInfo, .fd .wInfo,
        .fd .r4, .fd .w4, .fd .r3, .fd .w3, .subnet sub]⟩, false⟩) :
    Conforms (S := spawningFds) track Permits Ends (process sub next)
      ⟨⟨[.subnet sub], [.subnet sub]⟩, false⟩ := by
  refine conforms_attempt (tries_asks (by decide) (by simp))
    (fun _ ↦ turns_free (by simp)) (by simp) ?_
  refine conforms_attempt (tries_asks (by decide) (by simp))
    (fun _ ↦ turns_pipesCleanup (by decide) (by simp) (by simp)) (by simp) ?_
  refine conforms_attempt (tries_asks (by decide) (by simp))
    (fun _ ↦ turns_pipesCleanup (by decide) (by simp) (by simp)) (by simp) ?_
  refine conforms_attempt (tries_asks (by decide) (by simp))
    (fun _ ↦ turns_pipesCleanup (by decide) (by simp) (by simp)) (by simp) ?_
  refine conforms_attempt (tries_quiet rfl)
    (fun _ ↦ turns_pipesCleanup (by decide) (by simp) (by simp)) (by simp) ?_
  refine conforms_attempt (tries_quiet rfl)
    (fun _ ↦ turns_pipesCleanup (by decide) (by simp) (by simp)) (by simp) ?_
  refine conforms_attempt (tries_asks (by decide) (by simp))
    (fun _ ↦ turns_pipesCleanup (by decide) (by simp) (by simp)) (by simp) ?_
  exact hnext

theorem spawn_conforms (srv : Store.Server) (tenant : String) :
    Conforms (S := spawningFds) track Permits Ends (spawnEgressBackend srv tenant)
      ⟨.blank, false⟩ := by
  have harch : Tries (asks (.checkBinaryArch srv)) ⟨.blank, false⟩ [] false ⟨.blank, false⟩ :=
    tries_quiet rfl
  refine Conforms.bind harch fun r b hb ↦ ?_
  cases r with
  | error e =>
      obtain ⟨got, rfl⟩ := hb
      exact iff_of_true rfl rfl
  | ok _ =>
      obtain rfl := hb
      refine ⟨⟨?_, ?_, ?_⟩, fun r ↦ ?_⟩
      · rintro x ⟨⟩
      · rintro (_ | _)
        · exact List.nodup_nil
        · exact List.nodup_singleton _
      · exact fun _ _ _ ↦ List.not_mem_nil
      · cases r with
        | error e => exact iff_of_true rfl rfl
        | ok sub =>
            refine process_conforms (started_conforms (network_conforms (by simp) ?_))
            exact bindAndConnect_conforms srv tenant (by simp)

end Stages

end Books

/-- What the record of a failed handshake says about the trace. -/
theorem late_tracked (g : Books) (t : List (Event spawningFds)) :
    (tracked Books.track g t).late = false ↔
      g.late = false ∧ ∀ x ∈ t, failsInHandshake x.1 x.2 = false := by
  induction t generalizing g with
  | nil => simp
  | cons x t ih => simp [ih, Books.track, and_assoc]

/-- **A failed spawn releases everything once**, if and only if it did not fail between the start
of the process and the end of the handshake. -/
theorem spawn_releases_iff {W : Type} {R : Sem spawningFds W} {srv : Store.Server} {tenant : String}
    {w w' : W} {t : List (Event spawningFds)} {e : Err}
    (h : Traced R (spawnEgressBackend srv tenant) w t (.error e) w') :
    (∀ x ∈ acquired acquires t, (released releases t).count x = 1) ↔
      ∀ x ∈ t, failsInHandshake x.1 x.2 = false := by
  obtain ⟨hdisciplined, hsettled⟩ := (Books.spawn_conforms srv tenant).traced h
  have haccount : Disciplined (S := spawningFds) (Account.track acquires releases)
        (Account.Permits acquires releases) .blank t ∧
      tracked (S := spawningFds) (Account.track acquires releases) .blank t =
        (tracked (S := spawningFds) Books.track (⟨.blank, false⟩ : Books) t).account :=
    hdisciplined.map (π := Books.account) (fun _ _ _ ↦ rfl) fun _ _ hpermits ↦ hpermits
  rw [Account.released_once_iff haccount.1, haccount.2]
  exact hsettled.trans ((late_tracked ⟨.blank, false⟩ t).trans (and_iff_right rfl))

namespace Example

def echo : Store.Server := ⟨1, "echo", "/bin/echo", ""⟩

/-- `10.88.0.0`, with no subnet in use. -/
def net : Net := .fresh 0x0A580000

/-- A host on which these calls fail. -/
def answer (fails : HostCall → Option Err) : (e : SpawnOp) → Net → Option (e.Res × Net)
  | .host h, n => some ((fails h).elim (.ok ()) .error, n)
  | .allocate, n => some (n.alloc.allocate.1, { n with alloc := n.alloc.allocate.2 })
  | .free sub, n => some ((), { n with alloc := n.alloc.free sub })
  | .bind ip id, n => some ((), { n with reg := n.reg.bind ip id })
  | .unbind ip, n => some ((), { n with reg := n.reg.unbind ip })
  | .close _, n | .linkDel _, n | .deleteVeth _, n | .sandboxPayloadPID, n | .killAndWait, n =>
      some ((), n)

theorem answer_sem (fails : HostCall → Option Err) (e : SpawnOp) (n : Net) (r : e.Res) (n' : Net)
    (h : answer fails e n = some (r, n')) : spawnSem (fun _ ↦ True) e n r n' := by
  cases e
  case allocate =>
    cases h
    exact ⟨trivial, rfl, rfl⟩
  all_goals
    cases h
    rfl

/-- The MCP session does not come up. -/
def noSession : HostCall → Option Err
  | .connect => some (.new "EOF")
  | _ => none

/-- bwrap writes no pid. -/
def noPid : HostCall → Option Err
  | .decodeInfo => some (.new "EOF")
  | _ => none

end Example

open Example in
/-- A spawn whose MCP session does not come up releases what it acquired. -/
theorem spawn_releases_noSession :
    ∃ t e n', Traced (spawnSem fun _ ↦ True) (spawnEgressBackend echo "1") net t (.error e) n' ∧
      .binding 0x0A580002 ∈ acquired acquires t ∧
      ∀ x ∈ acquired acquires t, (released releases t).count x = 1 := by
  have htraced := traced_record (answer_sem noSession) (rfl :
    record (answer noSession) (spawnEgressBackend echo "1") net = some (_, .error _, _))
  refine ⟨_, _, _, htraced, by decide, (spawn_releases_iff htraced).mpr ?_⟩
  decide

open Example in
/-- A spawn that gets no pid from bwrap leaves two descriptors open. -/
theorem spawn_leaks_noPid :
    ∃ t e n', Traced (spawnSem fun _ ↦ True) (spawnEgressBackend echo "1") net t (.error e) n' ∧
      ∀ fd ∈ [Fd.w3, .r4], .fd fd ∈ acquired acquires t ∧
        (released releases t).count (.fd fd) = 0 := by
  have htraced := traced_record (answer_sem noPid) (rfl :
    record (answer noPid) (spawnEgressBackend echo "1") net = some (_, .error _, _))
  refine ⟨_, _, _, htraced, ?_⟩
  decide

end GigMcp.Gateway.Fds
