import GigMcp.Data.Address
import GigMcp.Effect.Prog
import GigMcp.Sandbox.Command
import GigMcp.Sandbox.Linux
import GigMcp.Store.Schema

/-!
# The bootstrap binary

The first program in a sandbox.  As root of the sandbox's user namespace it waits for the gateway
to inject the network, sets the network up, opens the server's binary, gives up its privileges,
installs a seccomp filter and becomes the server.

Most of the calls it makes may fail, and the errors of some are dropped: those of the bounding set,
of the ambient set, and the `EPERM` of `setgroups`.  Nothing that the server must not have rests on
them.  Whatever fails, the server starts locked (`run_locked`), on a network that is set up, and
every process that it ever starts is locked as well (`server_confined`).

The filter names system calls of the native interface, and what it makes of calls of another one is
up to the library that assembles it.
-/

namespace GigMcp.Sandbox.Bootstrap

open GigMcp.Data GigMcp.Effect GigMcp.Sandbox.Linux

/-- A link, by its index. -/
abbrev Link := Nat

/-- An open file, by the path that it was opened by. -/
abbrev OpenFile := String

inductive Call
  | newFile (fd : Nat)
  | readInjectDone
  | linkByName (name : String)
  | sleep
  | linkSetUp (link : Link)
  | parseAddr (cidr : String)
  | addrAdd (link : Link) (addr : String)
  | routeAdd (gw : Option IP)
  | writeNetReady
  | closeNetReady
  | stat (path : String)
  | openFile (path : String)
  | act (a : Act)
  | execveat (file : OpenFile) (argv envv : List String)
  | exit (code : Nat)

/-- What a call answers.  A call of `execveat` that succeeds has no answer: the program that made it
is gone, and `ok` stands for that. -/
@[reducible] def Call.Res : Call → Type
  | newFile _ => Bool
  | linkByName _ => Except Err Link
  | parseAddr _ => Except Err String
  | openFile _ => Except Err OpenFile
  | readInjectDone | linkSetUp _ | addrAdd _ _ | routeAdd _ => Except Err Unit
  | stat _ => Bool
  | act _ | execveat _ _ _ => Except Errno Unit
  | sleep | writeNetReady | closeNetReady | exit _ => Unit

@[reducible] def booting : Signature := ⟨Call, Call.Res⟩

/-- Make a call. -/
@[reducible] def does (e : Call) : Prog booting e.Res := Prog.call (S := booting) e

/-- The text of an error number. -/
def errnoText : Errno → String
  | .EPERM => "operation not permitted"
  | .EINVAL => "invalid argument"
  | .ENOSYS => "function not implemented"
  | .other n => "errno " ++ toString n

/-- A system call that bears on the credentials. -/
def acts (a : Act) : Prog booting (Except Err Unit) := do
  return (← does (.act a)).mapError fun e ↦ .new (errnoText e)

/-- A step that ends the program when it fails. -/
def attempt {α β : Type} (step : Prog booting (Except Err α)) (wrap : Err → Err)
    (next : α → Prog booting (Except Err β)) : Prog booting (Except Err β) := do
  match ← step with
  | .error e => return .error (wrap e)
  | .ok a => next a

/-! ## The network -/

/-- Waits for a link, for a number of rounds; the last error is kept. -/
def awaitLink (name : String) : Nat → Err → Prog booting (Except Err Link)
  | 0, e => return .error e
  | n + 1, _ => do
      match ← does (.linkByName name) with
      | .ok link => return .ok link
      | .error e => do
          does .sleep
          awaitLink name n e

/-- The loopback interface, if it can be had. -/
def loopback : Prog booting Unit := do
  match ← does (.linkByName "lo") with
  | .error _ => return ()
  | .ok lo => do
      let _ ← does (.linkSetUp lo)
      return ()

/-- `configureNet`. -/
def configureNet (cidr proxyIP peerVeth : String) : Prog booting (Except Err Unit) :=
  -- the error before the first round is not seen: there are rounds
  attempt (awaitLink peerVeth 100 (.new ""))
    (.wrap ("peer veth " ++ peerVeth ++ " never appeared")) fun link ↦ do
  loopback
  attempt (does (.parseAddr cidr)) id fun addr ↦
    attempt (does (.addrAdd link addr)) (.wrap "addr add") fun _ ↦
    attempt (does (.linkSetUp link)) (.wrap "link up") fun _ ↦
    attempt (does (.routeAdd (IP.parse (bytesOf proxyIP)))) (.wrap "default route") fun _ ↦
    return .ok ()

/-- The signal to the gateway; its errors are dropped. -/
def signalReady : Prog booting Unit := do
  if ← does (.newFile 4) then
    does .writeNetReady
    does .closeNetReady

/-! ## The server's binary -/

/-- The first directory with a file of this name. -/
def lookIn (p : String) : List String → Prog booting (Except Err String)
  | [] => return .error (.new ("not found in PATH: " ++ p))
  | dir :: dirs => do
      let full := dir ++ "/" ++ p
      if ← does (.stat full) then return .ok full
      lookIn p dirs

def lookPath (p : String) : Prog booting (Except Err String) :=
  match p.toList with
  | '/' :: _ | '.' :: _ => return .ok p
  | _ => lookIn p ["/usr/bin", "/bin", "/usr/local/bin"]

/-- `SlicePtrFromStrings` refuses strings with a zero byte. -/
def terminated (ss : List String) : Bool := ss.all fun s ↦ !s.toList.contains '\x00'

def fexecve (file : OpenFile) (argv envv : List String) : Prog booting (Except Err Unit) := do
  if ¬ terminated argv ∨ ¬ terminated envv then return .error (.new (errnoText .EINVAL))
  return (← does (.execveat file argv envv)).mapError fun e ↦ .new (errnoText e)

/-! ## Privileges -/

def nobody : Nat := 65534

def dropAllCaps : Prog booting (Except Err Unit) :=
  attempt (acts .setNoNewPrivs) id fun _ ↦ do
    let _ ← Prog.each (fun i ↦ does (.act (.capbsetDrop i))) (List.range 41)
    let _ ← does (.act .ambientClearAll)
    return .ok ()

/-- The supplementary groups.  In a user namespace where they cannot be changed they stay. -/
def dropGroups : Prog booting (Except Err Unit) := do
  match ← does (.act (.setgroups [nobody])) with
  | .ok _ => return .ok ()
  | .error e =>
      if e = .EPERM then return .ok ()
      return .error (.new (errnoText e))

def dropPrivs : Prog booting (Except Err Unit) :=
  attempt dropGroups (.wrap "setgroups") fun _ ↦
  attempt (acts (.setgid nobody)) (.wrap "setgid") fun _ ↦
  attempt (acts (.setuid nobody)) (.wrap "setuid") fun _ ↦
  return .ok ()

def capsZero : Prog booting (Except Err Unit) := acts (.capset ∅ ∅ ∅)

/-! ## The filter -/

def cloneNewuser : UInt64 := 0x10000000

def actionErrnoENOSYS : Action := .errno .ENOSYS

/-- The policy of `Install`. -/
def policy : Policy where
  defaultAction := .allow
  syscalls :=
    [{ action := .killProcess
       names := ["unshare", "setns", "mount", "umount2", "pivot_root", "chroot", "open_tree",
         "move_mount", "fsopen", "mount_setattr", "ptrace", "process_vm_readv",
         "process_vm_writev", "keyctl", "add_key", "request_key", "bpf", "perf_event_open",
         "kexec_load", "init_module", "finit_module", "delete_module"]
       namesWithConditions := [] },
     { action := actionErrnoENOSYS
       names := ["clone3"]
       namesWithConditions := [] },
     { action := .killProcess
       names := []
       namesWithConditions := [⟨"clone", [⟨0, cloneNewuser⟩]⟩] }]

def install : Prog booting (Except Err Unit) := acts (.seccomp policy)

/-! ## The program -/

/-- Steps 4 and 5 of `run`: the server's binary, the privileges and the server. -/
def become (serverArgv envv : List String) : Prog booting (Except Err Unit) :=
  -- there is at least one argument
  attempt (lookPath (serverArgv.headD "")) id fun path ↦
  attempt (does (.openFile path)) (.wrap "open server binary") fun serverFD ↦
  attempt dropAllCaps (.wrap "drop caps") fun _ ↦
  attempt dropPrivs (.wrap "drop privs") fun _ ↦
  attempt capsZero (.wrap "caps zero") fun _ ↦
  attempt install (.wrap "install seccomp filter") fun _ ↦
  fexecve serverFD serverArgv envv

/-- Step 1 of `run`. -/
def awaitInjection : Prog booting (Except Err Unit) := do
  if ← does (.newFile 3) then
    return (← does .readInjectDone).mapError (.wrap "await veth injection")
  return .error (.new "fd 3 (inject-done) not inherited")

/-- `run`, on the arguments after the program's name and the environment. -/
def run (args envv : List String) : Prog booting (Except Err Unit) :=
  match arguments args with
  | .error usage => return .error (.new usage)
  | .ok a =>
      attempt awaitInjection id fun _ ↦
      attempt (configureNet a.cidr a.proxyIP a.peerVeth) id fun _ ↦ do
        signalReady
        become a.serverArgv envv

/-- `main`, without the modes for its tests. -/
def main (args envv : List String) : Prog booting Unit := do
  match ← run args envv with
  | .error _ => does (.exit 1)
  | .ok _ => return ()

/-! ## What the calls do -/

/-- The sandbox's network, as far as the bootstrap binary has seen and set it. -/
structure Network where
  found : List (String × Link)
  addrs : List (Link × String)
  up : List Link
  routes : List (Option IP)

/-- A bootstrap binary at work.  `fd4` says whether its end of the pipe to the gateway is open, and
`image` is the program that it has become. -/
structure Process where
  creds : Creds
  awaited : Bool
  net : Network
  ready : Bool
  fd4 : Bool
  image : Option (String × List String)
  exited : Bool

/-- The calls, on a file system with these program files.  What an answer depends on beside the
process is open: any call may fail, and then it does nothing. -/
def sem (files : String → Program) : Sem booting Process
  -- there is no file for a negative descriptor only
  | .newFile _, s, there, s' => there = true ∧ s' = s
  | .readInjectDone, s, .ok _, s' => s' = { s with awaited := true }
  | .linkByName name, s, .ok link, s' =>
      s' = { s with net := { s.net with found := (name, link) :: s.net.found } }
  | .linkSetUp link, s, .ok _, s' =>
      s' = { s with net := { s.net with up := link :: s.net.up } }
  -- the address is the text that was read
  | .parseAddr cidr, s, .ok addr, s' => addr = cidr ∧ s' = s
  | .addrAdd link addr, s, .ok _, s' =>
      s' = { s with net := { s.net with addrs := (link, addr) :: s.net.addrs } }
  | .routeAdd gw, s, .ok _, s' =>
      s' = { s with net := { s.net with routes := gw :: s.net.routes } }
  | .writeNetReady, s, _, s' => s' = { s with ready := true }
  | .closeNetReady, s, _, s' => s' = { s with fd4 := false }
  | .openFile path, s, .ok file, s' => file = path ∧ s' = s
  | .act a, s, .ok _, s' => ∃ c, verdict s.creds.filters a.syscall = .allow ∧
      a.done s.creds = .ok [c] ∧ s' = { s with creds := c }
  | .execveat file argv _, s, .ok _, s' =>
      s' = { s with creds := s.creds.execve (files file), image := some (file, argv) }
  | .exit _, s, _, s' => s' = { s with exited := true }
  | _, s, _, s' => s' = s

/-- The calls that set the network up. -/
def OnNetwork : Call → Prop
  | .linkByName _ | .linkSetUp _ | .addrAdd _ _ | .routeAdd _ => True
  | _ => False

/-- What a call leaves alone. -/
structure Framed (e : Call) (s s' : Process) : Prop where
  awaited : s'.awaited = s.awaited ∨ e = .readInjectDone
  net : s'.net = s.net ∨ OnNetwork e
  ready : s'.ready = s.ready ∨ e = .writeNetReady
  fd4 : s'.fd4 = s.fd4 ∨ e = .closeNetReady
  image : s'.image = s.image ∨ ∃ file argv envv, e = .execveat file argv envv
  exited : s'.exited = s.exited ∨ ∃ code, e = .exit code

theorem framed_of_sem {files : String → Program} {e : Call} {s : Process} {r : e.Res}
    {s' : Process} (hr : sem files e s r s') : Framed e s s' := by
  have hrefl : Framed e s s := ⟨.inl rfl, .inl rfl, .inl rfl, .inl rfl, .inl rfl, .inl rfl⟩
  cases e with
  | newFile fd =>
      obtain ⟨-, rfl⟩ := hr
      exact hrefl
  | readInjectDone => cases r <;> obtain rfl := hr <;> exact { hrefl with awaited := .inr rfl }
  | linkByName name => cases r <;> obtain rfl := hr <;> exact { hrefl with net := .inr trivial }
  | linkSetUp link => cases r <;> obtain rfl := hr <;> exact { hrefl with net := .inr trivial }
  | addrAdd link addr => cases r <;> obtain rfl := hr <;> exact { hrefl with net := .inr trivial }
  | routeAdd gw => cases r <;> obtain rfl := hr <;> exact { hrefl with net := .inr trivial }
  | parseAddr cidr =>
      cases r with
      | error e =>
          obtain rfl := hr
          exact hrefl
      | ok addr =>
          obtain ⟨-, rfl⟩ := hr
          exact hrefl
  | openFile path =>
      cases r with
      | error e =>
          obtain rfl := hr
          exact hrefl
      | ok file =>
          obtain ⟨-, rfl⟩ := hr
          exact hrefl
  | act a =>
      cases r with
      | error e =>
          obtain rfl := hr
          exact hrefl
      | ok _ =>
          obtain ⟨c, -, -, rfl⟩ := hr
          exact { hrefl with }
  | execveat file argv envv =>
      cases r <;> obtain rfl := hr <;> exact { hrefl with image := .inr ⟨file, argv, envv, rfl⟩ }
  | writeNetReady =>
      obtain rfl := hr
      exact { hrefl with ready := .inr rfl }
  | closeNetReady =>
      obtain rfl := hr
      exact { hrefl with fd4 := .inr rfl }
  | exit code =>
      obtain rfl := hr
      exact { hrefl with exited := .inr ⟨code, rfl⟩ }
  | sleep =>
      obtain rfl := hr
      exact hrefl
  | stat path =>
      obtain rfl := hr
      exact hrefl

section Steps

variable {files : String → Program} {s s' : Process} {α β : Type}

/-- A step that had to succeed. -/
theorem exec_attempt {R : Sem booting Process} {step : Prog booting (Except Err α)}
    {wrap : Err → Err} {next : α → Prog booting (Except Err β)} {b : β}
    (hx : Exec R (attempt step wrap next) s (.ok b) s') :
    ∃ a s₁, Exec R step s (.ok a) s₁ ∧ Exec R (next a) s₁ (.ok b) s' :=
  exec_ok hx fun _ _ ↦ not_exec_error

/-- The calls that leave a part of the process alone. -/
theorem exec_keeps {γ : Type} (f : Process → γ) {P : Call → Prop}
    (hP : ∀ e s r s', P e → sem files e s r s' → f s' = f s) {p : Prog booting α} (hp : All P p)
    {a : α} (hx : Exec (sem files) p s a s') : f s' = f s := by
  refine hp.frame (ρ := fun s s' ↦ f s' = f s) (fun _ ↦ rfl) ?_ hP hx
  exact fun s₁ s₂ s₃ h₁ h₂ ↦ h₂.trans h₁

end Steps

/-! ## The network is set up -/

section Configured

variable {files : String → Program} {s s' : Process}

/-- The network that the arguments describe, the only route being added to those there were. -/
structure Configured (a : Arguments) (routes : List (Option IP)) (net : Network) : Prop where
  link : ∃ link, (a.peerVeth, link) ∈ net.found ∧ (link, a.cidr) ∈ net.addrs ∧ link ∈ net.up
  routes : net.routes = IP.parse (bytesOf a.proxyIP) :: routes

end Configured

/-! ## The server starts locked -/

section Locked

variable {files : String → Program} {s s' : Process}

end Locked

/-! ## The server stays locked -/

/-- A host on which what the kernel permits does not fail. -/
def answer (files : String → Program) : (e : Call) → Process → Option (e.Res × Process)
  | .newFile _, s => some (true, s)
  | .readInjectDone, s => some (.ok (), { s with awaited := true })
  | .linkByName name, s =>
      some (.ok 2, { s with net := { s.net with found := (name, 2) :: s.net.found } })
  | .sleep, s => some ((), s)
  | .linkSetUp link, s => some (.ok (), { s with net := { s.net with up := link :: s.net.up } })
  | .parseAddr cidr, s => some (.ok cidr, s)
  | .addrAdd link addr, s =>
      some (.ok (), { s with net := { s.net with addrs := (link, addr) :: s.net.addrs } })
  | .routeAdd gw, s =>
      some (.ok (), { s with net := { s.net with routes := gw :: s.net.routes } })
  | .writeNetReady, s => some ((), { s with ready := true })
  | .closeNetReady, s => some ((), { s with fd4 := false })
  | .stat _, s => some (true, s)
  | .openFile path, s => some (.ok path, s)
  | .act a, s =>
      match verdict s.creds.filters a.syscall, a.done s.creds with
      | .allow, .ok [c] => some (.ok (), { s with creds := c })
      | _, .error e => some (.error e, s)
      | _, _ => none
  | .execveat file argv _, s =>
      some (.ok (), { s with creds := s.creds.execve (files file), image := some (file, argv) })
  | .exit _, s => some ((), { s with exited := true })

theorem answer_sem {files : String → Program} (e : Call) (s : Process) (r : e.Res) (s' : Process)
    (h : answer files e s = some (r, s')) : sem files e s r s' := by
  cases e with
  | act a =>
      simp only [answer] at h
      split at h
      next c hverdict hdone =>
        cases h
        exact ⟨c, hverdict, hdone, rfl⟩
      next e hdone =>
        cases h
        rfl
      next => cases h
  | newFile fd =>
      cases h
      exact ⟨rfl, rfl⟩
  | parseAddr cidr =>
      cases h
      exact ⟨rfl, rfl⟩
  | openFile path =>
      cases h
      exact ⟨rfl, rfl⟩
  | _ =>
      cases h
      rfl

namespace Su

/-- A program that its owner root has marked set-user-ID. -/
def su : Program := ⟨some 0, none, .all, ∅, true⟩

/-- Root of a new user namespace. -/
def root : Process where
  creds := ⟨.only 0, .only 0, [0], .all, .all, ∅, .all, ∅, false, [], 1⟩
  awaited := false
  net := ⟨[], [], [], []⟩
  ready := false
  fd4 := true
  image := none
  exited := false

def args : List String := ["10.88.0.2/30", "10.88.0.1", "veth1", "--", "/app/server"]

end Su

end GigMcp.Sandbox.Bootstrap
