import GigMcp.Data.Table
import GigMcp.Data.Text
import GigMcp.Sandbox.Bwrap
import Mathlib.Data.List.Sort

/-!
# The sandbox's command line

`Command` builds the arguments of bwrap for a server, and in egress mode bwrap runs the bootstrap
binary, which reads its own arguments from the rest of the same command line.  Read back
by bwrap's rules, the arguments stand for the sandbox the `Spec` describes, whatever the strings in
it look like, and the bootstrap binary finds what was meant for it.

The bootstrap binary is mounted last.  The mounts that isolate the sandbox provide `/proc`, `/dev`
and `/tmp` as long as its path is not one that covers them.
-/

namespace GigMcp.Sandbox

open GigMcp.Data

/-- A read-only bind mount from host `src` to sandbox `dst`. -/
structure Mount where
  src : String
  dst : String
  optional : Bool

/-- Network egress for a sandbox. -/
structure Egress where
  bootstrapPath : String
  sandboxCIDR : String
  proxyIP : String
  peerVeth : String
  infoFD : Int64
  usernsBlockFD : Int64
  env : Table (Prod.fst : String × String → String)

/-- A process to run inside the sandbox. -/
structure Spec where
  exec : String
  args : List String
  mounts : List Mount
  egress : Option Egress

/-- `exec.Cmd`: the program and its arguments. -/
structure Cmd where
  name : String
  args : List String

/-- `e.Env[k]`. -/
def Egress.value (e : Egress) (k : String) : String := ((e.env.get? k).map Prod.snd).getD ""

/-- The keys of `e.Env`, sorted. -/
def Egress.keys (e : Egress) : List String :=
  (e.env.rows.map Prod.fst).insertionSort fun a b ↦ a ≤ b

/-- The arguments of one caller mount. -/
def mountArgs (m : Mount) : List String :=
  let flag := if m.optional then "--ro-bind-try" else "--ro-bind"
  [flag, m.src, m.dst]

def isolationArgs : List String :=
  ["--proc", "/proc", "--dev", "/dev", "--tmpfs", "/tmp", "--chdir", "/"]

def commandNoNet (spec : Spec) : Cmd where
  name := "bwrap"
  args :=
    ["--die-with-parent", "--new-session", "--unshare-all", "--clearenv",
      "--setenv", "PATH", "/usr/bin:/bin", "--tmpfs", "/etc"] ++
    spec.mounts.flatMap mountArgs ++ isolationArgs ++ "--" :: spec.exec :: spec.args

def commandEgress (spec : Spec) (e : Egress) : Cmd where
  name := "bwrap"
  args :=
    ["--die-with-parent", "--new-session",
      "--unshare-user", "--unshare-net", "--unshare-pid",
      "--unshare-ipc", "--unshare-uts", "--unshare-cgroup",
      "--info-fd", formatInt e.infoFD,
      "--userns-block-fd", formatInt e.usernsBlockFD,
      "--clearenv", "--setenv", "PATH", "/usr/bin:/bin", "--tmpfs", "/etc"] ++
    e.keys.flatMap (fun k ↦ ["--setenv", k, e.value k]) ++
    spec.mounts.flatMap mountArgs ++ isolationArgs ++
    ["--ro-bind", e.bootstrapPath, e.bootstrapPath] ++
    ["--", e.bootstrapPath, e.sandboxCIDR, e.proxyIP, e.peerVeth, "--", spec.exec] ++ spec.args

/-- `Command`. -/
def command (spec : Spec) : Cmd :=
  match spec.egress with
  | none => commandNoNet spec
  | some e => commandEgress spec e

/-! ## The bootstrap binary -/

namespace Bootstrap

def indexOf : List String → String → Int
  | [], _ => -1
  | x :: s, v =>
      if x = v then 0
      else
        let i := indexOf s v
        if i = -1 then -1 else i + 1

/-- What the bootstrap binary is told. -/
structure Arguments where
  cidr : String
  proxyIP : String
  peerVeth : String
  serverArgv : List String
deriving DecidableEq

/-- The opening of `run`, on the arguments after the program's name. -/
def arguments (args : List String) : Except String Arguments :=
  let sep := indexOf args "--"
  if sep < 3 ∨ (args.length : Int) ≤ sep + 1 then
    .error "usage: bootstrap <cidr> <proxyIP> <peerVeth> -- <server> [args...]"
  else
    match args with
    | cidr :: proxyIP :: peerVeth :: _ =>
        .ok ⟨cidr, proxyIP, peerVeth, args.drop (sep + 1).toNat⟩
    -- not reached: the separator stands behind three arguments
    | _ => .error ""

/-- The separator is the first one: what the server's own arguments look like does not matter. -/
theorem arguments_eq_ok {cidr proxyIP peerVeth : String} (hcidr : cidr ≠ "--")
    (hproxy : proxyIP ≠ "--") (hveth : peerVeth ≠ "--") (exec : String) (args : List String) :
    arguments (cidr :: proxyIP :: peerVeth :: "--" :: exec :: args) =
      .ok ⟨cidr, proxyIP, peerVeth, exec :: args⟩ := by
  have hsep : indexOf (cidr :: proxyIP :: peerVeth :: "--" :: exec :: args) "--" = 3 := by
    simp [indexOf, hcidr, hproxy, hveth]
  have hlength : ¬ ((3 : Int) < 3 ∨
      ((cidr :: proxyIP :: peerVeth :: "--" :: exec :: args).length : Int) ≤ 3 + 1) := by
    simp only [List.length_cons]
    omega
  simp only [arguments, hsep]
  rw [if_neg hlength]
  rfl

end Bootstrap

/-! ## The options -/

/-- The option of a caller mount. -/
def Mount.opt (m : Mount) : Opt :=
  (if m.optional then "--ro-bind-try" else "--ro-bind", [m.src, m.dst])

/-- What a caller mount asks for. -/
def Mount.mounted (m : Mount) : Mounted :=
  ⟨if m.optional then .roBindTry m.src else .roBind m.src, m.dst⟩

theorem apply_opt (s : Setup) (m : Mount) :
    s.apply m.opt = s.mount m.mounted.source m.mounted.dst := by
  obtain ⟨src, dst, optional⟩ := m
  cases optional with
  | false => exact Setup.apply_roBind src dst
  | true => exact Setup.apply_roBindTry src dst

/-- The mounts that isolate a sandbox. -/
def isolation : List Mounted := [⟨.proc, "/proc"⟩, ⟨.dev, "/dev"⟩, ⟨.tmpfs, "/tmp"⟩]

section Egress

variable {spec : Spec} {e : Egress}

/-- The options `commandEgress` writes before those of the environment and the mounts. -/
def openingOptions (e : Egress) : List Opt :=
  [("--die-with-parent", []), ("--new-session", []), ("--unshare-user", []), ("--unshare-net", []),
    ("--unshare-pid", []), ("--unshare-ipc", []), ("--unshare-uts", []), ("--unshare-cgroup", []),
    ("--info-fd", [formatInt e.infoFD]), ("--userns-block-fd", [formatInt e.usernsBlockFD]),
    ("--clearenv", []), ("--setenv", ["PATH", "/usr/bin:/bin"]), ("--tmpfs", ["/etc"])]

/-- The options it writes after them. -/
def closingOptions (e : Egress) : List Opt :=
  [("--proc", ["/proc"]), ("--dev", ["/dev"]), ("--tmpfs", ["/tmp"]), ("--chdir", ["/"]),
    ("--ro-bind", [e.bootstrapPath, e.bootstrapPath])]

def egressOptions (spec : Spec) (e : Egress) : List Opt :=
  openingOptions e ++ e.keys.map (fun k ↦ ("--setenv", [k, e.value k])) ++
    spec.mounts.map Mount.opt ++ closingOptions e

theorem commandEgress_args (spec : Spec) (e : Egress) :
    (commandEgress spec e).args = render (egressOptions spec e) ++ "--" :: e.bootstrapPath ::
      e.sandboxCIDR :: e.proxyIP :: e.peerVeth :: "--" :: spec.exec :: spec.args := by
  have henv : render (e.keys.map fun k ↦ ("--setenv", [k, e.value k])) =
      e.keys.flatMap fun k ↦ ["--setenv", k, e.value k] := List.flatMap_map ..
  have hmounts : render (spec.mounts.map Mount.opt) = spec.mounts.flatMap mountArgs :=
    List.flatMap_map ..
  simp only [commandEgress, egressOptions, render_append, henv, hmounts, isolationArgs,
    List.append_assoc]
  rfl

theorem egressOptions_wellFormed (spec : Spec) (e : Egress) :
    WellFormed arity (egressOptions spec e) := by
  have hopening : WellFormed arity (openingOptions e) := wellFormed_of_all rfl
  have hclosing : WellFormed arity (closingOptions e) := wellFormed_of_all rfl
  have henv : WellFormed arity (e.keys.map fun k ↦ ("--setenv", [k, e.value k])) :=
    wellFormed_map (fun k ↦ ⟨by simp, rfl⟩) _
  have hmounts : WellFormed arity (spec.mounts.map Mount.opt) := by
    refine wellFormed_map ?_ _
    rintro ⟨src, dst, optional⟩
    cases optional with
    | false => exact ⟨by simp [Mount.opt], rfl⟩
    | true => exact ⟨by simp [Mount.opt], rfl⟩
  simp only [egressOptions, wellFormed_append]
  exact ⟨⟨⟨hopening, henv⟩, hmounts⟩, hclosing⟩

/-- The sandbox that the options of `commandEgress` describe. -/
def egressSetup (spec : Spec) (e : Egress) : Setup where
  dieWithParent := true
  newSession := true
  unshared := [.user, .net, .pid, .ipc, .uts, .cgroup]
  infoFD := some (formatInt e.infoFD)
  usernsBlockFD := some (formatInt e.usernsBlockFD)
  env := fun x ↦
    if x ∈ e.keys then some (e.value x) else if x = "PATH" then some "/usr/bin:/bin" else none
  mounts := ⟨.tmpfs, "/etc"⟩ :: spec.mounts.map Mount.mounted ++ isolation ++
    [⟨.roBind e.bootstrapPath, e.bootstrapPath⟩]
  chdir := some "/"

theorem applyAll_egressOptions (spec : Spec) (e : Egress) (env : String → Option String) :
    (Setup.start env).applyAll (egressOptions spec e) = egressSetup spec e := by
  simp only [egressOptions, Setup.applyAll_append, Setup.applyAll_setenv,
    Setup.applyAll_mounts _ apply_opt]
  simp [openingOptions, closingOptions, egressSetup, isolation, Setup.start, Setup.unshare,
    Setup.setenv, Setup.mount]

/-- **Reading back.**  The arguments stand for `egressSetup`, and for the bootstrap binary with its
arguments. -/
theorem readArgv_commandEgress (spec : Spec) (e : Egress) (env : String → Option String) :
    readArgv env (commandEgress spec e).args = some (egressSetup spec e, e.bootstrapPath ::
      e.sandboxCIDR :: e.proxyIP :: e.peerVeth :: "--" :: spec.exec :: spec.args) := by
  rw [commandEgress_args, readArgv_render (egressOptions_wellFormed spec e), applyAll_egressOptions]

/-! ## What they mean -/

/-- The mount shows a directory or file of the host. -/
def Mounted.ofHost (m : Mounted) : Bool :=
  match m.source with
  | .bind _ | .roBind _ | .roBindTry _ => true
  | .proc | .dev | .tmpfs => false

/-- A sandbox is the one an egress `Spec` describes. -/
structure Means (spec : Spec) (e : Egress) (s : Setup) : Prop where
  unshared : ∀ ns, ns ∈ s.unshared
  /-- The environment of whoever runs bwrap is gone. -/
  env : ∀ k, s.env k =
    ((e.env.get? k).map Prod.snd).or (if k = "PATH" then some "/usr/bin:/bin" else none)
  /-- Of the host, the sandbox sees what the caller mounts and the bootstrap binary, and can write
  to none of it. -/
  binds : s.mounts.filter Mounted.ofHost =
    spec.mounts.map Mount.mounted ++ [⟨.roBind e.bootstrapPath, e.bootstrapPath⟩]
  readOnly : ∀ m ∈ s.mounts, ∀ src, m.source ≠ .bind src
  proc : ∀ present path, Covers "/proc" path →
    provider present s.mounts path = some ⟨.proc, "/proc"⟩
  dev : ∀ present path, Covers "/dev" path →
    provider present s.mounts path = some ⟨.dev, "/dev"⟩
  /-- A bootstrap binary below `/tmp` is visible there. -/
  tmp : ∀ present path, Covers "/tmp" path → ¬ Covers e.bootstrapPath path →
    provider present s.mounts path = some ⟨.tmpfs, "/tmp"⟩

theorem mem_keys {k : String} : k ∈ e.keys ↔ (e.env.get? k).isSome := by
  simp only [Egress.keys, List.mem_insertionSort, List.mem_map, Option.isSome_iff_exists,
    Table.get?_eq_some]

theorem egressSetup_env (k : String) : (egressSetup spec e).env k =
    ((e.env.get? k).map Prod.snd).or (if k = "PATH" then some "/usr/bin:/bin" else none) := by
  simp only [egressSetup, mem_keys, Egress.value]
  cases e.env.get? k with
  | none => rfl
  | some row => rfl

theorem ofHost_mounted (m : Mount) : m.mounted.ofHost = true := by
  obtain ⟨src, dst, optional⟩ := m
  cases optional with
  | false => rfl
  | true => rfl

theorem mounted_ne_bind (m : Mount) (src : String) : m.mounted.source ≠ .bind src := by
  obtain ⟨src, dst, optional⟩ := m
  cases optional with
  | false => rintro ⟨⟩
  | true => rintro ⟨⟩

theorem egressSetup_binds : (egressSetup spec e).mounts.filter Mounted.ofHost =
    spec.mounts.map Mount.mounted ++ [⟨.roBind e.bootstrapPath, e.bootstrapPath⟩] := by
  have hcaller : (spec.mounts.map Mount.mounted).filter Mounted.ofHost =
      spec.mounts.map Mount.mounted := by
    refine List.filter_eq_self.mpr ?_
    exact List.forall_mem_map.mpr fun m _ ↦ ofHost_mounted m
  simp only [egressSetup, List.filter_append]
  rw [List.filter_cons_of_neg (by simp [Mounted.ofHost]), hcaller]
  simp [isolation, Mounted.ofHost]

theorem egressSetup_readOnly {m : Mounted} (hm : m ∈ (egressSetup spec e).mounts) (src : String) :
    m.source ≠ .bind src := by
  simp only [egressSetup, isolation, List.cons_append, List.mem_cons, List.mem_append, List.mem_map,
    List.not_mem_nil, or_false] at hm
  rcases hm with rfl | ⟨⟨m, -, rfl⟩ | rfl | rfl | rfl⟩ | rfl
  · rintro ⟨⟩
  · exact mounted_ne_bind m src
  · rintro ⟨⟩
  · rintro ⟨⟩
  · rintro ⟨⟩
  · rintro ⟨⟩

/-- A mount covers nothing below a place it is apart from. -/
theorem not_covers_of_apart {d d' path : String} (h : ¬ Covers d d') (h' : ¬ Covers d' d)
    (hpath : Covers d path) : ¬ Covers d' path := by
  intro hpath'
  rcases hpath.comparable hpath' with hd | hd
  · exact h hd
  · exact h' hd

/-- A path that neither is under a directory of the root nor is the root does not cover the
directory. -/
theorem not_covers_top {d boot : String} {part : List Char} (hd : place d = [part])
    (hunder : ¬ Covers d boot) (hroot : place boot ≠ []) : ¬ Covers boot d := by
  intro h
  rw [Covers, hd, List.prefix_cons_iff] at h
  rcases h with hnil | ⟨t, ht, hprefix⟩
  · exact hroot hnil
  · apply hunder
    rw [Covers, hd, ht]
    exact List.prefix_append [part] t

/-- A fixed mount provides what is below it, unless the mounts after it do. -/
theorem provider_egressSetup {m : Mounted} (before : List Mounted) {later : List Mounted}
    (hsplit : isolation = before ++ m :: later) (hmade : ∀ present, m.made present = true)
    (hlater : ∀ m' ∈ later, ¬ Covers m.dst m'.dst ∧ ¬ Covers m'.dst m.dst)
    (present : String → Bool) {path : String} (hpath : Covers m.dst path)
    (hboot : ¬ Covers e.bootstrapPath path) :
    provider present (egressSetup spec e).mounts path = some m := by
  have hmounts : (egressSetup spec e).mounts =
      (⟨.tmpfs, "/etc"⟩ :: spec.mounts.map Mount.mounted ++ before) ++
        m :: (later ++ [⟨.roBind e.bootstrapPath, e.bootstrapPath⟩]) := by
    simp only [egressSetup, hsplit, List.append_assoc, List.cons_append]
  rw [hmounts]
  refine provider_eq_some (hmade present) hpath _ ?_
  intro m' hm'
  rcases List.mem_append.mp hm' with hm' | hm'
  · exact not_covers_of_apart (hlater m' hm').1 (hlater m' hm').2 hpath
  · obtain rfl := List.mem_singleton.mp hm'
    exact hboot

/-- The options of `commandEgress` mean what the `Spec` says. -/
theorem egressSetup_means (hproc : ¬ Covers "/proc" e.bootstrapPath)
    (hdev : ¬ Covers "/dev" e.bootstrapPath) (htmp : ¬ Covers e.bootstrapPath "/tmp") :
    Means spec e (egressSetup spec e) := by
  have hroot : place e.bootstrapPath ≠ [] := by
    intro hnil
    apply htmp
    rw [Covers, hnil]
    exact List.nil_prefix
  constructor
  · intro ns
    cases ns <;> simp [egressSetup]
  · exact egressSetup_env
  · exact egressSetup_binds
  · exact fun m hm src ↦ egressSetup_readOnly hm src
  · intro present path hpath
    have hboot := not_covers_of_apart hproc (not_covers_top rfl hproc hroot) hpath
    exact provider_egressSetup [] rfl (fun _ ↦ rfl) (by decide) present hpath hboot
  · intro present path hpath
    have hboot := not_covers_of_apart hdev (not_covers_top rfl hdev hroot) hpath
    exact provider_egressSetup [_] rfl (fun _ ↦ rfl) (by decide) present hpath hboot
  · intro present path hpath hboot
    exact provider_egressSetup [_, _] rfl (fun _ ↦ rfl) (by decide) present hpath hboot

end Egress

/-- **The command line means what the `Spec` says.**  For a bootstrap binary that is not under
`/proc` or `/dev` and is neither the root nor `/tmp`: bwrap reads the sandbox of the `Spec` and the
bootstrap binary as the command, and the bootstrap binary reads its addresses and the server's
own command line. -/
theorem command_means {spec : Spec} {e : Egress} (hegress : spec.egress = some e)
    (hproc : ¬ Covers "/proc" e.bootstrapPath) (hdev : ¬ Covers "/dev" e.bootstrapPath)
    (htmp : ¬ Covers e.bootstrapPath "/tmp") (hcidr : e.sandboxCIDR ≠ "--")
    (hproxy : e.proxyIP ≠ "--") (hveth : e.peerVeth ≠ "--") (env : String → Option String) :
    ∃ setup args, readArgv env (command spec).args = some (setup, e.bootstrapPath :: args) ∧
      Means spec e setup ∧
      Bootstrap.arguments args = .ok ⟨e.sandboxCIDR, e.proxyIP, e.peerVeth, spec.exec :: spec.args⟩ := by
  refine ⟨egressSetup spec e, e.sandboxCIDR :: e.proxyIP :: e.peerVeth :: "--" :: spec.exec ::
    spec.args, ?_, egressSetup_means hproc hdev htmp, ?_⟩
  · rw [command, hegress]
    exact readArgv_commandEgress spec e env
  · exact Bootstrap.arguments_eq_ok hcidr hproxy hveth spec.exec spec.args

namespace Example

/-- A server whose name, arguments and mounts look like options. -/
def egress (bootstrapPath : String) : Egress :=
  ⟨bootstrapPath, "10.88.0.2/30", "10.88.0.1", "veth0", 6, 5,
    (Table.empty.insertNew ("--bind", "--")).insertNew ("HTTPS_PROXY", "http://10.88.0.1:3128")⟩

def spec (bootstrapPath : String) : Spec where
  exec := "--share-net"
  args := ["--", "--bind", "/", "/"]
  mounts := [⟨"--", "/proc", false⟩, ⟨"/host/x", "/tmp/../tmp", true⟩]
  egress := some (egress bootstrapPath)

end Example

open Example in
theorem command_means_optionLike :
    ∃ setup args,
      readArgv (fun _ ↦ some "secret") (command (spec "/tmp/bootstrap")).args =
        some (setup, "/tmp/bootstrap" :: args) ∧
      Means (spec "/tmp/bootstrap") (egress "/tmp/bootstrap") setup ∧
      Bootstrap.arguments args = .ok ⟨"10.88.0.2/30", "10.88.0.1", "veth0",
        ["--share-net", "--", "--bind", "/", "/"]⟩ :=
  command_means (e := egress "/tmp/bootstrap") rfl (by decide) (by decide) (by decide) (by decide)
    (by decide) (by decide) _

open Example in
/-- A bootstrap path that is `/tmp` itself takes the place of the sandbox's own `/tmp`. -/
theorem command_mounts_host_tmp :
    (¬ Covers "/proc" (egress "/tmp").bootstrapPath ∧ ¬ Covers "/dev" (egress "/tmp").bootstrapPath) ∧
    ∃ setup args,
      readArgv (fun _ ↦ none) (command (spec "/tmp")).args = some (setup, "/tmp" :: args) ∧
      provider (fun _ ↦ true) setup.mounts "/tmp" = some ⟨.roBind "/tmp", "/tmp"⟩ :=
  ⟨by decide, egressSetup (spec "/tmp") (egress "/tmp"), _, readArgv_commandEgress _ _ _, by decide⟩

end GigMcp.Sandbox
