import GigMcp.Data.Files

/-!
# The command line of bwrap

What bwrap makes of its arguments: options with a fixed number of operands each, up to
`--`, and then the command.  The options are applied in the order in which they
stand, so that of two mounts that cover a path the later one provides it.
-/

namespace GigMcp.Sandbox

open GigMcp.Data

/-! ## Options and operands -/

/-- An option with its operands. -/
abbrev Opt : Type := String × List String

/-- The words of options. -/
def render (opts : List Opt) : List String := opts.flatMap fun o ↦ o.1 :: o.2

@[simp] theorem render_nil : render [] = [] := rfl

@[simp] theorem render_cons (o : Opt) (opts : List Opt) :
    render (o :: opts) = o.1 :: (o.2 ++ render opts) := rfl

@[simp] theorem render_append (opts opts' : List Opt) :
    render (opts ++ opts') = render opts ++ render opts' := List.flatMap_append

/-- Read options up to `--` or a word that is none.  An option that is not known or lacks operands
is an error. -/
def readOptions (arity : String → Option Nat) : List String → Option (List Opt × List String)
  | [] => some ([], [])
  | word :: rest =>
      if word = "--" then some ([], rest)
      else
        match arity word with
        | none => if hasPrefix word "-" then none else some ([], word :: rest)
        | some n =>
            if rest.length < n then none
            else (readOptions arity (rest.drop n)).map fun r ↦ ((word, rest.take n) :: r.1, r.2)
termination_by words => words.length
decreasing_by
  rw [List.length_drop, List.length_cons]
  omega

/-- The options of a grammar, each with its number of operands. -/
def WellFormed (arity : String → Option Nat) (opts : List Opt) : Prop :=
  ∀ o ∈ opts, o.1 ≠ "--" ∧ arity o.1 = some o.2.length

theorem wellFormed_of_all {arity : String → Option Nat} {opts : List Opt}
    (h : opts.all (fun o ↦ o.1 ≠ "--" ∧ arity o.1 = some o.2.length) = true) :
    WellFormed arity opts :=
  fun o ho ↦ of_decide_eq_true (List.all_eq_true.mp h o ho)

theorem wellFormed_append {arity : String → Option Nat} {opts opts' : List Opt} :
    WellFormed arity (opts ++ opts') ↔ WellFormed arity opts ∧ WellFormed arity opts' :=
  List.forall_mem_append

theorem wellFormed_map {arity : String → Option Nat} {α : Type} {opt : α → Opt}
    (h : ∀ a, (opt a).1 ≠ "--" ∧ arity (opt a).1 = some (opt a).2.length) (l : List α) :
    WellFormed arity (l.map opt) :=
  List.forall_mem_map.mpr fun a _ ↦ h a

/-- What options and operands are is decided by where they stand, not by what they look like:
reading gives back what was written. -/
theorem readOptions_render {arity : String → Option Nat} {opts : List Opt}
    (h : WellFormed arity opts) (cmd : List String) :
    readOptions arity (render opts ++ "--" :: cmd) = some (opts, cmd) := by
  induction opts with
  | nil => simp [readOptions]
  | cons o opts ih =>
      obtain ⟨hne, harity⟩ := h o List.mem_cons_self
      have hrest := ih fun o' ho' ↦ h o' (List.mem_cons_of_mem _ ho')
      rw [render_cons, List.cons_append, readOptions, if_neg hne, harity]
      simp only [List.append_assoc]
      rw [if_neg (by simp), List.drop_left, List.take_left, hrest]
      rfl

/-! ## Mounts -/

/-- Where a path leads below the root. -/
def place (path : String) : List (List Char) :=
  ((path.toList.splitOn '/').foldl (cleanStep true) []).reverse

/-- A mount on `dst` covers a path. -/
def Covers (dst path : String) : Prop := place dst <+: place path

instance (dst path : String) : Decidable (Covers dst path) :=
  inferInstanceAs (Decidable (_ <+: _))

/-- Of two mounts that cover a path, one covers the other. -/
theorem Covers.comparable {d d' path : String} (h : Covers d path) (h' : Covers d' path) :
    Covers d d' ∨ Covers d' d :=
  List.prefix_or_prefix_of_prefix h h'

/-- What is mounted: a directory or file of the host, or a file system of the sandbox's own. -/
inductive Source
  | bind (src : String)
  | roBind (src : String)
  | /-- Mounted if it exists. -/
    roBindTry (src : String)
  | proc
  | dev
  | tmpfs
deriving DecidableEq

structure Mounted where
  source : Source
  dst : String
deriving DecidableEq

/-- A mount is made, given what exists on the host. -/
def Mounted.made (present : String → Bool) (m : Mounted) : Bool :=
  match m.source with
  | .roBindTry src => present src
  | _ => true

/-- The mount that provides a path: of those that cover it, the last one. -/
def provider (present : String → Bool) : List Mounted → String → Option Mounted
  | [], _ => none
  | m :: ms, path =>
      (provider present ms path).or (if m.made present ∧ Covers m.dst path then some m else none)

variable {present : String → Bool} {path : String}

@[simp] theorem provider_nil : provider present [] path = none := rfl

@[simp] theorem provider_append (ms ms' : List Mounted) :
    provider present (ms ++ ms') path =
      (provider present ms' path).or (provider present ms path) := by
  induction ms with
  | nil => simp
  | cons m ms ih => rw [List.cons_append, provider, ih, provider, Option.or_assoc]

theorem provider_cons_of_not_covers {m : Mounted} (h : ¬ Covers m.dst path) (ms : List Mounted) :
    provider present (m :: ms) path = provider present ms path := by
  simp [provider, h]

/-- A mount provides what no later one covers. -/
theorem provider_eq_some {m : Mounted} (hmade : m.made present = true) (hcovers : Covers m.dst path)
    (ms : List Mounted) {later : List Mounted} (h : ∀ m' ∈ later, ¬ Covers m'.dst path) :
    provider present (ms ++ m :: later) path = some m := by
  have hlater : provider present later path = none := by
    induction later with
    | nil => rfl
    | cons m' later ih =>
        rw [provider_cons_of_not_covers (h m' List.mem_cons_self)]
        exact ih fun x hx ↦ h x (List.mem_cons_of_mem _ hx)
  rw [provider_append, provider, hlater, Option.none_or, if_pos ⟨hmade, hcovers⟩, Option.some_or]

/-! ## What the options say -/

/-- The namespaces a sandbox may have of its own. -/
inductive Namespace
  | user
  | net
  | pid
  | ipc
  | uts
  | cgroup
deriving DecidableEq

/-- The sandbox as far as options have been applied. -/
structure Setup where
  dieWithParent : Bool
  newSession : Bool
  unshared : List Namespace
  infoFD : Option String
  usernsBlockFD : Option String
  env : String → Option String
  mounts : List Mounted
  chdir : Option String

/-- Before the first option: the environment of whoever runs bwrap, and nothing else. -/
def Setup.start (env : String → Option String) : Setup :=
  ⟨false, false, [], none, none, env, [], none⟩

/-- The number of operands of an option. -/
def arity : String → Option Nat
  | "--die-with-parent" | "--new-session" | "--unshare-all" | "--share-net" | "--unshare-user"
  | "--unshare-net" | "--unshare-pid" | "--unshare-ipc" | "--unshare-uts" | "--unshare-cgroup"
  | "--clearenv" => some 0
  | "--info-fd" | "--userns-block-fd" | "--unsetenv" | "--proc" | "--dev" | "--tmpfs" | "--chdir" =>
      some 1
  | "--setenv" | "--bind" | "--ro-bind" | "--ro-bind-try" => some 2
  | _ => none

namespace Setup

variable (s : Setup)

def unshare (ns : Namespace) : Setup := { s with unshared := s.unshared ++ [ns] }

def setenv (k v : String) : Setup := { s with env := fun x ↦ if x = k then some v else s.env x }

def mount (source : Source) (dst : String) : Setup :=
  { s with mounts := s.mounts ++ [⟨source, dst⟩] }

/-- An option is applied. -/
def apply : Opt → Setup
  | ("--die-with-parent", []) => { s with dieWithParent := true }
  | ("--new-session", []) => { s with newSession := true }
  | ("--unshare-all", []) => { s with unshared := [.user, .net, .pid, .ipc, .uts, .cgroup] }
  | ("--share-net", []) => { s with unshared := s.unshared.filter (· ≠ .net) }
  | ("--unshare-user", []) => s.unshare .user
  | ("--unshare-net", []) => s.unshare .net
  | ("--unshare-pid", []) => s.unshare .pid
  | ("--unshare-ipc", []) => s.unshare .ipc
  | ("--unshare-uts", []) => s.unshare .uts
  | ("--unshare-cgroup", []) => s.unshare .cgroup
  | ("--clearenv", []) => { s with env := fun _ ↦ none }
  | ("--info-fd", [fd]) => { s with infoFD := some fd }
  | ("--userns-block-fd", [fd]) => { s with usernsBlockFD := some fd }
  | ("--unsetenv", [k]) => { s with env := fun x ↦ if x = k then none else s.env x }
  | ("--proc", [dst]) => s.mount .proc dst
  | ("--dev", [dst]) => s.mount .dev dst
  | ("--tmpfs", [dst]) => s.mount .tmpfs dst
  | ("--chdir", [dir]) => { s with chdir := some dir }
  | ("--setenv", [k, v]) => s.setenv k v
  | ("--bind", [src, dst]) => s.mount (.bind src) dst
  | ("--ro-bind", [src, dst]) => s.mount (.roBind src) dst
  | ("--ro-bind-try", [src, dst]) => s.mount (.roBindTry src) dst
  | _ => s

section Apply

variable {s}

@[simp] theorem apply_dieWithParent :
    s.apply ("--die-with-parent", []) = { s with dieWithParent := true } := rfl

@[simp] theorem apply_newSession : s.apply ("--new-session", []) = { s with newSession := true } :=
  rfl

@[simp] theorem apply_unshareUser : s.apply ("--unshare-user", []) = s.unshare .user := rfl

@[simp] theorem apply_unshareNet : s.apply ("--unshare-net", []) = s.unshare .net := rfl

@[simp] theorem apply_unsharePid : s.apply ("--unshare-pid", []) = s.unshare .pid := rfl

@[simp] theorem apply_unshareIpc : s.apply ("--unshare-ipc", []) = s.unshare .ipc := rfl

@[simp] theorem apply_unshareUts : s.apply ("--unshare-uts", []) = s.unshare .uts := rfl

@[simp] theorem apply_unshareCgroup : s.apply ("--unshare-cgroup", []) = s.unshare .cgroup := rfl

@[simp] theorem apply_clearenv : s.apply ("--clearenv", []) = { s with env := fun _ ↦ none } := rfl

@[simp] theorem apply_infoFD (fd : String) :
    s.apply ("--info-fd", [fd]) = { s with infoFD := some fd } := rfl

@[simp] theorem apply_usernsBlockFD (fd : String) :
    s.apply ("--userns-block-fd", [fd]) = { s with usernsBlockFD := some fd } := rfl

@[simp] theorem apply_proc (dst : String) : s.apply ("--proc", [dst]) = s.mount .proc dst := rfl

@[simp] theorem apply_dev (dst : String) : s.apply ("--dev", [dst]) = s.mount .dev dst := rfl

@[simp] theorem apply_tmpfs (dst : String) : s.apply ("--tmpfs", [dst]) = s.mount .tmpfs dst := rfl

@[simp] theorem apply_chdir (dir : String) :
    s.apply ("--chdir", [dir]) = { s with chdir := some dir } := rfl

@[simp] theorem apply_setenv (k v : String) : s.apply ("--setenv", [k, v]) = s.setenv k v := rfl

@[simp] theorem apply_roBind (src dst : String) :
    s.apply ("--ro-bind", [src, dst]) = s.mount (.roBind src) dst := rfl

@[simp] theorem apply_roBindTry (src dst : String) :
    s.apply ("--ro-bind-try", [src, dst]) = s.mount (.roBindTry src) dst := rfl

end Apply

def applyAll (opts : List Opt) : Setup := opts.foldl apply s

@[simp] theorem applyAll_nil : s.applyAll [] = s := rfl

@[simp] theorem applyAll_cons (o : Opt) (opts : List Opt) :
    s.applyAll (o :: opts) = (s.apply o).applyAll opts := rfl

@[simp] theorem applyAll_append (opts opts' : List Opt) :
    s.applyAll (opts ++ opts') = (s.applyAll opts).applyAll opts' := List.foldl_append

/-- Variables are set one after the other. -/
theorem applyAll_setenv (keys : List String) (value : String → String) :
    s.applyAll (keys.map fun k ↦ ("--setenv", [k, value k])) =
      { s with env := fun x ↦ if x ∈ keys then some (value x) else s.env x } := by
  induction keys generalizing s with
  | nil => simp
  | cons k keys ih =>
      rw [List.map_cons, applyAll_cons, apply_setenv, ih]
      simp only [setenv, mk.injEq, true_and, and_true]
      funext x
      by_cases hx : x ∈ keys
      · simp [hx]
      · by_cases hk : x = k
        · simp [hk]
        · simp [hx, hk]

/-- Mounts are made one after the other. -/
theorem applyAll_mounts {α : Type} {opt : α → Opt} {mounted : α → Mounted}
    (h : ∀ (s : Setup) a, s.apply (opt a) = s.mount (mounted a).source (mounted a).dst)
    (l : List α) : s.applyAll (l.map opt) = { s with mounts := s.mounts ++ l.map mounted } := by
  induction l generalizing s with
  | nil => simp
  | cons a l ih =>
      rw [List.map_cons, applyAll_cons, h, ih]
      simp [mount]

end Setup

/-- The sandbox and the command that arguments of bwrap stand for, run in an environment. -/
def readArgv (env : String → Option String) (argv : List String) : Option (Setup × List String) :=
  (readOptions arity argv).map fun r ↦ ((Setup.start env).applyAll r.1, r.2)

/-- Arguments that were written from options are read back. -/
theorem readArgv_render {opts : List Opt} (h : WellFormed arity opts) (env : String → Option String)
    (cmd : List String) :
    readArgv env (render opts ++ "--" :: cmd) = some ((Setup.start env).applyAll opts, cmd) := by
  rw [readArgv, readOptions_render h]
  rfl

end GigMcp.Sandbox
