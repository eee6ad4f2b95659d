import Mathlib.Data.Finset.Basic
import Mathlib.Data.Finset.Lattice.Lemmas
import Mathlib.Data.Finset.Range
import Mathlib.Logic.Relation

/-!
# Credentials of Linux processes

What the system calls that bear on a process's privileges do: user and group ids, the five
capability sets, `no_new_privs`, seccomp filters and user namespaces, after `credentials(7)`,
`capabilities(7)`, `user_namespaces(7)` and `seccomp(2)`.  A filter sees the number of a call and
its register arguments, and nothing that these point to.

A process is `Locked` when it has no capability, ids that are not root's, `no_new_privs`, and a
filter that keeps it from entering another user namespace.  Whatever it does from then on, it and
every process that descends from it stay so (`Runs.locked`): each rule by which privileges are
gained asks for one that a locked process does not have.
-/

namespace GigMcp.Sandbox.Linux

/-! ## Filters -/

inductive Errno
  | EPERM
  | EINVAL
  | ENOSYS
  | other (number : Nat)
deriving DecidableEq

inductive Action
  | allow
  | errno (e : Errno)
  | killProcess
deriving DecidableEq

/-- A system call as a filter sees it. -/
structure Syscall where
  name : String
  args : List UInt64

/-- Some of the bits of `value` are set in an argument. -/
structure BitsSet where
  argument : Nat
  value : UInt64

def BitsSet.holds (c : BitsSet) (s : Syscall) : Bool := (s.args.getD c.argument 0) &&& c.value ≠ 0

structure NameWithConditions where
  name : String
  conditions : List BitsSet

def NameWithConditions.admits (n : NameWithConditions) (s : Syscall) : Bool :=
  s.name = n.name && n.conditions.all fun c ↦ c.holds s

structure SyscallGroup where
  action : Action
  names : List String
  namesWithConditions : List NameWithConditions

def SyscallGroup.admits (g : SyscallGroup) (s : Syscall) : Bool :=
  g.names.contains s.name || g.namesWithConditions.any fun n ↦ n.admits s

structure Policy where
  defaultAction : Action
  syscalls : List SyscallGroup

/-- The first group that a call belongs to decides. -/
def Policy.action (p : Policy) (s : Syscall) : Action :=
  ((p.syscalls.find? fun g ↦ g.admits s).map SyscallGroup.action).getD p.defaultAction

/-- Of the actions of several filters the strictest one is taken. -/
def verdict (filters : List Policy) (s : Syscall) : Action :=
  let actions := filters.map fun p ↦ p.action s
  if actions.contains .killProcess then .killProcess
  else (actions.find? fun a ↦ a ≠ .allow).getD .allow

theorem verdict_ne_allow {filters : List Policy} {p : Policy} (hp : p ∈ filters) {s : Syscall}
    (h : p.action s ≠ .allow) : verdict filters s ≠ .allow := by
  unfold verdict
  dsimp only
  split
  · exact Action.noConfusion
  · obtain ⟨a, ha⟩ : ∃ a, (filters.map fun p ↦ p.action s).find? (fun a ↦ a ≠ .allow) = some a := by
      rw [← Option.isSome_iff_exists, List.find?_isSome]
      exact ⟨p.action s, List.mem_map_of_mem hp, decide_eq_true h⟩
    have hne := List.find?_some ha
    rw [ha, Option.getD_some]
    exact of_decide_eq_true hne

/-! ## Credentials -/

/-- Capabilities by their numbers. -/
abbrev Caps := Finset Nat

def CAP_SETGID : Nat := 6
def CAP_SETUID : Nat := 7
def CAP_SETPCAP : Nat := 8
def CAP_SYS_ADMIN : Nat := 21

/-- All capabilities of a kernel whose last one is `CAP_CHECKPOINT_RESTORE`. -/
def Caps.all : Caps := Finset.range 41

/-- The real, effective and saved id. -/
structure Ids where
  real : Nat
  effective : Nat
  saved : Nat
deriving DecidableEq

def Ids.has (i : Ids) (n : Nat) : Bool := i.real = n || i.effective = n || i.saved = n

/-- The same id three times. -/
def Ids.only (n : Nat) : Ids := ⟨n, n, n⟩

theorem Ids.eq_of_has_only {n m : Nat} (h : (Ids.only n).has m) : m = n := by
  simp only [has, Bool.or_eq_true, decide_eq_true_eq] at h
  rcases h with (h | h) | h <;> exact h.symm

structure Creds where
  uid : Ids
  gid : Ids
  groups : List Nat
  permitted : Caps
  effective : Caps
  inheritable : Caps
  bounding : Caps
  ambient : Caps
  noNewPrivs : Bool
  filters : List Policy
  userns : Nat

/-- What the file of a program brings along: set-user-ID and set-group-ID bits with the owner and the
group they stand for, and file capabilities. -/
structure Program where
  setuid : Option Nat
  setgid : Option Nat
  permitted : Caps
  inheritable : Caps
  effective : Bool

namespace Creds

variable (c : Creds)

/-- The capabilities after a change of the user ids. -/
def fixup (old : Ids) : Creds :=
  let c := if old.has 0 ∧ ¬ c.uid.has 0 then { c with permitted := ∅, effective := ∅, ambient := ∅ }
    else c
  if old.effective = 0 ∧ c.uid.effective ≠ 0 then { c with effective := ∅ }
  else if old.effective ≠ 0 ∧ c.uid.effective = 0 then { c with effective := c.permitted }
  else c

/-- May take on these ids: with the capability any, otherwise only ids that it has. -/
def mayTake (cap : Nat) (old new : Ids) : Prop :=
  cap ∈ c.effective ∨ (old.has new.real ∧ old.has new.effective ∧ old.has new.saved)

instance (cap : Nat) (old new : Ids) : Decidable (c.mayTake cap old new) :=
  inferInstanceAs (Decidable (_ ∨ _))

def setresuid (ids : Ids) : Except Errno Creds :=
  if c.mayTake CAP_SETUID c.uid ids then .ok ({ c with uid := ids }.fixup c.uid) else .error .EPERM

/-- Without the capability only the effective id is set. -/
def setuid (uid : Nat) : Except Errno Creds :=
  c.setresuid (if CAP_SETUID ∈ c.effective then .only uid else { c.uid with effective := uid })

def setresgid (ids : Ids) : Except Errno Creds :=
  if c.mayTake CAP_SETGID c.gid ids then .ok { c with gid := ids } else .error .EPERM

def setgid (gid : Nat) : Except Errno Creds :=
  c.setresgid (if CAP_SETGID ∈ c.effective then .only gid else { c.gid with effective := gid })

def setgroups (groups : List Nat) : Except Errno Creds :=
  if CAP_SETGID ∈ c.effective then .ok { c with groups := groups } else .error .EPERM

/-- Ambient capabilities are permitted and inheritable ones. -/
def trim : Creds := { c with ambient := c.ambient ∩ (c.permitted ∩ c.inheritable) }

def capset (effective permitted inheritable : Caps) : Except Errno Creds :=
  if effective ⊆ permitted ∧ permitted ⊆ c.permitted ∧ inheritable ⊆ c.inheritable ∪ c.bounding ∧
      (CAP_SETPCAP ∈ c.effective ∨ inheritable ⊆ c.inheritable ∪ c.permitted) then
    .ok { c with effective := effective, permitted := permitted, inheritable := inheritable }.trim
  else .error .EPERM

def capbsetDrop (cap : Nat) : Except Errno Creds :=
  if cap ∉ Caps.all then .error .EINVAL
  else if CAP_SETPCAP ∈ c.effective then .ok { c with bounding := c.bounding.erase cap }
  else .error .EPERM

def ambientRaise (cap : Nat) : Except Errno Creds :=
  if cap ∈ c.permitted ∧ cap ∈ c.inheritable then .ok { c with ambient := insert cap c.ambient }
  else .error .EPERM

/-- A filter may be added by a process that cannot gain privileges by it. -/
def addFilter (p : Policy) : Except Errno Creds :=
  if c.noNewPrivs ∨ CAP_SYS_ADMIN ∈ c.effective then .ok { c with filters := p :: c.filters }
  else .error .EPERM

/-- The first process of a new user namespace has all capabilities there. -/
def enter (userns : Nat) : Creds :=
  { c with
    permitted := .all, effective := .all, inheritable := ∅, bounding := .all, ambient := ∅
    userns := userns }

/-- A new program.  With `no_new_privs` the bits of the file are ignored, and what its capabilities
would add is not. -/
def execve (file : Program) : Creds :=
  let setuid := if c.noNewPrivs then none else file.setuid
  let setgid := if c.noNewPrivs then none else file.setgid
  let euid := setuid.getD c.uid.effective
  let egid := setgid.getD c.gid.effective
  -- a program that root runs counts as one with all capabilities
  let root := c.uid.real = 0 ∨ euid = 0
  let raw := (c.inheritable ∩ if root then .all else file.inheritable) ∪
    (c.bounding ∩ if root then .all else file.permitted)
  let privileged := setuid.isSome ∨ setgid.isSome ∨ file.permitted ≠ ∅ ∨ file.inheritable ≠ ∅
  let ambient := if privileged then ∅ else c.ambient
  let permitted := (if c.noNewPrivs then raw ∩ c.permitted else raw) ∪ ambient
  { c with
    uid := ⟨c.uid.real, euid, euid⟩
    gid := ⟨c.gid.real, egid, egid⟩
    permitted := permitted
    effective := if euid = 0 ∨ file.effective then permitted else ambient
    ambient := ambient }

end Creds

/-! ## Giving privileges up -/

section GivingUp

variable {c c' : Creds}

theorem Creds.eq_of_addFilter {p : Policy} (h : c.addFilter p = .ok c') :
    c' = { c with filters := p :: c.filters } := by
  unfold addFilter at h
  split_ifs at h
  cases h
  rfl

end GivingUp

/-! ## What a process may do -/

def CLONE_NEWUSER : UInt64 := 0x10000000

/-- The system calls that bear on credentials, with what the kernel reads of their arguments.
`userns` is the namespace that is entered, or made. -/
inductive Act
  | fork
  | clone (flags : UInt64) (userns : Nat)
  | /-- The flags are in memory, at the address that is the argument. -/
    clone3 (address flags : UInt64) (userns : Nat)
  | unshare (flags : UInt64) (userns : Nat)
  | setns (fd nstype : UInt64) (userns : Nat)
  | setuid (uid : Nat)
  | setresuid (ids : Ids)
  | setgid (gid : Nat)
  | setresgid (ids : Ids)
  | setgroups (groups : List Nat)
  | capset (effective permitted inheritable : Caps)
  | capbsetDrop (cap : Nat)
  | ambientRaise (cap : Nat)
  | ambientClearAll
  | setNoNewPrivs
  | seccomp (p : Policy)
  | execve (file : Program)
  | exit
  | /-- Any other call. -/
    other (s : Syscall)

/-- The call as a filter sees it. -/
def Act.syscall : Act → Syscall
  | fork => ⟨"fork", []⟩
  | clone flags _ => ⟨"clone", [flags]⟩
  | clone3 address _ _ => ⟨"clone3", [address]⟩
  | unshare flags _ => ⟨"unshare", [flags]⟩
  | setns fd nstype _ => ⟨"setns", [fd, nstype]⟩
  | setuid uid => ⟨"setuid", [uid.toUInt64]⟩
  | setresuid ids => ⟨"setresuid", [ids.real.toUInt64, ids.effective.toUInt64, ids.saved.toUInt64]⟩
  | setgid gid => ⟨"setgid", [gid.toUInt64]⟩
  | setresgid ids => ⟨"setresgid", [ids.real.toUInt64, ids.effective.toUInt64, ids.saved.toUInt64]⟩
  | setgroups groups => ⟨"setgroups", [groups.length.toUInt64]⟩
  | capset _ _ _ => ⟨"capset", []⟩
  | capbsetDrop cap => ⟨"prctl", [24, cap.toUInt64]⟩
  | ambientRaise cap => ⟨"prctl", [47, 2, cap.toUInt64]⟩
  | ambientClearAll => ⟨"prctl", [47, 4]⟩
  | setNoNewPrivs => ⟨"prctl", [38, 1]⟩
  | seccomp _ => ⟨"seccomp", [1]⟩
  | execve _ => ⟨"execve", []⟩
  | exit => ⟨"exit", []⟩
  | other s => s

/-- Asks for a new user namespace. -/
def newUser (flags : UInt64) : Prop := flags &&& CLONE_NEWUSER ≠ 0

instance (flags : UInt64) : Decidable (newUser flags) := inferInstanceAs (Decidable (_ ≠ _))

/-- The processes in the place of a process whose call the kernel has carried out. -/
def Act.done (c : Creds) : Act → Except Errno (List Creds)
  | fork => .ok [c, c]
  | clone flags userns | clone3 _ flags userns =>
      .ok [c, if newUser flags then c.enter userns else c]
  | unshare flags userns => .ok [if newUser flags then c.enter userns else c]
  | setns _ _ userns => .ok [c.enter userns]
  | setuid uid => (c.setuid uid).map fun c ↦ [c]
  | setresuid ids => (c.setresuid ids).map fun c ↦ [c]
  | setgid gid => (c.setgid gid).map fun c ↦ [c]
  | setresgid ids => (c.setresgid ids).map fun c ↦ [c]
  | setgroups groups => (c.setgroups groups).map fun c ↦ [c]
  | capset effective permitted inheritable =>
      (c.capset effective permitted inheritable).map fun c ↦ [c]
  | capbsetDrop cap => (c.capbsetDrop cap).map fun c ↦ [c]
  | ambientRaise cap => (c.ambientRaise cap).map fun c ↦ [c]
  | ambientClearAll => .ok [{ c with ambient := ∅ }]
  | setNoNewPrivs => .ok [{ c with noNewPrivs := true }]
  | seccomp p => (c.addFilter p).map fun c ↦ [c]
  | execve file => .ok [c.execve file]
  | exit => .ok []
  | other _ => .ok [c]

/-- A call with one process in the end. -/
theorem eq_of_map_singleton {x : Except Errno Creds} {cs : List Creds}
    (h : x.map (fun c ↦ [c]) = .ok cs) : ∃ c, x = .ok c ∧ cs = [c] := by
  cases x with
  | error e => cases h
  | ok c =>
      cases h
      exact ⟨c, rfl, rfl⟩

/-- What becomes of a process that makes a call: its filters are asked first, and a call they allow
may still fail. -/
inductive Does (c : Creds) (a : Act) : List Creds → Prop
  | killed : verdict c.filters a.syscall = .killProcess → Does c a []
  | failed : Does c a [c]
  | done {cs : List Creds} : verdict c.filters a.syscall = .allow → a.done c = .ok cs → Does c a cs

/-- A process among others makes a call. -/
inductive Step : List Creds → List Creds → Prop
  | mk {before after : List Creds} {c : Creds} {a : Act} {cs : List Creds} :
      Does c a cs → Step (before ++ c :: after) (before ++ cs ++ after)

/-- The processes that there may be later. -/
abbrev Runs : List Creds → List Creds → Prop := Relation.ReflTransGen Step

/-! ## Locked processes -/

/-- Would enter another user namespace. -/
def Act.EntersUserns : Act → Prop
  | clone flags _ | clone3 _ flags _ | unshare flags _ => newUser flags
  | setns _ _ _ => True
  | _ => False

/-- A filter that lets no call through that would enter another user namespace. -/
def Policy.ClosesUserns (p : Policy) : Prop :=
  ∀ a : Act, a.EntersUserns → p.action a.syscall ≠ .allow

/-- No capability, no ids but these, and no way to either: `no_new_privs` is set, and the filter is
in place. -/
structure Locked (p : Policy) (uid gid : Nat) (groups : List Nat) (userns : Nat) (c : Creds) :
    Prop where
  uid : c.uid = .only uid
  gid : c.gid = .only gid
  groups : c.groups = groups
  permitted : c.permitted = ∅
  effective : c.effective = ∅
  inheritable : c.inheritable = ∅
  ambient : c.ambient = ∅
  noNewPrivs : c.noNewPrivs = true
  filter : p ∈ c.filters
  userns : c.userns = userns

/-- With one id and no capability there is one id to take. -/
theorem Creds.eq_of_mayTake {c : Creds} {cap n : Nat} {ids : Ids} (he : c.effective = ∅)
    (h : c.mayTake cap (.only n) ids) : ids = .only n := by
  rcases h with h | ⟨hreal, heffective, hsaved⟩
  · rw [he] at h
    exact absurd h (Finset.notMem_empty cap)
  · obtain ⟨real, effective, saved⟩ := ids
    rw [Ids.only, Ids.mk.injEq]
    exact ⟨Ids.eq_of_has_only hreal, Ids.eq_of_has_only heffective, Ids.eq_of_has_only hsaved⟩

namespace Locked

variable {p : Policy} {uid gid : Nat} {groups : List Nat} {userns : Nat} {c c' : Creds}

theorem notMem_effective (h : Locked p uid gid groups userns c) (cap : Nat) :
    cap ∉ c.effective := by
  rw [h.effective]
  exact Finset.notMem_empty cap

/-- Without capabilities nothing is left for a change of the ids to fix up. -/
theorem fixup (h : Locked p uid gid groups userns c) (old : Ids) :
    Locked p uid gid groups userns (c.fixup old) := by
  have hcleared : Locked p uid gid groups userns (if old.has 0 ∧ ¬ c.uid.has 0 then
      { c with permitted := ∅, effective := ∅, ambient := ∅ } else c) := by
    split_ifs
    · exact { h with permitted := rfl, effective := rfl, ambient := rfl }
    · exact h
  unfold Creds.fixup
  dsimp only
  generalize (if old.has 0 ∧ ¬ c.uid.has 0 then
    { c with permitted := ∅, effective := ∅, ambient := ∅ } else c) = c₁ at hcleared ⊢
  split_ifs
  · exact { hcleared with effective := rfl }
  · exact { hcleared with effective := hcleared.permitted }
  · exact hcleared

theorem setresuid (h : Locked p uid gid groups userns c) {ids : Ids}
    (hc : c.setresuid ids = .ok c') : Locked p uid gid groups userns c' := by
  unfold Creds.setresuid at hc
  split_ifs at hc with hmay
  rw [h.uid] at hmay
  obtain rfl := Creds.eq_of_mayTake h.effective hmay
  cases hc
  exact { h with uid := rfl : Locked p uid gid groups userns { c with uid := .only uid } }.fixup c.uid

theorem setresgid (h : Locked p uid gid groups userns c) {ids : Ids}
    (hc : c.setresgid ids = .ok c') : Locked p uid gid groups userns c' := by
  unfold Creds.setresgid at hc
  split_ifs at hc with hmay
  rw [h.gid] at hmay
  obtain rfl := Creds.eq_of_mayTake h.effective hmay
  cases hc
  exact { h with gid := rfl }

theorem capset (h : Locked p uid gid groups userns c) {effective permitted inheritable : Caps}
    (hc : c.capset effective permitted inheritable = .ok c') :
    Locked p uid gid groups userns c' := by
  unfold Creds.capset at hc
  split_ifs at hc with hmay
  obtain ⟨heffective, hpermitted, -, hinheritable⟩ := hmay
  have hp : permitted = ∅ := Finset.subset_empty.mp (h.permitted ▸ hpermitted)
  have hi : inheritable = ∅ := by
    have := hinheritable.resolve_left (h.notMem_effective _)
    rwa [h.inheritable, h.permitted, Finset.empty_union, Finset.subset_empty] at this
  cases hc
  exact
    { h with
      permitted := hp
      effective := Finset.subset_empty.mp (hp ▸ heffective)
      inheritable := hi
      ambient := by
        show c.ambient ∩ _ = ∅
        rw [h.ambient, Finset.empty_inter] }

theorem execve (h : Locked p uid gid groups userns c) (file : Program) :
    Locked p uid gid groups userns (c.execve file) := by
  have huid : (c.execve file).uid = .only uid := by
    simp [Creds.execve, h.noNewPrivs, h.uid, Ids.only]
  have hgid : (c.execve file).gid = .only gid := by
    simp [Creds.execve, h.noNewPrivs, h.gid, Ids.only]
  have hambient : (c.execve file).ambient = ∅ := by
    simp [Creds.execve, h.ambient]
  have hpermitted : (c.execve file).permitted = ∅ := by
    simp [Creds.execve, h.noNewPrivs, h.permitted, h.ambient]
  have heffective : (c.execve file).effective = ∅ := by
    simp [Creds.execve, h.noNewPrivs, h.permitted, h.ambient]
  exact
    { h with
      uid := huid
      gid := hgid
      ambient := hambient
      permitted := hpermitted
      effective := heffective }

/-- **Step lemma.**  A call that does not enter another user namespace leaves locked processes. -/
theorem done (h : Locked p uid gid groups userns c) {a : Act} (ha : ¬ a.EntersUserns)
    {cs : List Creds} (hdone : a.done c = .ok cs) :
    ∀ c' ∈ cs, Locked p uid gid groups userns c' := by
  have hmap {x : Except Errno Creds} (hx : ∀ c', x = .ok c' → Locked p uid gid groups userns c')
      (hdone : x.map (fun c ↦ [c]) = .ok cs) : ∀ c' ∈ cs, Locked p uid gid groups userns c' := by
    obtain ⟨c', hc, rfl⟩ := eq_of_map_singleton hdone
    exact List.forall_mem_singleton.mpr (hx c' hc)
  cases a with
  | fork =>
      cases hdone
      simpa using h
  | clone flags userns =>
      cases hdone
      have hflags : ¬ newUser flags := ha
      simpa [hflags] using h
  | clone3 address flags userns =>
      cases hdone
      have hflags : ¬ newUser flags := ha
      simpa [hflags] using h
  | unshare flags userns =>
      cases hdone
      have hflags : ¬ newUser flags := ha
      simpa [hflags] using h
  | setns fd nstype userns => exact absurd trivial ha
  | setuid uid => exact hmap (fun c' hc ↦ h.setresuid hc) hdone
  | setresuid ids => exact hmap (fun c' hc ↦ h.setresuid hc) hdone
  | setgid gid => exact hmap (fun c' hc ↦ h.setresgid hc) hdone
  | setresgid ids => exact hmap (fun c' hc ↦ h.setresgid hc) hdone
  | setgroups groups =>
      refine hmap (fun c' hc ↦ ?_) hdone
      rw [Creds.setgroups, if_neg (h.notMem_effective _)] at hc
      cases hc
  | capset effective permitted inheritable => exact hmap (fun c' hc ↦ h.capset hc) hdone
  | capbsetDrop cap =>
      refine hmap (fun c' hc ↦ ?_) hdone
      unfold Creds.capbsetDrop at hc
      split_ifs at hc with _ hcap
      exact absurd hcap (h.notMem_effective _)
  | ambientRaise cap =>
      refine hmap (fun c' hc ↦ ?_) hdone
      unfold Creds.ambientRaise at hc
      split_ifs at hc with hcap
      rw [h.permitted] at hcap
      exact absurd hcap.1 (Finset.notMem_empty cap)
  | ambientClearAll =>
      cases hdone
      exact List.forall_mem_singleton.mpr { h with ambient := rfl }
  | setNoNewPrivs =>
      cases hdone
      exact List.forall_mem_singleton.mpr { h with noNewPrivs := rfl }
  | seccomp q =>
      refine hmap (fun c' hc ↦ ?_) hdone
      obtain rfl := Creds.eq_of_addFilter hc
      exact { h with filter := List.mem_cons_of_mem q h.filter }
  | execve file =>
      cases hdone
      exact List.forall_mem_singleton.mpr (h.execve file)
  | exit =>
      cases hdone
      exact fun c' hc ↦ absurd hc List.not_mem_nil
  | other s =>
      cases hdone
      exact List.forall_mem_singleton.mpr h

theorem does (hp : p.ClosesUserns) (h : Locked p uid gid groups userns c) {a : Act}
    {cs : List Creds} (hdoes : Does c a cs) : ∀ c' ∈ cs, Locked p uid gid groups userns c' := by
  cases hdoes with
  | killed _ => exact fun c' hc ↦ absurd hc List.not_mem_nil
  | failed => exact List.forall_mem_singleton.mpr h
  | done hallow hdone =>
      refine h.done (fun ha ↦ ?_) hdone
      exact verdict_ne_allow h.filter (hp a ha) hallow

end Locked

/-- **Run lemma.**  Locked processes stay locked, and so do all that come from them. -/
theorem Runs.locked {p : Policy} (hp : p.ClosesUserns) {uid gid : Nat} {groups : List Nat}
    {userns : Nat} {cs cs' : List Creds} (h : ∀ c ∈ cs, Locked p uid gid groups userns c)
    (hruns : Runs cs cs') : ∀ c ∈ cs', Locked p uid gid groups userns c := by
  induction hruns with
  | refl => exact h
  | tail _ hstep ih =>
      cases hstep with
      | @mk before after c a cs hdoes =>
          have hc : Locked p uid gid groups userns c := ih c (by simp)
          intro c' hc'
          rw [List.append_assoc, List.mem_append, List.mem_append] at hc'
          rcases hc' with hc' | hc' | hc'
          · exact ih c' (List.mem_append_left _ hc')
          · exact hc.does hp hdoes c' hc'
          · exact ih c' (List.mem_append_right _ (List.mem_cons_of_mem c hc'))

end GigMcp.Sandbox.Linux
