import GigMcp.Effect.Prog
import Mathlib.Data.Multiset.AddSub
import Mathlib.Data.Multiset.Filter
import Mathlib.Data.Multiset.MapFold

/-!
# Pools of threads

Any number of threads run over one shared state.  Each serves a *job*: it runs
the job's body one call at a time, the calls of different threads interleaving
in any order, and a body that ends with `Sum.inr j` goes on as job `j`.  A call
is atomic, so a lock section is one call; what happens between two calls of one
thread is up to the other threads.

Every thread carries a *record*, a history variable updated from its own calls
and their answers only.  Records are what an invariant of a pool is stated over:
which resource a thread has taken, whether it holds a claim.

The proof rule is `Discipline.good`.  A discipline gives each call a
precondition on the record of the thread making it.  Each body keeps to the
discipline whatever the answers (`Conforms`, one case per node of the program),
each call keeps an invariant over the shared state and the multiset of records,
and then every reachable pool satisfies the invariant.  `Conforms` is a weakest
precondition over records, with the sequencing rule `Conforms.bind` and the rule
of consequence `Conforms.mono`.

A property may hold only while the threads stay out of each other's way.  `StepIf`
restricts the calls by a condition on what the other threads have done so far, and
a `GuardedDiscipline` may use that condition.
-/

universe u

namespace GigMcp.Effect

/-- A thread: the job it serves, what is left of the job's body, and its record. -/
structure Thread (S : Signature) (ρ σ G : Type) where
  /-- The job served. -/
  job : σ
  /-- What is left to run. -/
  cur : Prog S (ρ ⊕ σ)
  /-- What the thread's calls so far amount to. -/
  record : G

/-- A pool: the shared state and the threads over it. -/
structure Pool (S : Signature) (ρ σ G : Type) (W : Type u) where
  /-- The shared state. -/
  shared : W
  /-- The threads, in the order they were started. -/
  threads : List (Thread S ρ σ G)

/-- A system of threads: the reading of the calls, which jobs may arrive, the body
of each job, and how records are kept.  `env` is what the rest of the world may do
to the shared state between two calls. -/
structure System (S : Signature) (ρ σ G : Type) (W : Type u) where
  /-- The reading of the calls. -/
  sem : Sem S W
  /-- The jobs that may arrive. -/
  starts : σ → Prop
  /-- The body of a job. -/
  body : σ → Prog S (ρ ⊕ σ)
  /-- The record a thread starts with. -/
  init : σ → G
  /-- The record after a call. -/
  track : (e : S.Op) → G → S.Res e → G
  /-- Steps of the rest of the world. -/
  env : W → W → Prop

variable {S : Signature} {ρ σ G : Type} {W : Type u}

namespace System

/-- A fresh thread serving `j`. -/
def thread (M : System S ρ σ G W) (j : σ) : Thread S ρ σ G := ⟨j, M.body j, M.init j⟩

/-- One step of a pool. -/
inductive Step (M : System S ρ σ G W) : Pool S ρ σ G W → Pool S ρ σ G W → Prop
  | /-- A job arrives. -/
    start {w : W} {ts : List (Thread S ρ σ G)} (j : σ) (h : M.starts j) :
      Step M ⟨w, ts⟩ ⟨w, ts ++ [M.thread j]⟩
  | /-- Some thread makes its next call. -/
    call {w w' : W} {ts us : List (Thread S ρ σ G)} {j : σ} {e : S.Op}
      {k : S.Res e → Prog S (ρ ⊕ σ)} {g : G} {r : S.Res e} (h : M.sem e w r w') :
      Step M ⟨w, ts ++ ⟨j, .vis e k, g⟩ :: us⟩ ⟨w', ts ++ ⟨j, k r, M.track e g r⟩ :: us⟩
  | /-- Some thread goes on with its next job. -/
    again {w : W} {ts us : List (Thread S ρ σ G)} {j j' : σ} {g : G} :
      Step M ⟨w, ts ++ ⟨j, .ret (.inr j'), g⟩ :: us⟩ ⟨w, ts ++ ⟨j', M.body j', g⟩ :: us⟩
  | /-- The rest of the world moves. -/
    env {w w' : W} {ts : List (Thread S ρ σ G)} (h : M.env w w') : Step M ⟨w, ts⟩ ⟨w', ts⟩

/-- Any number of steps. -/
abbrev Reach (M : System S ρ σ G W) := Relation.ReflTransGen (Step M)

end System

/-- A condition on a call: the job and the record of the thread that makes it, the
shared state, and the jobs and records of the other threads. -/
abbrev Guard (S : Signature) (σ G : Type) (W : Type u) :=
  σ → S.Op → G → W → Multiset (σ × G) → Prop

/-- A thread has finished when it has a result. -/
def Thread.Finished (t : Thread S ρ σ G) : Prop := ∃ a : ρ, t.cur = .ret (.inl a)

instance Thread.instDecidableFinished (t : Thread S ρ σ G) : Decidable t.Finished :=
  match h : t.cur with
  | .ret (.inl a) => isTrue ⟨a, h⟩
  | .ret (.inr _) => isFalse fun ⟨_, hb⟩ ↦ nomatch h.symm.trans hb
  | .vis .. => isFalse fun ⟨_, hb⟩ ↦ nomatch h.symm.trans hb

/-- The jobs and records of a pool's threads. -/
def Pool.records (c : Pool S ρ σ G W) : Multiset (σ × G) :=
  (c.threads.map fun t ↦ (t.job, t.record) : List (σ × G))

/-- The records of a pool, one thread singled out. -/
theorem Pool.records_split (w : W) (ts us : List (Thread S ρ σ G)) (t : Thread S ρ σ G) :
    (⟨w, ts ++ t :: us⟩ : Pool S ρ σ G W).records =
      (t.job, t.record) ::ₘ (⟨w, ts ++ us⟩ : Pool S ρ σ G W).records := by
  simp only [Pool.records, List.map_append, List.map_cons, Multiset.cons_coe,
    Multiset.coe_eq_coe]
  exact List.perm_middle

/-- A thread's job and record are among those of its pool. -/
theorem Pool.mem_records {c : Pool S ρ σ G W} {t : Thread S ρ σ G} (ht : t ∈ c.threads) :
    (t.job, t.record) ∈ c.records :=
  Multiset.mem_coe.mpr (List.mem_map.mpr ⟨t, ht, rfl⟩)

/-- What the records of a pool have of something. -/
def having {β : Type} (f : G → Option β) (gs : Multiset (σ × G)) : Multiset β :=
  gs.filterMap fun t ↦ f t.2

section Having

variable {β : Type} {f : G → Option β} {t : σ × G} {gs : Multiset (σ × G)}

theorem having_cons : having f (t ::ₘ gs) = (f t.2).elim (having f gs) (· ::ₘ having f gs) := by
  cases hf : f t.2 with
  | none => exact Multiset.filterMap_cons_none _ _ hf
  | some b => exact Multiset.filterMap_cons_some _ _ _ hf

theorem having_cons_add :
    having f (t ::ₘ gs) = ((f t.2).toList : Multiset β) + having f gs := by
  rw [having_cons]
  cases f t.2 with
  | none => exact (Multiset.zero_add _).symm
  | some b => exact (Multiset.singleton_add b _).symm

theorem mem_having {b : β} : b ∈ having f gs ↔ ∃ t ∈ gs, f t.2 = some b :=
  Multiset.mem_filterMap _ _

theorem count_having_cons [DecidableEq β] (b : β) :
    (having f (t ::ₘ gs)).count b = (having f gs).count b + if f t.2 = some b then 1 else 0 := by
  rw [having_cons]
  cases f t.2 with
  | none => rfl
  | some a =>
      simp only [Option.elim_some, Multiset.count_cons, Option.some.injEq, eq_comm]

/-- A record that has as much as before. -/
theorem having_cons_congr {t' : σ × G} (h : f t'.2 = f t.2) :
    having f (t' ::ₘ gs) = having f (t ::ₘ gs) := by
  rw [having_cons, having_cons, h]

end Having

namespace System

/-- One step of a pool whose calls meet a condition. -/
inductive StepIf (M : System S ρ σ G W) (ok : Guard S σ G W) :
    Pool S ρ σ G W → Pool S ρ σ G W → Prop
  | /-- A job arrives. -/
    start {w : W} {ts : List (Thread S ρ σ G)} (j : σ) (h : M.starts j) :
      StepIf M ok ⟨w, ts⟩ ⟨w, ts ++ [M.thread j]⟩
  | /-- Some thread makes its next call. -/
    call {w w' : W} {ts us : List (Thread S ρ σ G)} {j : σ} {e : S.Op}
      {k : S.Res e → Prog S (ρ ⊕ σ)} {g : G} {r : S.Res e} (h : M.sem e w r w')
      (hok : ok j e g w (⟨w, ts ++ us⟩ : Pool S ρ σ G W).records) :
      StepIf M ok ⟨w, ts ++ ⟨j, .vis e k, g⟩ :: us⟩ ⟨w', ts ++ ⟨j, k r, M.track e g r⟩ :: us⟩
  | /-- Some thread goes on with its next job. -/
    again {w : W} {ts us : List (Thread S ρ σ G)} {j j' : σ} {g : G} :
      StepIf M ok ⟨w, ts ++ ⟨j, .ret (.inr j'), g⟩ :: us⟩ ⟨w, ts ++ ⟨j', M.body j', g⟩ :: us⟩
  | /-- The rest of the world moves. -/
    env {w w' : W} {ts : List (Thread S ρ σ G)} (h : M.env w w') : StepIf M ok ⟨w, ts⟩ ⟨w', ts⟩

/-- Any number of steps whose calls meet a condition. -/
abbrev ReachIf (M : System S ρ σ G W) (ok : Guard S σ G W) := Relation.ReflTransGen (M.StepIf ok)

/-- The shared state outlives the threads: at any point they may all be gone, and a pool
without threads goes on from there. -/
abbrev Restarts (M : System S ρ σ G W) (ok : Guard S σ G W) : W → W → Prop :=
  Relation.ReflTransGen fun w w' ↦ ∃ ts, M.ReachIf ok ⟨w, []⟩ ⟨w', ts⟩

theorem Step.stepIf {M : System S ρ σ G W} {c c' : Pool S ρ σ G W} (h : M.Step c c') :
    M.StepIf (fun _ _ _ _ _ ↦ True) c c' := by
  cases h with
  | start j h => exact .start j h
  | call h => exact .call h trivial
  | again => exact .again
  | env h => exact .env h

end System

/-- The call a thread makes next meets a condition. -/
def Thread.Meets (ok : Guard S σ G W) (w : W) (t : Thread S ρ σ G)
    (others : List (Thread S ρ σ G)) : Prop :=
  match t with
  | ⟨j, .vis e _, g⟩ => ok j e g w (⟨w, others⟩ : Pool S ρ σ G W).records
  | _ => True

/-! ## Disciplines -/

section Conforms

variable {α β : Type} {track : (e : S.Op) → G → S.Res e → G} {pre pre' : S.Op → G → Prop}
  {g : G}

/-- A program keeps to a discipline from a record on: each call's precondition
holds when it is made, and the final record fits the result. -/
def Conforms (track : (e : S.Op) → G → S.Res e → G) (pre : S.Op → G → Prop)
    (fin : α → G → Prop) : Prog S α → G → Prop
  | .ret a, g => fin a g
  | .vis e k, g => pre e g ∧ ∀ r, Conforms track pre fin (k r) (track e g r)

@[simp] theorem conforms_ret {fin : α → G → Prop} {a : α} :
    Conforms track pre fin (Prog.ret a) g ↔ fin a g := Iff.rfl

@[simp] theorem conforms_call {fin : α → G → Prop} {e : S.Op} {f : S.Res e → Prog S α} :
    Conforms track pre fin (Prog.call e >>= f) g ↔
      pre e g ∧ ∀ r, Conforms track pre fin (f r) (track e g r) := Iff.rfl

/-- The sequencing rule. -/
theorem Conforms.bind {mid : α → G → Prop} {fin : β → G → Prop} {p : Prog S α}
    {f : α → Prog S β} (hp : Conforms track pre mid p g)
    (hf : ∀ a g', mid a g' → Conforms track pre fin (f a) g') :
    Conforms track pre fin (p >>= f) g := by
  induction p generalizing g with
  | ret a => exact hf a g hp
  | vis e k ih => exact ⟨hp.1, fun r ↦ ih r (hp.2 r)⟩

/-- The rule of consequence. -/
theorem Conforms.mono {fin fin' : α → G → Prop} (hpre : ∀ e g, pre e g → pre' e g)
    (hfin : ∀ a g, fin a g → fin' a g) {p : Prog S α} (hp : Conforms track pre fin p g) :
    Conforms track pre' fin' p g := by
  induction p generalizing g with
  | ret a => exact hfin a g hp
  | vis e k ih => exact ⟨hpre e g hp.1, fun r ↦ ih r (hp.2 r)⟩

/-- A program whose calls are all permitted in a record and leave it alone. -/
theorem Conforms.of_all_at {p : Prog S α}
    (hp : All (fun e ↦ pre e g ∧ ∀ r, track e g r = g) p) :
    Conforms track pre (fun _ g' ↦ g' = g) p g := by
  induction p with
  | ret a => rfl
  | vis e k ih =>
      refine ⟨hp.1.1, fun r ↦ ?_⟩
      rw [hp.1.2]
      exact ih r (hp.2 r)

/-- The same in any record. -/
theorem Conforms.of_all {p : Prog S α}
    (hp : All (fun e ↦ (∀ g, pre e g) ∧ ∀ g r, track e g r = g) p) :
    Conforms track pre (fun _ g' ↦ g' = g) p g :=
  .of_all_at (hp.mono fun _ he ↦ ⟨he.1 g, he.2 g⟩)

/-- A program whose calls are permitted in any record. -/
theorem Conforms.of_all_pre {P : S.Op → Prop} (hpre : ∀ e g, P e → pre e g) {p : Prog S α}
    (hp : All P p) : Conforms track pre (fun _ _ ↦ True) p g := by
  induction p generalizing g with
  | ret a => trivial
  | vis e k ih => exact ⟨hpre e g hp.1, fun r ↦ ih r (hp.2 r)⟩

/-- A program over the first of two signatures keeps to what the discipline says of its
calls. -/
theorem Conforms.left {T : Signature} {track : (e : (S.sum T).Op) → G → (S.sum T).Res e → G}
    {pre : (S.sum T).Op → G → Prop} {fin : α → G → Prop} {p : Prog S α}
    (hp : Conforms (fun e ↦ track (.inl e)) (fun e ↦ pre (.inl e)) fin p g) :
    Conforms track pre fin p.left g := by
  induction p generalizing g with
  | ret a => exact hp
  | vis e k ih => exact ⟨hp.1, fun r ↦ ih r (hp.2 r)⟩

end Conforms

/-- A discipline for a system whose calls meet a condition: what a job may call in which
record, which record it may end with, and an invariant every step keeps. -/
structure GuardedDiscipline (M : System S ρ σ G W) (ok : Guard S σ G W) where
  /-- When a job may make a call. -/
  pre : σ → S.Op → G → Prop
  /-- How a job may end. -/
  fin : σ → ρ ⊕ σ → G → Prop
  /-- The invariant. -/
  Inv : W → Multiset (σ × G) → Prop
  /-- The bodies of arriving jobs keep to the discipline. -/
  body_conforms : ∀ j, M.starts j → Conforms M.track (pre j) (fin j) (M.body j) (M.init j)
  /-- So do the bodies of jobs a thread goes on with. -/
  again_conforms : ∀ w gs j j' g, Inv w ((j, g) ::ₘ gs) → fin j (.inr j') g →
    Conforms M.track (pre j') (fin j') (M.body j') g
  /-- A new job keeps the invariant. -/
  inv_start : ∀ w gs j, M.starts j → Inv w gs → Inv w ((j, M.init j) ::ₘ gs)
  /-- A call that meets the condition keeps the invariant. -/
  inv_call : ∀ w gs j g e r w', Inv w ((j, g) ::ₘ gs) → pre j e g → ok j e g w gs →
    M.sem e w r w' → Inv w' ((j, M.track e g r) ::ₘ gs)
  /-- Going on with another job keeps the invariant. -/
  inv_again : ∀ w gs j j' g, Inv w ((j, g) ::ₘ gs) → fin j (.inr j') g →
    Inv w ((j', g) ::ₘ gs)
  /-- The rest of the world keeps the invariant. -/
  inv_env : ∀ w gs w', Inv w gs → M.env w w' → Inv w' gs

namespace GuardedDiscipline

variable {M : System S ρ σ G W} {ok : Guard S σ G W}

/-- A pool follows a discipline: its threads keep to it and the invariant holds. -/
structure Good (D : GuardedDiscipline M ok) (c : Pool S ρ σ G W) : Prop where
  /-- Every thread keeps to the discipline. -/
  conforms : ∀ t ∈ c.threads, Conforms M.track (D.pre t.job) (D.fin t.job) t.cur t.record
  /-- The invariant holds. -/
  inv : D.Inv c.shared c.records

/-- **Step lemma.**  A step of the pool keeps to the discipline. -/
theorem Good.step {D : GuardedDiscipline M ok} {c c' : Pool S ρ σ G W} (hc : D.Good c)
    (h : M.StepIf ok c c') : D.Good c' := by
  obtain ⟨hconf, hinv⟩ := hc
  cases h with
  | @start w ts j hj =>
      refine ⟨fun t ht ↦ ?_, ?_⟩
      · rcases List.mem_append.mp ht with ht | ht
        · exact hconf t ht
        · obtain rfl := List.mem_singleton.mp ht
          exact D.body_conforms j hj
      · rw [Pool.records_split, List.append_nil]
        exact D.inv_start _ _ _ hj hinv
  | @call w w' ts us j e k g r h hok =>
      have hme := hconf ⟨j, .vis e k, g⟩ (by simp)
      refine ⟨fun t ht ↦ ?_, ?_⟩
      · rcases List.mem_append.mp ht with ht | ht
        · exact hconf t (by simp [ht])
        · rcases List.mem_cons.mp ht with rfl | ht
          · exact hme.2 r
          · exact hconf t (by simp [ht])
      · rw [Pool.records_split] at hinv ⊢
        exact D.inv_call _ _ _ _ _ _ _ hinv hme.1 hok h
  | @again w ts us j j' g =>
      have hme := hconf ⟨j, .ret (.inr j'), g⟩ (by simp)
      rw [Pool.records_split] at hinv
      refine ⟨fun t ht ↦ ?_, ?_⟩
      · rcases List.mem_append.mp ht with ht | ht
        · exact hconf t (by simp [ht])
        · rcases List.mem_cons.mp ht with rfl | ht
          · exact D.again_conforms _ _ _ _ _ hinv hme
          · exact hconf t (by simp [ht])
      · rw [Pool.records_split]
        exact D.inv_again _ _ _ _ _ hinv hme
  | env h => exact ⟨hconf, D.inv_env _ _ _ hinv h⟩

/-- **Run lemma.**  Every pool reachable from one that follows a discipline
follows it. -/
theorem good (D : GuardedDiscipline M ok) {c c' : Pool S ρ σ G W} (hc : D.Good c)
    (h : M.ReachIf ok c c') : D.Good c' := by
  induction h with
  | refl => exact hc
  | tail _ hstep ih => exact ih.step hstep

/-- A pool without threads follows a discipline as soon as the invariant holds. -/
theorem good_nil (D : GuardedDiscipline M ok) {w : W} (h : D.Inv w 0) : D.Good ⟨w, []⟩ :=
  ⟨fun _ ht ↦ absurd ht (by simp), h⟩

/-- An invariant that survives the loss of the threads holds across restarts. -/
theorem restarts (D : GuardedDiscipline M ok) (hlose : ∀ w gs, D.Inv w gs → D.Inv w 0) {w w' : W}
    (hw : D.Inv w 0) (h : M.Restarts ok w w') : D.Inv w' 0 := by
  induction h with
  | refl => exact hw
  | tail _ hlife ih =>
      obtain ⟨ts, hreach⟩ := hlife
      exact hlose _ _ (D.good (D.good_nil ih) hreach).inv

end GuardedDiscipline

/-- A discipline for a system: what a job may call in which record, which record
it may end with, and an invariant every step keeps. -/
structure Discipline (M : System S ρ σ G W) where
  /-- When a job may make a call. -/
  pre : σ → S.Op → G → Prop
  /-- How a job may end. -/
  fin : σ → ρ ⊕ σ → G → Prop
  /-- The invariant. -/
  Inv : W → Multiset (σ × G) → Prop
  /-- The bodies of arriving jobs keep to the discipline. -/
  body_conforms : ∀ j, M.starts j → Conforms M.track (pre j) (fin j) (M.body j) (M.init j)
  /-- So do the bodies of jobs a thread goes on with. -/
  again_conforms : ∀ w gs j j' g, Inv w ((j, g) ::ₘ gs) → fin j (.inr j') g →
    Conforms M.track (pre j') (fin j') (M.body j') g
  /-- A new job keeps the invariant. -/
  inv_start : ∀ w gs j, M.starts j → Inv w gs → Inv w ((j, M.init j) ::ₘ gs)
  /-- A call keeps the invariant. -/
  inv_call : ∀ w gs j g e r w', Inv w ((j, g) ::ₘ gs) → pre j e g → M.sem e w r w' →
    Inv w' ((j, M.track e g r) ::ₘ gs)
  /-- Going on with another job keeps the invariant. -/
  inv_again : ∀ w gs j j' g, Inv w ((j, g) ::ₘ gs) → fin j (.inr j') g →
    Inv w ((j', g) ::ₘ gs)
  /-- The rest of the world keeps the invariant. -/
  inv_env : ∀ w gs w', Inv w gs → M.env w w' → Inv w' gs

namespace Discipline

variable {M : System S ρ σ G W}

/-- A discipline that asks for no condition. -/
def guarded (D : Discipline M) : GuardedDiscipline M (fun _ _ _ _ _ ↦ True) where
  pre := D.pre
  fin := D.fin
  Inv := D.Inv
  body_conforms := D.body_conforms
  again_conforms := D.again_conforms
  inv_start := D.inv_start
  inv_call := fun w gs j g e r w' hinv hpre _ h ↦ D.inv_call w gs j g e r w' hinv hpre h
  inv_again := D.inv_again
  inv_env := D.inv_env

/-- A pool follows a discipline: its threads keep to it and the invariant holds. -/
structure Good (D : Discipline M) (c : Pool S ρ σ G W) : Prop where
  /-- Every thread keeps to the discipline. -/
  conforms : ∀ t ∈ c.threads, Conforms M.track (D.pre t.job) (D.fin t.job) t.cur t.record
  /-- The invariant holds. -/
  inv : D.Inv c.shared c.records

/-- **Step lemma.**  A step of the pool keeps to the discipline. -/
theorem Good.step {D : Discipline M} {c c' : Pool S ρ σ G W} (hc : D.Good c)
    (h : M.Step c c') : D.Good c' := by
  have hguarded : D.guarded.Good c := ⟨hc.conforms, hc.inv⟩
  obtain ⟨hconf, hinv⟩ := hguarded.step h.stepIf
  exact ⟨hconf, hinv⟩

/-- **Run lemma.**  Every pool reachable from one that follows a discipline
follows it. -/
theorem good (D : Discipline M) {c c' : Pool S ρ σ G W} (hc : D.Good c)
    (h : M.Reach c c') : D.Good c' := by
  induction h with
  | refl => exact hc
  | tail _ hstep ih => exact ih.step hstep

/-- A pool without threads follows a discipline as soon as the invariant holds. -/
theorem good_nil (D : Discipline M) {w : W} (h : D.Inv w 0) : D.Good ⟨w, []⟩ :=
  ⟨fun _ ht ↦ absurd ht (by simp), h⟩

end Discipline

/-! ## Stretches of one thread -/

/-- The reading of the calls of a thread that keeps its record. -/
def System.tracked (M : System S ρ σ G W) : Sem S (W × G) := fun e x r y ↦
  M.sem e x.1 r y.1 ∧ y.2 = M.track e x.2 r

/-- A thread may run a part of its body without the others. -/
theorem System.reach_exec {M : System S ρ σ G W} {α : Type} {p : Prog S α}
    {f : α → Prog S (ρ ⊕ σ)} {a : α} {x y : W × G} (hx : Exec M.tracked p x a y)
    (ts us : List (Thread S ρ σ G)) (j : σ) :
    M.Reach ⟨x.1, ts ++ ⟨j, p >>= f, x.2⟩ :: us⟩ ⟨y.1, ts ++ ⟨j, f a, y.2⟩ :: us⟩ := by
  induction p generalizing x with
  | ret b =>
      obtain ⟨rfl, rfl⟩ := hx
      exact .refl
  | vis e k ih =>
      obtain ⟨r, z, ⟨hr, hz⟩, hx⟩ := hx
      refine .head (.call hr) ?_
      rw [← hz]
      exact ih r hx

/-! ## Schedules

A schedule says which thread moves when, and a handler answers the calls, so a
particular run of a pool can be computed. -/

/-- One move of a schedule. -/
inductive Move (σ : Type)
  | /-- Start a job. -/
    start (j : σ)
  | /-- Let the `i`-th thread make its next step. -/
    step (i : Nat)

namespace System

variable (M : System S ρ σ G W) (h : (e : S.Op) → W → Option (S.Res e × W))

/-- The pool after a thread has made its next step, the threads around it given.
A finished thread, and a call the handler does not answer, leave the pool as it
is. -/
def stepThread (w : W) (ts : List (Thread S ρ σ G)) (t : Thread S ρ σ G)
    (us : List (Thread S ρ σ G)) : Pool S ρ σ G W :=
  match t with
  | ⟨j, .vis e k, g⟩ =>
      match h e w with
      | some (r, w') => ⟨w', ts ++ ⟨j, k r, M.track e g r⟩ :: us⟩
      | none => ⟨w, ts ++ ⟨j, .vis e k, g⟩ :: us⟩
  | ⟨_, .ret (.inr j'), g⟩ => ⟨w, ts ++ ⟨j', M.body j', g⟩ :: us⟩
  | ⟨j, .ret (.inl a), g⟩ => ⟨w, ts ++ ⟨j, .ret (.inl a), g⟩ :: us⟩

/-- The pool after one move. -/
def move (c : Pool S ρ σ G W) : Move σ → Pool S ρ σ G W
  | .start j => ⟨c.shared, c.threads ++ [M.thread j]⟩
  | .step i =>
      match c.threads.drop i with
      | [] => c
      | t :: us => M.stepThread h c.shared (c.threads.take i) t us

/-- The pool after a schedule. -/
def play (c : Pool S ρ σ G W) (s : List (Move σ)) : Pool S ρ σ G W := s.foldl (M.move h) c

variable {M h}

/-- The calls along a schedule meet a condition. -/
def Meets (M : System S ρ σ G W) (h : (e : S.Op) → W → Option (S.Res e × W))
    (ok : Guard S σ G W) (c : Pool S ρ σ G W) : List (Move σ) → Prop
  | [] => True
  | m :: s =>
      (match m with
        | .start _ => True
        | .step i =>
            match c.threads.drop i with
            | [] => True
            | t :: us => Thread.Meets ok c.shared t (c.threads.take i ++ us)) ∧
      Meets M h ok (M.move h c m) s

theorem reachIf_stepThread {ok : Guard S σ G W}
    (hM : ∀ e w r w', h e w = some (r, w') → M.sem e w r w') (w : W)
    (ts : List (Thread S ρ σ G)) (t : Thread S ρ σ G) (us : List (Thread S ρ σ G))
    (hok : Thread.Meets ok w t (ts ++ us)) :
    M.ReachIf ok ⟨w, ts ++ t :: us⟩ (M.stepThread h w ts t us) := by
  obtain ⟨j, p, g⟩ := t
  cases p with
  | ret a =>
      cases a with
      | inl a => exact .refl
      | inr j' => exact .single .again
  | vis e k =>
      simp only [stepThread]
      cases he : h e w with
      | none => exact .refl
      | some p =>
          obtain ⟨r, w'⟩ := p
          exact .single (.call (hM e w r w' he) hok)

/-- Playing a schedule with a handler that gives permitted answers is a run. -/
theorem reachIf_play {ok : Guard S σ G W}
    (hM : ∀ e w r w', h e w = some (r, w') → M.sem e w r w') {s : List (Move σ)}
    (hs : ∀ j, .start j ∈ s → M.starts j) (c : Pool S ρ σ G W) (hok : Meets M h ok c s) :
    M.ReachIf ok c (M.play h c s) := by
  induction s generalizing c with
  | nil => exact .refl
  | cons m s ih =>
      refine .trans ?_ (ih (fun j hj ↦ hs j (.tail _ hj)) _ hok.2)
      have hok := hok.1
      cases m with
      | start j => exact .single (.start j (hs j (.head _)))
      | step i =>
          obtain ⟨w, ts⟩ := c
          simp only [move] at hok ⊢
          split
          · exact .refl
          · rename_i t us hd
            have hts : ts = ts.take i ++ t :: us := by
              rw [← hd, List.take_append_drop]
            rw [hd] at hok
            conv => arg 2; rw [hts]
            exact reachIf_stepThread hM _ _ _ _ hok

theorem StepIf.step {ok : Guard S σ G W} {c c' : Pool S ρ σ G W} (hstep : M.StepIf ok c c') :
    M.Step c c' := by
  cases hstep with
  | start j h => exact .start j h
  | call h _ => exact .call h
  | again => exact .again
  | env h => exact .env h

theorem meets_true (c : Pool S ρ σ G W) (s : List (Move σ)) :
    Meets M h (fun _ _ _ _ _ ↦ True) c s := by
  induction s generalizing c with
  | nil => trivial
  | cons m s ih =>
      refine ⟨?_, ih _⟩
      cases m with
      | start j => trivial
      | step i =>
          show match c.threads.drop i with | [] => True | t :: us => Thread.Meets _ _ t _
          split
          · trivial
          · unfold Thread.Meets
            split <;> trivial

/-- The same without a condition. -/
theorem reach_play (hM : ∀ e w r w', h e w = some (r, w') → M.sem e w r w')
    {s : List (Move σ)} (hs : ∀ j, .start j ∈ s → M.starts j) (c : Pool S ρ σ G W) :
    M.Reach c (M.play h c s) :=
  Relation.ReflTransGen.mono (fun _ _ ↦ StepIf.step) _ _ (reachIf_play hM hs c (meets_true c s))

end System

end GigMcp.Effect
