import Mathlib.Logic.Relation
import Mathlib.Tactic.Common

/-!
# Programs over an effect signature

Code that talks to a database, a clock, a vault or another process is written
here as a *program*: a finite tree whose nodes are calls and whose branches are
the answers a call may get.  The tree fixes what the code does with each answer
and says nothing about which answers occur, so one program text serves every
reading of the outside world: a healthy store, a store whose calls may fail, a
store other requests write to between two calls.

A reading is a `Sem`, a relation between a call, the state before it, the answer
and the state after.  `Exec` is the big-step semantics it induces, `wp` the
matching weakest precondition, `All` the predicate "every call the program can
make satisfies `P`", and `run` the executable semantics of a handler.

Loops do not live in the tree.  As in the theory of iteration, a loop body is a
program returning a value of `ρ ⊕ σ`: `Sum.inl` is a result and `Sum.inr` is a
recursive call.
-/

universe u

namespace GigMcp.Effect

/-- An effect signature: the calls a program may make, and for each call the
type of its answers. -/
structure Signature where
  /-- The calls. -/
  Op : Type
  /-- The answers to a call. -/
  Res : Op → Type

/-- A program over `S` returning an `α`: a value, or a call together with what
to do with each of its answers. -/
inductive Prog (S : Signature) (α : Type) : Type
  | /-- Stop with a value. -/
    ret (a : α) : Prog S α
  | /-- Make a call and go on with its answer. -/
    vis (e : S.Op) (k : S.Res e → Prog S α) : Prog S α

namespace Prog

variable {S : Signature} {α β γ : Type}

/-- Sequencing: graft `f` onto the leaves of a program. -/
def bind : Prog S α → (α → Prog S β) → Prog S β
  | .ret a, f => f a
  | .vis e k, f => .vis e fun r ↦ bind (k r) f

instance instMonad : Monad (Prog S) where
  pure := Prog.ret
  bind := Prog.bind

/-- The program that makes one call and returns its answer. -/
def call (e : S.Op) : Prog S (S.Res e) := .vis e .ret

@[simp] theorem ret_bind (a : α) (f : α → Prog S β) : (Prog.ret a >>= f) = f a := rfl

@[simp] theorem vis_bind (e : S.Op) (k : S.Res e → Prog S α) (f : α → Prog S β) :
    (Prog.vis e k >>= f) = .vis e fun r ↦ k r >>= f := rfl

/-- Grafting leaves onto themselves changes nothing. -/
theorem bind_ret (p : Prog S α) : (p >>= Prog.ret) = p := by
  induction p with
  | ret a => rfl
  | vis e k ih =>
      rw [vis_bind]
      exact congrArg (Prog.vis e) (funext ih)

/-- Sequencing is associative. -/
theorem bind_assoc' (p : Prog S α) (f : α → Prog S β) (g : β → Prog S γ) :
    (p >>= f >>= g) = p >>= fun a ↦ f a >>= g := by
  induction p with
  | ret a => rfl
  | vis e k ih =>
      simp only [vis_bind]
      exact congrArg (Prog.vis e) (funext ih)

/-- Programs form a lawful monad. -/
instance instLawfulMonad : LawfulMonad (Prog S) :=
  LawfulMonad.mk' (Prog S) (fun p ↦ bind_ret p) (fun _ _ ↦ rfl) bind_assoc'

/-- Run a program for each entry of a list, in order, collecting the results. -/
def each (f : α → Prog S β) : List α → Prog S (List β)
  | [] => .ret []
  | a :: as => do
      let b ← f a
      let bs ← each f as
      return b :: bs

end Prog

/-! ## Two signatures at once -/

/-- The calls of two signatures. -/
@[reducible] def Signature.sum (S T : Signature) : Signature where
  Op := S.Op ⊕ T.Op
  Res
    | .inl e => S.Res e
    | .inr e => T.Res e

/-- A program over the first of two signatures. -/
def Prog.left {S T : Signature} {α : Type} : Prog S α → Prog (S.sum T) α
  | .ret a => .ret a
  | .vis e k => .vis (.inl e) fun r ↦ (k r).left

/-- A call of the second of two signatures. -/
def Prog.right {S T : Signature} (e : T.Op) : Prog (S.sum T) (T.Res e) :=
  Prog.call (S := S.sum T) (.inr e)

/-- A reading of the calls: which answers a call may get in a state, and which
states it may leave behind. -/
abbrev Sem (S : Signature) (W : Type u) := (e : S.Op) → W → S.Res e → W → Prop

section Semantics

variable {S : Signature} {α β : Type} {W : Type u} {R R' : Sem S W}

/-- Big-step execution: `Exec R p w a w'` when `p`, started in `w`, can return
`a` and leave `w'`. -/
def Exec (R : Sem S W) : Prog S α → W → α → W → Prop
  | .ret a, w, b, w' => b = a ∧ w' = w
  | .vis e k, w, b, w' => ∃ r w₁, R e w r w₁ ∧ Exec R (k r) w₁ b w'

@[simp] theorem exec_ret {a b : α} {w w' : W} :
    Exec R (Prog.ret a) w b w' ↔ b = a ∧ w' = w := Iff.rfl

@[simp] theorem exec_vis {e : S.Op} {k : S.Res e → Prog S α} {w w' : W} {b : α} :
    Exec R (Prog.vis e k) w b w' ↔ ∃ r w₁, R e w r w₁ ∧ Exec R (k r) w₁ b w' := Iff.rfl

/-- An execution of a sequence is an execution of each part in turn. -/
theorem exec_bind {p : Prog S α} {f : α → Prog S β} {w w' : W} {b : β} :
    Exec R (p >>= f) w b w' ↔ ∃ a w₁, Exec R p w a w₁ ∧ Exec R (f a) w₁ b w' := by
  induction p generalizing w with
  | ret a => simp
  | vis e k ih =>
      simp only [Prog.vis_bind, exec_vis, ih]
      constructor
      · rintro ⟨r, w₁, hr, a, w₂, h₁, h₂⟩
        exact ⟨a, w₂, ⟨r, w₁, hr, h₁⟩, h₂⟩
      · rintro ⟨a, w₂, ⟨r, w₁, hr, h₁⟩, h₂⟩
        exact ⟨r, w₁, hr, a, w₂, h₁, h₂⟩

@[simp] theorem exec_call {e : S.Op} {f : S.Res e → Prog S α} {w w' : W} {b : α} :
    Exec R (Prog.call e >>= f) w b w' ↔ ∃ r w₁, R e w r w₁ ∧ Exec R (f r) w₁ b w' := Iff.rfl

@[simp] theorem exec_call_iff {e : S.Op} {w w' : W} {r : S.Res e} :
    Exec R (Prog.call e) w r w' ↔ R e w r w' := by
  constructor
  · rintro ⟨r, w₁, hr, rfl, rfl⟩
    exact hr
  · exact fun h ↦ ⟨r, w', h, rfl, rfl⟩

/-- A sequence with a result that it does not have when its first part fails: the first
part succeeded. -/
theorem exec_ok {ε : Type} {p : Prog S (Except ε α)} {f : Except ε α → Prog S β}
    {w w' : W} {b : β} (hx : Exec R (p >>= f) w b w')
    (hf : ∀ e w₁, ¬ Exec R (f (.error e)) w₁ b w') :
    ∃ a w₁, Exec R p w (.ok a) w₁ ∧ Exec R (f (.ok a)) w₁ b w' := by
  obtain ⟨r, w₁, hp, hx⟩ := exec_bind.mp hx
  cases r with
  | error e => exact absurd hx (hf e w₁)
  | ok a => exact ⟨a, w₁, hp, hx⟩

/-- A program that ends with an error does not succeed. -/
theorem not_exec_error {ε : Type} {e : ε} {a : α} {w w' : W} :
    ¬ Exec R (Prog.ret (Except.error e)) w (Except.ok a) w' := by
  rintro ⟨⟨⟩, -⟩

/-- A reading with fewer answers has fewer executions. -/
theorem Exec.mono (hR : ∀ e w r w', R e w r w' → R' e w r w') {p : Prog S α} {w w' : W}
    {a : α} (h : Exec R p w a w') : Exec R' p w a w' := by
  induction p generalizing w with
  | ret b => exact h
  | vis e k ih =>
      obtain ⟨r, w₁, hr, h⟩ := h
      exact ⟨r, w₁, hR e w r w₁ hr, ih r h⟩

/-- Weakest precondition: every execution of `p` from `w` ends in `Q`. -/
def wp (R : Sem S W) : Prog S α → (α → W → Prop) → W → Prop
  | .ret a, Q, w => Q a w
  | .vis e k, Q, w => ∀ r w₁, R e w r w₁ → wp R (k r) Q w₁

@[simp] theorem wp_vis {e : S.Op} {k : S.Res e → Prog S α} {Q : α → W → Prop} {w : W} :
    wp R (Prog.vis e k) Q w ↔ ∀ r w₁, R e w r w₁ → wp R (k r) Q w₁ := Iff.rfl

theorem wp_call {e : S.Op} {f : S.Res e → Prog S α} {Q : α → W → Prop} {w : W} :
    wp R (Prog.call e >>= f) Q w ↔ ∀ r w₁, R e w r w₁ → wp R (f r) Q w₁ := Iff.rfl

/-- The weakest precondition speaks about exactly the executions. -/
theorem wp_iff_exec {p : Prog S α} {Q : α → W → Prop} {w : W} :
    wp R p Q w ↔ ∀ a w', Exec R p w a w' → Q a w' := by
  induction p generalizing w with
  | ret a =>
      constructor
      · rintro h b w' ⟨rfl, rfl⟩
        exact h
      · exact fun h ↦ h a w ⟨rfl, rfl⟩
  | vis e k ih =>
      simp only [wp_vis, exec_vis, ih]
      constructor
      · rintro h a w' ⟨r, w₁, hr, hx⟩
        exact h r w₁ hr a w' hx
      · exact fun h r w₁ hr a w' hx ↦ h a w' ⟨r, w₁, hr, hx⟩

/-- Use a weakest precondition on one execution. -/
theorem Exec.post {p : Prog S α} {Q : α → W → Prop} {w w' : W} {a : α}
    (hx : Exec R p w a w') (h : wp R p Q w) : Q a w' :=
  wp_iff_exec.mp h a w' hx

/-- The sequencing rule. -/
theorem wp_bind {p : Prog S α} {f : α → Prog S β} {Q : β → W → Prop} {w : W} :
    wp R (p >>= f) Q w ↔ wp R p (fun a w₁ ↦ wp R (f a) Q w₁) w := by
  induction p generalizing w with
  | ret a => rfl
  | vis e k ih => simp only [Prog.vis_bind, wp_vis, ih]

/-- The rule of consequence. -/
theorem wp_mono {p : Prog S α} {Q Q' : α → W → Prop} {w : W}
    (h : ∀ a w', Q a w' → Q' a w') (hp : wp R p Q w) : wp R p Q' w := by
  rw [wp_iff_exec] at hp ⊢
  exact fun a w' hx ↦ h a w' (hp a w' hx)

/-! ## Which calls a program makes -/

/-- Every call `p` can make, whatever the answers, satisfies `P`. -/
def All (P : S.Op → Prop) : Prog S α → Prop
  | .ret _ => True
  | .vis e k => P e ∧ ∀ r, All P (k r)

@[simp] theorem all_ret {P : S.Op → Prop} {a : α} : All P (Prog.ret a : Prog S α) := trivial

@[simp] theorem all_vis {P : S.Op → Prop} {e : S.Op} {k : S.Res e → Prog S α} :
    All P (Prog.vis e k) ↔ P e ∧ ∀ r, All P (k r) := Iff.rfl

@[simp] theorem all_call {P : S.Op → Prop} {e : S.Op} {f : S.Res e → Prog S α} :
    All P (Prog.call e >>= f) ↔ P e ∧ ∀ r, All P (f r) := Iff.rfl

@[simp] theorem all_call_iff {P : S.Op → Prop} {e : S.Op} :
    All P (Prog.call e) ↔ P e := ⟨fun h ↦ h.1, fun h ↦ ⟨h, fun _ ↦ all_ret⟩⟩

/-- Sequencing two programs that keep to `P` keeps to `P`. -/
theorem All.bind {P : S.Op → Prop} {p : Prog S α} {f : α → Prog S β} (hp : All P p)
    (hf : ∀ a, All P (f a)) : All P (p >>= f) := by
  induction p with
  | ret a => exact hf a
  | vis e k ih => exact ⟨hp.1, fun r ↦ ih r (hp.2 r)⟩

/-- The same for a program that may fail, the two outcomes apart. -/
theorem All.except {ε : Type} {P : S.Op → Prop} {p : Prog S (Except ε α)}
    {f : Except ε α → Prog S β} (hp : All P p) (herror : ∀ e, All P (f (.error e)))
    (hok : ∀ a, All P (f (.ok a))) : All P (p >>= f) :=
  hp.bind fun r ↦ match r with
    | .error e => herror e
    | .ok a => hok a

/-- Running a program that keeps to `P` for each entry of a list keeps to `P`. -/
theorem All.each {P : S.Op → Prop} {f : α → Prog S β} (hf : ∀ a, All P (f a))
    (as : List α) : All P (Prog.each f as) := by
  induction as with
  | nil => exact all_ret
  | cons a as ih => exact (hf a).bind fun _ ↦ ih.bind fun _ ↦ all_ret

/-- Fewer permitted calls are permitted calls. -/
theorem All.mono {P P' : S.Op → Prop} (h : ∀ e, P e → P' e) {p : Prog S α} (hp : All P p) :
    All P' p := by
  induction p with
  | ret a => exact all_ret
  | vis e k ih => exact ⟨h e hp.1, fun r ↦ ih r (hp.2 r)⟩

/-- Any call is a call. -/
theorem All.trivial (p : Prog S α) : All (fun _ ↦ True) p := by
  induction p with
  | ret a => exact all_ret
  | vis e k ih => exact ⟨True.intro, ih⟩

/-- A call that `p` makes for some answers to the calls before it. -/
def Occurs (e : S.Op) : Prog S α → Prop
  | .ret _ => False
  | .vis e' k => e = e' ∨ ∃ r, Occurs e (k r)

theorem All.of_occurs {P : S.Op → Prop} {p : Prog S α} (hp : All P p) {e : S.Op}
    (h : Occurs e p) : P e := by
  induction p with
  | ret a => exact h.elim
  | vis e' k ih =>
      rcases h with rfl | ⟨r, h⟩
      · exact hp.1
      · exact ih r (hp.2 r) h

/-- Whatever its calls answer, the result of a program is as required. -/
def Returns (Q : α → Prop) : Prog S α → Prop
  | .ret a => Q a
  | .vis _ k => ∀ r, Returns Q (k r)

theorem Returns.bind {Q : β → Prop} {p : Prog S α} {f : α → Prog S β}
    (hf : ∀ a, Returns Q (f a)) : Returns Q (p >>= f) := by
  induction p with
  | ret a => exact hf a
  | vis e k ih => exact ih

theorem Returns.except {ε : Type} {Q : β → Prop} {p : Prog S (Except ε α)}
    {f : Except ε α → Prog S β} (herror : ∀ e, Returns Q (f (.error e)))
    (hok : ∀ a, Returns Q (f (.ok a))) : Returns Q (p >>= f) := by
  refine .bind fun r ↦ ?_
  cases r with
  | error e => exact herror e
  | ok a => exact hok a

/-- What follows a program need only be right for the results that it has. -/
theorem All.bind_returns {P : S.Op → Prop} {Q : α → Prop} {p : Prog S α} {f : α → Prog S β}
    (hp : All P p) (hQ : Returns Q p) (hf : ∀ a, Q a → All P (f a)) : All P (p >>= f) := by
  induction p with
  | ret a => exact hf a hQ
  | vis e k ih => exact ⟨hp.1, fun r ↦ ih r (hp.2 r) (hQ r)⟩

theorem Returns.exec {Q : α → Prop} {p : Prog S α} (hp : Returns Q p) {w w' : W} {a : α}
    (hx : Exec R p w a w') : Q a := by
  induction p generalizing w with
  | ret b =>
      obtain ⟨rfl, -⟩ := hx
      exact hp
  | vis e k ih =>
      obtain ⟨r, w₁, -, hx⟩ := hx
      exact ih r (hp r) hx

/-- **The frame rule.**  A reflexive and transitive relation that every permitted
call respects is respected by every execution of a program keeping to those
calls. -/
theorem All.frame {P : S.Op → Prop} {ρ : W → W → Prop} (hrefl : ∀ w, ρ w w)
    (htrans : ∀ w₁ w₂ w₃, ρ w₁ w₂ → ρ w₂ w₃ → ρ w₁ w₃)
    (hstep : ∀ e w r w', P e → R e w r w' → ρ w w') {p : Prog S α} (hp : All P p)
    {w w' : W} {a : α} (hx : Exec R p w a w') : ρ w w' := by
  induction p generalizing w with
  | ret b =>
      obtain ⟨rfl, rfl⟩ := hx
      exact hrefl _
  | vis e k ih =>
      obtain ⟨r, w₁, hr, hx⟩ := hx
      exact htrans _ _ _ (hstep e w r w₁ hp.1 hr) (ih r (hp.2 r) hx)

/-- A relation that every call respects. -/
theorem Exec.frame {ρ : W → W → Prop} (hrefl : ∀ w, ρ w w)
    (htrans : ∀ w₁ w₂ w₃, ρ w₁ w₂ → ρ w₂ w₃ → ρ w₁ w₃)
    (hstep : ∀ e w r w', R e w r w' → ρ w w') {p : Prog S α} {w w' : W} {a : α}
    (hx : Exec R p w a w') : ρ w w' := by
  exact (All.trivial p).frame hrefl htrans (fun e w r w' _ hr ↦ hstep e w r w' hr) hx

/-- A change of the state that every permitted call respects turns executions into
executions. -/
theorem All.exec_map {P : S.Op → Prop} {g : W → W}
    (hg : ∀ e w r w', P e → R e w r w' → R' e (g w) r (g w')) {p : Prog S α} (hp : All P p)
    {w w' : W} {a : α} (hx : Exec R p w a w') : Exec R' p (g w) a (g w') := by
  induction p generalizing w with
  | ret b =>
      obtain ⟨rfl, rfl⟩ := hx
      exact ⟨rfl, rfl⟩
  | vis e k ih =>
      obtain ⟨r, w₁, hr, hx⟩ := hx
      exact ⟨r, g w₁, hg e w r w₁ hp.1 hr, ih r (hp.2 r) hx⟩

/-! ## Interference -/

/-- A reading in which others may act before each call, as `ρ` permits. -/
def disturbed (ρ : W → W → Prop) (R : Sem S W) : Sem S W := fun e w r w' ↦
  ∃ w₀, ρ w w₀ ∧ R e w₀ r w'

/-- A reading in which the answers are among those of `P`. -/
def answered (P : (e : S.Op) → S.Res e → Prop) (R : Sem S W) : Sem S W := fun e w r w' ↦
  R e w r w' ∧ P e r

theorem Exec.of_answered {P : (e : S.Op) → S.Res e → Prop} {p : Prog S α} {w w' : W} {a : α}
    (h : Exec (answered P R) p w a w') : Exec R p w a w' :=
  h.mono fun _ _ _ _ hr ↦ hr.1

/-- A reading that keeps notes on the calls and their answers. -/
def noted {G : Type} (note : (e : S.Op) → G → S.Res e → G) (R : Sem S W) : Sem S (W × G) :=
  fun e x r y ↦ R e x.1 r y.1 ∧ y.2 = note e x.2 r

/-- A reading of the calls on two states at once. -/
def paired {V : Type u} (R : Sem S W) (G : Sem S V) : Sem S (W × V) := fun e x r y ↦
  R e x.1 r y.1 ∧ G e x.2 r y.2

theorem Exec.fst {V : Type u} {G : Sem S V} {p : Prog S α} {x y : W × V} {a : α}
    (h : Exec (paired R G) p x a y) : Exec R p x.1 a y.1 := by
  induction p generalizing x with
  | ret b =>
      obtain ⟨rfl, rfl⟩ := h
      exact ⟨rfl, rfl⟩
  | vis e k ih =>
      obtain ⟨r, x₁, hr, h⟩ := h
      exact ⟨r, x₁.1, hr.1, ih r h⟩

/-- Undisturbed executions are executions. -/
theorem Exec.disturbed {ρ : W → W → Prop} (hρ : ∀ w, ρ w w) {p : Prog S α} {w w' : W} {a : α}
    (h : Exec R p w a w') : Exec (disturbed ρ R) p w a w' :=
  h.mono fun _ w _ _ hr ↦ ⟨w, hρ w, hr⟩

/-! ## States on the way -/

/-- The states `p` passes through from `w`. -/
def Visits (R : Sem S W) : Prog S α → W → W → Prop
  | .ret _, w, w' => w' = w
  | .vis e k, w, w' => w' = w ∨ ∃ r w₁, R e w r w₁ ∧ Visits R (k r) w₁ w'

@[simp] theorem visits_call {e : S.Op} {f : S.Res e → Prog S α} {w w' : W} :
    Visits R (Prog.call e >>= f) w w' ↔ w' = w ∨ ∃ r w₁, R e w r w₁ ∧ Visits R (f r) w₁ w' :=
  Iff.rfl

/-- A program passes through the state it ends in. -/
theorem Exec.visits {p : Prog S α} {w w' : W} {a : α} (h : Exec R p w a w') : Visits R p w w' := by
  induction p generalizing w with
  | ret b => exact h.2
  | vis e k ih =>
      obtain ⟨r, w₁, hr, h⟩ := h
      exact .inr ⟨r, w₁, hr, ih r h⟩

/-- The frame rule, for the states on the way. -/
theorem All.frame_visits {P : S.Op → Prop} {ρ : W → W → Prop} (hrefl : ∀ w, ρ w w)
    (htrans : ∀ w₁ w₂ w₃, ρ w₁ w₂ → ρ w₂ w₃ → ρ w₁ w₃)
    (hstep : ∀ e w r w', P e → R e w r w' → ρ w w') {p : Prog S α} (hp : All P p)
    {w w' : W} (h : Visits R p w w') : ρ w w' := by
  induction p generalizing w with
  | ret b =>
      obtain rfl := h
      exact hrefl _
  | vis e k ih =>
      rcases h with rfl | ⟨r, w₁, hr, h⟩
      · exact hrefl _
      · exact htrans _ _ _ (hstep e w r w₁ hp.1 hr) (ih r (hp.2 r) h)

theorem visits_bind {p : Prog S α} {f : α → Prog S β} {w w' : W} (h : Visits R (p >>= f) w w') :
    Visits R p w w' ∨ ∃ a w₁, Exec R p w a w₁ ∧ Visits R (f a) w₁ w' := by
  induction p generalizing w with
  | ret a => exact .inr ⟨a, w, ⟨rfl, rfl⟩, h⟩
  | vis e k ih =>
      rcases h with rfl | ⟨r, w₁, hr, h⟩
      · exact .inl (.inl rfl)
      · rcases ih r h with h | ⟨a, w₂, hx, h⟩
        · exact .inl (.inr ⟨r, w₁, hr, h⟩)
        · exact .inr ⟨a, w₂, ⟨r, w₁, hr, hx⟩, h⟩

/-- The states a loop passes through, from the state `w` and the round `s`. -/
inductive LoopVisits {ρ σ : Type} (R : Sem S W) (body : σ → Prog S (ρ ⊕ σ)) : σ → W → W → Prop
  | /-- In the round itself. -/
    here {s w w'} : Visits R (body s) w w' → LoopVisits R body s w w'
  | /-- In a later round. -/
    again {s w s' w₁ w'} : Exec R (body s) w (.inr s') w₁ → LoopVisits R body s' w₁ w' →
      LoopVisits R body s w w'

/-- What holds at the start of each round, and in every state on the way through a
round, holds in every state a loop passes through. -/
theorem LoopVisits.invariant {ρ σ : Type} {body : σ → Prog S (ρ ⊕ σ)} {I : σ → W → Prop}
    {J : W → Prop} (hvisit : ∀ s w w', I s w → Visits R (body s) w w' → J w')
    (hagain : ∀ s w s' w', I s w → Exec R (body s) w (.inr s') w' → I s' w') {s : σ} {w w' : W}
    (h : LoopVisits R body s w w') (hs : I s w) : J w' := by
  induction h with
  | here h => exact hvisit _ _ _ hs h
  | again hx _ ih => exact ih (hagain _ _ _ _ hs hx)

/-- The executions of a loop, from the state `w` and the round `s`. -/
inductive LoopExec {ρ σ : Type} (R : Sem S W) (body : σ → Prog S (ρ ⊕ σ)) : σ → W → ρ → W → Prop
  | /-- The round is the last. -/
    done {s w r w'} : Exec R (body s) w (.inl r) w' → LoopExec R body s w r w'
  | /-- Another round follows. -/
    again {s w s' w₁ r w'} : Exec R (body s) w (.inr s') w₁ → LoopExec R body s' w₁ r w' →
      LoopExec R body s w r w'

/-- What every round keeps, the loop keeps. -/
theorem LoopExec.invariant {ρ σ : Type} {body : σ → Prog S (ρ ⊕ σ)} {I : W → Prop}
    (hround : ∀ s w x w', I w → Exec R (body s) w x w' → I w') {s : σ} {w w' : W} {r : ρ}
    (h : LoopExec R body s w r w') (hw : I w) : I w' := by
  induction h with
  | done hx => exact hround _ _ _ _ hw hx
  | again hx _ ih => exact ih (hround _ _ _ _ hw hx)

/-! ## Deterministic readings -/

/-- Run a program against a handler, as long as it answers. -/
def run (h : (e : S.Op) → W → Option (S.Res e × W)) : Prog S α → W → Option (α × W)
  | .ret a, w => some (a, w)
  | .vis e k, w => (h e w).bind fun r ↦ run h (k r.1) r.2

/-- Running against a handler that only gives permitted answers is an execution. -/
theorem exec_run {h : (e : S.Op) → W → Option (S.Res e × W)}
    (hR : ∀ e w r w', h e w = some (r, w') → R e w r w') {p : Prog S α} {w w' : W} {a : α}
    (hrun : run h p w = some (a, w')) : Exec R p w a w' := by
  induction p generalizing w with
  | ret b =>
      simp only [run, Option.some.injEq, Prod.mk.injEq] at hrun
      exact ⟨hrun.1.symm, hrun.2.symm⟩
  | vis e k ih =>
      obtain ⟨⟨r, w₁⟩, he, hk⟩ := Option.bind_eq_some_iff.mp hrun
      exact ⟨r, w₁, hR e w r w₁ he, ih r hk⟩

theorem run_bind {h : (e : S.Op) → W → Option (S.Res e × W)} {p : Prog S α} {f : α → Prog S β}
    {w : W} : run h (p >>= f) w = (run h p w).bind fun x ↦ run h (f x.1) x.2 := by
  induction p generalizing w with
  | ret a => rfl
  | vis e k ih =>
      show (h e w).bind (fun r ↦ run h (k r.1 >>= f) r.2) = _
      simp only [ih, run, Option.bind_assoc]

theorem run_call {h : (e : S.Op) → W → Option (S.Res e × W)} {e : S.Op} {w : W} :
    run h (Prog.call e) w = h e w := by
  show (h e w).bind (fun r ↦ some (r.1, r.2)) = h e w
  cases h e w with
  | none => rfl
  | some r => rfl

/-- A run that succeeds, of a sequence that fails when its first part does: the first part
succeeded. -/
theorem run_bind_ok {ε : Type} {h : (e : S.Op) → W → Option (S.Res e × W)}
    {p : Prog S (Except ε α)} {f : Except ε α → Prog S (Except ε β)} {w w' : W} {b : β}
    (hrun : run h (p >>= f) w = some (.ok b, w'))
    (hf : ∀ e, f (.error e) = Prog.ret (.error e)) :
    ∃ a w₁, run h p w = some (.ok a, w₁) ∧ run h (f (.ok a)) w₁ = some (.ok b, w') := by
  rw [run_bind] at hrun
  obtain ⟨⟨r, w₁⟩, hp, hrest⟩ := Option.bind_eq_some_iff.mp hrun
  cases r with
  | error e =>
      rw [hf] at hrest
      cases hrest
  | ok a => exact ⟨a, w₁, hp, hrest⟩

/-- A handler that keeps notes. -/
def noting {G : Type} (note : (e : S.Op) → G → S.Res e → G)
    (h : (e : S.Op) → W → Option (S.Res e × W)) :
    (e : S.Op) → W × G → Option (S.Res e × W × G) := fun e x ↦
  (h e x.1).map fun y ↦ (y.1, y.2, note e x.2 y.1)

theorem exec_noting {G : Type} {note : (e : S.Op) → G → S.Res e → G}
    {h : (e : S.Op) → W → Option (S.Res e × W)}
    (hR : ∀ e w r w', h e w = some (r, w') → R e w r w') {p : Prog S α} {x y : W × G} {a : α}
    (hrun : run (noting note h) p x = some (a, y)) : Exec (noted note R) p x a y := by
  refine exec_run (fun e x r y he ↦ ?_) hrun
  obtain ⟨z, hz, heq⟩ := Option.map_eq_some_iff.mp he
  cases heq
  exact ⟨hR e x.1 z.1 z.2 hz, rfl⟩

end Semantics

/-! ## Runs -/

section Run

variable {ε : Type u} {W : Type u} {step : ε → W → W → Prop} {ok ok' : ε → W → Prop}

/-- A run of steps, each taken in a state that meets a condition on the step. -/
inductive Run (step : ε → W → W → Prop) (ok : ε → W → Prop) (w : W) : W → Prop
  | /-- No step. -/
    refl : Run step ok w w
  | /-- One more step. -/
    tail {e w₁ w'} : Run step ok w w₁ → ok e w₁ → step e w₁ w' → Run step ok w w'

/-- What every permitted step keeps holds after every permitted run. -/
theorem Run.invariant {I : W → Prop} (hstep : ∀ e w w', I w → ok e w → step e w w' → I w')
    {w w' : W} (h : Run step ok w w') (hw : I w) : I w' := by
  induction h with
  | refl => exact hw
  | tail _ hok hs ih => exact hstep _ _ _ ih hok hs

end Run

end GigMcp.Effect
