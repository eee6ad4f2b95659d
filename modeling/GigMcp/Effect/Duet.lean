import GigMcp.Effect.Prog

/-!
# Two programs over a common medium

Two programs run at the same time.  Each has a state of its own, which only its own calls change,
and both act on a *medium*: the pipes, locks or flags by which they know of each other.  A call that
the medium does not answer has to wait.  The medium may also move by itself.

The proof rule is `Contract.good`.  Each program is looked at alone, over its own state: its calls
are made in states that meet their preconditions (`Abides`, one case per node of the program).  An
invariant over the two states and the medium has to survive each call whose precondition holds, and
then it holds however the calls interleave.
-/

namespace GigMcp.Effect

/-! ## Preconditions of calls -/

section Abides

variable {S : Signature} {α β W : Type} {R : Sem S W} {pre : S.Op → W → Prop}

/-- Each call of a program is made in a state that meets its precondition, and the result fits the
state at the end. -/
def Abides (R : Sem S W) (pre : S.Op → W → Prop) (post : α → W → Prop) : Prog S α → W → Prop
  | .ret a, w => post a w
  | .vis e k, w => pre e w ∧ ∀ r w₁, R e w r w₁ → Abides R pre post (k r) w₁

@[simp] theorem abides_ret {post : α → W → Prop} {a : α} {w : W} :
    Abides R pre post (Prog.ret a) w ↔ post a w := Iff.rfl

@[simp] theorem abides_call {post : α → W → Prop} {e : S.Op} {f : S.Res e → Prog S α} {w : W} :
    Abides R pre post (Prog.call e >>= f) w ↔
      pre e w ∧ ∀ r w₁, R e w r w₁ → Abides R pre post (f r) w₁ := Iff.rfl

/-- The sequencing rule. -/
theorem Abides.bind {mid : α → W → Prop} {post : β → W → Prop} {p : Prog S α} {f : α → Prog S β}
    {w : W} (hp : Abides R pre mid p w) (hf : ∀ a w₁, mid a w₁ → Abides R pre post (f a) w₁) :
    Abides R pre post (p >>= f) w := by
  induction p generalizing w with
  | ret a => exact hf a w hp
  | vis e k ih => exact ⟨hp.1, fun r w₁ hr ↦ ih r (hp.2 r w₁ hr)⟩

/-- Programs whose calls keep something that implies the preconditions. -/
theorem Abides.of_all {P : S.Op → Prop} {I : W → Prop} (hpre : ∀ e w, P e → I w → pre e w)
    (hstep : ∀ e w r w', P e → R e w r w' → I w → I w') {p : Prog S α} (hp : All P p) {w : W}
    (hw : I w) : Abides R pre (fun _ ↦ I) p w := by
  induction p generalizing w with
  | ret a => exact hw
  | vis e k ih =>
      exact ⟨hpre e w hp.1 hw, fun r w₁ hr ↦ ih r (hp.2 r) (hstep e w r w₁ hp.1 hr hw)⟩

/-- What the executions of a program end with, it may be said to end with. -/
theorem Abides.exec {post post' : α → W → Prop} {p : Prog S α} {w : W}
    (hp : Abides R pre post p w) (h : ∀ a w', Exec R p w a w' → post a w' → post' a w') :
    Abides R pre post' p w := by
  induction p generalizing w with
  | ret a => exact h a w ⟨rfl, rfl⟩ hp
  | vis e k ih =>
      refine ⟨hp.1, fun r w₁ hr ↦ ih r (hp.2 r w₁ hr) fun a w' hx ↦ ?_⟩
      exact h a w' ⟨r, w₁, hr, hx⟩

end Abides

/-! ## Duets -/

/-- What the calls of two programs do to the program's own state and to the medium, and how the
medium moves by itself. -/
structure Duet (S T : Signature) (V U C : Type) where
  left : Sem S V
  right : Sem T U
  leftOn : Sem S C
  rightOn : Sem T C
  env : C → C → Prop

namespace Duet

variable {S T : Signature} {α β V U C : Type}

/-- What is left of the programs, their states, and the medium. -/
structure State (S T : Signature) (α β V U C : Type) where
  left : Prog S α
  mine : V
  right : Prog T β
  theirs : U
  medium : C

/-- One of the programs makes a call, or the medium moves. -/
inductive Step (D : Duet S T V U C) : State S T α β V U C → State S T α β V U C → Prop
  | left {e : S.Op} {k : S.Res e → Prog S α} {r : S.Res e} {v v' : V} {q : Prog T β} {u : U}
      {c c' : C} (h : D.left e v r v') (hon : D.leftOn e c r c') :
      Step D ⟨.vis e k, v, q, u, c⟩ ⟨k r, v', q, u, c'⟩
  | right {e : T.Op} {k : T.Res e → Prog T β} {r : T.Res e} {p : Prog S α} {v : V} {u u' : U}
      {c c' : C} (h : D.right e u r u') (hon : D.rightOn e c r c') :
      Step D ⟨p, v, .vis e k, u, c⟩ ⟨p, v, k r, u', c'⟩
  | env {p : Prog S α} {v : V} {q : Prog T β} {u : U} {c c' : C} (h : D.env c c') :
      Step D ⟨p, v, q, u, c⟩ ⟨p, v, q, u, c'⟩

abbrev Reach (D : Duet S T V U C) :
    State S T α β V U C → State S T α β V U C → Prop := Relation.ReflTransGen (Step D)

/-- What the programs keep to, and what follows for the medium. -/
structure Contract (D : Duet S T V U C) (α β : Type) where
  leftPre : S.Op → V → Prop
  leftPost : α → V → Prop
  rightPre : T.Op → U → Prop
  rightPost : β → U → Prop
  Inv : V → U → C → Prop
  inv_left : ∀ e v r v' u c c', leftPre e v → D.left e v r v' → D.leftOn e c r c' → Inv v u c →
    Inv v' u c'
  inv_right : ∀ e u r u' v c c', rightPre e u → D.right e u r u' → D.rightOn e c r c' →
    Inv v u c → Inv v u' c'
  inv_env : ∀ v u c c', D.env c c' → Inv v u c → Inv v u c'

/-- The programs keep to the contract from here on, and the invariant holds. -/
structure Contract.Good {D : Duet S T V U C} (K : Contract D α β) (s : State S T α β V U C) :
    Prop where
  left : Abides D.left K.leftPre K.leftPost s.left s.mine
  right : Abides D.right K.rightPre K.rightPost s.right s.theirs
  inv : K.Inv s.mine s.theirs s.medium

/-- **Step lemma.** -/
theorem Contract.Good.step {D : Duet S T V U C} {K : Contract D α β} {s s' : State S T α β V U C}
    (hs : K.Good s) (h : D.Step s s') : K.Good s' := by
  cases h with
  | @left e k r v v' q u c c' h hon =>
      exact ⟨hs.left.2 r v' h, hs.right, K.inv_left e v r v' u c c' hs.left.1 h hon hs.inv⟩
  | @right e k r p v u u' c c' h hon =>
      exact ⟨hs.left, hs.right.2 r u' h, K.inv_right e u r u' v c c' hs.right.1 h hon hs.inv⟩
  | env h => exact ⟨hs.left, hs.right, K.inv_env _ _ _ _ h hs.inv⟩

/-- **Run lemma.** -/
theorem Contract.good {D : Duet S T V U C} (K : Contract D α β) {s s' : State S T α β V U C}
    (hs : K.Good s) (h : D.Reach s s') : K.Good s' := by
  induction h with
  | refl => exact hs
  | tail _ hstep ih => exact ih.step hstep

/-! ## Schedules -/

/-- Whose turn it is. -/
inductive Move
  | left
  | right
  | env

/-- Answers to the calls of both programs, and a way for the medium to move. -/
structure Player (S T : Signature) (V U C : Type) where
  left : (e : S.Op) → V → C → Option (S.Res e × V × C)
  right : (e : T.Op) → U → C → Option (T.Res e × U × C)
  env : C → Option C

/-- The answers are ones that may be given. -/
structure Player.Plays (P : Player S T V U C) (D : Duet S T V U C) : Prop where
  left : ∀ e v c r v' c', P.left e v c = some (r, v', c') → D.left e v r v' ∧ D.leftOn e c r c'
  right : ∀ e u c r u' c', P.right e u c = some (r, u', c') → D.right e u r u' ∧ D.rightOn e c r c'
  env : ∀ c c', P.env c = some c' → D.env c c'

/-- One turn; who cannot move does not. -/
def Player.move (P : Player S T V U C) (s : State S T α β V U C) : Move → State S T α β V U C
  | .left =>
      match s.left with
      | .ret _ => s
      | .vis e k => ((P.left e s.mine s.medium).map fun x ↦
          { s with left := k x.1, mine := x.2.1, medium := x.2.2 }).getD s
  | .right =>
      match s.right with
      | .ret _ => s
      | .vis e k => ((P.right e s.theirs s.medium).map fun x ↦
          { s with right := k x.1, theirs := x.2.1, medium := x.2.2 }).getD s
  | .env => ((P.env s.medium).map fun c ↦ { s with medium := c }).getD s

/-- The state after a schedule. -/
def Player.play (P : Player S T V U C) (s : State S T α β V U C) (moves : List Move) :
    State S T α β V U C := moves.foldl P.move s

theorem Player.reach_move {P : Player S T V U C} {D : Duet S T V U C} (hP : P.Plays D)
    (s : State S T α β V U C) (m : Move) : D.Reach s (P.move s m) := by
  obtain ⟨p, v, q, u, c⟩ := s
  cases m with
  | left =>
      cases p with
      | ret a => exact .refl
      | vis e k =>
          cases h : P.left e v c with
          | none =>
              simp only [move, h, Option.map_none, Option.getD_none]
              exact .refl
          | some x =>
              simp only [move, h, Option.map_some, Option.getD_some]
              obtain ⟨hleft, hon⟩ := hP.left _ _ _ _ _ _ h
              exact .single (.left hleft hon)
  | right =>
      cases q with
      | ret a => exact .refl
      | vis e k =>
          cases h : P.right e u c with
          | none =>
              simp only [move, h, Option.map_none, Option.getD_none]
              exact .refl
          | some x =>
              simp only [move, h, Option.map_some, Option.getD_some]
              obtain ⟨hright, hon⟩ := hP.right _ _ _ _ _ _ h
              exact .single (.right hright hon)
  | env =>
      cases h : P.env c with
      | none =>
          simp only [move, h, Option.map_none, Option.getD_none]
          exact .refl
      | some c' =>
          simp only [move, h, Option.map_some, Option.getD_some]
          exact .single (.env (hP.env _ _ h))

/-- A schedule leads to a state that can be reached. -/
theorem Player.reach_play {P : Player S T V U C} {D : Duet S T V U C} (hP : P.Plays D)
    (moves : List Move) (s : State S T α β V U C) : D.Reach s (P.play s moves) := by
  induction moves generalizing s with
  | nil => exact .refl
  | cons m moves ih => exact (reach_move hP s m).trans (ih (P.move s m))

end Duet

end GigMcp.Effect
