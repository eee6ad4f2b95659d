import GigMcp.Effect.Pool

/-!
# Programs that may panic

A program whose caller has deferred something runs on after a panic, so where a panic
strikes matters.  `Prog.panicky` asks before each call of a program, and before it returns,
whether it panics there, and ends with `none` when it does; what its calls have done until
then stays done.  `Prog.calm` is a program of which no part panics.
-/

universe u

namespace GigMcp.Effect

/-- The question whether a program panics where it is. -/
@[reducible] def panics : Signature := ⟨Unit, fun _ ↦ Bool⟩

namespace Prog

variable {S : Signature} {α β : Type}

/-- A program that may panic at any point. -/
def panicky : Prog S α → Prog (S.sum panics) (Option α)
  | .ret a => .vis (.inr ()) fun (b : Bool) ↦ .ret (if b then none else some a)
  | .vis e k => .vis (.inr ()) fun (b : Bool) ↦
      if b then .ret none else .vis (.inl e) fun r ↦ (k r).panicky

/-- What a program does when no part of it panics. -/
def calm : Prog (S.sum panics) α → Prog S α
  | .ret a => .ret a
  | .vis (.inl e) k => .vis e fun r ↦ (k r).calm
  | .vis (.inr ()) k => (k false).calm

@[simp] theorem calm_bind (p : Prog (S.sum panics) α) (f : α → Prog (S.sum panics) β) :
    (p >>= f).calm = p.calm >>= fun a ↦ (f a).calm := by
  induction p with
  | ret a => rfl
  | vis e k ih =>
      cases e with
      | inl e => exact congrArg (Prog.vis e) (funext fun r ↦ ih r)
      | inr u => exact ih false

@[simp] theorem calm_left (p : Prog S α) : (p.left : Prog (S.sum panics) α).calm = p := by
  induction p with
  | ret a => rfl
  | vis e k ih => exact congrArg (Prog.vis e) (funext ih)

@[simp] theorem calm_panicky (p : Prog S α) : p.panicky.calm = p >>= fun a ↦ .ret (some a) := by
  induction p with
  | ret a => rfl
  | vis e k ih => exact congrArg (Prog.vis e) (funext ih)

end Prog

section Semantics

variable {S : Signature} {α G : Type} {W : Type u} {g : G}
  {track : (e : (S.sum panics).Op) → G → (S.sum panics).Res e → G}
  {pre : (S.sum panics).Op → G → Prop}

/-- A reading of the calls in a world where any program may panic. -/
def panickySem (R : Sem S W) : Sem (S.sum panics) W
  | .inl e, w, r, w' => R e w r w'
  | .inr (), w, _, w' => w' = w

/-- A program run where it may panic.  `I` is what is known of the record at each point of the
program, so also where it panics. -/
theorem Conforms.panicky_of {I : G → Prop} {mid : α → G → Prop} {p : Prog S α}
    (hp : Conforms (fun e ↦ track (.inl e)) (fun e g ↦ pre (.inl e) g ∧ I g)
      (fun a g ↦ mid a g ∧ I g) p g)
    (hpre : ∀ g, I g → pre (.inr ()) g) (hcalm : ∀ g, I g → track (.inr ()) g false = g) :
    Conforms track pre
      (fun r g' ↦ (∃ a, r = some a ∧ mid a g' ∧ I g') ∨
        r = none ∧ ∃ g₀, I g₀ ∧ g' = track (.inr ()) g₀ true)
      p.panicky g := by
  induction p generalizing g with
  | ret a =>
      obtain ⟨hmid, hI⟩ := hp
      refine ⟨hpre g hI, fun b ↦ ?_⟩
      cases b with
      | true => exact .inr ⟨rfl, g, hI, rfl⟩
      | false =>
          rw [hcalm g hI]
          exact .inl ⟨a, rfl, hmid, hI⟩
  | vis e k ih =>
      obtain ⟨⟨he, hI⟩, hk⟩ := hp
      refine ⟨hpre g hI, fun b ↦ ?_⟩
      cases b with
      | true => exact .inr ⟨rfl, g, hI, rfl⟩
      | false =>
          rw [hcalm g hI]
          exact ⟨he, fun r ↦ ih r (hk r)⟩

/-- A program whose calls are all permitted and leave the record alone, run where it may
panic. -/
theorem Conforms.panicky {p : Prog S α}
    (hp : All (fun e ↦ pre (.inl e) g ∧ ∀ r, track (.inl e) g r = g) p)
    (hpre : pre (.inr ()) g) (hcalm : track (.inr ()) g false = g) :
    Conforms track pre
      (fun r g' ↦ (∃ a, r = some a) ∧ g' = g ∨ r = none ∧ g' = track (.inr ()) g true)
      p.panicky g := by
  have hstay : Conforms (fun e ↦ track (.inl e)) (fun e g' ↦ pre (.inl e) g' ∧ g' = g)
      (fun _ g' ↦ True ∧ g' = g) p g :=
    (Conforms.of_all_at (hp.mono fun _ he ↦ ⟨⟨he.1, rfl⟩, he.2⟩)).mono (fun _ _ h ↦ h)
      fun _ _ h ↦ ⟨trivial, h⟩
  refine (hstay.panicky_of ?_ ?_).mono (fun _ _ h ↦ h) ?_
  · rintro _ rfl
    exact hpre
  · rintro _ rfl
    exact hcalm
  · rintro r g' (⟨a, hr, -, hg⟩ | ⟨hr, _, rfl, hg⟩)
    · exact .inl ⟨⟨a, hr⟩, hg⟩
    · exact .inr ⟨hr, hg⟩

end Semantics

end GigMcp.Effect
