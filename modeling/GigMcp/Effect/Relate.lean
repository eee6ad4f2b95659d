import GigMcp.Effect.Prog

/-!
# Two executions side by side

`Sim` compares a program in one state with a program in another one: each execution of the first
is matched by an execution of the second, and the two ends are related as required.  The two may
run under different readings, so that the second one can be without the interference that the
first one meets.

A program is `Blind` to a relation when it does not tell related states apart: what it can return
in the one it can return in the other, and they stay related.  It is enough that every call it makes
gets the same answers in related states (`All.blind`); where answers may differ, the rules for
`Sim` follow the program to the point where that no longer matters.
-/

universe u

namespace GigMcp.Effect

variable {S : Signature} {α α' β β' : Type} {W V : Type u} {R : Sem S W} {R' : Sem S V}

/-- Every execution of `p` from `w` is matched by one of `q` from `v`, with ends as in `Q`. -/
def Sim (R : Sem S W) (R' : Sem S V) (Q : α → W → α' → V → Prop) (p : Prog S α) (w : W)
    (q : Prog S α') (v : V) : Prop :=
  ∀ a w', Exec R p w a w' → ∃ b v', Exec R' q v b v' ∧ Q a w' b v'

namespace Sim

variable {Q : α → W → α' → V → Prop} {p : Prog S α} {q : Prog S α'} {w : W} {v : V}

theorem ret {a : α} {b : α'} (h : Q a w b v) : Sim R R' Q (.ret a) w (.ret b) v := by
  rintro _ _ ⟨rfl, rfl⟩
  exact ⟨b, v, ⟨rfl, rfl⟩, h⟩

/-- The rule of consequence. -/
theorem mono {Q' : α → W → α' → V → Prop} (hQ : ∀ a w b v, Q a w b v → Q' a w b v)
    (h : Sim R R' Q p w q v) : Sim R R' Q' p w q v := by
  intro a w' hx
  obtain ⟨b, v', hy, h'⟩ := h a w' hx
  exact ⟨b, v', hy, hQ a w' b v' h'⟩

/-- The sequencing rule. -/
theorem bind {Q' : β → W → β' → V → Prop} {f : α → Prog S β} {g : α' → Prog S β'}
    (hp : Sim R R' Q p w q v)
    (hf : ∀ a w' b v', Q a w' b v' → Sim R R' Q' (f a) w' (g b) v') :
    Sim R R' Q' (p >>= f) w (q >>= g) v := by
  intro c w'' hx
  obtain ⟨a, w', hx, hrest⟩ := exec_bind.mp hx
  obtain ⟨b, v', hy, hQ⟩ := hp a w' hx
  obtain ⟨d, v'', hrest', hQ'⟩ := hf a w' b v' hQ c w'' hrest
  exact ⟨d, v'', exec_bind.mpr ⟨b, v', hy, hrest'⟩, hQ'⟩

/-- A call on each side. -/
theorem call {e e' : S.Op} {k : S.Res e → Prog S α} {k' : S.Res e' → Prog S α'}
    (h : ∀ r w', R e w r w' →
      ∃ r' v', R' e' v r' v' ∧ Sim R R' Q (k r) w' (k' r') v') :
    Sim R R' Q (Prog.call e >>= k) w (Prog.call e' >>= k') v := by
  rintro a w'' ⟨r, w', hr, hx⟩
  obtain ⟨r', v', hr', hsim⟩ := h r w' hr
  obtain ⟨b, v'', hy, hQ⟩ := hsim a w'' hx
  exact ⟨b, v'', ⟨r', v', hr', hy⟩, hQ⟩

end Sim

/-! ## Blindness -/

variable {ρ : W → V → Prop}

/-- Equal results, and related states. -/
def Same (ρ : W → V → Prop) (a : α) (w : W) (b : α) (v : V) : Prop := a = b ∧ ρ w v

/-- `p` does not tell related states apart. -/
def Blind (R : Sem S W) (R' : Sem S V) (ρ : W → V → Prop) (p : Prog S α) : Prop :=
  ∀ w v, ρ w v → Sim R R' (Same ρ) p w p v

theorem blind_ret (a : α) : Blind R R' ρ (Prog.ret a : Prog S α) := fun _ _ h ↦ .ret ⟨rfl, h⟩

theorem Blind.bind {p : Prog S α} {f : α → Prog S β} (hp : Blind R R' ρ p)
    (hf : ∀ a, Blind R R' ρ (f a)) : Blind R R' ρ (p >>= f) := by
  intro w v h
  refine (hp w v h).bind ?_
  rintro a w' _ v' ⟨rfl, h'⟩
  exact hf a w' v' h'

theorem Blind.each {f : α → Prog S β} (hf : ∀ a, Blind R R' ρ (f a)) (as : List α) :
    Blind R R' ρ (Prog.each f as) := by
  induction as with
  | nil => exact blind_ret []
  | cons a as ih => exact (hf a).bind fun b ↦ ih.bind fun bs ↦ blind_ret (b :: bs)

end GigMcp.Effect
