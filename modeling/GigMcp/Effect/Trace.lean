import GigMcp.Effect.Prog

/-!
# Traces

`Traced R p w t a w'` is an execution of `p` together with its calls and the answers they
got, in order.  A property of what a program does with particular answers, such as those
that report a failure, is stated over the trace.  Two worlds in which the calls of a program
get the same answers have the same traces (`Traced.simulate`).
-/

universe u

namespace GigMcp.Effect

variable {S : Signature} {α β : Type} {W : Type u} {R : Sem S W}

/-- A call and its answer. -/
abbrev Event (S : Signature) := (e : S.Op) × S.Res e

/-- Big-step execution with the calls it makes. -/
def Traced (R : Sem S W) : Prog S α → W → List (Event S) → α → W → Prop
  | .ret a, w, t, b, w' => t = [] ∧ b = a ∧ w' = w
  | .vis e k, w, t, b, w' => ∃ r w₁ t', R e w r w₁ ∧ t = ⟨e, r⟩ :: t' ∧ Traced R (k r) w₁ t' b w'

theorem traced_call {e : S.Op} {f : S.Res e → Prog S α} {w w' : W} {t : List (Event S)} {b : α} :
    Traced R (Prog.call e >>= f) w t b w' ↔
      ∃ r w₁ t', R e w r w₁ ∧ t = ⟨e, r⟩ :: t' ∧ Traced R (f r) w₁ t' b w' := Iff.rfl

/-- The trace of a sequence is that of its parts. -/
theorem traced_bind {p : Prog S α} {f : α → Prog S β} {w w' : W} {t : List (Event S)} {b : β} :
    Traced R (p >>= f) w t b w' ↔
      ∃ a w₁ t₁ t₂, Traced R p w t₁ a w₁ ∧ t = t₁ ++ t₂ ∧ Traced R (f a) w₁ t₂ b w' := by
  induction p generalizing w t with
  | ret a =>
      constructor
      · intro hx
        exact ⟨a, w, [], t, ⟨rfl, rfl, rfl⟩, rfl, hx⟩
      · rintro ⟨_, _, _, t₂, ⟨rfl, rfl, rfl⟩, rfl, hx⟩
        exact hx
  | vis e k ih =>
      constructor
      · rintro ⟨r, w₁, t', hr, rfl, hx⟩
        obtain ⟨a, w₂, t₁, t₂, hp, rfl, hf⟩ := (ih r).mp hx
        exact ⟨a, w₂, ⟨e, r⟩ :: t₁, t₂, ⟨r, w₁, t₁, hr, rfl, hp⟩, rfl, hf⟩
      · rintro ⟨a, w₂, _, t₂, ⟨r, w₁, t₁, hr, rfl, hp⟩, rfl, hf⟩
        exact ⟨r, w₁, t₁ ++ t₂, hr, rfl, (ih r).mpr ⟨a, w₂, t₁, t₂, hp, rfl, hf⟩⟩

/-- Every execution has a trace. -/
theorem Exec.traced {p : Prog S α} {w w' : W} {a : α} (hx : Exec R p w a w') :
    ∃ t, Traced R p w t a w' := by
  induction p generalizing w with
  | ret b => exact ⟨[], rfl, hx⟩
  | vis e k ih =>
      obtain ⟨r, w₁, hr, hx⟩ := hx
      obtain ⟨t, ht⟩ := ih r hx
      exact ⟨⟨e, r⟩ :: t, r, w₁, t, hr, rfl, ht⟩

/-- What has a trace is an execution. -/
theorem Traced.exec {p : Prog S α} {w w' : W} {t : List (Event S)} {a : α}
    (hx : Traced R p w t a w') : Exec R p w a w' := by
  induction p generalizing w t with
  | ret b => exact hx.2
  | vis e k ih =>
      obtain ⟨r, w₁, t', hr, -, hx⟩ := hx
      exact ⟨r, w₁, hr, ih r hx⟩

/-- The calls of a trace were made and answered. -/
theorem Traced.answered {p : Prog S α} {w w' : W} {t : List (Event S)} {a : α}
    (hx : Traced R p w t a w') : ∀ x ∈ t, ∃ v v', R x.1 v x.2 v' := by
  induction p generalizing w t with
  | ret b =>
      obtain ⟨rfl, -⟩ := hx
      exact List.forall_mem_nil _
  | vis e k ih =>
      obtain ⟨r, w₁, t', hr, rfl, hx⟩ := hx
      exact List.forall_mem_cons.mpr ⟨⟨w, w₁, hr⟩, ih r hx⟩

/-- The calls of a trace are calls the program makes. -/
theorem Traced.all {P : S.Op → Prop} {p : Prog S α} (hp : All P p) {w w' : W} {t : List (Event S)}
    {a : α} (hx : Traced R p w t a w') : ∀ x ∈ t, P x.1 := by
  induction p generalizing w t with
  | ret b =>
      obtain ⟨rfl, -⟩ := hx
      exact List.forall_mem_nil _
  | vis e k ih =>
      obtain ⟨r, w₁, t', -, rfl, hx⟩ := hx
      exact List.forall_mem_cons.mpr ⟨hp.1, ih r (hp.2 r) hx⟩

/-- Worlds that give the permitted calls the same answers have the same traces. -/
theorem Traced.simulate {P : S.Op → Prop} {ρ : W → W → Prop}
    (hρ : ∀ e w r w' v, P e → ρ w v → R e w r w' → ∃ v', R e v r v' ∧ ρ w' v') {p : Prog S α}
    (hp : All P p) {w w' v : W} {t : List (Event S)} {a : α} (hx : Traced R p w t a w')
    (hv : ρ w v) : ∃ v', Traced R p v t a v' ∧ ρ w' v' := by
  induction p generalizing w t v with
  | ret b =>
      obtain ⟨rfl, rfl, rfl⟩ := hx
      exact ⟨v, ⟨rfl, rfl, rfl⟩, hv⟩
  | vis e k ih =>
      obtain ⟨r, w₁, t', hr, rfl, hx⟩ := hx
      obtain ⟨v₁, hr', hv₁⟩ := hρ e w r w₁ v hp.1 hv hr
      obtain ⟨v', hx', hv'⟩ := ih r (hp.2 r) hx hv₁
      exact ⟨v', ⟨r, v₁, t', hr', rfl, hx'⟩, hv'⟩

/-- What a run of a program called, and the answers it got. -/
def record (h : (e : S.Op) → W → Option (S.Res e × W)) :
    Prog S α → W → Option (List (Event S) × α × W)
  | .ret a, w => some ([], a, w)
  | .vis e k, w => (h e w).bind fun r ↦ (record h (k r.1) r.2).map fun x ↦ (⟨e, r.1⟩ :: x.1, x.2)

theorem traced_record {h : (e : S.Op) → W → Option (S.Res e × W)}
    (hR : ∀ e w r w', h e w = some (r, w') → R e w r w') {p : Prog S α} {w w' : W}
    {t : List (Event S)} {a : α} (hrun : record h p w = some (t, a, w')) :
    Traced R p w t a w' := by
  induction p generalizing w t with
  | ret b =>
      cases hrun
      exact ⟨rfl, rfl, rfl⟩
  | vis e k ih =>
      obtain ⟨⟨r, w₁⟩, hr, hrest⟩ := Option.bind_eq_some_iff.mp hrun
      obtain ⟨⟨t', b, w₂⟩, hx, heq⟩ := Option.map_eq_some_iff.mp hrest
      cases heq
      exact ⟨r, w₁, t', hR e w r w₁ hr, rfl, ih r hx⟩

end GigMcp.Effect
