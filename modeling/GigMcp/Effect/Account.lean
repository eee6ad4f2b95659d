import GigMcp.Effect.Pool
import GigMcp.Effect.Trace

/-!
# Accounts of resources

A program acquires resources by the answers to some of its calls and releases them by others.
Whether every resource was released once is a question about the calls of a trace
(`acquired`, `released`); a program is shown to do so by a discipline over an account of what
it holds (`released_once_iff`).
-/

universe u

namespace GigMcp.Effect

variable {S : Signature} {α : Type} {W : Type u} {R : Sem S W}

/-! ## Disciplines along a trace -/

section Tracked

variable {G G' : Type} {track : (e : S.Op) → G → S.Res e → G} {pre : S.Op → G → Prop} {g : G}

/-- The record after the calls of a trace. -/
def tracked (track : (e : S.Op) → G → S.Res e → G) (g : G) (t : List (Event S)) : G :=
  t.foldl (fun g x ↦ track x.1 g x.2) g

@[simp] theorem tracked_nil : tracked track g [] = g := rfl

@[simp] theorem tracked_cons (x : Event S) (t : List (Event S)) :
    tracked track g (x :: t) = tracked track (track x.1 g x.2) t := rfl

/-- Each call of a trace is made when the discipline permits it. -/
def Disciplined (track : (e : S.Op) → G → S.Res e → G) (pre : S.Op → G → Prop) :
    G → List (Event S) → Prop
  | _, [] => True
  | g, x :: t => pre x.1 g ∧ Disciplined track pre (track x.1 g x.2) t

/-- The traces of a program that conforms to a discipline keep to it. -/
theorem Conforms.traced {fin : α → G → Prop} {p : Prog S α} (hp : Conforms track pre fin p g)
    {w w' : W} {t : List (Event S)} {a : α} (hx : Traced R p w t a w') :
    Disciplined track pre g t ∧ fin a (tracked track g t) := by
  induction p generalizing g w t with
  | ret b =>
      obtain ⟨rfl, rfl, -⟩ := hx
      exact ⟨trivial, hp⟩
  | vis e k ih =>
      obtain ⟨r, w₁, t', -, rfl, hx⟩ := hx
      obtain ⟨hdisciplined, hfin⟩ := ih r (hp.2 r) hx
      exact ⟨⟨hp.1, hdisciplined⟩, hfin⟩

/-- A record that is part of another one. -/
theorem Disciplined.map {track' : (e : S.Op) → G' → S.Res e → G'} {pre' : S.Op → G' → Prop}
    {π : G → G'} (htrack : ∀ e g r, π (track e g r) = track' e (π g) r)
    (hpre : ∀ e g, pre e g → pre' e (π g)) {t : List (Event S)} (h : Disciplined track pre g t) :
    Disciplined track' pre' (π g) t ∧ tracked track' (π g) t = π (tracked track g t) := by
  induction t generalizing g with
  | nil => exact ⟨trivial, rfl⟩
  | cons x t ih =>
      obtain ⟨hrest, heq⟩ := ih h.2
      rw [htrack] at hrest heq
      exact ⟨⟨hpre x.1 g h.1, hrest⟩, heq⟩

end Tracked

/-! ## Accounts -/

/-- What was acquired so far, and what of it is held. -/
structure Account (ρ : Type) where
  got : List ρ
  held : List ρ

variable {ρ : Type} [DecidableEq ρ] (acquires : (e : S.Op) → S.Res e → List ρ)
  (releases : S.Op → Option ρ)

/-- What the calls of a trace acquired. -/
def acquired (t : List (Event S)) : List ρ := t.flatMap fun x ↦ acquires x.1 x.2

/-- What they released. -/
def released (t : List (Event S)) : List ρ := t.filterMap fun x ↦ releases x.1

namespace Account

/-- An account with nothing in it. -/
def blank : Account ρ := ⟨[], []⟩

/-- The account after a call. -/
def track (e : S.Op) (g : Account ρ) (r : S.Res e) : Account ρ where
  got := acquires e r ++ g.got
  held := acquires e r ++ match releases e with
    | none => g.held
    | some x => g.held.erase x

/-- A call releases what is held, and acquires what was never acquired before. -/
structure Permits (e : S.Op) (g : Account ρ) : Prop where
  held : ∀ x, releases e = some x → x ∈ g.held
  nodup : ∀ r, (acquires e r).Nodup
  new : ∀ r, ∀ x ∈ acquires e r, x ∉ g.got

variable {acquires releases} {g : Account ρ} {t : List (Event S)}

/-- What a call does to the balance of one resource. -/
theorem count_held_track {e : S.Op} (he : Permits acquires releases e g) (r : S.Res e) (x : ρ) :
    (track acquires releases e g r).held.count x + (if releases e = some x then 1 else 0) =
      (acquires e r).count x + g.held.count x := by
  rw [track, List.count_append]
  cases hy : releases e with
  | none => simp
  | some z =>
      have hz := List.count_pos_iff.mpr (he.held z hy)
      by_cases hzx : z = x
      · subst hzx
        simp only [List.count_erase_self, if_true]
        omega
      · simp only [List.count_erase_of_ne (Ne.symm hzx), Option.some.injEq, hzx, if_false]
        omega

theorem count_released_cons (y : Event S) (t : List (Event S)) (x : ρ) :
    (released releases (y :: t)).count x =
      (released releases t).count x + if releases y.1 = some x then 1 else 0 := by
  cases hy : releases y.1 with
  | none => simp [released, hy]
  | some z => simp [released, hy, List.count_cons]

/-- What was acquired is held or was released. -/
theorem count_released
    (h : Disciplined (track acquires releases) (Permits acquires releases) g t) (x : ρ) :
    (released releases t).count x + (tracked (track acquires releases) g t).held.count x =
      (acquired acquires t).count x + g.held.count x := by
  induction t generalizing g with
  | nil => simp [released, acquired]
  | cons y t ih =>
      have hrest := ih h.2
      have hheld := count_held_track h.1 y.2 x
      have hacquired : (acquired acquires (y :: t)).count x =
          (acquires y.1 y.2).count x + (acquired acquires t).count x := by
        rw [acquired, List.flatMap_cons, List.count_append, acquired]
      rw [tracked_cons, hacquired, count_released_cons]
      omega

/-- Nothing is acquired twice. -/
theorem nodup_acquired
    (h : Disciplined (track acquires releases) (Permits acquires releases) g t) :
    (acquired acquires t).Nodup ∧ ∀ x ∈ acquired acquires t, x ∉ g.got := by
  induction t generalizing g with
  | nil => exact ⟨List.nodup_nil, by simp [acquired]⟩
  | cons y t ih =>
      obtain ⟨hnodup, hnew⟩ := ih h.2
      have hsplit : acquired acquires (y :: t) = acquires y.1 y.2 ++ acquired acquires t :=
        List.flatMap_cons
      rw [hsplit]
      constructor
      · refine (h.1.nodup y.2).append hnodup ?_
        exact fun x hx hx' ↦ hnew x hx' (List.mem_append_left _ hx)
      · intro x hx
        rcases List.mem_append.mp hx with hx | hx
        · exact h.1.new y.2 x hx
        · exact fun hgot ↦ hnew x hx (List.mem_append_right _ hgot)

/-- **Everything was released once** if and only if nothing is held in the end. -/
theorem released_once_iff
    (h : Disciplined (track acquires releases) (Permits acquires releases) blank t) :
    (∀ x ∈ acquired acquires t, (released releases t).count x = 1) ↔
      (tracked (track acquires releases) blank t).held = [] := by
  have hcount (x : ρ) := count_released h x
  obtain ⟨hnodup, -⟩ := nodup_acquired h
  constructor
  · intro hall
    refine List.eq_nil_iff_forall_not_mem.mpr fun x hx ↦ ?_
    have hheld := List.count_pos_iff.mpr hx
    have hle := List.nodup_iff_count_le_one.mp hnodup x
    have hx' := hcount x
    simp only [blank, List.count_nil, Nat.add_zero] at hx' hheld
    have hmem : x ∈ acquired acquires t := List.count_pos_iff.mp (by omega)
    have hone := hall x hmem
    omega
  · intro hnil x hx
    have hx' := hcount x
    rw [hnil, List.count_eq_one_of_mem hnodup hx] at hx'
    simpa [blank] using hx'

end Account

end GigMcp.Effect
