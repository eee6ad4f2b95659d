import GigMcp.Data.Table
import GigMcp.Effect.Prog
import Mathlib.Data.Multiset.Filter
import Mathlib.Data.Multiset.UnionInter

/-!
# Single flights

A group collapses concurrent computations for one key into one: who finds no flight
for the key starts one and runs the computation, who finds one joins it and gets its
result, and the flight is forgotten when it ends.

`Flies` is the invariant of a group and the threads that use it, given as a multiset
of whatever describes a thread, with the flights it leads and has joined read off by
two functions.  The flights under way are exactly those that are led, so no two
threads lead flights for one key, and a flight that was joined is under way or has
ended, under the key it was joined for.
-/

namespace GigMcp.Effect

open GigMcp.Data

/-- The state of a group: the flight under way for a key, and the results of those
that ended, with their keys. -/
structure Group (K R : Type) [DecidableEq K] where
  /-- The flights under way. -/
  calls : Table (Prod.fst : K × ℕ → K)
  /-- The number of the next flight. -/
  next : ℕ
  /-- The flights that ended. -/
  done : ℕ → Option (K × R)

/-- How a thread comes into a flight. -/
inductive Boarding
  | /-- It starts the flight and runs the computation. -/
    leads (f : ℕ)
  | /-- It waits for a flight under way. -/
    joins (f : ℕ)

/-- The calls of a group. -/
inductive GroupCall (K R : Type)
  | /-- Start or join the flight for a key. -/
    board (k : K)
  | /-- Wait for a flight. -/
    await (f : ℕ)
  | /-- End a flight with a result. -/
    land (k : K) (f : ℕ) (r : R)

/-- What a call answers. -/
@[reducible] def GroupCall.Res {K R : Type} : GroupCall K R → Type
  | .board _ => Boarding
  | .await _ => R
  | .land .. => Unit

/-- The signature of a group. -/
@[reducible] def flights (K R : Type) : Signature := ⟨GroupCall K R, GroupCall.Res⟩

namespace Group

variable {K R : Type} [DecidableEq K]

def fresh : Group K R := ⟨.empty, 0, fun _ ↦ none⟩

/-- Start or join the flight for a key. -/
def board (s : Group K R) (k : K) : Boarding × Group K R :=
  match s.calls.get? k with
  | some (_, f) => (.joins f, s)
  | none =>
      (.leads s.next,
        { s with
          calls := s.calls.upsert (k, s.next) (fun c ↦ (c.1, s.next)) fun _ ↦ rfl
          next := s.next + 1 })

/-- End a flight. -/
def land (s : Group K R) (k : K) (f : ℕ) (r : R) : Group K R :=
  { s with
    calls := s.calls.deleteWhere (·.1 = k)
    done := Function.update s.done f (some (k, r)) }

/-- The reading of the calls. -/
def sem : (e : GroupCall K R) → Group K R → e.Res → Group K R → Prop
  | .board k, s, r, s' => r = (s.board k).1 ∧ s' = (s.board k).2
  | .await f, s, r, s' => (∃ k, s.done f = some (k, r)) ∧ s' = s
  | .land k f r, s, _, s' => s' = s.land k f r

end Group

/-- The flights of a group are those of the threads. -/
structure Flies {K R X : Type} [DecidableEq K] (lead join : X → Option (K × ℕ)) (s : Group K R)
    (xs : Multiset X) : Prop where
  rows : (s.calls.rows : Multiset (K × ℕ)) = xs.filterMap lead
  joined : ∀ x ∈ xs, ∀ k f, join x = some (k, f) →
    (k, f) ∈ s.calls.rows ∨ ∃ r, s.done f = some (k, r)
  keys : ∀ k k' f, (k, f) ∈ s.calls.rows → (k', f) ∈ s.calls.rows → k = k'
  undone : ∀ k f, (k, f) ∈ s.calls.rows → s.done f = none
  under : ∀ k f, (k, f) ∈ s.calls.rows → f < s.next
  ended : ∀ f, s.next ≤ f → s.done f = none

namespace Flies

variable {K R X : Type} [DecidableEq K] {lead join : X → Option (K × ℕ)} {s : Group K R}
  {xs : Multiset X} {x x' : X} {k : K} {f : ℕ}

theorem fresh : Flies lead join (Group.fresh : Group K R) 0 :=
  ⟨rfl, fun _ hx ↦ absurd hx (Multiset.notMem_zero _), nofun, nofun, nofun, fun _ _ ↦ rfl⟩

/-- The flights that are led, one thread changed. -/
theorem rows_cons (h : Flies lead join s (x ::ₘ xs)) (hlead : lead x' = lead x) :
    (s.calls.rows : Multiset (K × ℕ)) = (x' ::ₘ xs).filterMap lead := by
  rw [h.rows]
  cases hx : lead x with
  | none =>
      rw [Multiset.filterMap_cons_none _ _ hx, Multiset.filterMap_cons_none _ _ (hlead.trans hx)]
  | some kf =>
      rw [Multiset.filterMap_cons_some _ _ _ hx,
        Multiset.filterMap_cons_some _ _ _ (hlead.trans hx)]

/-- The flights that were joined, one thread changed. -/
theorem joined_cons (h : Flies lead join s (x ::ₘ xs)) (hjoin : join x' = join x) :
    ∀ y ∈ x' ::ₘ xs, ∀ k f, join y = some (k, f) →
      (k, f) ∈ s.calls.rows ∨ ∃ r, s.done f = some (k, r) := by
  intro y hy k f hyj
  rcases Multiset.mem_cons.mp hy with rfl | hy
  · exact h.joined x (Multiset.mem_cons_self _ _) k f (hjoin ▸ hyj)
  · exact h.joined y (Multiset.mem_cons_of_mem hy) k f hyj

/-- A thread that has nothing to do with any flight. -/
theorem start (h : Flies lead join s xs) (hlead : lead x = none) (hjoin : join x = none) :
    Flies lead join s (x ::ₘ xs) where
  rows := by rw [h.rows, Multiset.filterMap_cons_none _ _ hlead]
  joined := by
    intro y hy k f hyj
    rcases Multiset.mem_cons.mp hy with rfl | hy
    · rw [hjoin] at hyj
      cases hyj
    · exact h.joined y hy k f hyj
  keys := h.keys
  undone := h.undone
  under := h.under
  ended := h.ended

/-- A thread that stays in its flights. -/
theorem keep (h : Flies lead join s (x ::ₘ xs)) (hlead : lead x' = lead x)
    (hjoin : join x' = join x) : Flies lead join s (x' ::ₘ xs) where
  rows := h.rows_cons hlead
  joined := h.joined_cons hjoin
  keys := h.keys
  undone := h.undone
  under := h.under
  ended := h.ended

/-- A thread that joins the flight under way. -/
theorem joins (h : Flies lead join s (x ::ₘ xs)) (hk : s.calls.get? k = some (k, f))
    (hlead : lead x' = lead x) (hjoin : join x' = some (k, f)) :
    Flies lead join s (x' ::ₘ xs) where
  rows := h.rows_cons hlead
  joined := by
    intro y hy k' f' hyj
    rcases Multiset.mem_cons.mp hy with rfl | hy
    · rw [hjoin] at hyj
      cases hyj
      exact .inl (Table.mem_of_get? hk)
    · exact h.joined y (Multiset.mem_cons_of_mem hy) k' f' hyj
  keys := h.keys
  undone := h.undone
  under := h.under
  ended := h.ended

/-- A thread that starts a flight. -/
theorem leads (h : Flies lead join s (x ::ₘ xs)) (hk : s.calls.get? k = none)
    (hlead : lead x = none) (hlead' : lead x' = some (k, s.next)) (hjoin : join x' = join x) :
    Flies lead join (s.board k).2 (x' ::ₘ xs) := by
  have hboard : (s.board k).2 =
      { s with
        calls := s.calls.upsert (k, s.next) (fun c ↦ (c.1, s.next)) fun _ ↦ rfl
        next := s.next + 1 } := by
    rw [Group.board, hk]
  have hrows : (s.board k).2.calls.rows = s.calls.rows ++ [(k, s.next)] := by
    rw [hboard]
    exact Table.rows_upsert_of_get?_none hk
  have hdone : (s.board k).2.done = s.done := by rw [hboard]
  have hnext : (s.board k).2.next = s.next + 1 := by rw [hboard]
  have hmem : ∀ k' f', (k', f') ∈ (s.board k).2.calls.rows →
      (k', f') ∈ s.calls.rows ∨ (k' = k ∧ f' = s.next) := by
    intro k' f' hm
    rw [hrows] at hm
    rcases List.mem_append.mp hm with hm | hm
    · exact .inl hm
    · exact .inr (Prod.mk.inj (List.mem_singleton.mp hm))
  refine ⟨?_, ?_, ?_, ?_, ?_, ?_⟩
  · rw [hrows, ← Multiset.coe_add, h.rows, Multiset.filterMap_cons_none _ _ hlead,
      Multiset.filterMap_cons_some _ _ _ hlead', Multiset.coe_singleton, Multiset.add_comm,
      Multiset.singleton_add]
  · intro y hy k' f' hyj
    rw [hrows, hdone]
    exact (h.joined_cons hjoin y hy k' f' hyj).imp_left (List.mem_append_left _)
  · intro k₁ k₂ f' hm₁ hm₂
    rcases hmem k₁ f' hm₁ with h₁ | ⟨h₁, hf₁⟩
    · rcases hmem k₂ f' hm₂ with h₂ | ⟨-, hf₂⟩
      · exact h.keys k₁ k₂ f' h₁ h₂
      · exact absurd (h.under _ _ h₁) (hf₂ ▸ Nat.lt_irrefl _)
    · rcases hmem k₂ f' hm₂ with h₂ | ⟨h₂, -⟩
      · exact absurd (h.under _ _ h₂) (hf₁ ▸ Nat.lt_irrefl _)
      · exact h₁.trans h₂.symm
  · intro k' f' hm
    rw [hdone]
    rcases hmem k' f' hm with hm | ⟨-, rfl⟩
    · exact h.undone k' f' hm
    · exact h.ended _ (Nat.le_refl _)
  · intro k' f' hm
    rw [hnext]
    rcases hmem k' f' hm with hm | ⟨-, rfl⟩
    · exact Nat.lt_succ_of_lt (h.under k' f' hm)
    · exact Nat.lt_succ_self _
  · intro f' hf'
    rw [hnext] at hf'
    rw [hdone]
    exact h.ended f' (Nat.le_of_succ_le hf')

/-- A thread that ends the flight it leads. -/
theorem lands (h : Flies lead join s (x ::ₘ xs)) (hlead : lead x = some (k, f))
    (hlead' : lead x' = none) (hjoin : join x' = join x) (r : R) :
    Flies lead join (s.land k f r) (x' ::ₘ xs) := by
  have hrow : (k, f) ∈ s.calls.rows := by
    rw [← Multiset.mem_coe, h.rows, Multiset.filterMap_cons_some _ _ _ hlead]
    exact Multiset.mem_cons_self _ _
  have hsub : ∀ kf, kf ∈ (s.land k f r).calls.rows → kf ∈ s.calls.rows ∧ kf.1 ≠ k := by
    intro kf hkf
    obtain ⟨hmem, hne⟩ := List.mem_filter.mp hkf
    exact ⟨hmem, by simpa using hne⟩
  have hother : ∀ k' f', (k', f') ∈ s.calls.rows → k' ≠ k → f' ≠ f := by
    rintro k' f' hm hne rfl
    exact hne (h.keys k' k _ hm hrow)
  refine ⟨?_, ?_, ?_, ?_, ?_, ?_⟩
  · have hperm := Table.rows_perm_of_get? (Table.get?_of_mem hrow)
    have hrows := h.rows
    rw [Multiset.coe_eq_coe.mpr hperm, ← Multiset.cons_coe,
      Multiset.filterMap_cons_some _ _ _ hlead] at hrows
    rw [Multiset.filterMap_cons_none _ _ hlead']
    exact (Multiset.cons_inj_right _).mp hrows
  · intro y hy k' f' hyj
    rcases h.joined_cons hjoin y hy k' f' hyj with hm | ⟨r', hr'⟩
    · by_cases hk' : k' = k
      · subst hk'
        -- The flight that was joined is the one that ends.
        have hf : f' = f := by
          have h₁ := Table.get?_of_mem hm
          have h₂ := Table.get?_of_mem hrow
          exact (Prod.mk.inj (Option.some.inj (h₁.symm.trans h₂))).2
        subst hf
        exact .inr ⟨r, Function.update_self _ _ _⟩
      · exact .inl (List.mem_filter.mpr ⟨hm, by simpa using hk'⟩)
    · right
      have hne : f' ≠ f := by
        rintro rfl
        rw [h.undone k _ hrow] at hr'
        cases hr'
      exact ⟨r', (Function.update_of_ne hne _ _).trans hr'⟩
  · exact fun k₁ k₂ f' h₁ h₂ ↦ h.keys k₁ k₂ f' (hsub _ h₁).1 (hsub _ h₂).1
  · intro k' f' hm
    obtain ⟨hm, hne⟩ := hsub _ hm
    exact (Function.update_of_ne (hother k' f' hm hne) _ _).trans (h.undone k' f' hm)
  · exact fun k' f' hm ↦ h.under k' f' (hsub _ hm).1
  · intro f' hf'
    have hne : f' ≠ f := by
      rintro rfl
      exact absurd (h.under k _ hrow) (Nat.not_lt.mpr hf')
    exact (Function.update_of_ne hne _ _).trans (h.ended f' hf')

/-- No two threads lead flights for one key. -/
theorem leader_unique (h : Flies lead join s (x ::ₘ xs)) (hlead : lead x = some (k, f)) {y : X}
    (hy : y ∈ xs) {f' : ℕ} : lead y ≠ some (k, f') := by
  intro hlead'
  have hnodup : (s.calls.rows.map Prod.fst).Nodup := s.calls.nodup
  have hkeys : ((s.calls.rows : Multiset (K × ℕ)).map Prod.fst).Nodup := by
    rw [Multiset.map_coe]
    exact Multiset.coe_nodup.mpr hnodup
  rw [h.rows, Multiset.filterMap_cons_some _ _ _ hlead, Multiset.map_cons,
    Multiset.nodup_cons] at hkeys
  refine hkeys.1 (Multiset.mem_map.mpr ⟨(k, f'), ?_, rfl⟩)
  exact (Multiset.mem_filterMap _ _).mpr ⟨y, hy, hlead'⟩

end Flies

end GigMcp.Effect
