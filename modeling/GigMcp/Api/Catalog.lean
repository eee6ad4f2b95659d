import GigMcp.Effect.Pool
import GigMcp.System.Call

/-!
# The memoized registry index

`cachedIndex` (`api/registry.go`): requests for the catalog share one index, which is fetched anew
when it is five minutes old.  The mutex is held across the fetch, and an index that could not be
fetched is not kept.  What the memo changes is how old an answer may be and how often the registry
is asked, whatever requests come in at once and whichever fetches fail.
-/

namespace GigMcp.Api.Catalog

open GigMcp.Effect GigMcp.Registry

inductive Call
  | lock
  | load
  | now
  | fetch
  | store (index : Index) (fetchedAt : Time)
  | unlock

/-- What a call answers. -/
@[reducible] def Call.Res : Call → Type
  | .load => Option (Index × Time)
  | .now => Time
  | .fetch => Except Err Index
  | _ => Unit

def caching : Signature := ⟨Call, Call.Res⟩

def does (e : Call) : Prog caching e.Res := Prog.call (S := caching) e

def registryCacheTTL : Time := 300 * Time.second

/-- The memo, unless it is too old. -/
def memo : Prog caching (Option Index) := do
  match ← does .load with
  | none => return none
  | some (index, fetchedAt) =>
      let t ← does .now
      if t - fetchedAt < registryCacheTTL then return some index else return none

def refetch : Prog caching (Except Err Index) := do
  match ← does .fetch with
  | .error e => return .error e
  | .ok index =>
      let t ← does .now
      does (.store index t)
      return .ok index

def cachedIndex : Prog caching (Except Err Index) := do
  does .lock
  match ← memo with
  | some index => do
      does .unlock
      return .ok index
  | none => do
      let res ← refetch
      does .unlock
      return res

/-! ## Requests side by side -/

/-- The mutex, what has been fetched and what has been kept of it, the latest first, and the clock.
The memo is the latest index that was kept. -/
structure Memo where
  locked : Bool
  fetched : List Index
  kept : List (Index × Time)
  now : Time

def Memo.cold (now : Time) : Memo := ⟨false, [], [], now⟩

def sem : Sem caching Memo
  | .lock, w, _, w' => w.locked = false ∧ w' = { w with locked := true }
  | .load, w, r, w' => r = w.kept.head? ∧ w' = w
  | .now, w, r, w' => w.now ≤ r ∧ w' = { w with now := r }
  | .fetch, w, r, w' => w' = { w with fetched := r.toOption.toList ++ w.fetched }
  | .store index fetchedAt, w, _, w' => w' = { w with kept := (index, fetchedAt) :: w.kept }
  | .unlock, w, _, w' => w' = { w with locked := false }

/-- A request: whether it has the mutex, what it found under it and has yet to keep, and what it has
read of the clock and known of the memo, the latest first. -/
structure Trace where
  holds : Bool
  found : Option (Option (Index × Time))
  pending : Option Index
  clock : List Time
  known : List (Index × Time)

def Trace.track : (e : Call) → Trace → e.Res → Trace
  | .lock, g, _ => { g with holds := true, found := none }
  | .load, g, r => { g with found := some r, known := r.toList ++ g.known }
  | .now, g, t => { g with clock := t :: g.clock }
  | .fetch, g, r => { g with pending := r.toOption }
  | .store index fetchedAt, g, _ =>
      { g with found := none, pending := none, known := (index, fetchedAt) :: g.known }
  | .unlock, g, _ => { g with holds := false }

/-- Requests of any number, while time passes. -/
def plane : Effect.System caching (Except Err Index) Unit Trace Memo where
  sem := sem
  starts := fun _ ↦ True
  body := fun _ ↦ do
    let res ← cachedIndex
    return .inl res
  init := fun _ ↦ ⟨false, none, none, [], []⟩
  track := Trace.track
  env := fun w w' ↦ w.now ≤ w'.now ∧ w' = { w with now := w'.now }

/-- The index that was found is too old at some time that was read. -/
def Trace.Stale (g : Trace) (clock : List Time) : Prop :=
  ∃ found, g.found = some found ∧ ∀ x, found = some x → ∃ t ∈ clock, x.2 + registryCacheTTL ≤ t

/-- The memo is used by the request that holds the mutex.  An index is fetched when there is none or
it is too old, and kept with a time read after that, before the mutex is given up. -/
def Permits : Call → Trace → Prop
  | .lock, g => g.holds = false
  | .now, _ => True
  | .load, g => g.holds = true
  | .fetch, g => g.holds = true ∧ g.pending = none ∧ g.Stale g.clock
  | .store index fetchedAt, g =>
      g.holds = true ∧ g.pending = some index ∧ ∃ ts, g.clock = fetchedAt :: ts ∧ g.Stale ts
  | .unlock, g => g.holds = true ∧ g.pending = none

/-- An index was found or left in the memo, and was not too old then. -/
def Trace.Fresh (g : Trace) (index : Index) : Prop :=
  ∃ x ∈ g.known, x.1 = index ∧ ∃ t ∈ g.clock, t < x.2 + registryCacheTTL

/-- A request ends without the mutex. -/
def Answers : Except Err Index ⊕ Unit → Trace → Prop
  | .inl res, g => g.holds = false ∧ ∀ index, res = .ok index → g.Fresh index
  | .inr _, _ => False

/-- What is found in the memo: an answer, or a reason to fetch. -/
theorem conforms_memo {g : Trace} (hholds : g.holds = true) (hpending : g.pending = none) :
    Conforms (S := caching) Trace.track Permits
      (fun res g ↦ g.holds = true ∧ g.pending = none ∧ match res with
        | some index => g.Fresh index
        | none => g.Stale g.clock) memo g := by
  refine conforms_call.mpr ⟨hholds, fun r ↦ ?_⟩
  cases r with
  | none => exact ⟨hholds, hpending, none, rfl, fun _ h ↦ nomatch h⟩
  | some x =>
      refine conforms_call.mpr ⟨trivial, fun (t : Time) ↦ ?_⟩
      change Conforms _ _ _
        (if t - x.2 < registryCacheTTL then Prog.ret (some x.1) else Prog.ret none) _
      split
      case isTrue hfresh =>
        exact ⟨hholds, hpending, x, List.mem_cons_self, rfl, t, List.mem_cons_self,
          Int.lt_add_of_sub_left_lt hfresh⟩
      case isFalse hstale =>
        refine ⟨hholds, hpending, some x, rfl, ?_⟩
        rintro _ ⟨⟩
        exact ⟨t, List.mem_cons_self, Int.add_le_of_le_sub_left (Int.not_lt.mp hstale)⟩

theorem conforms_refetch {g : Trace} (hholds : g.holds = true) (hpending : g.pending = none)
    (hstale : g.Stale g.clock) :
    Conforms (S := caching) Trace.track Permits
      (fun res g ↦ g.holds = true ∧ g.pending = none ∧ ∀ index, res = .ok index → g.Fresh index)
      refetch g := by
  refine conforms_call.mpr ⟨⟨hholds, hpending, hstale⟩, fun res ↦ ?_⟩
  cases res with
  | error e => exact ⟨hholds, rfl, fun _ h ↦ nomatch h⟩
  | ok index =>
      refine conforms_call.mpr ⟨trivial, fun t ↦ conforms_call.mpr ⟨?_, fun _ ↦ ?_⟩⟩
      · exact ⟨hholds, rfl, g.clock, rfl, hstale⟩
      · refine ⟨hholds, rfl, ?_⟩
        rintro _ ⟨⟩
        exact ⟨(index, t), List.mem_cons_self, rfl, t, List.mem_cons_self,
          Int.lt_add_of_pos_right t (by decide)⟩

theorem conforms_cachedIndex {g : Trace} (hholds : g.holds = false) (hpending : g.pending = none) :
    Conforms (S := caching) Trace.track Permits (fun res ↦ Answers (.inl res)) cachedIndex g := by
  refine conforms_call.mpr ⟨hholds, fun _ ↦ ?_⟩
  refine (conforms_memo (g := { g with holds := true, found := none }) rfl hpending).bind
    fun res g' hg' ↦ ?_
  obtain ⟨hholds', hpending', hres⟩ := hg'
  cases res with
  | some index =>
      refine conforms_call.mpr ⟨⟨hholds', hpending'⟩, fun _ ↦ ⟨rfl, ?_⟩⟩
      rintro _ ⟨⟩
      exact hres
  | none =>
      refine (conforms_refetch hholds' hpending' hres).bind fun res g₂ hg₂ ↦ ?_
      exact conforms_call.mpr ⟨⟨hg₂.1, hg₂.2.1⟩, fun _ ↦ ⟨rfl, hg₂.2.2⟩⟩

/-! ## The memo at any time -/

/-- What a request has seen is still so.  For the one that holds the mutex, so is what it found. -/
structure Seen (w : Memo) (g : Trace) : Prop where
  idle : g.holds = false → g.pending = none
  found : g.holds = true → ∀ found, g.found = some found → w.kept.head? = found
  pending : g.holds = true → w.fetched = g.pending.toList ++ w.kept.map Prod.fst
  clock : g.clock.Pairwise (· ≥ ·)
  past : ∀ t ∈ g.clock, t ≤ w.now
  known : g.known ⊆ w.kept

structure Sound (w : Memo) (gs : Multiset (Unit × Trace)) : Prop where
  mutex : gs.countP (fun x ↦ x.2.holds = true) = w.locked.toNat
  free : w.locked = false → w.fetched = w.kept.map Prod.fst
  seen : ∀ x ∈ gs, Seen w x.2
  apart : w.kept.Pairwise fun x y ↦ y.2 + registryCacheTTL ≤ x.2

variable {w w' : Memo} {gs : Multiset (Unit × Trace)} {g : Trace} {j : Unit}

/-- What has been seen stays so, as long as the memo is left alone for a request that holds it. -/
theorem Seen.mono (h : Seen w g) (hnow : w.now ≤ w'.now) (hkept : w.kept ⊆ w'.kept)
    (hheld : g.holds = true → w'.kept = w.kept ∧ w'.fetched = w.fetched) : Seen w' g where
  idle := h.idle
  found hholds found hfound := (hheld hholds).1 ▸ h.found hholds found hfound
  pending hholds := by
    rw [(hheld hholds).1, (hheld hholds).2]
    exact h.pending hholds
  clock := h.clock
  past t ht := Int.le_trans (h.past t ht) hnow
  known := List.Subset.trans h.known hkept

/-- While one request holds the mutex, no other does. -/
theorem Sound.alone (h : Sound w ((j, g) ::ₘ gs)) (hholds : g.holds = true) :
    w.locked = true ∧ ∀ x ∈ gs, x.2.holds = false := by
  have hmutex := h.mutex
  rw [Multiset.countP_cons, if_pos hholds] at hmutex
  have hle := Bool.toNat_le w.locked
  refine ⟨Bool.toNat_eq_one.mp (by omega), fun x hx ↦ ?_⟩
  have hnone : gs.countP (fun x ↦ x.2.holds = true) = 0 := by omega
  exact Bool.eq_false_iff.mpr (Multiset.countP_eq_zero.mp hnone x hx)

/-- An index that is kept is far from the one before it. -/
theorem Sound.far (h : Sound w gs) {index : Index} {t : Time}
    (hhead : ∀ x, w.kept.head? = some x → x.2 + registryCacheTTL ≤ t) :
    ((index, t) :: w.kept).Pairwise fun x y ↦ y.2 + registryCacheTTL ≤ x.2 := by
  refine List.pairwise_cons.mpr ⟨fun y hy ↦ ?_, h.apart⟩
  have hapart := h.apart
  cases hkept : w.kept with
  | nil => rw [hkept] at hy; exact nomatch hy
  | cons x rest =>
      rw [hkept] at hy hapart hhead
      obtain rfl | hy := List.mem_cons.mp hy
      · exact hhead _ rfl
      · calc y.2 + registryCacheTTL ≤ x.2 := (List.pairwise_cons.mp hapart).1 y hy
          _ ≤ x.2 + registryCacheTTL := Int.le_add_of_nonneg_right (by decide)
          _ ≤ t := hhead x rfl

/-- A call that leaves the memo as it is, for the other requests. -/
theorem Sound.others (h : Sound w ((j, g) ::ₘ gs)) (hnow : w.now ≤ w'.now)
    (hkept : w'.kept = w.kept) (hfetched : w'.fetched = w.fetched) : ∀ x ∈ gs, Seen w' x.2 :=
  fun x hx ↦ (h.seen x (Multiset.mem_cons_of_mem hx)).mono hnow (hkept ▸ List.Subset.refl _)
    fun _ ↦ ⟨hkept, hfetched⟩

/-- A call of the request that holds the mutex, for the other requests. -/
theorem Sound.others_alone (h : Sound w ((j, g) ::ₘ gs)) (hholds : g.holds = true)
    (hnow : w.now ≤ w'.now) (hkept : w.kept ⊆ w'.kept) : ∀ x ∈ gs, Seen w' x.2 := by
  refine fun x hx ↦ (h.seen x (Multiset.mem_cons_of_mem hx)).mono hnow hkept ?_
  simp [(h.alone hholds).2 x hx]

/-- **Step lemma.** -/
theorem Sound.call {e : Call} {r : e.Res} (h : Sound w ((j, g) ::ₘ gs)) (hpre : Permits e g)
    (hcall : sem e w r w') : Sound w' ((j, Trace.track e g r) ::ₘ gs) := by
  have hg : Seen w g := h.seen _ (Multiset.mem_cons_self _ _)
  have hmutex := h.mutex
  rw [Multiset.countP_cons] at hmutex
  -- a call keeps the count of holders, unless it takes or gives up the mutex
  have hcount (hholds : (Trace.track e g r).holds = g.holds) (hlocked : w'.locked = w.locked) :
      ((j, Trace.track e g r) ::ₘ gs).countP (fun x ↦ x.2.holds = true) = w'.locked.toNat := by
    rw [Multiset.countP_cons, hholds, hlocked, hmutex]
  cases e with
  | lock =>
      obtain ⟨hfree, rfl⟩ := hcall
      refine ⟨?_, nofun, Multiset.forall_mem_cons.mpr ⟨⟨nofun, nofun, fun _ ↦ ?_, hg.clock,
        hg.past, hg.known⟩, h.others (Int.le_refl _) rfl rfl⟩, h.apart⟩
      · rw [hpre, hfree] at hmutex
        rw [Multiset.countP_cons]
        exact congrArg (· + 1) hmutex
      · rw [Trace.track, hg.idle hpre]
        exact h.free hfree
  | load =>
      obtain ⟨rfl, rfl⟩ := hcall
      refine ⟨hcount rfl rfl, h.free, Multiset.forall_mem_cons.mpr ⟨⟨hg.idle, ?_, hg.pending,
        hg.clock, hg.past, ?_⟩, h.others (Int.le_refl _) rfl rfl⟩, h.apart⟩
      · rintro _ _ ⟨⟩
        rfl
      · exact List.append_subset.mpr ⟨fun x hx ↦ List.mem_of_head? (Option.mem_toList.mp hx),
          hg.known⟩
  | now =>
      obtain ⟨hnow, rfl⟩ := hcall
      have hpast t (ht : t ∈ g.clock) := Int.le_trans (hg.past t ht) hnow
      exact ⟨hcount rfl rfl, h.free, Multiset.forall_mem_cons.mpr ⟨⟨hg.idle, hg.found, hg.pending,
        List.pairwise_cons.mpr ⟨hpast, hg.clock⟩, List.forall_mem_cons.mpr ⟨Int.le_refl _, hpast⟩,
        hg.known⟩, h.others hnow rfl rfl⟩, h.apart⟩
  | fetch =>
      obtain rfl := hcall
      obtain ⟨hholds, hpending, -⟩ := hpre
      refine ⟨hcount rfl rfl, by simp [(h.alone hholds).1], Multiset.forall_mem_cons.mpr
        ⟨⟨by simp [Trace.track, hholds], hg.found, fun _ ↦ ?_, hg.clock, hg.past, hg.known⟩,
          h.others_alone hholds (Int.le_refl _) (List.Subset.refl _)⟩, h.apart⟩
      simpa [Trace.track, hpending] using hg.pending hholds
  | store index fetchedAt =>
      obtain rfl := hcall
      obtain ⟨hholds, hpending, ts, hclock, found, hfound, hstale⟩ := hpre
      refine ⟨hcount rfl rfl, by simp [(h.alone hholds).1], Multiset.forall_mem_cons.mpr
        ⟨⟨fun _ ↦ rfl, nofun, fun _ ↦ ?_, hg.clock, hg.past, List.cons_subset_cons _ hg.known⟩,
          h.others_alone hholds (Int.le_refl _) (List.subset_cons_self _ _)⟩, h.far fun x hx ↦ ?_⟩
      · simpa [Trace.track, hpending] using hg.pending hholds
      · obtain ⟨t, ht, hle⟩ := hstale x ((hg.found hholds found hfound).symm.trans hx)
        have hts := hg.clock
        rw [hclock] at hts
        exact Int.le_trans hle ((List.pairwise_cons.mp hts).1 t ht)
  | unlock =>
      obtain rfl := hcall
      obtain ⟨hholds, hpending⟩ := hpre
      refine ⟨?_, fun _ ↦ ?_, Multiset.forall_mem_cons.mpr ⟨⟨fun _ ↦ hpending, nofun, nofun,
        hg.clock, hg.past, hg.known⟩, h.others (Int.le_refl _) rfl rfl⟩, h.apart⟩
      · rw [Multiset.countP_cons]
        exact Multiset.countP_eq_zero.mpr fun x hx ↦ Bool.eq_false_iff.mp ((h.alone hholds).2 x hx)
      · simpa [hpending] using hg.pending hholds

def discipline : Discipline plane where
  pre := fun _ ↦ Permits
  fin := fun _ ↦ Answers
  Inv := Sound
  body_conforms := fun _ _ ↦ (conforms_cachedIndex rfl rfl).bind fun _ _ h ↦ h
  again_conforms := fun _ _ _ _ _ _ h ↦ h.elim
  inv_start := fun w gs j _ h ↦ by
    refine ⟨?_, h.free, Multiset.forall_mem_cons.mpr ⟨⟨fun _ ↦ rfl, nofun, nofun,
      List.Pairwise.nil, nofun, nofun⟩, h.seen⟩, h.apart⟩
    rw [Multiset.countP_cons]
    exact h.mutex
  inv_call := fun _ _ _ _ _ _ _ h hpre hcall ↦ h.call hpre hcall
  inv_again := fun _ _ _ _ _ _ h ↦ h.elim
  inv_env := by
    rintro w gs w' h ⟨hnow, hw⟩
    rw [hw]
    exact ⟨h.mutex, h.free, fun x hx ↦ (h.seen x hx).mono hnow (List.Subset.refl _)
      fun _ ↦ ⟨rfl, rfl⟩, h.apart⟩

theorem sound_cold (now : Time) : Sound (Memo.cold now) 0 :=
  ⟨rfl, fun _ ↦ rfl, fun _ hx ↦ absurd hx (Multiset.notMem_zero _), List.Pairwise.nil⟩

/-- Whether a request is about to ask the registry. -/
def fetching (t : Thread caching (Except Err Index) Unit Trace) : Bool :=
  match t.cur with
  | .vis .fetch _ => true
  | _ => false

theorem holds_of_fetching {t : Thread caching (Except Err Index) Unit Trace}
    (hconf : Conforms (S := caching) Trace.track Permits Answers t.cur t.record)
    (h : fetching t = true) : t.record.holds = true := by
  unfold fetching at h
  split at h
  · rename_i hcur
    rw [hcur] at hconf
    exact (conforms_call.mp hconf).1.1
  · cases h

/-- Whatever requests come in at once, one at a time asks the registry, and every index it gives is
kept, at least five minutes after the one before it.  What a request is answered was kept less than
five minutes before some time that it read, and when all requests are done, fetched or failed, the
mutex is free. -/
theorem catalog_memoized {now : Time} {c : Pool caching (Except Err Index) Unit Trace Memo}
    (h : plane.Reach ⟨Memo.cold now, []⟩ c) :
    c.threads.countP fetching ≤ 1 ∧
      (∃ pending : Option Index,
        c.shared.fetched = pending.toList ++ c.shared.kept.map Prod.fst) ∧
      c.shared.kept.Pairwise (fun x y ↦ y.2 + registryCacheTTL ≤ x.2) ∧
      (∀ t ∈ c.threads, ∀ index, t.cur = .ret (.inl (.ok index)) →
        ∃ fetchedAt, (index, fetchedAt) ∈ c.shared.kept ∧
          ∃ asked ∈ t.record.clock, asked ≤ c.shared.now ∧ asked < fetchedAt + registryCacheTTL) ∧
      ((∀ t ∈ c.threads, t.Finished) → c.shared.locked = false ∧
        c.shared.fetched = c.shared.kept.map Prod.fst) := by
  have hgood := discipline.good (discipline.good_nil (sound_cold now)) h
  have hsound : Sound c.shared c.records := hgood.inv
  have hmutex := hsound.mutex
  rw [Pool.records, Multiset.coe_countP, List.countP_map] at hmutex
  have hends (t) (ht : t ∈ c.threads) (res) (hcur : t.cur = .ret (.inl res)) :
      Answers (.inl res) t.record := by
    have hconf := hgood.conforms t ht
    rw [hcur] at hconf
    exact hconf
  refine ⟨?_, ?_, hsound.apart, fun t ht index hcur ↦ ?_, fun hdone ↦ ?_⟩
  · refine (List.countP_mono_left fun t ht hfetching ↦ ?_).trans (hmutex.trans_le (Bool.toNat_le _))
    exact decide_eq_true (holds_of_fetching (hgood.conforms t ht) hfetching)
  · cases hlocked : c.shared.locked with
    | false => exact ⟨none, hsound.free hlocked⟩
    | true =>
        rw [hlocked] at hmutex
        obtain ⟨t, ht, hholds⟩ := List.countP_pos_iff.mp (Nat.one_pos.trans_eq hmutex.symm)
        exact ⟨_, (hsound.seen _ (Pool.mem_records ht)).pending (by simpa using hholds)⟩
  · obtain ⟨-, hfresh⟩ := hends t ht _ hcur
    obtain ⟨x, hx, rfl, asked, hasked, hlt⟩ := hfresh index rfl
    have hseen := hsound.seen _ (Pool.mem_records ht)
    exact ⟨x.2, hseen.known hx, asked, hasked, hseen.past asked hasked, hlt⟩
  · have hfree : c.shared.locked = false := by
      refine Bool.toNat_eq_zero.mp (hmutex.symm.trans (List.countP_eq_zero.mpr fun t ht ↦ ?_))
      obtain ⟨res, hres⟩ := hdone t ht
      simp [(hends t ht res hres).1]
    exact ⟨hfree, hsound.free hfree⟩

/-- A registry with nothing in it. -/
def answer : (e : Call) → Memo → Option (e.Res × Memo)
  | .lock, w => if w.locked then none else some ((), { w with locked := true })
  | .load, w => some (w.kept.head?, w)
  | .now, w => some (w.now, w)
  | .fetch, w => some (.ok ⟨[]⟩, { w with fetched := ⟨[]⟩ :: w.fetched })
  | .store index fetchedAt, w => some ((), { w with kept := (index, fetchedAt) :: w.kept })
  | .unlock, w => some ((), { w with locked := false })

theorem answer_sem {e : Call} {w w' : Memo} {r : e.Res} (h : answer e w = some (r, w')) :
    sem e w r w' := by
  cases e with
  | lock =>
      obtain ⟨hfree, hw⟩ := Option.ite_none_left_eq_some.mp h
      cases hw
      exact ⟨Bool.eq_false_iff.mpr hfree, rfl⟩
  | now =>
      cases h
      exact ⟨Int.le_refl _, rfl⟩
  | load | fetch | store | unlock =>
      cases h
      trivial

/-- Two requests: the second waits for the mutex and finds what the first has fetched. -/
def raced : Pool caching (Except Err Index) Unit Trace Memo :=
  plane.play answer ⟨Memo.cold 0, []⟩
    ([.start (), .start (), .step 0, .step 1] ++ List.replicate 5 (.step 0) ++
      List.replicate 4 (.step 1))

theorem catalog_memoized_raced :
    raced.threads.map Thread.cur = [.ret (.inl (.ok ⟨[]⟩)), .ret (.inl (.ok ⟨[]⟩))] ∧
      raced.shared.fetched = [⟨[]⟩] ∧ raced.threads.countP fetching ≤ 1 := by
  refine ⟨rfl, rfl, (catalog_memoized (Effect.System.reach_play ?_ ?_ ⟨Memo.cold 0, []⟩)).1⟩
  · exact fun _ _ _ _ h ↦ answer_sem h
  · exact fun _ _ ↦ trivial

end GigMcp.Api.Catalog
