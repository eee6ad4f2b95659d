import GigMcp.Effect.Panic
import GigMcp.Data.Table
import GigMcp.Proxy.Handle

/-!
# The cap on concurrent tunnels

`connLimiter` (`proxy/proxy.go`) counts the tunnels of each identity in a map that drops an
entry with its last tunnel.  `handle` takes a slot before it does anything for a CONNECT,
and gives it back in a deferred call.

A deferred call runs on every way out, a panic included, so here any part of `handle` may
panic; `net/http` recovers the panic and the proxy lives on.  A thread's record is the
identity it holds a slot of.  The invariant `Counts` ties the map to the records, and with it
the proxy is `Capped` in every state it can reach, whatever the registry, the resolver and
the connections answer.
-/

namespace GigMcp.Proxy

open GigMcp.Effect GigMcp.Data GigMcp.Gateway

/-! ## The limiter -/

/-- `connLimiter`.  Each method is one section under its lock. -/
structure ConnLimiter where
  /-- The map `count`. -/
  count : Table (Prod.fst : Identity × Nat → Identity)
  max : Nat

namespace ConnLimiter

/-- `newConnLimiter`. -/
def newConnLimiter (max : Nat) : ConnLimiter := ⟨.empty, max⟩

/-- `l.count[id]`, zero for an identity without an entry. -/
def counted (l : ConnLimiter) (id : Identity) : Nat := ((l.count.get? id).map Prod.snd).getD 0

def acquire (l : ConnLimiter) (id : Identity) : Bool × ConnLimiter :=
  if l.counted id ≥ l.max then (false, l)
  else
    -- `l.count[id]++` makes the entry when there is none.
    (true, { l with
      count := l.count.upsert (id, 1) (fun e ↦ (e.1, e.2 + 1)) fun _ ↦ rfl })

def release (l : ConnLimiter) (id : Identity) : ConnLimiter :=
  if l.counted id ≤ 1 then { l with count := l.count.deleteWhere fun e ↦ e.1 = id }
  else
    { l with count := l.count.update (fun e ↦ e.1 = id) (fun e ↦ (e.1, e.2 - 1)) fun _ ↦ rfl }

end ConnLimiter

/-! ## Executions of `handle` -/

/-- `accept` where any part of it may panic. -/
def acceptPanicky (r : ConnectRequest) : Prog (proxy.sum panics) (Option Tunnel) := do
  if r.method ≠ "CONNECT" then
    let _ ← (perform (.httpError 405 "only CONNECT supported")).panicky
    return none
  else
    match ← (perform (.lookup (hostname r.remoteAddr))).panicky with
    | none => return none
    | some none =>
        let _ ← (perform (.httpError 403 "unknown source")).panicky
        return none
    | some (some id) =>
        if !(← (perform (.acquire id)).left) then
          let _ ← (perform (.httpError 429 "too many concurrent connections")).panicky
          return none
        else
          match ← (openTunnel r id).panicky with
          | some (some t) => return some t
          | _ =>
              -- The deferred call, after a return and after a panic.
              let _ ← (perform (.release id)).left
              return none

/-- One stage of `handle`, where any part of it may panic. -/
def handlePanicky : Stage → Prog (proxy.sum panics) (Unit ⊕ Stage)
  | .accept r => do
      match ← acceptPanicky r with
      | none => return .inl ()
      | some t => return .inr (.pump t)
  | .pump t => do
      match ← (pumpOnce t).panicky with
      | some true => return .inr (.pump t)
      | _ =>
          let _ ← (perform (.release t.id)).left
          return .inl ()

theorem calm_acceptPanicky (r : ConnectRequest) : (acceptPanicky r).calm = accept r := by
  unfold acceptPanicky accept
  split
  · rfl
  · simp only [Prog.calm_bind, Prog.calm_panicky, Prog.bind_assoc']
    congr 1
    funext found
    cases found with
    | none => rfl
    | some id =>
        simp only [Prog.ret_bind, Prog.calm_bind, Prog.calm_left]
        congr 1
        funext taken
        cases taken with
        | false => rfl
        | true =>
            simp only [Bool.not_true, Bool.false_eq_true, if_false, Prog.calm_bind,
              Prog.calm_panicky, Prog.bind_assoc']
            congr 1
            funext opened
            cases opened with
            | none => rfl
            | some t => rfl

/-- A stage in which nothing panics is one of `handleBody`. -/
theorem calm_handlePanicky (s : Stage) : (handlePanicky s).calm = handleBody s := by
  cases s with
  | accept r =>
      simp only [handlePanicky, handleBody, Prog.calm_bind, calm_acceptPanicky]
      congr 1
      funext opened
      cases opened with
      | none => rfl
      | some t => rfl
  | pump t =>
      simp only [handlePanicky, handleBody, Prog.calm_bind, Prog.calm_panicky, Prog.bind_assoc']
      congr 1
      funext more
      cases more with
      | false => rfl
      | true => rfl

/-- The reading of the calls: the limiter counts, and everything else answers as it likes. -/
def limiterSem : Sem proxy ConnLimiter
  | .acquire id, l, r, l' => r = (l.acquire id).1 ∧ l' = (l.acquire id).2
  | .release id, l, _, l' => l' = l.release id
  | _, l, _, l' => l' = l

/-- The identity whose slot a thread holds, after a call. -/
def slot : (e : (proxy.sum panics).Op) → Option Identity → (proxy.sum panics).Res e →
    Option Identity
  | .inl (.acquire id), g, r => if r = true then some id else g
  | .inl (.release _), _, _ => none
  | _, g, _ => g

/-- Executions of `handle` over one limiter, any number at once. -/
def tunnels : System (proxy.sum panics) Unit Stage (Option Identity) ConnLimiter where
  sem := panickySem limiterSem
  starts := fun s ↦ ∃ r, s = .accept r
  body := handlePanicky
  init := fun _ ↦ none
  track := slot
  env := Eq

/-- The slots that executions hold. -/
def slots (gs : Multiset (Stage × Option Identity)) : Multiset Identity := having (fun g ↦ g) gs

/-- The number of live executions past `acquire` for an identity. -/
def live (c : Pool (proxy.sum panics) Unit Stage (Option Identity) ConnLimiter) (id : Identity) :
    Nat :=
  (slots c.records).count id

/-- The proxy keeps count of its tunnels and stays within the cap. -/
structure Capped (max : Nat)
    (c : Pool (proxy.sum panics) Unit Stage (Option Identity) ConnLimiter) : Prop where
  count : ∀ id, c.shared.counted id = live c id
  capped : ∀ id, live c id ≤ max
  entry : ∀ id, (c.shared.count.get? id).isSome ↔ 0 < live c id
  acquire : ∀ id, (c.shared.acquire id).1 = true ↔ live c id < max
  finished : ∀ t ∈ c.threads, t.Finished → t.record = none

/-! ## The code keeps to it -/

/-- When an execution may make a call. -/
def Slotted : (proxy.sum panics).Op → Option Identity → Prop
  | .inl (.acquire _), g => g = none
  | .inl (.release id), g => g = some id
  | _, _ => True

/-- What an execution holds at the end of a stage. -/
def Leaves : Unit ⊕ Stage → Option Identity → Prop
  | .inl (), g => g = none
  | .inr (.accept _), _ => False
  | .inr (.pump t), g => g = some t.id

/-- Code that has nothing to do with the limiter, run where it may panic: `P` holds of what
it returns, and the slot is as before. -/
theorem panicky_slotted {α : Type} {P : α → Prop} {p : Code α} {g : Option Identity}
    (hp : Conforms (S := proxy) (fun e ↦ slot (.inl e)) (fun e g' ↦ Slotted (.inl e) g' ∧ g' = g)
      (fun a g' ↦ P a ∧ g' = g) p g) :
    Conforms slot Slotted (fun r g' ↦ (∀ a, r = some a → P a) ∧ g' = g) p.panicky g := by
  refine (hp.panicky_of (fun _ _ ↦ trivial) fun _ _ ↦ rfl).mono (fun _ _ h ↦ h) ?_
  rintro r g' (⟨a, rfl, ha, hg⟩ | ⟨rfl, _, rfl, rfl⟩)
  · refine ⟨?_, hg⟩
    rintro _ ⟨⟩
    exact ha
  · refine ⟨?_, rfl⟩
    rintro _ ⟨⟩

section Stages

variable {id : Identity} {g : Option Identity}

/-- An answer to a CONNECT that has no slot. -/
theorem httpError_slotted (status : Nat) (msg : String) :
    Conforms slot Slotted (fun opened g' ↦ g' = opened.map Tunnel.id) (do
      let _ ← (perform (.httpError status msg)).panicky
      return (none : Option Tunnel)) none := by
  have hcall : Conforms (S := proxy) (fun e ↦ slot (.inl e))
      (fun e g' ↦ Slotted (.inl e) g' ∧ g' = none) (fun _ g' ↦ True ∧ g' = none)
      (perform (.httpError status msg)) none :=
    ⟨⟨trivial, rfl⟩, fun _ ↦ ⟨trivial, rfl⟩⟩
  refine (panicky_slotted hcall).bind ?_
  rintro _ _ ⟨-, rfl⟩
  rfl

/-- A tunnel that stands has the identity it was opened for. -/
theorem openTunnel_slotted (r : ConnectRequest) :
    Conforms slot Slotted
      (fun opened g ↦ (∀ a, opened = some a → ∀ t : Tunnel, a = some t → t.id = id) ∧ g = some id)
      (openTunnel r id).panicky (some id) := by
  refine panicky_slotted (P := fun opened ↦ ∀ t : Tunnel, opened = some t → t.id = id) ?_
  have hnone : (∀ t : Tunnel, none = some t → t.id = id) ∧ some id = some id := by
    refine ⟨?_, rfl⟩
    rintro _ ⟨⟩
  refine conforms_call.mpr ⟨⟨trivial, rfl⟩, fun resolved ↦ ?_⟩
  cases resolved with
  | error e => exact conforms_call.mpr ⟨⟨trivial, rfl⟩, fun _ ↦ hnone⟩
  | ok cred =>
      dsimp only
      split
      · exact conforms_call.mpr ⟨⟨trivial, rfl⟩, fun _ ↦ hnone⟩
      · refine conforms_call.mpr ⟨⟨trivial, rfl⟩, fun hijacker ↦ ?_⟩
        split
        · exact conforms_call.mpr ⟨⟨trivial, rfl⟩, fun _ ↦ hnone⟩
        · refine conforms_call.mpr ⟨⟨trivial, rfl⟩, fun hijacked ↦ ?_⟩
          cases hijacked with
          | error e => exact hnone
          | ok _ =>
              refine conforms_call.mpr ⟨⟨trivial, rfl⟩, fun established ↦ ?_⟩
              cases established with
              | error e => exact hnone
              | ok _ =>
                  refine conforms_call.mpr ⟨⟨trivial, rfl⟩, fun leaf ↦ ?_⟩
                  cases leaf with
                  | error e => exact hnone
                  | ok _ =>
                      refine conforms_call.mpr ⟨⟨trivial, rfl⟩, fun handshake ↦ ?_⟩
                      cases handshake with
                      | error e => exact hnone
                      | ok _ =>
                          refine conforms_call.mpr ⟨⟨trivial, rfl⟩, fun dialed ↦ ?_⟩
                          cases dialed with
                          | error e => exact hnone
                          | ok _ =>
                              refine ⟨?_, rfl⟩
                              rintro _ ⟨⟩
                              rfl

/-- A round of `pump` leaves the slot alone. -/
theorem pumpOnce_slotted (t : Tunnel) :
    Conforms slot Slotted (fun _ g' ↦ g' = g) (pumpOnce t).panicky g := by
  have hround : Conforms (S := proxy) (fun e ↦ slot (.inl e))
      (fun e g' ↦ Slotted (.inl e) g' ∧ g' = g) (fun _ g' ↦ True ∧ g' = g)
      (pumpOnce t) g := by
    refine conforms_call.mpr ⟨⟨trivial, rfl⟩, fun req ↦ ?_⟩
    cases req with
    | error e => exact ⟨trivial, rfl⟩
    | ok req =>
        refine conforms_call.mpr ⟨⟨trivial, rfl⟩, fun written ↦ ?_⟩
        cases written with
        | error e => exact ⟨trivial, rfl⟩
        | ok _ =>
            refine conforms_call.mpr ⟨⟨trivial, rfl⟩, fun resp ↦ ?_⟩
            cases resp with
            | error e => exact ⟨trivial, rfl⟩
            | ok resp =>
                refine conforms_call.mpr ⟨⟨trivial, rfl⟩, fun sent ↦ ?_⟩
                cases sent with
                | error e => exact ⟨trivial, rfl⟩
                | ok _ => exact ⟨trivial, rfl⟩
  exact (panicky_slotted hround).mono (fun _ _ h ↦ h) fun _ _ h ↦ h.2

/-- `accept` ends with a slot exactly when it ends with a tunnel. -/
theorem acceptPanicky_slotted (r : ConnectRequest) :
    Conforms slot Slotted (fun opened g ↦ g = opened.map Tunnel.id) (acceptPanicky r) none := by
  unfold acceptPanicky
  split
  · exact httpError_slotted _ _
  · have hlookup : Conforms (S := proxy) (fun e ↦ slot (.inl e))
        (fun e g' ↦ Slotted (.inl e) g' ∧ g' = none) (fun _ g' ↦ True ∧ g' = none)
        (perform (.lookup (hostname r.remoteAddr))) none :=
      ⟨⟨trivial, rfl⟩, fun _ ↦ ⟨trivial, rfl⟩⟩
    refine (panicky_slotted hlookup).bind ?_
    rintro found _ ⟨-, rfl⟩
    match found with
    | none => rfl
    | some none => exact httpError_slotted _ _
    | some (some id) =>
        refine conforms_call.mpr ⟨rfl, fun taken ↦ ?_⟩
        cases taken with
        | false => exact httpError_slotted _ _
        | true =>
            refine (openTunnel_slotted r).bind ?_
            rintro opened _ ⟨hopened, rfl⟩
            match opened with
            | none => exact conforms_call.mpr ⟨rfl, fun _ ↦ rfl⟩
            | some none => exact conforms_call.mpr ⟨rfl, fun _ ↦ rfl⟩
            | some (some t) => exact congrArg some (hopened _ rfl t rfl).symm

theorem handlePanicky_pump_slotted (t : Tunnel) :
    Conforms slot Slotted Leaves (handlePanicky (.pump t)) (some t.id) := by
  refine (pumpOnce_slotted t).bind ?_
  rintro more _ rfl
  match more with
  | none => exact conforms_call.mpr ⟨rfl, fun _ ↦ rfl⟩
  | some false => exact conforms_call.mpr ⟨rfl, fun _ ↦ rfl⟩
  | some true => rfl

end Stages

/-! ## The invariant -/

/-- The entry of an identity of which `n` slots are held. -/
def entryFor (id : Identity) (n : Nat) : Option (Identity × Nat) :=
  if n = 0 then none else some (id, n)

/-- The limiter counts the slots held, and no more are held than the cap. -/
structure Counts (max : Nat) (l : ConnLimiter) (gs : Multiset (Stage × Option Identity)) :
    Prop where
  max_eq : l.max = max
  entry : ∀ id, l.count.get? id = entryFor id ((slots gs).count id)
  capped : ∀ id, (slots gs).count id ≤ max

section Counts

variable {max : Nat} {l : ConnLimiter} {gs : Multiset (Stage × Option Identity)} {s : Stage}
  {id : Identity}

theorem slots_none : slots ((s, none) ::ₘ gs) = slots gs := having_cons

theorem count_slots_cons (g : Option Identity) (i : Identity) :
    (slots ((s, g) ::ₘ gs)).count i = (slots gs).count i + if g = some i then 1 else 0 :=
  count_having_cons i

theorem Counts.counted (h : Counts max l gs) (i : Identity) : l.counted i = (slots gs).count i := by
  rw [ConnLimiter.counted, h.entry, entryFor]
  split
  · rename_i hzero
    exact hzero.symm
  · rfl

theorem Counts.congr {gs' : Multiset (Stage × Option Identity)} (h : Counts max l gs)
    (hslots : slots gs' = slots gs) : Counts max l gs' :=
  ⟨h.max_eq, fun i ↦ hslots ▸ h.entry i, fun i ↦ hslots ▸ h.capped i⟩

theorem Counts.acquire_iff (h : Counts max l gs) (i : Identity) :
    (l.acquire i).1 = true ↔ (slots gs).count i < max := by
  rw [ConnLimiter.acquire, h.counted, h.max_eq]
  split
  · rename_i hfull
    exact ⟨fun h ↦ absurd h Bool.false_ne_true, fun hlt ↦ absurd hfull (Nat.not_le.mpr hlt)⟩
  · rename_i hfree
    exact ⟨fun _ ↦ Nat.not_le.mp hfree, fun _ ↦ rfl⟩

/-- A slot is taken: the entry of the identity is made, or counts one more. -/
theorem Counts.acquire (h : Counts max l ((s, none) ::ₘ gs)) (hfree : (l.acquire id).1 = true) :
    Counts max (l.acquire id).2 ((s, some id) ::ₘ gs) := by
  have hlt : (slots gs).count id < max := by
    rw [← slots_none]
    exact (h.acquire_iff id).mp hfree
  have htaken : (l.acquire id).2 = { l with
      count := l.count.upsert (id, 1) (fun e ↦ (e.1, e.2 + 1)) fun _ ↦ rfl } := by
    rw [ConnLimiter.acquire, h.counted, h.max_eq, slots_none, if_neg (Nat.not_le.mpr hlt)]
  rw [htaken]
  refine ⟨h.max_eq, fun i ↦ ?_, fun i ↦ ?_⟩
  · refine (Table.get?_upsert ..).trans ?_
    rw [h.entry, h.entry, slots_none, count_slots_cons]
    by_cases hi : i = id
    · subst hi
      rw [if_pos rfl, if_pos rfl, entryFor, entryFor, if_neg (Nat.succ_ne_zero _)]
      split
      · rename_i hzero
        rw [hzero]
        rfl
      · rfl
    · rw [if_neg hi, if_neg fun hsome ↦ hi (Option.some.inj hsome).symm]
      rfl
  · rw [count_slots_cons]
    by_cases hi : i = id
    · subst hi
      rw [if_pos rfl]
      exact hlt
    · rw [if_neg fun hsome ↦ hi (Option.some.inj hsome).symm, ← slots_none]
      exact h.capped i

/-- A slot is given back: the entry of the identity counts one less, or goes with the last. -/
theorem Counts.release (h : Counts max l ((s, some id) ::ₘ gs)) :
    Counts max (l.release id) ((s, none) ::ₘ gs) := by
  have hheld : (slots ((s, some id) ::ₘ gs)).count id = (slots gs).count id + 1 := by
    rw [count_slots_cons, if_pos rfl]
  have hother {i : Identity} (hi : i ≠ id) :
      (slots ((s, some id) ::ₘ gs)).count i = (slots gs).count i := by
    rw [count_slots_cons, if_neg fun hsome ↦ hi (Option.some.inj hsome).symm, Nat.add_zero]
  have hcapped (i : Identity) : (slots ((s, none) ::ₘ gs)).count i ≤ max := by
    refine Nat.le_trans ?_ (h.capped i)
    rw [slots_none, count_slots_cons]
    exact Nat.le_add_right _ _
  have hentry : l.count.get? id = some (id, (slots gs).count id + 1) := by
    rw [h.entry, hheld, entryFor, if_neg (Nat.succ_ne_zero _)]
  rw [ConnLimiter.release, h.counted, hheld]
  split
  · rename_i hlast
    have hzero : (slots gs).count id = 0 := Nat.le_zero.mp (Nat.le_of_succ_le_succ hlast)
    refine ⟨h.max_eq, fun i ↦ ?_, hcapped⟩
    simp only [Table.get?_deleteWhere, slots_none]
    by_cases hi : i = id
    · subst hi
      rw [hentry, hzero]
      simp [entryFor]
    · rw [h.entry, hother hi, entryFor]
      split
      · rfl
      · simp [hi]
  · rename_i hmore
    refine ⟨h.max_eq, fun i ↦ ?_, hcapped⟩
    simp only [Table.get?_update, slots_none]
    by_cases hi : i = id
    · subst hi
      rw [hentry, entryFor, if_neg]
      · simp
      · intro hzero
        rw [hzero] at hmore
        exact hmore (Nat.le_refl 1)
    · rw [h.entry, hother hi, entryFor]
      split
      · rfl
      · simp [hi]

/-- **Step lemma.**  A call an execution may make keeps the count. -/
theorem Counts.call {l' : ConnLimiter} {g : Option Identity} {e : (proxy.sum panics).Op}
    {r : (proxy.sum panics).Res e} (h : Counts max l ((s, g) ::ₘ gs)) (hpre : Slotted e g)
    (hr : panickySem limiterSem e l r l') : Counts max l' ((s, slot e g r) ::ₘ gs) := by
  cases e with
  | inr u =>
      obtain rfl := hr
      exact h
  | inl e =>
      cases e with
      | acquire id =>
          obtain rfl := hpre
          obtain ⟨rfl, rfl⟩ := hr
          show Counts max _ ((s, if (l.acquire id).1 = true then some id else none) ::ₘ gs)
          split
          · rename_i hfree
            exact h.acquire hfree
          · rename_i hfull
            have hkept : (l.acquire id).2 = l := by
              rw [ConnLimiter.acquire] at hfull ⊢
              split
              · rfl
              · rename_i hlt
                exact absurd (by rw [if_neg hlt]) hfull
            rw [hkept]
            exact h
      | release id =>
          obtain rfl := hpre
          obtain rfl := hr
          exact h.release
      | _ =>
          obtain rfl := hr
          exact h

end Counts

/-- Executions of `handle` keep the count. -/
def counting (max : Nat) : Discipline tunnels where
  pre := fun _ ↦ Slotted
  fin := fun _ ↦ Leaves
  Inv := Counts max
  body_conforms := by
    rintro _ ⟨r, rfl⟩
    refine (acceptPanicky_slotted r).bind ?_
    rintro opened _ rfl
    cases opened with
    | none => rfl
    | some t => rfl
  again_conforms := by
    intro _ _ _ s g _ hfin
    cases s with
    | accept r => exact hfin.elim
    | pump t =>
        obtain rfl := hfin
        exact handlePanicky_pump_slotted t
  inv_start := fun _ _ _ _ h ↦ h.congr slots_none
  inv_call := fun _ _ _ _ _ _ _ h hpre hr ↦ h.call hpre hr
  inv_again := fun _ _ _ _ _ h _ ↦ h.congr (having_cons_congr rfl)
  inv_env := by
    rintro _ _ _ h rfl
    exact h

theorem counts_new (max : Nat) : Counts max (.newConnLimiter max) 0 :=
  ⟨rfl, fun _ ↦ rfl, fun _ ↦ Nat.zero_le _⟩

/-- However executions of `handle` interleave, on whichever path each of them leaves: the
count of an identity is the number of its live executions past `acquire`, the cap is kept, the
map has the entries of the identities with a live execution, and `acquire` asks for nothing
else. -/
theorem tunnels_capped {max : Nat}
    {c : Pool (proxy.sum panics) Unit Stage (Option Identity) ConnLimiter}
    (h : tunnels.Reach ⟨.newConnLimiter max, []⟩ c) : Capped max c := by
  obtain ⟨hconf, hinv⟩ := (counting max).good ((counting max).good_nil (counts_new max)) h
  have hcounts : Counts max c.shared c.records := hinv
  refine ⟨hcounts.counted, hcounts.capped, fun id ↦ ?_, hcounts.acquire_iff, ?_⟩
  · rw [hcounts.entry, entryFor, live, Nat.pos_iff_ne_zero]
    split
    · rename_i hzero
      exact ⟨nofun, fun hne ↦ absurd hzero hne⟩
    · rename_i hne
      exact ⟨fun _ ↦ hne, fun _ ↦ rfl⟩
  · rintro t ht ⟨a, ha⟩
    have hfin := hconf t ht
    rw [ha] at hfin
    exact hfin

namespace Example.Sandbox

/-- A sandbox of one tenant. -/
def sandbox : Identity := ⟨"github", "7"⟩

def connect : ConnectRequest := ⟨"CONNECT", "api.github.com:443", "10.200.0.2:40000"⟩

/-- Every source is the sandbox, and an execution that holds the slot panics. -/
def answer : (e : (proxy.sum panics).Op) → ConnLimiter → Option ((proxy.sum panics).Res e × ConnLimiter)
  | .inl (.lookup _), l => some (some sandbox, l)
  | .inl (.acquire id), l => some (l.acquire id)
  | .inl (.release id), l => some ((), l.release id)
  | .inr (), l => some (decide (l.counted sandbox = 1), l)
  | _, _ => none

theorem answer_sem (e : (proxy.sum panics).Op) (l : ConnLimiter) (r : (proxy.sum panics).Res e)
    (l' : ConnLimiter) (h : answer e l = some (r, l')) : tunnels.sem e l r l' := by
  cases e with
  | inr u =>
      cases h
      rfl
  | inl e =>
      cases e with
      | lookup ip =>
          cases h
          rfl
      | acquire id =>
          have heq : l.acquire id = (r, l') := Option.some.inj h
          exact ⟨(congrArg Prod.fst heq).symm, (congrArg Prod.snd heq).symm⟩
      | release id =>
          cases h
          rfl
      | _ => cases h

/-- One CONNECT comes to hold the only slot, and a second has the registry's answer. -/
def both : List (Move Stage) :=
  .start (.accept connect) :: .start (.accept connect) ::
    List.replicate 3 (.step 1) ++ List.replicate 4 (.step 0)

/-- Then the second is turned away, and the first panics and releases. -/
def afterwards : List (Move Stage) := both ++ [.step 1, .step 0, .step 0]

abbrev pool (moves : List (Move Stage)) :
    Pool (proxy.sum panics) Unit Stage (Option Identity) ConnLimiter :=
  tunnels.play answer ⟨.newConnLimiter 1, []⟩ moves

theorem reach_pool {moves : List (Move Stage)} (h : ∀ s, .start s ∈ moves → ∃ r, s = .accept r) :
    tunnels.Reach ⟨.newConnLimiter 1, []⟩ (pool moves) :=
  System.reach_play answer_sem h _

end Example.Sandbox

open Example.Sandbox in
/-- A cap of one: the slot is taken, and free again after a panic. -/
theorem tunnels_capped_sandbox :
    Capped 1 (pool both) ∧ live (pool both) sandbox = 1 ∧
      Capped 1 (pool afterwards) ∧ live (pool afterwards) sandbox = 0 := by
  have hboth (s : Stage) (h : .start s ∈ both) : ∃ r, s = .accept r := by
    simp only [both, List.replicate, List.cons_append, List.nil_append, List.mem_cons,
      Move.start.injEq, reduceCtorEq, List.not_mem_nil, or_false, or_self] at h
    exact ⟨connect, h⟩
  have hafterwards (s : Stage) (h : .start s ∈ afterwards) : ∃ r, s = .accept r := by
    rcases List.mem_append.mp h with h | h
    · exact hboth s h
    · simp at h
  exact ⟨tunnels_capped (reach_pool hboth), rfl, tunnels_capped (reach_pool hafterwards), rfl⟩

end GigMcp.Proxy
