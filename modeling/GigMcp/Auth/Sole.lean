import GigMcp.Auth.Refresh
import GigMcp.System.Local
import Mathlib.Data.Multiset.Bind

/-!
# One grant per expiry

`Sole` is the invariant of refreshes that run side by side.  Once a grant was made for an
account, the account is stored with an expiry past every reading of the clock, or the
flight that made the grant has yet to store it and is still under way.  A flight that
finds a stale account therefore finds that no grant was made.
-/

namespace GigMcp.Auth

open GigMcp.Effect GigMcp.System GigMcp.Store GigMcp.Data

/-! ## What was granted -/

/-- The grants made for a user and a vendor. -/
def granted (gs : Multiset (Holder × Trace)) (j : Holder) : Multiset (String × OAuthToken) :=
  gs.bind fun x ↦ if x.1 = j then (x.2.grants : Multiset (String × OAuthToken)) else 0

@[simp] theorem granted_cons (i j : Holder) (g : Trace) (gs : Multiset (Holder × Trace)) :
    granted ((i, g) ::ₘ gs) j =
      (if i = j then (g.grants : Multiset (String × OAuthToken)) else 0) + granted gs j :=
  Multiset.cons_bind _ _ _

theorem mem_granted {gs : Multiset (Holder × Trace)} {j : Holder} {gr : String × OAuthToken} :
    gr ∈ granted gs j ↔ ∃ x ∈ gs, x.1 = j ∧ gr ∈ x.2.grants := by
  rw [granted, Multiset.mem_bind]
  constructor
  · rintro ⟨x, hx, hgr⟩
    split at hgr
    · rename_i hj
      exact ⟨x, hx, hj, hgr⟩
    · exact absurd hgr (Multiset.notMem_zero _)
  · rintro ⟨x, hx, hj, hgr⟩
    refine ⟨x, hx, ?_⟩
    rw [if_pos hj]
    exact hgr

/-- An expiry past every reading of the clock. -/
def Far (deadline e : Time) : Prop := deadline + OAuthBroker.refreshSkew < e

section Facts

variable (O : Outside) (accounts₀ : Table ConnectedAccount.key) (gs : Multiset (Holder × Trace))

/-- Where a row's tokens come from: the refresh token is the one that was stored at first,
and the access token is that one too or was granted. -/
def Source (j : Holder) (a : ConnectedAccount) : Prop :=
  ∃ a₀, accounts₀.get? j = some a₀ ∧ a.encryptedRefreshToken = a₀.encryptedRefreshToken ∧
    (a.encryptedAccessToken = a₀.encryptedAccessToken ∨
      ∃ gr ∈ granted gs j, O.opens a.encryptedAccessToken = some gr.2.accessToken)

/-- A token that some call for the user and the vendor has opened while it was fresh, or was
granted. -/
def Legit (j : Holder) (tok : String) : Prop := ∃ x ∈ gs, x.1 = j ∧ x.2.Own tok

/-- What is known of the record of a call. -/
structure Trusted (deadline : Time) (j : Holder) (g : Trace) : Prop where
  time : ∀ t, g.time = some t → t ≤ deadline
  acct : ∀ a, g.acct = some a → a.key = j ∧ Source O accounts₀ gs j a
  cached : ∀ a t tok, (a, t, tok) ∈ g.cached →
    a.key = j ∧ Source O accounts₀ gs j a ∧ O.opens a.encryptedAccessToken = some tok
  refresh : ∀ rt, g.refresh = some rt →
    ∃ a₀, accounts₀.get? j = some a₀ ∧ O.opens a₀.encryptedRefreshToken = some rt
  boxed : ∀ p box, g.boxed = some (p, box) → O.opens box = some p
  grants : ∀ gr ∈ g.grants, Far deadline gr.2.expiry.throughColumn ∧
    ∃ a₀, accounts₀.get? j = some a₀ ∧ O.opens a₀.encryptedRefreshToken = some gr.1
  awaited : ∀ tok, g.awaited = some (.ok tok) → Legit gs j tok
  failed : g.failed = false

end Facts

/-- The flight a call leads, with its key. -/
def leadOf (x : Holder × Trace) : Option (String × ℕ) := x.2.leads.map fun f ↦ (flightKey x.1, f)

/-- The flight a call has joined, with its key. -/
def joinOf (x : Holder × Trace) : Option (String × ℕ) := x.2.joined.map fun f ↦ (flightKey x.1, f)

/-- One grant per account, made by the flight under way or stored. -/
structure Sole (O : Outside) (accounts₀ : Table ConnectedAccount.key) (deadline : Time) (s : Desk)
    (gs : Multiset (Holder × Trace)) : Prop where
  flies : Flies leadOf joinOf s.group gs
  results : ∀ f j tok, s.group.done f = some (flightKey j, .ok tok) → Legit gs j tok
  rows : ∀ j a, s.world.db.connectedAccounts.get? j = some a → Source O accounts₀ gs j a
  present : ∀ j, (accounts₀.get? j).isSome → (s.world.db.connectedAccounts.get? j).isSome
  trusted : ∀ x ∈ gs, Trusted O accounts₀ gs deadline x.1 x.2
  stored : ∀ j, granted gs j ≠ 0 →
    (∃ a, s.world.db.connectedAccounts.get? j = some a ∧ Far deadline a.expiresAt) ∨
    ∃ x ∈ gs, x.1 = j ∧ x.2.leads.isSome ∧ x.2.grants ≠ [] ∧ x.2.persisted = false
  count : ∀ j, (granted gs j).card ≤ 1
  stale : ∀ x ∈ gs, x.2.leads.isSome → ∀ a, x.2.acct = some a → x.2.grants = [] →
    granted gs x.1 = 0 ∨ Far deadline a.expiresAt

/-! ### Records only grow -/

/-- What a call has opened or was granted stays. -/
structure Trace.Grows (g g' : Trace) : Prop where
  cached : g.cached ⊆ g'.cached
  grants : g.grants ⊆ g'.grants

theorem Trace.Own.mono {g g' : Trace} {tok : String} (h : g.Own tok) (hg : g.Grows g') :
    g'.Own tok := by
  rcases h with ⟨a, t, hmem, hfresh⟩ | ⟨gr, hgr, htok⟩
  · exact .inl ⟨a, t, hg.cached hmem, hfresh⟩
  · exact .inr ⟨gr, hg.grants hgr, htok⟩

section Grow

variable {O : Outside} {accounts₀ : Table ConnectedAccount.key} {gs gs' : Multiset (Holder × Trace)}
  {deadline : Time} {i j : Holder} {g g' : Trace} {tok : String}

/-- Each record of one pool has grown into one of another. -/
def AllGrow (gs gs' : Multiset (Holder × Trace)) : Prop :=
  ∀ x ∈ gs, ∃ y ∈ gs', y.1 = x.1 ∧ x.2.Grows y.2

theorem allGrow_cons (hg : g.Grows g') : AllGrow ((j, g) ::ₘ gs) ((j, g') ::ₘ gs) := by
  intro x hx
  rcases Multiset.mem_cons.mp hx with rfl | hx
  · exact ⟨_, Multiset.mem_cons_self _ _, rfl, hg⟩
  · exact ⟨x, Multiset.mem_cons_of_mem hx, rfl, List.Subset.refl _, List.Subset.refl _⟩

theorem allGrow_start : AllGrow gs ((j, g) ::ₘ gs) := fun x hx ↦
  ⟨x, Multiset.mem_cons_of_mem hx, rfl, List.Subset.refl _, List.Subset.refl _⟩

theorem AllGrow.granted (h : AllGrow gs gs') {gr : String × OAuthToken} (hgr : gr ∈ granted gs j) :
    gr ∈ granted gs' j := by
  obtain ⟨x, hx, hj, hgr⟩ := mem_granted.mp hgr
  obtain ⟨y, hy, hyx, hgrows⟩ := h x hx
  exact mem_granted.mpr ⟨y, hy, hyx.trans hj, hgrows.grants hgr⟩

theorem AllGrow.legit (h : AllGrow gs gs') (hl : Legit gs j tok) : Legit gs' j tok := by
  obtain ⟨x, hx, hj, hown⟩ := hl
  obtain ⟨y, hy, hyx, hgrows⟩ := h x hx
  exact ⟨y, hy, hyx.trans hj, hown.mono hgrows⟩

theorem AllGrow.source (h : AllGrow gs gs') {a : ConnectedAccount}
    (hs : Source O accounts₀ gs j a) : Source O accounts₀ gs' j a := by
  obtain ⟨a₀, ha₀, hrefresh, haccess⟩ := hs
  refine ⟨a₀, ha₀, hrefresh, haccess.imp_right ?_⟩
  rintro ⟨gr, hgr, hopen⟩
  exact ⟨gr, h.granted hgr, hopen⟩

theorem AllGrow.trusted (h : AllGrow gs gs') (ht : Trusted O accounts₀ gs deadline j g) :
    Trusted O accounts₀ gs' deadline j g where
  time := ht.time
  acct := fun a ha ↦ ⟨(ht.acct a ha).1, h.source (ht.acct a ha).2⟩
  cached := fun a t tok hc ↦
    ⟨(ht.cached a t tok hc).1, h.source (ht.cached a t tok hc).2.1, (ht.cached a t tok hc).2.2⟩
  refresh := ht.refresh
  boxed := ht.boxed
  grants := ht.grants
  awaited := fun tok htok ↦ h.legit (ht.awaited tok htok)
  failed := ht.failed

end Grow

/-! ### Step lemmas -/

namespace Sole

variable {O : Outside} {accounts₀ : Table ConnectedAccount.key} {deadline : Time} {s s' : Desk}
  {gs : Multiset (Holder × Trace)} {i j : Holder} {g g' : Trace} {f : ℕ}

theorem start (h : Sole O accounts₀ deadline s gs) (j : Holder) :
    Sole O accounts₀ deadline s ((j, .fresh) ::ₘ gs) := by
  have hgrow : AllGrow gs ((j, .fresh) ::ₘ gs) := allGrow_start
  have hgranted : ∀ i, granted ((j, .fresh) ::ₘ gs) i = granted gs i := by
    intro i
    rw [granted_cons]
    split
    · exact Multiset.zero_add _
    · exact Multiset.zero_add _
  refine ⟨h.flies.start rfl rfl, fun f j tok hf ↦ hgrow.legit (h.results f j tok hf),
    fun j a ha ↦ hgrow.source (h.rows j a ha), h.present, ?_, ?_, ?_, ?_⟩
  · intro x hx
    rcases Multiset.mem_cons.mp hx with rfl | hx
    · exact ⟨nofun, nofun, nofun, nofun, nofun, nofun, nofun, rfl⟩
    · exact hgrow.trusted (h.trusted x hx)
  · intro i hi
    rw [hgranted] at hi
    exact (h.stored i hi).imp_right fun ⟨x, hx, hrest⟩ ↦ ⟨x, Multiset.mem_cons_of_mem hx, hrest⟩
  · exact fun i ↦ (hgranted i).symm ▸ h.count i
  · intro x hx hleads a ha hgrants
    rcases Multiset.mem_cons.mp hx with rfl | hx
    · cases ha
    · rw [hgranted]
      exact h.stale x hx hleads a ha hgrants

/-- The other threads' records, one thread having grown. -/
theorem trusted_cons (h : Sole O accounts₀ deadline s ((j, g) ::ₘ gs)) (hgrows : g.Grows g')
    (htrusted : Trusted O accounts₀ ((j, g') ::ₘ gs) deadline j g') :
    ∀ x ∈ (j, g') ::ₘ gs, Trusted O accounts₀ ((j, g') ::ₘ gs) deadline x.1 x.2 := by
  intro x hx
  rcases Multiset.mem_cons.mp hx with rfl | hx
  · exact htrusted
  · exact (allGrow_cons hgrows).trusted (h.trusted x (Multiset.mem_cons_of_mem hx))

/-- A call that leads a flight is the only one of its user and vendor that does. -/
theorem leader_unique (h : Sole O accounts₀ deadline s ((j, g) ::ₘ gs)) (hleads : g.leads.isSome)
    {x : Holder × Trace} (hx : x ∈ gs) (hj : x.1 = j) : x.2.leads = none := by
  obtain ⟨f, hf⟩ := Option.isSome_iff_exists.mp hleads
  cases hx' : x.2.leads with
  | none => rfl
  | some f' =>
      have hlead : leadOf (j, g) = some (flightKey j, f) := by rw [leadOf, hf]; rfl
      have hlead' : leadOf x = some (flightKey j, f') := by rw [leadOf, hx', hj]; rfl
      exact absurd hlead' (h.flies.leader_unique hlead hx)

/-- A step that changes neither the accounts nor the group nor a call's part in them. -/
theorem quiet (h : Sole O accounts₀ deadline s ((j, g) ::ₘ gs)) (hgrows : g.cached ⊆ g'.cached)
    (hgrants : g'.grants = g.grants) (hleads : g'.leads = g.leads) (hjoined : g'.joined = g.joined)
    (hpersisted : g'.persisted = g.persisted)
    (haccounts : s'.world.db.connectedAccounts = s.world.db.connectedAccounts)
    (hgroup : s'.group = s.group)
    (htrusted : Trusted O accounts₀ ((j, g) ::ₘ gs) deadline j g')
    (hstale : g'.leads.isSome → ∀ a, g'.acct = some a → g'.grants = [] →
      granted ((j, g) ::ₘ gs) j = 0 ∨ Far deadline a.expiresAt) :
    Sole O accounts₀ deadline s' ((j, g') ::ₘ gs) := by
  have hg : g.Grows g' := ⟨hgrows, hgrants ▸ List.Subset.refl _⟩
  have hgrow : AllGrow ((j, g) ::ₘ gs) ((j, g') ::ₘ gs) := allGrow_cons hg
  have hgranted : ∀ i, granted ((j, g') ::ₘ gs) i = granted ((j, g) ::ₘ gs) i := by
    intro i
    rw [granted_cons, granted_cons, hgrants]
  refine ⟨?_, ?_, ?_, ?_, h.trusted_cons hg (hgrow.trusted htrusted), ?_, ?_, ?_⟩
  · rw [hgroup]
    exact h.flies.keep (by rw [leadOf, leadOf, hleads]) (by rw [joinOf, joinOf, hjoined])
  · rw [hgroup]
    exact fun f j tok hf ↦ hgrow.legit (h.results f j tok hf)
  · rw [haccounts]
    exact fun j a ha ↦ hgrow.source (h.rows j a ha)
  · rw [haccounts]
    exact h.present
  · intro i hi
    rw [hgranted] at hi
    rw [haccounts]
    refine (h.stored i hi).imp_right ?_
    rintro ⟨x, hx, hj, hl, hgr, hp⟩
    rcases Multiset.mem_cons.mp hx with rfl | hx
    · exact ⟨(j, g'), Multiset.mem_cons_self _ _, hj, hleads ▸ hl, hgrants ▸ hgr, hpersisted ▸ hp⟩
    · exact ⟨x, Multiset.mem_cons_of_mem hx, hj, hl, hgr, hp⟩
  · exact fun i ↦ (hgranted i).symm ▸ h.count i
  · intro x hx hl a ha hgr
    rw [hgranted]
    rcases Multiset.mem_cons.mp hx with rfl | hx
    · exact hstale hl a ha hgr
    · exact h.stale x (Multiset.mem_cons_of_mem hx) hl a ha hgr

theorem self (h : Sole O accounts₀ deadline s ((j, g) ::ₘ gs)) :
    Trusted O accounts₀ ((j, g) ::ₘ gs) deadline j g :=
  h.trusted _ (Multiset.mem_cons_self _ _)

theorem self_stale (h : Sole O accounts₀ deadline s ((j, g) ::ₘ gs)) (hleads : g.leads.isSome)
    (a : ConnectedAccount) (ha : g.acct = some a) (hgrants : g.grants = []) :
    granted ((j, g) ::ₘ gs) j = 0 ∨ Far deadline a.expiresAt :=
  h.stale _ (Multiset.mem_cons_self _ _) hleads a ha hgrants

/-- The row is read. -/
theorem read (h : Sole O accounts₀ deadline s ((j, g) ::ₘ gs)) {a : ConnectedAccount}
    (ha : s.world.db.connectedAccounts.get? j = some a) :
    Sole O accounts₀ deadline s
      ((j, { g with acct := some a, time := none, refresh := none }) ::ₘ gs) := by
  have hself := h.self
  refine h.quiet (List.Subset.refl _) rfl rfl rfl rfl rfl rfl ?_ ?_
  · refine ⟨nofun, ?_, hself.cached, nofun, hself.boxed, hself.grants, hself.awaited,
      hself.failed⟩
    rintro _ ⟨rfl⟩
    exact ⟨Table.key_of_get? ha, h.rows j a ha⟩
  · -- A grant was stored, or is yet to be stored by a flight that is this call's own.
    rintro hleads _ ⟨rfl⟩ hgrants
    by_cases hnone : granted ((j, g) ::ₘ gs) j = 0
    · exact .inl hnone
    · right
      rcases h.stored j hnone with ⟨a', ha', hfar⟩ | ⟨x, hx, hj, hl, hgr, -⟩
      · obtain rfl := Option.some.inj (ha.symm.trans ha')
        exact hfar
      · rcases Multiset.mem_cons.mp hx with rfl | hx
        · exact absurd hgrants hgr
        · rw [h.leader_unique hleads hx hj] at hl
          cases hl

theorem clock (h : Sole O accounts₀ deadline s ((j, g) ::ₘ gs)) {t : Time} (ht : t ≤ deadline)
    (haccounts : s'.world.db.connectedAccounts = s.world.db.connectedAccounts)
    (hgroup : s'.group = s.group) :
    Sole O accounts₀ deadline s' ((j, { g with time := some t }) ::ₘ gs) := by
  have hself := h.self
  refine h.quiet (List.Subset.refl _) rfl rfl rfl rfl haccounts hgroup ?_ h.self_stale
  refine ⟨?_, hself.acct, hself.cached, hself.refresh, hself.boxed, hself.grants, hself.awaited,
    hself.failed⟩
  rintro _ ⟨rfl⟩
  exact ht

/-- A box is opened. -/
theorem opened (h : Sole O accounts₀ deadline s ((j, g) ::ₘ gs)) {box p : String}
    (hopen : O.opens box = some p) :
    Sole O accounts₀ deadline s
      ((j, { g with cached := g.cachedAfter box p, refresh := g.refreshAfter box p }) ::ₘ gs) := by
  have hself := h.self
  have hcached : ∀ x, x ∈ g.cachedAfter box p → x ∈ g.cached ∨
      ∃ a t, g.acct = some a ∧ x = (a, t, p) ∧ O.opens a.encryptedAccessToken = some p := by
    intro x hx
    unfold Trace.cachedAfter at hx
    split at hx
    · rename_i a t ha _
      split at hx
      · rename_i hbox
        rcases List.mem_cons.mp hx with hx | hx
        · exact .inr ⟨a, t, ha, hx, hbox ▸ hopen⟩
        · exact .inl hx
      · exact .inl hx
    · exact .inl hx
  have hsub : g.cached ⊆ g.cachedAfter box p := by
    intro x hx
    unfold Trace.cachedAfter
    split
    · split
      · exact .tail _ hx
      · exact hx
    · exact hx
  refine h.quiet hsub rfl rfl rfl rfl rfl rfl ?_ h.self_stale
  refine ⟨hself.time, hself.acct, ?_, ?_, hself.boxed, hself.grants, hself.awaited, hself.failed⟩
  · intro a t tok hmem
    rcases hcached _ hmem with hmem | ⟨a', t', ha', heq, hopen'⟩
    · exact hself.cached a t tok hmem
    · cases heq
      exact ⟨(hself.acct _ ha').1, (hself.acct _ ha').2, hopen'⟩
  · intro rt hrt
    replace hrt : g.refreshAfter box p = some rt := hrt
    unfold Trace.refreshAfter at hrt
    split at hrt
    · rename_i a ha
      split at hrt
      · rename_i hbox
        cases hrt
        obtain ⟨-, a₀, ha₀, hrefresh, -⟩ := hself.acct a ha
        exact ⟨a₀, ha₀, hrefresh ▸ hbox ▸ hopen⟩
      · exact hself.refresh rt hrt
    · exact hself.refresh rt hrt

theorem boxing (h : Sole O accounts₀ deadline s ((j, g) ::ₘ gs)) {p box : String}
    (hopen : O.opens box = some p) :
    Sole O accounts₀ deadline s ((j, { g with boxed := some (p, box) }) ::ₘ gs) := by
  have hself := h.self
  refine h.quiet (List.Subset.refl _) rfl rfl rfl rfl rfl rfl ?_ h.self_stale
  refine ⟨hself.time, hself.acct, hself.cached, hself.refresh, ?_, hself.grants, hself.awaited,
    hself.failed⟩
  rintro _ _ ⟨rfl, rfl⟩
  exact hopen

/-- A grant is made, by the leader of a flight that has found the account stale. -/
theorem grant (h : Sole O accounts₀ deadline s ((j, g) ::ₘ gs)) {rt : String} {tok : OAuthToken}
    (hleads : g.leads.isSome) (hgrants : g.grants = []) (hpersisted : g.persisted = false)
    (hrefresh : g.refresh = some rt) {a : ConnectedAccount} {t : Time} (ha : g.acct = some a)
    (ht : g.time = some t) (hstale : ¬ t + OAuthBroker.refreshSkew < a.expiresAt)
    (hfar : Far deadline tok.expiry.throughColumn) :
    Sole O accounts₀ deadline s ((j, { g with grants := (rt, tok) :: g.grants }) ::ₘ gs) := by
  have hself := h.self
  have hnotFar : ¬ Far deadline a.expiresAt := by
    intro hfar'
    exact hstale (lt_of_le_of_lt (Int.add_le_add_right (hself.time t ht) _) hfar')
  have hnone : granted ((j, g) ::ₘ gs) j = 0 :=
    (h.self_stale hleads a ha hgrants).resolve_right hnotFar
  have hrest : granted gs j = 0 := by
    rw [granted_cons] at hnone
    exact Multiset.le_zero.mp (hnone ▸ Multiset.le_add_left _ _)
  have hothers : ∀ i, i ≠ j →
      granted ((j, { g with grants := (rt, tok) :: g.grants }) ::ₘ gs) i =
        granted ((j, g) ::ₘ gs) i := by
    intro i hi
    rw [granted_cons, granted_cons, if_neg (Ne.symm hi), if_neg (Ne.symm hi)]
  have hg : g.Grows { g with grants := (rt, tok) :: g.grants } :=
    ⟨List.Subset.refl _, List.subset_cons_self _ _⟩
  have hgrow : AllGrow ((j, g) ::ₘ gs) ((j, { g with grants := (rt, tok) :: g.grants }) ::ₘ gs) :=
    allGrow_cons hg
  have htrusted : Trusted O accounts₀ ((j, g) ::ₘ gs) deadline j
      { g with grants := (rt, tok) :: g.grants } := by
    refine ⟨hself.time, hself.acct, hself.cached, hself.refresh, hself.boxed, ?_, hself.awaited,
      hself.failed⟩
    intro gr hgr
    rcases List.mem_cons.mp hgr with rfl | hgr
    · exact ⟨hfar, hself.refresh rt hrefresh⟩
    · exact hself.grants gr hgr
  refine ⟨h.flies.keep rfl rfl, fun f j tok hf ↦ hgrow.legit (h.results f j tok hf),
    fun j a ha ↦ hgrow.source (h.rows j a ha), h.present,
    h.trusted_cons hg (hgrow.trusted htrusted), ?_, ?_, ?_⟩
  · intro i hi
    by_cases hij : i = j
    · subst hij
      exact .inr ⟨_, Multiset.mem_cons_self _ _, rfl, hleads, List.cons_ne_nil _ _, hpersisted⟩
    · rw [hothers i hij] at hi
      refine (h.stored i hi).imp_right ?_
      rintro ⟨x, hx, hxi, hrest⟩
      rcases Multiset.mem_cons.mp hx with rfl | hx
      · exact absurd hxi.symm hij
      · exact ⟨x, Multiset.mem_cons_of_mem hx, hxi, hrest⟩
  · intro i
    by_cases hij : i = j
    · subst hij
      rw [granted_cons, if_pos rfl, hrest, hgrants]
      exact Nat.le_refl _
    · rw [hothers i hij]
      exact h.count i
  · intro x hx hl a ha hgr
    rcases Multiset.mem_cons.mp hx with rfl | hx
    · exact absurd hgr (List.cons_ne_nil _ _)
    · by_cases hxj : x.1 = j
      · rw [h.leader_unique hleads hx hxj] at hl
        cases hl
      · rw [hothers x.1 hxj]
        exact h.stale x (Multiset.mem_cons_of_mem hx) hl a ha hgr

/-- The grant is stored. -/
theorem update (h : Sole O accounts₀ deadline s ((j, g) ::ₘ gs)) {gr : String × OAuthToken}
    {box : String} (hacct : g.acct.isSome) (hgrants : g.grants = [gr])
    (hboxed : g.boxed = some (gr.2.accessToken, box)) :
    ((Sql.updateConnectedAccountTokens j.1 j.2 box gr.2.expiry).apply s.world.db).1 = .ok () ∧
    Sole O accounts₀ deadline
      { s with world := { s.world with
        db := ((Sql.updateConnectedAccountTokens j.1 j.2 box gr.2.expiry).apply s.world.db).2 } }
      ((j, { g with persisted := true }) ::ₘ gs) := by
  have hself := h.self
  have hrow : (s.world.db.connectedAccounts.get? j).isSome := by
    obtain ⟨a, ha⟩ := Option.isSome_iff_exists.mp hacct
    obtain ⟨-, a₀, ha₀, -⟩ := hself.acct a ha
    exact h.present j (Option.isSome_of_eq_some ha₀)
  obtain ⟨a, ha⟩ := Option.isSome_iff_exists.mp hrow
  have hmem : gr ∈ granted ((j, { g with persisted := true }) ::ₘ gs) j :=
    mem_granted.mpr ⟨_, Multiset.mem_cons_self _ _, rfl, hgrants ▸ List.mem_singleton_self _⟩
  have hg : g.Grows { g with persisted := true } := ⟨List.Subset.refl _, List.Subset.refl _⟩
  have hgrow : AllGrow ((j, g) ::ₘ gs) ((j, { g with persisted := true }) ::ₘ gs) :=
    allGrow_cons hg
  have hgranted : ∀ i, granted ((j, { g with persisted := true }) ::ₘ gs) i =
      granted ((j, g) ::ₘ gs) i := fun i ↦ by rw [granted_cons, granted_cons]
  have htrusted : Trusted O accounts₀ ((j, g) ::ₘ gs) deadline j { g with persisted := true } :=
    ⟨hself.time, hself.acct, hself.cached, hself.refresh, hself.boxed, hself.grants,
      hself.awaited, hself.failed⟩
  refine ⟨?_, h.flies.keep rfl rfl, fun f j tok hf ↦ hgrow.legit (h.results f j tok hf), ?_, ?_,
    h.trusted_cons hg (hgrow.trusted htrusted), ?_, ?_, ?_⟩
  · show (if (s.world.db.connectedAccounts.get? j).isSome then _ else _) = _
    rw [if_pos hrow]
  · intro i a' ha'
    replace ha' := (Sql.get?_updateConnectedAccountTokens ..).symm.trans ha'
    by_cases hij : i = j
    · subst hij
      rw [if_pos rfl, ha] at ha'
      cases ha'
      obtain ⟨a₀, ha₀, hrefresh, -⟩ := h.rows i a ha
      exact ⟨a₀, ha₀, hrefresh, .inr ⟨gr, hmem, hself.boxed _ _ hboxed⟩⟩
    · rw [if_neg hij] at ha'
      exact hgrow.source (h.rows i a' ha')
  · intro i hi
    refine Eq.trans (congrArg Option.isSome (Sql.get?_updateConnectedAccountTokens ..)) ?_
    split
    · rw [Option.isSome_map]
      exact h.present i hi
    · exact h.present i hi
  · intro i hi
    by_cases hij : i = j
    · subst hij
      refine .inl ⟨_, (Sql.get?_updateConnectedAccountTokens ..).trans ((if_pos rfl).trans (congrArg _ ha)), ?_⟩
      exact (hself.grants gr (hgrants ▸ List.mem_singleton_self _)).1
    · rw [hgranted] at hi
      rcases h.stored i hi with ⟨a', ha', hfar⟩ | ⟨x, hx, hxi, hrest⟩
      · exact .inl ⟨a', (Sql.get?_updateConnectedAccountTokens ..).trans ((if_neg hij).trans ha'), hfar⟩
      · rcases Multiset.mem_cons.mp hx with rfl | hx
        · exact absurd hxi.symm hij
        · exact .inr ⟨x, Multiset.mem_cons_of_mem hx, hxi, hrest⟩
  · exact fun i ↦ (hgranted i).symm ▸ h.count i
  · intro x hx hl a ha hgr
    rw [hgranted]
    rcases Multiset.mem_cons.mp hx with rfl | hx
    · rw [show g.grants = [] from hgr] at hgrants
      cases hgrants
    · exact h.stale x (Multiset.mem_cons_of_mem hx) hl a ha hgr

/-- A step of the group, of a call that has made no grant it has yet to store. -/
theorem regroup (h : Sole O accounts₀ deadline s ((j, g) ::ₘ gs)) {group : Group String _}
    (hgrows : g'.cached = g.cached) (hgrants : g'.grants = g.grants)
    (hdone : g.grants = [] ∨ g.persisted = true)
    (hflies : Flies leadOf joinOf group ((j, g') ::ₘ gs))
    (hresults : ∀ f i tok, group.done f = some (flightKey i, .ok tok) →
      Legit ((j, g) ::ₘ gs) i tok)
    (htrusted : Trusted O accounts₀ ((j, g) ::ₘ gs) deadline j g')
    (hstale : g'.leads.isSome → g'.acct = none ∨ (g'.leads = g.leads ∧ g'.acct = g.acct)) :
    Sole O accounts₀ deadline { s with group } ((j, g') ::ₘ gs) := by
  have hg : g.Grows g' := ⟨hgrows ▸ List.Subset.refl _, hgrants ▸ List.Subset.refl _⟩
  have hgrow : AllGrow ((j, g) ::ₘ gs) ((j, g') ::ₘ gs) := allGrow_cons hg
  have hgranted : ∀ i, granted ((j, g') ::ₘ gs) i = granted ((j, g) ::ₘ gs) i := by
    intro i
    rw [granted_cons, granted_cons, hgrants]
  refine ⟨hflies, fun f i tok hf ↦ hgrow.legit (hresults f i tok hf),
    fun j a ha ↦ hgrow.source (h.rows j a ha), h.present,
    h.trusted_cons hg (hgrow.trusted htrusted), ?_, ?_, ?_⟩
  · intro i hi
    rw [hgranted] at hi
    refine (h.stored i hi).imp_right ?_
    rintro ⟨x, hx, hxi, hl, hgr, hp⟩
    rcases Multiset.mem_cons.mp hx with rfl | hx
    · rcases hdone with hnone | hstored
      · exact absurd hnone hgr
      · rw [show g.persisted = false from hp] at hstored
        cases hstored
    · exact ⟨x, Multiset.mem_cons_of_mem hx, hxi, hl, hgr, hp⟩
  · exact fun i ↦ (hgranted i).symm ▸ h.count i
  · intro x hx hl a ha hgr
    rw [hgranted]
    rcases Multiset.mem_cons.mp hx with rfl | hx
    · rcases hstale hl with hnone | ⟨hleads, hacct⟩
      · rw [show g'.acct = some a from ha] at hnone
        cases hnone
      · exact h.self_stale (hleads ▸ hl) a (hacct ▸ ha) (hgrants ▸ hgr)
    · exact h.stale x (Multiset.mem_cons_of_mem hx) hl a ha hgr

theorem board (h : Sole O accounts₀ deadline s ((j, g) ::ₘ gs)) (hleads : g.leads = none)
    (hgrants : g.grants = []) :
    Sole O accounts₀ deadline { s with group := (s.group.board (flightKey j)).2 }
      ((j, g.boarded (.board (flightKey j)) (s.group.board (flightKey j)).1) ::ₘ gs) := by
  have hself := h.self
  cases hcall : s.group.calls.get? (flightKey j) with
  | some kf =>
      obtain ⟨k, f⟩ := kf
      obtain rfl : k = flightKey j := Table.key_of_get? hcall
      have hboard : s.group.board (flightKey j) = (.joins f, s.group) := by
        rw [Group.board, hcall]
      rw [hboard]
      refine h.regroup rfl rfl (.inl hgrants) ?_ h.results ?_ fun _ ↦ .inr ⟨rfl, rfl⟩
      · exact h.flies.joins hcall rfl rfl
      · exact ⟨hself.time, hself.acct, hself.cached, hself.refresh, hself.boxed, hself.grants,
          hself.awaited, hself.failed⟩
  | none =>
      have hflies : Flies leadOf joinOf (s.group.board (flightKey j)).2 ((j, { g with
          leads := some s.group.next, acct := none, time := none, refresh := none }) ::ₘ gs) :=
        h.flies.leads hcall (by rw [leadOf, hleads]; rfl) rfl rfl
      have hboard : s.group.board (flightKey j) =
          (.leads s.group.next, (s.group.board (flightKey j)).2) := by
        rw [Group.board, hcall]
      rw [hboard]
      refine h.regroup rfl rfl (.inl hgrants) hflies ?_ ?_ fun _ ↦ .inl rfl
      · have hdone : (s.group.board (flightKey j)).2.done = s.group.done := by
          rw [Group.board, hcall]
        rw [hdone]
        exact h.results
      · refine ⟨?_, ?_, hself.cached, ?_, hself.boxed, hself.grants, hself.awaited, hself.failed⟩
        · rintro t ⟨⟩
        · rintro a ⟨⟩
        · rintro p ⟨⟩

/-- A call gets the result of the flight it has joined. -/
theorem await (h : Sole O accounts₀ deadline s ((j, g) ::ₘ gs)) (hjoined : g.joined = some f)
    {k : String} {r : Except Err String} (hdone : s.group.done f = some (k, r)) :
    Sole O accounts₀ deadline s ((j, { g with awaited := some r }) ::ₘ gs) := by
  have hself := h.self
  refine h.quiet (List.Subset.refl _) rfl rfl rfl rfl rfl rfl ?_ h.self_stale
  refine ⟨hself.time, hself.acct, hself.cached, hself.refresh, hself.boxed, hself.grants, ?_,
    hself.failed⟩
  rintro tok ⟨rfl⟩
  have hjoin : joinOf (j, g) = some (flightKey j, f) := by rw [joinOf, hjoined]; rfl
  rcases h.flies.joined _ (Multiset.mem_cons_self _ _) _ _ hjoin with hrow | ⟨r, hr⟩
  · rw [h.flies.undone _ _ hrow] at hdone
    cases hdone
  · obtain ⟨rfl, rfl⟩ := Prod.mk.inj (Option.some.inj (hr.symm.trans hdone))
    exact h.results f j tok hdone

/-- A flight ends with what its leader owns. -/
theorem land (h : Sole O accounts₀ deadline s ((j, g) ::ₘ gs)) (hleads : g.leads = some f)
    (hstored : g.grants ≠ [] → g.persisted = true ∨ g.failed = true) {r : Except Err String}
    (hown : ∀ tok, r = .ok tok → g.Own tok) :
    Sole O accounts₀ deadline { s with group := s.group.land (flightKey j) f r }
      ((j, { g with leads := none }) ::ₘ gs) := by
  have hself := h.self
  have hlead : leadOf (j, g) = some (flightKey j, f) := by rw [leadOf, hleads]; rfl
  have hflies : Flies leadOf joinOf (s.group.land (flightKey j) f r)
      ((j, { g with leads := none }) ::ₘ gs) := by
    refine h.flies.lands hlead ?_ ?_ r
    · rfl
    · rfl
  refine h.regroup rfl rfl ?_ hflies ?_ ?_ nofun
  · by_cases hgrants : g.grants = []
    · exact .inl hgrants
    · refine .inr ((hstored hgrants).resolve_right ?_)
      rw [hself.failed]
      exact Bool.false_ne_true
  · intro f' i tok hdone
    by_cases hf : f' = f
    · subst hf
      have hland := (Function.update_self _ _ _).symm.trans hdone
      obtain ⟨hkey, rfl⟩ := Prod.mk.inj (Option.some.inj hland)
      obtain rfl := flightKey_injective hkey
      exact ⟨_, Multiset.mem_cons_self _ _, rfl, hown tok rfl⟩
    · exact h.results f' i tok ((Function.update_of_ne hf _ _).symm.trans hdone)
  · exact ⟨hself.time, hself.acct, hself.cached, hself.refresh, hself.boxed, hself.grants,
      hself.awaited, hself.failed⟩

end Sole

/-! ## One grant per account -/

section Theorem

variable {b : OAuthBroker} {O : Outside} {deadline : Time}

/-- Tokens are granted with an expiry past every reading of the clock. -/
def Lasting (O : Outside) (deadline : Time) : Prop :=
  ∀ conf rt tok, O.grants conf rt tok → Far deadline tok.expiry.throughColumn

/-- A call of the gateway keeps the invariant. -/
theorem sole_called {accounts₀ : Table ConnectedAccount.key} {s s' : Desk}
    {gs : Multiset (Holder × Trace)} {j : Holder} {g : Trace} {e : Call} {r : e.Res}
    (hO : Lasting O deadline) (h : Sole O accounts₀ deadline s ((j, g) ::ₘ gs))
    (hpre : RefreshPermitted j (.inl e) g) (hprompt : Prompt deadline e r)
    (hr : sem O (fun _ ↦ False) e s.world r s'.world) (hgroup : s'.group = s.group) :
    Sole O accounts₀ deadline s' ((j, g.called e r) ::ₘ gs) := by
  obtain ⟨w', group⟩ := s'
  obtain rfl : group = s.group := hgroup
  cases e with
  | sql c =>
      cases c with
      | getConnectedAccount u v =>
          obtain ⟨rfl, -⟩ := hpre
          obtain ⟨hanswer, -⟩ := (sem_healthy id).mp hr
          obtain rfl : w' = s.world := sem_reads rfl hr
          cases r with
          | error e => exact h
          | ok a => exact h.read (Sql.fetch_eq_ok.mp hanswer.symm)
      | getAuthConfig vendor =>
          obtain rfl : w' = s.world := sem_reads rfl hr
          exact h
      | updateConnectedAccountTokens u v box exp =>
          obtain ⟨rfl, -, hacct, gr, hgrants, rfl, hboxed⟩ := hpre
          obtain ⟨hanswer, rfl⟩ := (sem_healthy id).mp hr
          obtain ⟨hok, hsole⟩ := h.update hacct hgrants hboxed
          rw [hok] at hanswer
          subst hanswer
          exact hsole
      | _ => exact hpre.elim
  | now =>
      obtain ⟨-, rfl⟩ := hr
      exact h.clock hprompt rfl rfl
  | decrypt box =>
      cases r with
      | error e =>
          obtain rfl : w' = s.world := hr.1
          exact h
      | ok p =>
          obtain ⟨hopen, rfl⟩ := sem_decrypt_ok hr
          exact h.opened hopen
  | encrypt p =>
      obtain ⟨box, rfl⟩ := hprompt
      obtain ⟨rfl, ⟨box', hbox', hopen⟩ | ⟨e, he, -⟩⟩ := hr
      · cases hbox'
        exact h.boxing hopen
      · cases he
  | refreshGrant conf rt =>
      obtain ⟨tok, rfl⟩ := hprompt
      obtain ⟨rfl, -, hgrants⟩ := hr
      obtain ⟨hleads, hnone, hpersisted, hrefresh, a, t, ha, ht, hstale⟩ := hpre
      exact h.grant hleads hnone hpersisted hrefresh ha ht hstale (hO _ _ _ (hgrants tok rfl))
  | _ => exact hpre.elim

/-- The discipline of refreshes. -/
def soleRefresh (b : OAuthBroker) (hO : Lasting O deadline) (accounts₀ : Table ConnectedAccount.key) :
    Discipline (refreshes b O deadline) where
  pre := RefreshPermitted
  fin := fun _ ↦ RefreshEnds
  Inv := Sole O accounts₀ deadline
  body_conforms := fun j _ ↦ ensureFreshTokenShared_conducts.bind fun _ _ hown ↦ hown
  again_conforms := fun _ _ _ _ _ _ hfin ↦ hfin.elim
  inv_start := fun _ _ j _ h ↦ h.start j
  inv_call := by
    intro s gs j g e r s' h hpre hr
    cases e with
    | inl e =>
        obtain ⟨⟨hr, hprompt⟩, hgroup⟩ := hr
        exact sole_called hO h hpre hprompt hr hgroup
    | inr e =>
        obtain ⟨w', group⟩ := s'
        obtain ⟨hr, hworld⟩ := hr
        obtain rfl : w' = s.world := hworld
        cases e with
        | board k =>
            obtain ⟨rfl, hleads, hgrants⟩ := hpre
            obtain ⟨rfl, rfl⟩ := hr
            exact h.board hleads hgrants
        | await f =>
            obtain ⟨⟨k, hdone⟩, rfl⟩ := hr
            exact h.await hpre hdone
        | land k f r =>
            obtain ⟨rfl, hleads, hstored, hown⟩ := hpre
            obtain rfl := hr
            exact h.land hleads hstored hown
  inv_again := fun _ _ _ _ _ _ hfin ↦ hfin.elim
  inv_env := by
    rintro s gs _ h rfl
    exact h

theorem soleRefresh_good (hO : Lasting O deadline) {w : World}
    {c : Pool sharing (Except Err String) Holder Trace Desk}
    (hc : (refreshes b O deadline).Reach ⟨⟨w, .fresh⟩, []⟩ c) :
    (soleRefresh b hO w.db.connectedAccounts).Good c := by
  refine (soleRefresh b hO _).good ((soleRefresh b hO _).good_nil ?_) hc
  have hnothing : ∀ j, granted 0 j = 0 := fun _ ↦ Multiset.zero_bind _
  refine ⟨.fresh, nofun, fun j a ha ↦ ⟨a, ha, rfl, .inl rfl⟩, fun _ hj ↦ hj, ?_, ?_, ?_, ?_⟩
  · exact fun x hx ↦ absurd hx (Multiset.notMem_zero x)
  · exact fun j hj ↦ absurd (hnothing j) hj
  · exact fun j ↦ (hnothing j).symm ▸ Nat.zero_le _
  · exact fun x hx ↦ absurd hx (Multiset.notMem_zero x)

end Theorem

/-- The refresh grants that calls for a user and a vendor have made. -/
def grantsFor (c : Pool sharing (Except Err String) Holder Trace Desk) (j : Holder) :
    List (String × OAuthToken) :=
  (c.threads.filter fun t ↦ t.job = j).flatMap fun t ↦ t.record.grants

theorem grantsFor_eq (c : Pool sharing (Except Err String) Holder Trace Desk) (j : Holder) :
    (grantsFor c j : Multiset (String × OAuthToken)) = granted c.records j := by
  obtain ⟨s, ts⟩ := c
  induction ts with
  | nil => rfl
  | cons t ts ih =>
      have hcons : (⟨s, t :: ts⟩ : Pool ..).records =
          (t.job, t.record) ::ₘ (⟨s, ts⟩ : Pool sharing _ _ _ _).records := rfl
      rw [hcons, granted_cons, ← ih]
      by_cases hj : t.job = j
      · simp [grantsFor, hj]
      · simp [grantsFor, hj]

/-- However calls of `EnsureFreshToken` interleave, from any stored accounts, as long as
newly granted tokens last past every reading of the clock and neither the provider nor the
vault nor the store fails: at most one refresh grant is made for a user and a vendor.  What
a call returns is the access token some call for the same user and vendor has read from
their row while it was fresh, or the one that was granted.  And that token is theirs: it was
in their row from the start, or was granted for the refresh token of their row. -/
theorem one_grant_per_expiry {b : OAuthBroker} {O : Outside} {deadline : Time} {w : World}
    {c : Pool sharing (Except Err String) Holder Trace Desk} (hO : Lasting O deadline)
    (hc : (refreshes b O deadline).Reach ⟨⟨w, .fresh⟩, []⟩ c) (j : Holder) :
    (grantsFor c j).length ≤ 1 ∧
    ∀ t ∈ c.threads, t.job = j → ∀ tok, t.cur = .ret (.inl (.ok tok)) →
      ((∃ u ∈ c.threads, u.job = j ∧ ∃ a now, (a, now, tok) ∈ u.record.cached ∧ a.key = j ∧
          O.opens a.encryptedAccessToken = some tok ∧
          now + OAuthBroker.refreshSkew < a.expiresAt) ∨
        ∃ gr ∈ grantsFor c j, gr.2.accessToken = tok) ∧
      ∃ a₀, w.db.connectedAccounts.get? j = some a₀ ∧
        (O.opens a₀.encryptedAccessToken = some tok ∨
          ∃ gr ∈ grantsFor c j, gr.2.accessToken = tok ∧
            O.opens a₀.encryptedRefreshToken = some gr.1) := by
  have hgood := soleRefresh_good hO hc
  have hsole : Sole O w.db.connectedAccounts deadline c.shared c.records := hgood.inv
  have hmem : ∀ gr, gr ∈ granted c.records j → gr ∈ grantsFor c j := by
    intro gr hgr
    rw [← grantsFor_eq] at hgr
    exact hgr
  have hthreads : ∀ x ∈ c.records, ∃ u ∈ c.threads, (u.job, u.record) = x := fun x hx ↦
    List.mem_map.mp (Multiset.mem_coe.mp hx)
  have hlegit : ∀ t ∈ c.threads, t.job = j → ∀ tok, t.cur = .ret (.inl (.ok tok)) →
      Legit c.records j tok := by
    rintro t ht rfl tok hcur
    have hends := hgood.conforms t ht
    rw [hcur] at hends
    rcases hends tok rfl with hown | hawaited
    · exact ⟨_, Pool.mem_records ht, rfl, hown⟩
    · exact (hsole.trusted _ (Pool.mem_records ht)).awaited tok hawaited
  refine ⟨?_, fun t ht htj tok hcur ↦ ?_⟩
  · rw [← Multiset.coe_card, grantsFor_eq]
    exact hsole.count j
  · obtain ⟨x, hx, rfl, hown⟩ := hlegit t ht htj tok hcur
    have htrusted := hsole.trusted x hx
    obtain ⟨u, hu, rfl⟩ := hthreads x hx
    rcases hown with ⟨a, now, hcached, hfresh⟩ | ⟨gr, hgr, rfl⟩
    · obtain ⟨hkey, ⟨a₀, ha₀, -, hsource⟩, hopen⟩ := htrusted.cached a now tok hcached
      refine ⟨.inl ⟨u, hu, rfl, a, now, hcached, hkey, hopen, hfresh⟩, a₀, ha₀, ?_⟩
      rcases hsource with hsame | ⟨gr, hgr, hopen'⟩
      · exact .inl (hsame ▸ hopen)
      · obtain ⟨y, hy, hyj, hgry⟩ := mem_granted.mp hgr
        obtain ⟨-, a₁, ha₁, hrt⟩ := (hsole.trusted y hy).grants gr hgry
        rw [hyj, ha₀, Option.some.injEq] at ha₁
        subst ha₁
        exact .inr ⟨gr, hmem gr hgr, Option.some.inj (hopen'.symm.trans hopen), hrt⟩
    · have hgranted : gr ∈ grantsFor c u.job := hmem gr (mem_granted.mpr ⟨_, hx, rfl, hgr⟩)
      obtain ⟨-, a₀, ha₀, hrt⟩ := htrusted.grants gr hgr
      exact ⟨.inr ⟨gr, hgranted, rfl⟩, a₀, ha₀, .inr ⟨gr, hgranted, rfl, hrt⟩⟩

namespace Example.Refresh

/-- The clock stands a hundred seconds before the token the provider grants expires. -/
def clock : Time := -100 * Time.second

def alice : Holder := (1, "github")

/-- Alice's access token has expired. -/
def store : Database :=
  [Sql.putAuthConfig ⟨"github", "", "", "", "", [], true, ""⟩,
    .putConnectedAccount ⟨1, "github", Partners.vaultSeal "old refresh",
      Partners.vaultSeal "old access", clock, []⟩].foldl (fun db c ↦ (c.apply db).2) .fresh

def desk : Desk := ⟨.boot store clock, .fresh⟩

def partners : Partners := ⟨⟨[]⟩, []⟩

/-- The local handler, with a group. -/
def answer : (e : sharing.Op) → Desk → Option (sharing.Res e × Desk)
  | .inl .now, s => if s.world.now ≤ clock then some (s.world.now, s) else none
  | .inl e, s => (partners.answer e s.world).map fun x ↦ (x.1, ⟨x.2, s.group⟩)
  | .inr (.board k), s => some ((s.group.board k).1, ⟨s.world, (s.group.board k).2⟩)
  | .inr (.await f), s => (s.group.done f).map fun x ↦ (x.2, s)
  | .inr (.land k f r), s => some ((), ⟨s.world, s.group.land k f r⟩)

theorem prompt_answer {e : Call} {w w' : World} {r : e.Res} (hnow : e ≠ .now)
    (h : partners.answer e w = some (r, w')) : Prompt clock e r := by
  cases e with
  | now => exact absurd rfl hnow
  | encrypt p => cases h; exact ⟨_, rfl⟩
  | refreshGrant conf rt => cases h; exact ⟨_, rfl⟩
  | _ => trivial

theorem answer_sem {e : sharing.Op} {s s' : Desk} {r : sharing.Res e}
    (h : answer e s = some (r, s')) : sharingSem Partners.outside clock e s r s' := by
  unfold answer at h
  split at h
  · split at h
    · rename_i hle
      cases h
      exact ⟨⟨⟨le_refl _, rfl⟩, hle⟩, rfl⟩
    · cases h
  · rename_i e hnow
    obtain ⟨⟨r, w'⟩, hanswer, heq⟩ := Option.map_eq_some_iff.mp h
    cases heq
    exact ⟨⟨partners.answer_sem hanswer _, prompt_answer hnow hanswer⟩, rfl⟩
  · cases h
    exact ⟨⟨rfl, rfl⟩, rfl⟩
  · obtain ⟨⟨k, r⟩, hdone, heq⟩ := Option.map_eq_some_iff.mp h
    cases heq
    exact ⟨⟨⟨k, hdone⟩, rfl⟩, rfl⟩
  · cases h
    exact ⟨rfl, rfl⟩

/-- Two calls find the token expired; the second joins the flight of the first. -/
def schedule : List (Move Holder) :=
  [.start alice, .start alice, .step 0, .step 0, .step 1, .step 1, .step 0, .step 1] ++
    List.replicate 8 (.step 0) ++ [.step 1]

def raced : Pool sharing (Except Err String) Holder Trace Desk :=
  (refreshes ⟨⟨fun _ ↦ .ok "", fun _ ↦ .error (.new "")⟩, "", fun _ _ _ ↦ ""⟩ Partners.outside
    clock).play answer ⟨desk, []⟩ schedule

end Example.Refresh

open Example.Refresh in
/-- Two calls that race get the token of one grant. -/
theorem one_grant_per_expiry_raced :
    raced.threads.map Thread.cur = [.ret (.inl (.ok "access")), .ret (.inl (.ok "access"))] ∧
      grantsFor raced alice = [("old refresh", Partners.granted)] ∧
      (grantsFor raced alice).length ≤ 1 := by
  have hO : Lasting Partners.outside clock := by
    rintro conf rt tok rfl
    show clock + OAuthBroker.refreshSkew < Time.throughColumn 0
    decide
  refine ⟨rfl, rfl, (one_grant_per_expiry hO (Effect.System.reach_play ?_ ?_ _) alice).1⟩
  · exact fun _ _ _ _ h ↦ answer_sem h
  · exact fun _ _ ↦ trivial

end GigMcp.Auth
