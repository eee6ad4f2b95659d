import GigMcp.Gateway.Custody

/-!
# Deleting a profile

MCP requests for a profile race with the handler that deletes it.  The store never
hands out the id of a deleted profile again, so from the delete on no token lookup
finds the profile.  What is left is the requests whose lookup came before: one that
is still in `getOrCreate` when the handler's `Invalidate` takes the lock can store a
runtime afterwards, and nothing removes that runtime.

`known` records what threads have read of the profiles and what they have deleted.
`deleted` is the discipline of a profile that is gone: no thread serves it.
-/

namespace GigMcp.Gateway

open GigMcp.Effect GigMcp.System GigMcp.Store GigMcp.Data

/-! ## Profiles that are gone -/

/-- No profile has the id, and none will have it again. -/
def Gone (pid : Int64) (w : World) : Prop :=
  w.db.profiles.table.get? pid = none ∧ pid.toInt ≤ w.db.profiles.seq

variable {O : Outside} {faults : Call → Prop} {w w' : World} {pid : Int64}

theorem sem_follows {e : Call} {r : e.Res} (h : sem O faults e w r w') :
    AutoTable.Follows Profile.userID w.db.profiles w'.db.profiles := by
  rcases sem_db h with hdb | ⟨c, -, hdb⟩
  · rw [hdb]
    exact .refl _
  · rw [hdb]
    exact c.profiles_follows _

theorem elsewhere_follows (h : elsewhere O w w') :
    AutoTable.Follows Profile.userID w.db.profiles w'.db.profiles := by
  rcases h with ⟨c, r, hr⟩ | ⟨t, -, rfl⟩
  · exact sem_follows hr
  · exact .refl _

theorem Gone.follows (h : Gone pid w)
    (hf : AutoTable.Follows Profile.userID w.db.profiles w'.db.profiles) : Gone pid w' := by
  refine ⟨?_, le_trans h.2 (Int.ofNat_le.mpr hf.seq_le)⟩
  cases hget : w'.db.profiles.table.get? pid with
  | none => rfl
  | some p =>
      obtain ⟨q, hq, -⟩ := hf.same pid p h.2 hget
      rw [h.1] at hq
      cases hq

/-! ## What threads know of the profiles -/

/-- What a thread's record says about the store. -/
structure Knows (w : World) (g : Record) : Prop where
  seen : ∀ pid ∈ g.seen, pid.toInt ≤ w.db.profiles.seq
  dropped : ∀ pid, g.dropped = some pid → Gone pid w

theorem Knows.follows {g : Record} (h : Knows w g)
    (hf : AutoTable.Follows Profile.userID w.db.profiles w'.db.profiles) : Knows w' g where
  seen := fun pid hpid ↦ le_trans (h.seen pid hpid) (Int.ofNat_le.mpr hf.seq_le)
  dropped := fun pid hpid ↦ (h.dropped pid hpid).follows hf

/-- A profile that a statement answered is in the store. -/
theorem sem_noted_seen {c : Sql} {r : Except Err c.Ans} (h : sem O faults (.sql c) w r w')
    (g : Record) {i : Int64} (hi : i ∈ (g.noted c r).seen) :
    i ∈ g.seen ∨ ∃ p, w.db.profiles.table.get? i = some p := by
  unfold Record.noted at hi
  split at hi
  · rename_i id p
    rcases List.mem_cons.mp hi with rfl | hi
    · have hp := Sql.fetch_eq_ok.mp (sem_sql_ok h).1
      have hkey : p.id = id := Table.key_of_get? hp
      exact .inr ⟨p, by rw [hkey]; exact hp⟩
    · exact .inl hi
  · rename_i slug hash p
    rcases List.mem_cons.mp hi with rfl | hi
    · have hp := Sql.fetch_eq_ok.mp (sem_sql_ok h).1
      exact .inr ⟨p, Table.get?_of_mem (List.mem_of_find?_eq_some hp)⟩
    · exact .inl hi
  · exact .inl hi
  · exact .inl hi

theorem sem_noted_dropped {c : Sql} {r : Except Err c.Ans} (h : sem O faults (.sql c) w r w')
    (g : Record) {i : Int64} (hi : (g.noted c r).dropped = some i) :
    g.dropped = some i ∨ (c = .deleteProfile i ∧ w'.db.profiles.table.get? i = none) := by
  unfold Record.noted at hi
  split at hi
  · exact .inl hi
  · exact .inl hi
  · rename_i id u
    obtain rfl := Option.some.inj hi
    refine .inr ⟨rfl, ?_⟩
    obtain ⟨-, rfl⟩ := sem_sql_ok h
    show (w.db.profiles.table.deleteWhere _).get? id = none
    rw [Table.get?_deleteWhere]
    cases hget : w.db.profiles.table.get? id with
    | none => rfl
    | some p =>
        have hkey : p.id = id := Table.key_of_get? hget
        simp [Option.filter, hkey]
  · exact .inl hi

/-- A permitted call keeps what its thread knows true. -/
theorem Knows.call {j : Job} {g : Record} (h : Knows w g) {e : Call} {r : e.Res}
    (hp : Permitted j e g) (hs : sem O faults e w r w') : Knows w' (Record.track e g r) := by
  have hkeeps : Knows w' g := h.follows (sem_follows hs)
  have hsame : ∀ g' : Record, g'.seen = g.seen → g'.dropped = g.dropped → Knows w' g' :=
    fun g' hseen hdropped ↦ ⟨hseen ▸ hkeeps.seen, hdropped ▸ hkeeps.dropped⟩
  cases e with
  | sql c =>
      refine ⟨fun i hi ↦ ?_, fun i hi ↦ ?_⟩
      · rcases sem_noted_seen hs g hi with hi | ⟨p, hget⟩
        · exact hkeeps.seen i hi
        · have hle := w.db.profiles.le_seq p (Table.mem_of_get? hget)
          rw [Table.key_of_get? hget] at hle
          exact le_trans hle (Int.ofNat_le.mpr (sem_follows hs).seq_le)
      · rcases sem_noted_dropped hs g hi with hi | ⟨rfl, hget⟩
        · exact hkeeps.dropped i hi
        · exact ⟨hget, hkeeps.seen i (hp i rfl)⟩
  | enter pid =>
      cases r with
      | claimed ch => exact hsame _ rfl rfl
      | _ => exact hkeeps
  | spawn srv tenant placeholder =>
      cases r with
      | ok b => exact hsame _ rfl rfl
      | error e => exact hkeeps
  | takeRuntime pid =>
      cases r with
      | some rt => exact hsame _ rfl rfl
      | none => exact hkeeps
  | commit pid built => exact hsame _ rfl rfl
  | takeAll => exact hsame _ rfl rfl
  | cleanup b => exact hsame _ rfl rfl
  | _ => exact hkeeps

/-- The discipline of what threads know. -/
def known (O : Outside) (starts : Job → Prop) : Discipline (host O starts) where
  pre := Permitted
  fin := Ends
  Inv := fun w gs ↦ ∀ t ∈ gs, Knows w t.2
  body_conforms := host_conducts O starts
  again_conforms := by
    rintro w gs j j' g - ⟨hg, -⟩
    exact body_conducts j' hg
  inv_start := by
    intro w gs j _ h t ht
    rcases Multiset.mem_cons.mp ht with rfl | ht
    · exact ⟨nofun, nofun⟩
    · exact h t ht
  inv_call := by
    intro w gs j g e r w' h hp hs t ht
    have hs : sem O (fun _ ↦ True) e w r w' := hs
    rcases Multiset.mem_cons.mp ht with rfl | ht
    · exact (h _ (Multiset.mem_cons_self ..)).call hp hs
    · exact (h t (Multiset.mem_cons_of_mem ht)).follows (sem_follows hs)
  inv_again := by
    intro w gs j j' g h _ t ht
    rcases Multiset.mem_cons.mp ht with rfl | ht
    · exact h (j, g) (Multiset.mem_cons_self ..)
    · exact h t (Multiset.mem_cons_of_mem ht)
  inv_env := fun w gs w' h hw t ht ↦ (h t ht).follows (elsewhere_follows hw)

/-! ## After the delete -/

/-- The jobs that arrive as requests: `getOrCreate` only follows a token lookup. -/
def Job.Arrives (j : Job) : Prop := j.builds = none

/-- A thread is serving a profile: it is in `getOrCreate` for the profile, or about to call
it because its token lookup has found the profile. -/
def Serves (pid : Int64) (t : Thread gateway Outcome Job Record) : Prop :=
  (t.job.builds = some pid ∧ ¬ t.Finished) ∨
    (t.job.builds = none ∧ ¬ t.job.TearsDown ∧ pid ∈ t.record.seen)

instance instDecidableServes (pid : Int64) : DecidablePred (Serves pid) := fun _ ↦
  inferInstanceAs (Decidable (_ ∨ _))

/-- A profile is gone, nothing is stored for it and nobody builds for it. -/
structure TornDown (pid : Int64) (w : World) (gs : Multiset (Job × Record)) : Prop where
  gone : Gone pid w
  empty : w.host.runtimeOf pid = none
  unclaimed : ∀ t ∈ gs, t.2.claim ≠ some pid
  unseen : ∀ t ∈ gs, t.1.builds = none → ¬ t.1.TearsDown → pid ∉ t.2.seen

namespace TornDown

variable {j : Job} {g : Record} {gs : Multiset (Job × Record)}

/-- The lock sections of jobs for other profiles store nothing for a profile. -/
theorem runtimeOf_call (h : TornDown pid w ((j, g) ::ₘ gs)) {e : Call} {r : e.Res}
    (hp : Permitted j e g) (hs : sem O faults e w r w') : w'.host.runtimeOf pid = none := by
  cases e with
  | enter q =>
      obtain ⟨-, rfl⟩ := hs
      have hstored : (w.host.enter q).2.stored = w.host.stored := by
        rcases w.host.enter_cases q with ⟨-, he⟩ | ⟨-, rt, -, he⟩ | ⟨-, ch, he⟩ | ⟨-, -, -, he⟩
        · rw [he]
        · rw [he]; rfl
        · rw [he]; rfl
        · rw [he]; rfl
      rw [← h.empty]
      exact Host.runtimeOf_congr hstored pid
  | commit q built =>
      obtain ⟨-, rfl⟩ := hs
      cases hrt : (w.host.commit q built).2.runtimeOf pid with
      | none => rfl
      | some rt =>
          rcases Host.runtimeOf_commit hrt with hrt | ⟨rfl, -⟩
          · rw [h.empty] at hrt
            cases hrt
          · exact absurd hp.1 (h.unclaimed _ (Multiset.mem_cons_self ..))
  | takeRuntime q =>
      obtain ⟨-, rfl⟩ := hs
      show (w.host.take q).2.runtimeOf pid = none
      rw [Host.runtimeOf_take, h.empty, ite_self]
  | takeAll =>
      obtain ⟨-, rfl⟩ := hs
      rfl
  | closeChan ch =>
      obtain rfl := hs
      exact h.empty
  | spawn srv tenant placeholder =>
      rcases hs with ⟨-, rfl⟩ | ⟨rfl, -⟩
      · exact h.empty
      · exact h.empty
  | cleanup b =>
      obtain rfl := hs
      exact h.empty
  | sql c =>
      have htouch : Touches c.writes (.sql c) := List.Subset.refl _
      rw [(sem_touches htouch hs).host]
      exact h.empty
  | _ =>
      have hw : Alike [] w w' := sem_touches (by trivial) hs
      rw [hw.host]
      exact h.empty

theorem claim_call (h : TornDown pid w ((j, g) ::ₘ gs)) (hj : j.builds ≠ some pid) {e : Call}
    {r : e.Res} (hp : Permitted j e g) : (Record.track e g r).claim ≠ some pid := by
  have hg : g.claim ≠ some pid := h.unclaimed _ (Multiset.mem_cons_self ..)
  cases e with
  | sql c =>
      show (g.noted c r).claim ≠ some pid
      rw [(g.noted_owed c r).1]
      exact hg
  | enter q =>
      cases r with
      | claimed ch =>
          intro hq
          obtain rfl := Option.some.inj hq
          exact hj hp.1
      | _ => exact hg
  | commit q built => exact nofun
  | spawn srv tenant placeholder =>
      cases r with
      | ok b => exact hg
      | error e => exact hg
  | takeRuntime q =>
      cases r with
      | some rt => exact hg
      | none => exact hg
  | _ => exact hg

theorem seen_call (h : TornDown pid w ((j, g) ::ₘ gs)) (hj : j.builds = none) (hn : ¬ j.TearsDown)
    {e : Call} {r : e.Res} (hs : sem O faults e w r w') : pid ∉ (Record.track e g r).seen := by
  have hg : pid ∉ g.seen := h.unseen _ (Multiset.mem_cons_self ..) hj hn
  cases e with
  | sql c =>
      intro hseen
      rcases sem_noted_seen hs g hseen with hseen | ⟨p, hget⟩
      · exact hg hseen
      · rw [h.gone.1] at hget
        cases hget
  | enter q =>
      cases r with
      | _ => exact hg
  | spawn srv tenant placeholder =>
      cases r with
      | _ => exact hg
  | takeRuntime q =>
      cases r with
      | _ => exact hg
  | _ => exact hg

end TornDown

/-- The discipline of a profile that is gone: no thread makes calls for it. -/
def deleted (O : Outside) (pid : Int64) : Discipline (host O Job.Arrives) where
  pre := fun j e g ↦ j.builds ≠ some pid ∧ Permitted j e g
  fin := fun j a g ↦ Ends j a g ∧ ∀ j', a = .inr j' → j.builds ≠ some pid
  Inv := TornDown pid
  body_conforms := by
    intro j hj
    have hne : j.builds ≠ some pid := by
      rw [show j.builds = none from hj]
      exact nofun
    exact (body_conducts j ⟨rfl, rfl⟩).mono (fun _ _ h ↦ ⟨hne, h⟩) fun _ _ h ↦ ⟨h, fun _ _ ↦ hne⟩
  again_conforms := by
    rintro w gs j j' g h ⟨⟨hg, p, rfl, hp⟩, hj⟩
    have hne : (Job.getOrCreate p).builds ≠ some pid := by
      rintro ⟨rfl⟩
      rcases hp with hp | ⟨hnone, hn, hseen⟩
      · exact hj _ rfl hp
      · exact h.unseen _ (Multiset.mem_cons_self ..) hnone hn hseen
    exact (body_conducts (.getOrCreate p) hg).mono (fun _ _ h ↦ ⟨hne, h⟩)
      fun _ _ h ↦ ⟨h, fun _ _ ↦ hne⟩
  inv_start := by
    intro w gs j _ h
    refine ⟨h.gone, h.empty, fun t ht ↦ ?_, fun t ht hb hn ↦ ?_⟩
    · rcases Multiset.mem_cons.mp ht with rfl | ht
      · exact nofun
      · exact h.unclaimed t ht
    · rcases Multiset.mem_cons.mp ht with rfl | ht
      · exact nofun
      · exact h.unseen t ht hb hn
  inv_call := by
    intro w gs j g e r w' h hp hs
    have hs : sem O (fun _ ↦ True) e w r w' := hs
    refine ⟨h.gone.follows (sem_follows hs), h.runtimeOf_call hp.2 hs, fun t ht ↦ ?_,
      fun t ht hb hn ↦ ?_⟩
    · rcases Multiset.mem_cons.mp ht with rfl | ht
      · exact h.claim_call hp.1 hp.2
      · exact h.unclaimed t (Multiset.mem_cons_of_mem ht)
    · rcases Multiset.mem_cons.mp ht with rfl | ht
      · exact h.seen_call hb hn hs
      · exact h.unseen t (Multiset.mem_cons_of_mem ht) hb hn
  inv_again := by
    rintro w gs j j' g h ⟨⟨-, p, rfl, -⟩, -⟩
    refine ⟨h.gone, h.empty, fun t ht ↦ ?_, fun t ht hb hn ↦ ?_⟩
    · rcases Multiset.mem_cons.mp ht with rfl | ht
      · exact h.unclaimed (j, g) (Multiset.mem_cons_self ..)
      · exact h.unclaimed t (Multiset.mem_cons_of_mem ht)
    · rcases Multiset.mem_cons.mp ht with rfl | ht
      · cases hb
      · exact h.unseen t (Multiset.mem_cons_of_mem ht) hb hn
  inv_env := by
    intro w gs w' h hw
    refine ⟨h.gone.follows (elsewhere_follows hw), ?_, h.unclaimed, h.unseen⟩
    rcases hw with ⟨c, r, hr⟩ | ⟨t, -, rfl⟩
    · have htouch : Touches c.writes (.sql c) := List.Subset.refl _
      rw [(sem_touches htouch hr).host]
      exact h.empty
    · exact h.empty

/-! ## The handler's `Invalidate` -/

/-- The delete handler's `Invalidate` takes the lock: one step of a pool. -/
def Invalidates (O : Outside) (pid : Int64)
    (c c' : Pool gateway Outcome Job Record World) : Prop :=
  ∃ ts us ctx pathID k g r,
    c.threads = ts ++ ⟨.deleteProfile ctx pathID, .vis (.takeRuntime pid) k, g⟩ :: us ∧
    sem O (fun _ ↦ True) (.takeRuntime pid) c.shared r c'.shared ∧
    c'.threads = ts ++
      ⟨.deleteProfile ctx pathID, k r, Record.track (.takeRuntime pid) g r⟩ :: us

section Delete

variable {db : Database} {now : Time} {c₁ c₂ c₃ : Pool gateway Outcome Job Record World}

theorem Invalidates.step (h : Invalidates O pid c₁ c₂) : (host O Job.Arrives).Step c₁ c₂ := by
  obtain ⟨ts, us, ctx, pathID, k, g, r, h₁, hs, h₂⟩ := h
  obtain ⟨w₁, ts₁⟩ := c₁
  obtain ⟨w₂, ts₂⟩ := c₂
  subst h₁ h₂
  exact .call hs

/-- A thread after the step is the handler's own or was there before. -/
theorem Invalidates.thread (h : Invalidates O pid c₁ c₂) {t : Thread gateway Outcome Job Record}
    (ht : t ∈ c₂.threads) :
    (∃ ctx pathID, t.job = .deleteProfile ctx pathID) ∨ t ∈ c₁.threads := by
  obtain ⟨ts, us, ctx, pathID, k, g, r, h₁, -, h₂⟩ := h
  rw [h₂] at ht
  rw [h₁]
  rcases List.mem_append.mp ht with ht | ht
  · exact .inr (List.mem_append_left _ ht)
  · rcases List.mem_cons.mp ht with rfl | ht
    · exact .inl ⟨ctx, pathID, rfl⟩
    · exact .inr (List.mem_append_right _ (.tail _ ht))

/-- When the handler's `Invalidate` takes the lock, the profile's row is gone. -/
theorem Invalidates.gone (hc₁ : (host O Job.Arrives).Reach ⟨.boot db now, []⟩ c₁)
    (h : Invalidates O pid c₁ c₂) : Gone pid c₁.shared := by
  have hknown := (known O Job.Arrives).good
    ((known O Job.Arrives).good_nil fun t ht ↦ absurd ht (Multiset.notMem_zero t)) hc₁
  obtain ⟨ts, us, ctx, pathID, k, g, r, h₁, -, -⟩ := h
  have ht : (⟨.deleteProfile ctx pathID, .vis (.takeRuntime pid) k, g⟩ :
      Thread gateway Outcome Job Record) ∈ c₁.threads := by
    rw [h₁]
    simp
  have hdropped : g.dropped = some pid := (hknown.conforms _ ht).1.2.2 ctx pathID rfl
  exact (hknown.inv _ (Pool.mem_records ht)).dropped pid hdropped

/-- If no thread serves the profile then, none ever will. -/
theorem Invalidates.deleted_good (hc₁ : (host O Job.Arrives).Reach ⟨.boot db now, []⟩ c₁)
    (h : Invalidates O pid c₁ c₂) (hquiet : ∀ t ∈ c₁.threads, ¬ Serves pid t) :
    (deleted O pid).Good c₂ := by
  have hgood := custody_good (hc₁.tail h.step)
  have hinv : Custody c₂.shared c₂.records := hgood.inv
  have hgone : Gone pid c₂.shared := by
    obtain ⟨ts, us, ctx, pathID, k, g, r, -, hs, -⟩ := id h
    exact (Invalidates.gone hc₁ h).follows (sem_follows hs)
  -- A thread that builds for the profile has finished, so it has given its claim back.
  have hfinished : ∀ t ∈ c₂.threads, t.job.builds = some pid → t.Finished := by
    intro t ht hb
    rcases h.thread ht with ⟨ctx, pathID, hjob⟩ | ht₁
    · rw [hjob] at hb
      cases hb
    · by_contra hfin
      exact hquiet t ht₁ (.inl ⟨hb, hfin⟩)
  refine ⟨fun t ht ↦ ?_, hgone, ?_, ?_, ?_⟩
  · have hconf := hgood.conforms t ht
    by_cases hb : t.job.builds = some pid
    · obtain ⟨a, ha⟩ := hfinished t ht hb
      rw [ha] at hconf ⊢
      refine ⟨hconf, ?_⟩
      rintro _ ⟨⟩
    · refine Conforms.mono ?_ ?_ hconf
      · exact fun _ _ hp ↦ ⟨hb, hp⟩
      · exact fun _ _ hend ↦ ⟨hend, fun _ _ ↦ hb⟩
  · obtain ⟨ts, us, ctx, pathID, k, g, r, -, ⟨-, hw⟩, -⟩ := id h
    rw [hw]
    show (c₁.shared.host.take pid).2.runtimeOf pid = none
    rw [Host.runtimeOf_take, if_pos rfl]
  · intro t' ht' hclaim
    obtain ⟨t, ht, rfl⟩ := List.mem_map.mp (Multiset.mem_coe.mp ht')
    have hb := ((hinv.owes _ ht').builder pid hclaim).1
    have hidle := (finished_ends hgood ht (hfinished t ht hb)).1.1
    rw [show t.record.claim = some pid from hclaim] at hidle
    cases hidle
  · intro t' ht' hb hn hseen
    obtain ⟨t, ht, rfl⟩ := List.mem_map.mp (Multiset.mem_coe.mp ht')
    rcases h.thread ht with ⟨ctx, pathID, hjob⟩ | ht₁
    · exact hn (by rw [show t.job = _ from hjob]; trivial)
    · exact hquiet t ht₁ (.inr ⟨hb, hn, hseen⟩)

/-- Where a profile's backend is once the threads that tear down have finished, and no
build for the profile is under way. -/
theorem cleaned_or_stored (hgood : (custody O Job.Arrives).Good c₃)
    (hdown : ∀ t ∈ c₃.threads, t.job.TearsDown → t.Finished)
    (hclaims : ∀ t ∈ c₃.threads, t.record.claim ≠ some pid) {b : EgressBackend}
    (hb : b ∈ c₃.shared.spawned) (htenant : b.tenant = formatInt pid) :
    b ∈ c₃.shared.cleaned ∨
      ∃ rt, c₃.shared.host.runtimeOf pid = some rt ∧ b ∈ rt.cleanups := by
  have hinv : Custody c₃.shared c₃.records := hgood.inv
  have hplace : b ∈ (c₃.shared.spawned : Multiset EgressBackend) := hb
  rw [hinv.balance, Multiset.mem_add, Multiset.mem_add] at hplace
  rcases hplace with (hcleaned | hkept) | hheld
  · exact .inl hcleaned
  · obtain ⟨q, rt, hrt, hb⟩ := Host.mem_keeps.mp hkept
    have hq : formatInt q = formatInt pid := (hinv.tenants q rt hrt b hb).symm.trans htenant
    obtain rfl := formatInt_injective hq
    exact .inr ⟨rt, hrt, hb⟩
  · obtain ⟨t', ht', hb⟩ := mem_inHand.mp hheld
    obtain ⟨t, ht, rfl⟩ := List.mem_map.mp (Multiset.mem_coe.mp ht')
    have howes := hinv.owes _ ht'
    have hempty : t.record.held = [] := by
      by_cases htears : t.job.TearsDown
      · exact (finished_ends hgood ht (hdown t ht htears)).1.2
      · cases hclaim : t.record.claim with
        | none => exact howes.idle htears hclaim
        | some q =>
            have hq : formatInt q = formatInt pid :=
              ((howes.builder q hclaim).2 b hb).symm.trans htenant
            obtain rfl := formatInt_injective hq
            exact absurd hclaim (hclaims t ht)
    rw [show t.record.held = [] from hempty] at hb
    cases hb

/-- **Deleting a profile.**  When the delete handler and every other `Invalidate` and
`Close` has returned, and so has every `getOrCreate` for the profile, each backend spawned
for the profile has been cleaned up or belongs to a runtime stored for it; and if no request
was between its token lookup for the profile and the end of its `getOrCreate` when the
handler's `Invalidate` took the lock, no runtime is stored for the profile and each backend
spawned for it has been cleaned up. -/
theorem deleted_profile_torn_down (hc₁ : (host O Job.Arrives).Reach ⟨.boot db now, []⟩ c₁)
    (h : Invalidates O pid c₁ c₂) (hc₃ : (host O Job.Arrives).Reach c₂ c₃)
    (hdown : ∀ t ∈ c₃.threads, t.job.TearsDown → t.Finished)
    (hserved : ∀ t ∈ c₃.threads, t.job.builds = some pid → t.Finished) :
    (∀ b ∈ c₃.shared.spawned, b.tenant = formatInt pid →
      b ∈ c₃.shared.cleaned ∨
        ∃ rt, c₃.shared.host.runtimeOf pid = some rt ∧ b ∈ rt.cleanups) ∧
    ((∀ t ∈ c₁.threads, ¬ Serves pid t) →
      c₃.shared.host.runtimeOf pid = none ∧
        ∀ b ∈ c₃.shared.spawned, b.tenant = formatInt pid → b ∈ c₃.shared.cleaned) := by
  have hgood := custody_good ((hc₁.tail h.step).trans hc₃)
  have hinv : Custody c₃.shared c₃.records := hgood.inv
  have hclaims : ∀ t ∈ c₃.threads, t.record.claim ≠ some pid := by
    intro t ht hclaim
    have hb := ((hinv.owes _ (Pool.mem_records ht)).builder pid hclaim).1
    have hidle := (finished_ends hgood ht (hserved t ht hb)).1.1
    rw [hclaim] at hidle
    cases hidle
  refine ⟨fun b hb ht ↦ cleaned_or_stored hgood hdown hclaims hb ht, fun hquiet ↦ ?_⟩
  have htorn : TornDown pid c₃.shared c₃.records :=
    ((deleted O pid).good (h.deleted_good hc₁ hquiet) hc₃).inv
  refine ⟨htorn.empty, fun b hb ht ↦ ?_⟩
  rcases cleaned_or_stored hgood hdown hclaims hb ht with hcleaned | ⟨rt, hrt, -⟩
  · exact hcleaned
  · rw [htorn.empty] at hrt
    cases hrt

namespace Example.Echo

def alice : User := ⟨1, "idp", "alice", "", "Alice", .user, 0, 0⟩

/-- The request that deletes the profile. -/
def delete : Job := .deleteProfile ⟨alice, alice, "", false⟩ "1"

/-- The pool after the given number of steps of an MCP request for the profile, and the
delete handler up to its `Invalidate`. -/
def deleting (steps : Nat) : Pool gateway Outcome Job Record World :=
  play Job.Arrives idle (.start (.serve "work" (some "hash")) :: .replicate steps (.step 0) ++
    [.start delete, .step 1, .step 1])

theorem reach_deleting (steps : Nat) :
    (host Partners.outside Job.Arrives).Reach idle (deleting steps) := by
  refine reach_play fun j hj ↦ ?_
  simp only [List.cons_append, List.mem_cons, List.mem_append, Move.start.injEq, reduceCtorEq,
    List.mem_replicate, and_false, List.not_mem_nil, or_false, false_or] at hj
  rcases hj with rfl | rfl
  · rfl
  · rfl

end Example.Echo

open Example.Echo in
/-- The request has been served when the profile is deleted. -/
theorem deleted_profile_torn_down_echo :
    ∃ c, (host Partners.outside Job.Arrives).Reach idle c ∧ c.shared.spawned = [backend] ∧
      c.shared.host.runtimeOf 1 = none ∧
      ∀ b ∈ c.shared.spawned, b.tenant = formatInt 1 → b ∈ c.shared.cleaned := by
  let c₂ := play Job.Arrives (deleting 12) [.step 1]
  have hinv : Invalidates Partners.outside 1 (deleting 12) c₂ :=
    ⟨_, [], _, _, _, _, _, rfl, ⟨rfl, rfl⟩, rfl⟩
  have hreach : (host Partners.outside Job.Arrives).Reach c₂
      (play Job.Arrives c₂ (.replicate 3 (.step 1))) := reach_play (by simp)
  refine ⟨_, ((reach_deleting 12).tail hinv.step).trans hreach, rfl, ?_⟩
  refine (deleted_profile_torn_down (reach_deleting 12) hinv hreach ?_ ?_).2 ?_
  · decide
  · decide
  · decide

open Example.Echo in
/-- The request has spawned the backend when the profile is deleted, and stores the runtime
after that. -/
theorem deleted_profile_still_served :
    ∃ c₁ c₂ c₃, (host Partners.outside Job.Arrives).Reach idle c₁ ∧
      Invalidates Partners.outside 1 c₁ c₂ ∧
      (host Partners.outside Job.Arrives).Reach c₂ c₃ ∧ (∀ t ∈ c₃.threads, t.Finished) ∧
      (∃ rt, c₃.shared.host.runtimeOf 1 = some rt ∧ backend ∈ rt.cleanups) ∧
      backend ∈ c₃.shared.spawned ∧ backend.tenant = formatInt 1 ∧
      backend ∉ c₃.shared.cleaned := by
  let c₂ := play Job.Arrives (deleting 9) [.step 1]
  have hinv : Invalidates Partners.outside 1 (deleting 9) c₂ :=
    ⟨_, [], _, _, _, _, _, rfl, ⟨rfl, rfl⟩, rfl⟩
  have hreach : (host Partners.outside Job.Arrives).Reach c₂
      (play Job.Arrives c₂ (.replicate 2 (.step 1) ++ .replicate 3 (.step 0))) :=
    reach_play (by simp)
  refine ⟨_, c₂, _, reach_deleting 9, hinv, hreach, ?_, ⟨_, rfl, ?_⟩, ?_, ?_, ?_⟩
  · decide
  · decide
  · decide
  · decide
  · decide

end Delete

end GigMcp.Gateway
