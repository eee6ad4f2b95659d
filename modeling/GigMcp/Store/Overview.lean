import GigMcp.Store.Methods
import GigMcp.System.World
import Mathlib.Algebra.BigOperators.Group.List.Lemmas

/-!
# The activity of a user

`AuditStats` uses three notions of a day: it cuts its window at a Unix second, it labels its
buckets with the texts of dates that date arithmetic gave, and it looks a row up under the text
of the row's own date.  They agree (`truncate_day`, `addDate_days`, `Date.format_injective`), so
that each bucket has the events of its date, all of them and no others.
-/

namespace GigMcp.Time

open GigMcp.Data

@[simp] theorem unix_ofUnix (s : Int) : (ofUnix s).unix = s := by
  unfold unix ofUnix second
  omega

theorem ofUnix_add (s s' : Int) : ofUnix s + ofUnix s' = ofUnix (s + s') :=
  (Int.add_mul s s' second).symm

/-- Truncating to a day leaves the midnight, in UTC, of the day. -/
theorem truncate_day (t : Time) : t.truncate day = ofUnix (t.unix / 86400 * 86400) := by
  have hint (x : Int) : x - (x - -62135596800 * 1000000000) % (24 * 60 * 60 * 1000000000) =
      x / 1000000000 / 86400 * 86400 * 1000000000 := by
    omega
  exact hint t

/-- Days are added as multiples of 86400 seconds, whatever months and years they cross. -/
theorem addDate_days (t : Time) (days : Int) :
    t.addDate 0 0 days = t + ofUnix (days * 86400) := by
  have hlow := t.utcDate.one_le_month
  have hhigh := t.utcDate.month_le
  have hyear : t.utcDate.year + 0 + (t.utcDate.month - 1 + 0) / 12 = t.utcDate.year := by omega
  have hmonth : (t.utcDate.month - 1 + 0) % 12 + 1 = t.utcDate.month := by omega
  have hnumber : dayNumber t.utcDate.year t.utcDate.month t.utcDate.day = t.unix / 86400 :=
    Date.number_ofDayNumber _
  have hint (x s n : Int) : (s + n) * 86400 * 1000000000 + (x - s * 86400 * 1000000000) =
      x + n * 86400 * 1000000000 := by
    omega
  simp only [addDate]
  rw [hyear, hmonth, dayNumber_add, hnumber]
  exact hint t _ _

theorem utcDate_ofUnix (n : Int) : (ofUnix (n * 86400)).utcDate = .ofDayNumber n := by
  rw [utcDate, unix_ofUnix, Int.mul_ediv_cancel _ (by decide)]

end GigMcp.Time

namespace GigMcp.Store

open GigMcp.Data GigMcp.Effect GigMcp.System

/-! ## The buckets -/

/-- The number of the day of the `i`-th bucket. -/
def bucketDay (t : Time) (days : Int) (i : Nat) : Int := t.unix / 86400 - (days - 1 - i)

theorem bucketDay_injective (t : Time) (days : Int) : Function.Injective (bucketDay t days) := by
  intro i j h
  unfold bucketDay at h
  omega

theorem bucketDay_succ (t : Time) (days : Int) (i : Nat) :
    bucketDay t days (i + 1) = bucketDay t days i + 1 := by
  unfold bucketDay
  omega

/-- The midnight the loop computes for a bucket. -/
theorem midnight_eq (t : Time) (days : Int) (i : Nat) :
    (t.truncate Time.day).addDate 0 0 (-(days - 1 - i)) =
      Time.ofUnix (bucketDay t days i * 86400) := by
  rw [Time.addDate_days, Time.truncate_day, Time.ofUnix_add]
  congr 1
  unfold bucketDay
  omega

theorem dayBuckets_eq (t : Time) (days : Int) :
    dayBuckets (t.truncate Time.day) days = (List.range days.toNat).map fun i : Nat ↦
      ⟨(Date.ofDayNumber (bucketDay t days i)).format, 0⟩ := by
  refine List.map_congr_left fun i _ ↦ ?_
  rw [midnight_eq, Time.formatDate, Time.utcDate_ofUnix]

theorem windowStart_eq (t : Time) (days : Int) :
    ((t.truncate Time.day).addDate 0 0 (-(days - 1))).unix = bucketDay t days 0 * 86400 := by
  have hmidnight := midnight_eq t days 0
  rw [Int.natCast_zero, Int.sub_zero] at hmidnight
  rw [hmidnight, Time.unix_ofUnix]

/-- No date labels two buckets. -/
theorem dayBuckets_nodup (t : Time) (days : Int) :
    ((dayBuckets (t.truncate Time.day) days).map HeatmapDay.date).Nodup := by
  rw [dayBuckets_eq, List.map_map]
  refine List.Nodup.map (fun i j h ↦ ?_) List.nodup_range
  exact bucketDay_injective t days (Date.ofDayNumber_injective (Date.format_injective h))

theorem bucketIndex_append (bs : List HeatmapDay) (b : HeatmapDay) :
    bucketIndex (bs ++ [b]) = Function.update (bucketIndex bs) b.date (some bs.length) := by
  rw [bucketIndex, List.zipIdx_append, List.foldl_append]
  simp [bucketIndex]

/-- The index finds the bucket that a date labels. -/
theorem bucketIndex_eq_some {bs : List HeatmapDay} (hbs : (bs.map HeatmapDay.date).Nodup)
    {key : String} {i : Nat} :
    bucketIndex bs key = some i ↔ (bs.map HeatmapDay.date)[i]? = some key := by
  induction bs using List.reverseRecOn with
  | nil => simp [bucketIndex]
  | append_singleton bs b ih =>
      rw [List.map_append, List.nodup_append] at hbs
      obtain ⟨hnodup, -, hnew⟩ := hbs
      rw [bucketIndex_append, List.map_append, List.getElem?_append, List.length_map]
      by_cases hkey : key = b.date
      · subst hkey
        rw [Function.update_self, Option.some_inj]
        split
        · rename_i hi
          refine iff_of_false (by omega) fun hmem ↦ ?_
          exact hnew _ (List.mem_of_getElem? hmem) _ List.mem_cons_self rfl
        · rename_i hi
          rw [List.map_cons, List.map_nil, List.getElem?_singleton]
          split
          · exact iff_of_true (by omega) rfl
          · exact iff_of_false (by omega) (Option.some_ne_none _).symm
      · rw [Function.update_of_ne hkey, ih hnodup]
        split
        · rfl
        · rename_i hi
          refine iff_of_false ?_ ?_
          · rw [List.getElem?_eq_none (by rw [List.length_map]; omega)]
            exact (Option.some_ne_none _).symm
          · rw [List.map_cons, List.map_nil, List.getElem?_singleton]
            split
            · exact fun h ↦ hkey (Option.some.inj h).symm
            · exact (Option.some_ne_none _).symm

/-! ## The loop over the rows -/

/-- A row's count goes to the buckets with its date. -/
def HeatmapDay.add (b : HeatmapDay) (row : Int × Nat) : HeatmapDay :=
  if b.date = (Time.ofUnix row.1).formatDate then { b with count := b.count + row.2 } else b

@[simp] theorem HeatmapDay.date_add (b : HeatmapDay) (row : Int × Nat) :
    (b.add row).date = b.date := by
  unfold add
  split <;> rfl

/-- One row. -/
theorem addRow_eq {bs heatmap : List HeatmapDay} (hbs : (bs.map HeatmapDay.date).Nodup)
    (hdates : heatmap.map HeatmapDay.date = bs.map HeatmapDay.date) (row : Int × Nat) :
    addRow (bucketIndex bs) heatmap row = heatmap.map fun b ↦ b.add row := by
  have hindex (i : Nat) : bucketIndex bs (Time.ofUnix row.1).formatDate = some i ↔
      heatmap[i]?.map HeatmapDay.date = some (Time.ofUnix row.1).formatDate := by
    rw [bucketIndex_eq_some hbs, ← hdates, List.getElem?_map]
  unfold addRow
  split
  · rename_i i hi
    refine List.ext_getElem? fun j ↦ ?_
    rw [List.getElem?_modify, List.getElem?_map]
    cases hb : heatmap[j]? with
    | none => rfl
    | some b =>
        have hadd : b.add row = if i = j then { b with count := b.count + row.2 } else b := by
          refine if_congr ?_ rfl rfl
          -- The bucket at `j` has the row's date if and only if the index leads to it.
          have hj := hindex j
          rw [hb, Option.map_some, Option.some_inj, hi, Option.some_inj] at hj
          exact hj.symm
        rw [Option.map_some, hadd]
        rfl
  · rename_i hnone
    conv => lhs; rw [← List.map_id heatmap]
    refine List.map_congr_left fun b hb ↦ ?_
    obtain ⟨j, hj⟩ := List.getElem?_of_mem hb
    refine (if_neg fun hdate ↦ ?_).symm
    have hsome := (hindex j).mpr (by rw [hj, Option.map_some, hdate])
    rw [hnone] at hsome
    cases hsome

/-- What the rows of a date add up to. -/
def tally (rows : List (Int × Nat)) (date : String) : Nat :=
  ((rows.filter fun row ↦ (Time.ofUnix row.1).formatDate = date).map Prod.snd).sum

/-- All rows. -/
theorem foldl_addRow_eq {bs heatmap : List HeatmapDay} (hbs : (bs.map HeatmapDay.date).Nodup)
    (hdates : heatmap.map HeatmapDay.date = bs.map HeatmapDay.date) (rows : List (Int × Nat)) :
    rows.foldl (addRow (bucketIndex bs)) heatmap =
      heatmap.map fun b ↦ { b with count := b.count + tally rows b.date } := by
  induction rows generalizing heatmap with
  | nil => exact (List.map_id heatmap).symm
  | cons row rows ih =>
      rw [List.foldl_cons, addRow_eq hbs hdates, ih, List.map_map]
      · refine List.map_congr_left fun b _ ↦ ?_
        rw [Function.comp_apply, HeatmapDay.date_add, HeatmapDay.add, tally, tally,
          List.filter_cons]
        by_cases hdate : b.date = (Time.ofUnix row.1).formatDate
        · rw [if_pos hdate, if_pos (decide_eq_true hdate.symm), List.map_cons, List.sum_cons,
            Nat.add_assoc]
        · rw [if_neg hdate, if_neg fun h ↦ hdate (of_decide_eq_true h).symm]
      · rw [List.map_map, ← hdates]
        exact List.map_congr_left fun b _ ↦ b.date_add row

/-! ## What is counted -/

/-- The number of a user's proxy resolutions that satisfy a condition. -/
def egressCount (db : Database) (userID : Int64) (p : AuditEvent → Bool) : Nat :=
  ((db.egressOf userID).filter p).length

/-- The rows of a date in the window are as many as the events of that date. -/
theorem tally_egressByTs {db : Database} {userID : Int64} {since n : Int}
    (hsince : since ≤ n * 86400) {rows : List (Int × Nat)}
    (hrows : ((Sql.egressByTs userID since).apply db).1 = .ok rows) :
    tally rows (Date.ofDayNumber n).format =
      egressCount db userID fun e ↦ e.ts.utcDate = .ofDayNumber n := by
  let seconds := ((db.egressOf userID).map fun e ↦ e.ts.unix).filter fun s ↦ since ≤ s
  have hrows : seconds.dedup.map (fun s ↦ (s, seconds.count s)) = rows := Except.ok.inj hrows
  have hcount := List.sum_map_count_dedup_filter_eq_countP
    (fun s ↦ (Time.ofUnix s).formatDate = (Date.ofDayNumber n).format) seconds
  subst hrows
  rw [tally, List.filter_map, List.map_map]
  refine hcount.trans ?_
  rw [List.countP_filter, List.countP_map, egressCount, ← List.countP_eq_length_filter]
  refine List.countP_congr fun e _ ↦ ?_
  have hdate : (Time.ofUnix e.ts.unix).utcDate = e.ts.utcDate := by
    rw [Time.utcDate, Time.unix_ofUnix, Time.utcDate]
  rw [Function.comp_apply, Bool.and_eq_true, decide_eq_true_eq, decide_eq_true_eq,
    decide_eq_true_eq, Time.formatDate, hdate, Date.format_injective.eq_iff]
  refine and_iff_left_of_imp fun h ↦ ?_
  -- An event of the day is not before the day's midnight.
  have hday := Date.ofDayNumber_injective h
  omega

/-- An event is counted under one date at most. -/
theorem sum_egressCount_le (db : Database) (userID : Int64) {ds : List Date} (hds : ds.Nodup) :
    (ds.map fun d ↦ egressCount db userID fun e ↦ e.ts.utcDate = d).sum ≤
      (db.egressOf userID).length := by
  unfold egressCount
  generalize db.egressOf userID = events
  induction ds generalizing events with
  | nil => exact Nat.zero_le _
  | cons d ds ih =>
      obtain ⟨hnotMem, hnodup⟩ := List.nodup_cons.mp hds
      have hrest : ds.map (fun d' ↦ (events.filter fun e ↦ e.ts.utcDate = d').length) =
          ds.map fun d' ↦ ((events.filter fun e ↦ !decide (e.ts.utcDate = d)).filter
            fun e ↦ e.ts.utcDate = d').length := by
        refine List.map_congr_left fun d' hd' ↦ ?_
        rw [List.filter_filter]
        congr 1
        refine List.filter_congr fun e _ ↦ ?_
        by_cases he : e.ts.utcDate = d'
        · have hne : e.ts.utcDate ≠ d := by
            rintro rfl
            exact hnotMem (he ▸ hd')
          simp [he, he ▸ hne]
        · simp [he]
      rw [List.map_cons, List.sum_cons, hrest,
        List.length_eq_length_filter_add (l := events) fun e ↦ e.ts.utcDate = d]
      exact Nat.add_le_add_left (ih hnodup _) _

/-! ## The most used app -/

/-- The app named in the most events, the least by name of those, or no app when no event names
one. -/
def IsMostUsed (db : Database) (userID : Int64) (app : String) : Prop :=
  (app = "" ∧ ∀ e ∈ db.egressOf userID, e.server = "") ∨
  (app ≠ "" ∧ (∃ e ∈ db.egressOf userID, e.server = app) ∧
    ∀ e ∈ db.egressOf userID, e.server ≠ "" →
      egressCount db userID (·.server = e.server) < egressCount db userID (·.server = app) ∨
      (egressCount db userID (·.server = e.server) = egressCount db userID (·.server = app) ∧
        app ≤ e.server))

/-- `ORDER BY COUNT(*) DESC, server ASC`. -/
def Before (names : List String) (a b : String) : Prop :=
  names.count b < names.count a ∨ (names.count a = names.count b ∧ a ≤ b)

instance (names : List String) : DecidableRel (Before names) := fun _ _ ↦
  inferInstanceAs (Decidable (_ ∨ _))

instance (names : List String) : Std.Total (Before names) where
  total a b := by
    unfold Before
    rcases lt_trichotomy (names.count a) (names.count b) with h | h | h
    · exact .inr (.inl h)
    · rcases le_total a b with hle | hle
      · exact .inl (.inr ⟨h, hle⟩)
      · exact .inr (.inr ⟨h.symm, hle⟩)
    · exact .inl (.inl h)

instance (names : List String) : IsTrans String (Before names) where
  trans a b c := by
    rintro (hab | ⟨hab, hle⟩) (hbc | ⟨hbc, hle'⟩)
    · exact .inl (hbc.trans hab)
    · exact .inl (hbc ▸ hab)
    · exact .inl (hab ▸ hbc)
    · exact .inr ⟨hab.trans hbc, hle.trans hle'⟩

theorem isMostUsed_of_apply {db : Database} {userID : Int64} {app : Option String}
    (happ : ((Sql.mostUsedApp userID).apply db).1 = .ok app) :
    IsMostUsed db userID (app.getD "") := by
  let names := ((db.egressOf userID).map AuditEvent.server).filter fun n ↦ n ≠ ""
  have hcount {name : String} (hname : name ≠ "") :
      names.count name = egressCount db userID (·.server = name) := by
    refine (List.count_filter (p := fun n ↦ n ≠ "") (decide_eq_true hname)).trans ?_
    rw [List.count, List.countP_map, egressCount, ← List.countP_eq_length_filter]
    exact List.countP_congr fun e _ ↦ by simp
  have hmem {name : String} :
      name ∈ names ↔ (∃ e ∈ db.egressOf userID, e.server = name) ∧ name ≠ "" := by
    simp [names]
  have hsorted := List.pairwise_insertionSort (Before names) names.dedup
  have hperm {name : String} : name ∈ names.dedup.insertionSort (Before names) ↔ name ∈ names :=
    (List.mem_insertionSort _).trans List.mem_dedup
  have happ : (names.dedup.insertionSort (Before names)).head? = app := Except.ok.inj happ
  cases hlist : names.dedup.insertionSort (Before names) with
  | nil =>
      rw [hlist] at happ hperm
      subst happ
      refine .inl ⟨rfl, fun e he ↦ ?_⟩
      by_contra hne
      exact List.not_mem_nil (hperm.mpr (hmem.mpr ⟨⟨e, he, rfl⟩, hne⟩))
  | cons name rest =>
      rw [hlist] at happ hperm hsorted
      subst happ
      obtain ⟨hevent, hname⟩ := hmem.mp (hperm.mp List.mem_cons_self)
      refine .inr ⟨hname, hevent, fun e he hne ↦ ?_⟩
      show _ < egressCount db userID (·.server = name) ∨
        _ = egressCount db userID (·.server = name) ∧ name ≤ e.server
      rw [← hcount hname, ← hcount hne]
      rcases List.mem_cons.mp (hperm.mpr (hmem.mpr ⟨⟨e, he, rfl⟩, hne⟩)) with heq | hrest
      · exact .inr ⟨by rw [heq], le_of_eq heq.symm⟩
      · exact (List.rel_of_pairwise_cons hsorted hrest).imp_right fun h ↦ ⟨h.1.symm, h.2⟩

/-! ## The summary -/

/-- A summary of `days` days up to `now` that counts every event where it belongs. -/
structure Exact (db : Database) (userID : Int64) (days : Int) (now : Time) (s : OverviewStats) :
    Prop where
  length : (s.heatmap.length : Int) = days
  /-- The last bucket is today's. -/
  today : (s.heatmap.map HeatmapDay.date).getLast? = some now.utcDate.format
  /-- A bucket has the events of its date, and the bucket after it is that of the next day. -/
  bucket : ∀ i b, s.heatmap[i]? = some b → ∃ d : Date, b.date = d.format ∧
    b.count = egressCount db userID (fun e ↦ e.ts.utcDate = d) ∧
    ∀ b', s.heatmap[i + 1]? = some b' → b'.date = d.next.format
  toolCalls : s.toolCalls = (db.egressOf userID).length
  sum_le : (s.heatmap.map HeatmapDay.count).sum ≤ s.toolCalls

/-- The heatmap that the loop leaves. -/
theorem heatmap_eq {db : Database} {userID : Int64} {days : Int} {now : Time}
    {rows : List (Int × Nat)} (hrows : ((Sql.egressByTs userID
      ((now.truncate Time.day).addDate 0 0 (-(days - 1))).unix).apply db).1 = .ok rows) :
    rows.foldl (addRow (bucketIndex (dayBuckets (now.truncate Time.day) days)))
      (dayBuckets (now.truncate Time.day) days) =
      (List.range days.toNat).map fun i : Nat ↦ ⟨(Date.ofDayNumber (bucketDay now days i)).format,
        egressCount db userID fun e ↦ e.ts.utcDate = .ofDayNumber (bucketDay now days i)⟩ := by
  rw [windowStart_eq] at hrows
  rw [foldl_addRow_eq (dayBuckets_nodup now days) rfl, dayBuckets_eq, List.map_map]
  refine List.map_congr_left fun i _ ↦ ?_
  have hsince : bucketDay now days 0 * 86400 ≤ bucketDay now days i * 86400 := by
    unfold bucketDay
    omega
  rw [Function.comp_apply, tally_egressByTs hsince hrows, Nat.zero_add]

theorem exact_of_heatmap {db : Database} {userID : Int64} {days : Int} (hdays : 0 < days)
    {now : Time} {s : OverviewStats} (hcalls : s.toolCalls = (db.egressOf userID).length)
    (hheatmap : s.heatmap = (List.range days.toNat).map fun i : Nat ↦
      ⟨(Date.ofDayNumber (bucketDay now days i)).format,
        egressCount db userID fun e ↦ e.ts.utcDate = .ofDayNumber (bucketDay now days i)⟩) :
    Exact db userID days now s := by
  refine ⟨?_, ?_, fun i b hb ↦ ?_, hcalls, ?_⟩
  · rw [hheatmap, List.length_map, List.length_range]
    omega
  · obtain ⟨k, hk⟩ : ∃ k, days.toNat = k + 1 := ⟨days.toNat - 1, by omega⟩
    have hlast : bucketDay now days k = now.unix / 86400 := by
      unfold bucketDay
      omega
    rw [hheatmap, hk, List.range_succ, List.map_append, List.map_append, List.map_singleton,
      List.map_singleton, List.getLast?_concat, hlast]
    rfl
  · rw [hheatmap, List.getElem?_map, Option.map_eq_some_iff] at hb
    obtain ⟨k, hk, rfl⟩ := hb
    obtain ⟨-, rfl⟩ := List.getElem?_eq_some_iff.mp hk
    rw [List.getElem_range]
    refine ⟨_, rfl, rfl, fun b' hb' ↦ ?_⟩
    rw [hheatmap, List.getElem?_map, Option.map_eq_some_iff] at hb'
    obtain ⟨k', hk', rfl⟩ := hb'
    obtain ⟨-, rfl⟩ := List.getElem?_eq_some_iff.mp hk'
    rw [List.getElem_range, bucketDay_succ, Date.ofDayNumber_succ]
  · have hnodup : ((List.range days.toNat).map fun i ↦
        Date.ofDayNumber (bucketDay now days i)).Nodup :=
      List.nodup_range.map (Date.ofDayNumber_injective.comp (bucketDay_injective now days))
    have hle := sum_egressCount_le db userID hnodup
    rw [List.map_map] at hle
    rw [hheatmap, List.map_map, hcalls]
    exact hle

/-- A run of `AuditStats` on a log: it fails only when a count could not be read, and otherwise
the summary is exact, except that it has no most used app when that could not be read. -/
structure Summarizes (faults : Call → Prop) (w : World) (userID : Int64) (days : Int)
    (now : Time) (r : Except Err OverviewStats) (w' : World) : Prop where
  unchanged : w' = w
  error : ∀ e, r = .error e → faults (.sql (.countEgress userID)) ∨
    ∃ since, faults (.sql (.egressByTs userID since))
  ok : ∀ s, r = .ok s → Exact w.db userID days now s ∧
    (IsMostUsed w.db userID s.mostUsedApp ∨
      (faults (.sql (.mostUsedApp userID)) ∧ s.mostUsedApp = ""))

theorem auditStats_summarizes {O : Outside} {faults : Call → Prop} {w w' : World} {userID : Int64}
    {days : Int} (hdays : 0 < days) {now : Time} {r : Except Err OverviewStats}
    (hx : Exec (sem O faults) (auditStats userID days now) w r w') :
    Summarizes faults w userID days now r w' := by
  unfold auditStats at hx
  rw [if_neg (not_le.mpr hdays)] at hx
  obtain ⟨calls, w₁, hcalls, hx₁⟩ := exec_call.mp hx
  obtain rfl := sem_reads rfl hcalls
  cases calls with
  | error e =>
      obtain ⟨rfl, rfl⟩ := hx₁
      rcases hcalls with ⟨hcalls, -⟩ | ⟨hfault, -⟩
      · cases hcalls
      · exact ⟨rfl, fun _ _ ↦ .inl hfault, fun s hs ↦ by cases hs⟩
  | ok calls =>
      obtain ⟨app, w₂, happ, hx₂⟩ := exec_call.mp hx₁
      obtain rfl := sem_reads rfl happ
      obtain ⟨rows, w₃, hrows, hx₃⟩ := exec_call.mp hx₂
      obtain rfl := sem_reads rfl hrows
      cases rows with
      | error e =>
          obtain ⟨rfl, rfl⟩ := hx₃
          rcases hrows with ⟨hrows, -⟩ | ⟨hfault, -⟩
          · cases hrows
          · exact ⟨rfl, fun _ _ ↦ .inr ⟨_, hfault⟩, fun s hs ↦ by cases hs⟩
      | ok rows =>
          obtain ⟨rfl, rfl⟩ := hx₃
          refine ⟨rfl, fun e he ↦ (by cases he), fun s hs ↦ ?_⟩
          cases hs
          have hcount := Except.ok.inj (sem_sql_ok hcalls).1
          refine ⟨exact_of_heatmap hdays hcount.symm (heatmap_eq (sem_sql_ok hrows).1), ?_⟩
          rcases happ with ⟨happ, -⟩ | ⟨hfault, ⟨e, rfl, -⟩, -⟩
          · cases happ
            exact .inl (isMostUsed_of_apply rfl)
          · exact .inr ⟨hfault, rfl⟩

/-- What `AuditStats` says about a log is exact. -/
theorem auditStats_exact (O : Outside) (faults : Call → Prop) (w : World) (userID : Int64)
    {days : Int} (hdays : 0 < days) (now : Time) :
    (∃ s, Exec (sem O faults) (auditStats userID days now) w (.ok s) w ∧
      Exact w.db userID days now s ∧ IsMostUsed w.db userID s.mostUsedApp) ∧
    ∀ r w', Exec (sem O faults) (auditStats userID days now) w r w' →
      Summarizes faults w userID days now r w' := by
  refine ⟨?_, fun r w' hx ↦ auditStats_summarizes hdays hx⟩
  -- The run in which every statement answers.
  have hx : ∃ s, Exec (sem O fun _ ↦ False) (auditStats userID days now) w (.ok s) w := by
    unfold auditStats
    rw [if_neg (not_le.mpr hdays)]
    exact ⟨_, exec_call.mpr ⟨_, w, .inl ⟨rfl, rfl⟩, exec_call.mpr ⟨_, w, .inl ⟨rfl, rfl⟩,
      exec_call.mpr ⟨_, w, .inl ⟨rfl, rfl⟩, rfl, rfl⟩⟩⟩⟩
  obtain ⟨s, hx⟩ := hx
  obtain ⟨hexact, happ⟩ := (auditStats_summarizes hdays hx).ok s rfl
  refine ⟨s, hx.mono fun _ _ _ _ ↦ sem_mono fun _ ↦ False.elim, hexact, ?_⟩
  exact happ.resolve_right fun h ↦ h.1

namespace Example.Activity

/-- A resolution for the user 7 at a Unix second. -/
def egress (server : String) (second : Int) : AuditEvent :=
  ⟨0, Time.ofUnix second, .egress, some 7, none, server, "", "", ""⟩

/-- One event in the last second of a leap day, and one in the first second of the next day. -/
def world : World :=
  .boot ((Database.fresh.appendAudit (egress "gmail" 1709251199)).2.appendAudit
    (egress "slack" 1709251200)).2 0

end Example.Activity

theorem auditStats_exact_leapDay :
    (0 : Int) < 2 ∧ ∀ O : Outside, ∃ s,
      Exec (sem O fun _ ↦ False) (auditStats 7 2 (Time.ofUnix 1709290000)) Example.Activity.world
        (.ok s) Example.Activity.world ∧
      Exact Example.Activity.world.db 7 2 (Time.ofUnix 1709290000) s ∧
      IsMostUsed Example.Activity.world.db 7 s.mostUsedApp :=
  ⟨by decide, fun O ↦ (auditStats_exact O _ Example.Activity.world 7 (by decide) _).1⟩

example : (Example.Activity.world.db.egressOf 7).map (fun e ↦ e.ts.formatDate) =
    ["2024-02-29", "2024-03-01"] := by decide

end GigMcp.Store
