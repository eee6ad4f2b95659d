import GigMcp.Data.Table

/-!
# Views of a table

`Unique proj` says that `proj` is a further key of a table, as a `UNIQUE` constraint does.
`Shows own blank` compares two tables by the rows that `own` selects, as far as `blank` shows them.
An operation on both tables keeps that when it does the same to rows that look the same, and an
operation on one of them when it leaves the selected rows alone.
-/

namespace GigMcp.Data.Table

variable {α κ β : Type} {key : α → κ}

/-! ## Further keys -/

section Unique

variable {proj : α → β} {t : Table key}

/-- No two rows agree in `proj`. -/
def Unique (proj : α → β) (t : Table key) : Prop := (t.rows.map proj).Nodup

theorem unique_empty : Unique proj (empty : Table key) := List.nodup_nil

theorem Unique.eq (h : Unique proj t) {r s : α} (hr : r ∈ t.rows) (hs : s ∈ t.rows)
    (hproj : proj r = proj s) : r = s :=
  List.inj_on_of_nodup_map h hr hs hproj

theorem Unique.deleteWhere (h : Unique proj t) (p : α → Bool) : Unique proj (t.deleteWhere p) :=
  h.sublist (List.filter_sublist.map proj)

/-- An update that leaves `proj` alone. -/
theorem Unique.update (h : Unique proj t) {p : α → Bool} {f : α → α}
    (hf : ∀ r, key (f r) = key r) (hproj : ∀ r, proj (f r) = proj r) :
    Unique proj (t.update p f hf) := by
  have hrows : (t.update p f hf).rows.map proj = t.rows.map proj := by
    rw [rows_update, List.map_map]
    refine List.map_congr_left fun r _ ↦ ?_
    rw [Function.comp_apply]
    split
    · exact hproj r
    · rfl
  rw [Unique, hrows]
  exact h

/-- One more row, which agrees with none of the others. -/
theorem Unique.append {t' : Table key} (h : Unique proj t) {r : α}
    (hrows : t'.rows = t.rows ++ [r]) (hr : ∀ s ∈ t.rows, proj s ≠ proj r) : Unique proj t' := by
  rw [Unique, hrows, List.map_append, List.map_singleton, List.nodup_append]
  refine ⟨h, List.nodup_singleton _, ?_⟩
  intro a ha b hb
  obtain ⟨s, hs, rfl⟩ := List.mem_map.mp ha
  obtain rfl := List.mem_singleton.mp hb
  exact hr s hs

end Unique

/-! ## Rows with other keys -/

section OtherKeys

variable [DecidableEq κ] {t : Table key} {k : κ}

/-- A new row that is not selected leaves the selected ones as they are. -/
theorem filter_insertFresh {own : α → Bool} {r : α} (h : t.get? (key r) = none)
    (hr : own r = false) : (t.insertFresh r h).rows.filter own = t.rows.filter own := by
  have hrows : (t.insertFresh r h).rows = t.rows ++ [r] := rfl
  rw [hrows, List.filter_append, List.filter_singleton, hr]
  exact List.append_nil _

theorem filter_insertNew {own : α → Bool} {r : α} (hr : own r = false) :
    (t.insertNew r).rows.filter own = t.rows.filter own := by
  unfold Table.insertNew
  split
  · exact filter_insertFresh _ hr
  · rfl

/-- An upsert that selects no row leaves the selected ones as they are. -/
theorem filter_upsert {own : α → Bool} {r : α} {f : α → α} (hf : ∀ s, key (f s) = key s)
    (hr : ∀ s, key s = key r → own s = false) :
    (t.upsert r f hf).rows.filter own = t.rows.filter own := by
  unfold Table.upsert
  split
  · exact filter_insertFresh _ (hr r rfl)
  · rw [rows_update]
    generalize t.rows = l
    induction l with
    | nil => rfl
    | cons s l ih =>
        rw [List.map_cons, List.filter_cons, List.filter_cons, ih]
        by_cases hs : key s = key r
        · rw [if_pos (decide_eq_true hs), hr s hs, hr (f s) ((hf s).trans hs),
            if_neg Bool.false_ne_true, if_neg Bool.false_ne_true]
        · rw [if_neg fun h ↦ hs (of_decide_eq_true h)]

end OtherKeys

/-! ## Tables that look the same -/

section Shows

variable {own : α → Bool} {blank : α → β} {t t' t'' : Table key}

/-- The rows that `own` selects are the same in both tables, as far as `blank` shows them. -/
def Shows (own : α → Bool) (blank : α → β) (t t' : Table key) : Prop :=
  (t.rows.filter own).map blank = (t'.rows.filter own).map blank

/-- Selected rows that look the same. -/
structure Twins (own : α → Bool) (blank : α → β) (r s : α) : Prop where
  left : own r = true
  right : own s = true
  blank_eq : blank r = blank s

/-- Tables that look the same have their selected rows in pairs. -/
theorem shows_iff_twins : Shows own blank t t' ↔
    List.Forall₂ (Twins own blank) (t.rows.filter own) (t'.rows.filter own) := by
  have hpairs {l l' : List α} (hl : ∀ r ∈ l, own r = true) (hl' : ∀ r ∈ l', own r = true) :
      l.map blank = l'.map blank ↔ List.Forall₂ (Twins own blank) l l' := by
    rw [← List.forall₂_eq_eq_eq, List.forall₂_map_left_iff, List.forall₂_map_right_iff]
    constructor
    · intro h
      induction h with
      | nil => exact .nil
      | cons heq _ ih =>
          rw [List.forall_mem_cons] at hl hl'
          exact .cons ⟨hl.1, hl'.1, heq⟩ (ih hl.2 hl'.2)
    · exact fun h ↦ h.imp fun _ _ htwins ↦ htwins.blank_eq
  exact hpairs (fun r hr ↦ (List.mem_filter.mp hr).2) fun r hr ↦ (List.mem_filter.mp hr).2

namespace Shows

theorem deleteWhere (h : Shows own blank t t') {p p' : α → Bool}
    (hp : ∀ r s, Twins own blank r s → p r = p' s) :
    Shows own blank (t.deleteWhere p) (t'.deleteWhere p') := by
  rw [shows_iff_twins] at h ⊢
  rw [rows_deleteWhere, rows_deleteWhere, List.filter_comm own _ t.rows,
    List.filter_comm own _ t'.rows]
  refine List.rel_filter ?_ h
  intro r s htwins
  dsimp only
  rw [hp r s htwins]

theorem update (h : Shows own blank t t') {p : α → Bool} {f : α → α}
    (hf : ∀ r, key (f r) = key r) (hown : ∀ r, own (f r) = own r)
    (hp : ∀ r s, Twins own blank r s → p r = p s)
    (hblank : ∀ r s, Twins own blank r s → blank (f r) = blank (f s)) :
    Shows own blank (t.update p f hf) (t'.update p f hf) := by
  have hrows (t : Table key) : (t.update p f hf).rows.filter own =
      (t.rows.filter own).map fun r ↦ if p r then f r else r := by
    rw [rows_update, List.filter_map]
    refine congrArg _ (List.filter_congr fun r _ ↦ ?_)
    rw [Function.comp_apply]
    split
    · exact hown r
    · rfl
  rw [shows_iff_twins] at h ⊢
  rw [hrows, hrows]
  refine List.rel_map ?_ h
  intro r s htwins
  dsimp only
  rw [hp r s htwins]
  split
  · exact ⟨(hown r).trans htwins.left, (hown s).trans htwins.right, hblank r s htwins⟩
  · exact htwins

/-- One more row on each side. -/
theorem append {u u' : Table key} (h : Shows own blank t t') {r : α}
    (hu : u.rows = t.rows ++ [r]) (hu' : u'.rows = t'.rows ++ [r]) : Shows own blank u u' := by
  rw [Shows, hu, hu', List.filter_append, List.filter_append, List.map_append, List.map_append, h]

section Lookup

variable [DecidableEq κ]

/-- Looking up a key whose rows are selected. -/
theorem get? (h : Shows own blank t t') (hkey : ∀ r s, Twins own blank r s → key r = key s) {k : κ}
    (hk : ∀ r, key r = k → own r = true) : (t.get? k).map blank = (t'.get? k).map blank := by
  have hfind (t : Table key) : t.get? k = (t.rows.filter own).find? fun r ↦ key r = k := by
    rw [List.find?_filter]
    refine congrArg (fun p ↦ t.rows.find? p) (funext fun r ↦ ?_)
    rw [decide_eq_decide, decide_eq_true_eq]
    exact ⟨fun hr ↦ ⟨hk r hr, hr⟩, And.right⟩
  rw [hfind, hfind]
  have htwins := shows_iff_twins.mp h
  generalize t.rows.filter own = l at htwins
  generalize t'.rows.filter own = l' at htwins
  induction htwins with
  | nil => rfl
  | @cons r s _ _ htwins _ ih =>
      rw [List.find?_cons, List.find?_cons, hkey r s htwins]
      split
      · exact congrArg some htwins.blank_eq
      · exact ih

theorem get?_eq_none_iff (h : Shows own blank t t')
    (hkey : ∀ r s, Twins own blank r s → key r = key s) {k : κ}
    (hk : ∀ r, key r = k → own r = true) : t.get? k = none ↔ t'.get? k = none := by
  rw [← Option.map_eq_none_iff, h.get? hkey hk, Option.map_eq_none_iff]

/-- A row whose key selects it. -/
theorem insertNew (h : Shows own blank t t') (hkey : ∀ r s, Twins own blank r s → key r = key s)
    {r : α} (hr : ∀ s, key s = key r → own s = true) :
    Shows own blank (t.insertNew r) (t'.insertNew r) := by
  have hnone := h.get?_eq_none_iff hkey hr
  unfold Table.insertNew
  split
  · rename_i hnew
    rw [dif_pos (hnone.mp hnew)]
    exact h.append rfl rfl
  · rename_i hold
    rw [dif_neg fun hnew ↦ hold (hnone.mpr hnew)]
    exact h

theorem upsert (h : Shows own blank t t') (hkey : ∀ r s, Twins own blank r s → key r = key s)
    {r : α} (hr : ∀ s, key s = key r → own s = true) {f : α → α} (hf : ∀ s, key (f s) = key s)
    (hown : ∀ s, own (f s) = own s)
    (hblank : ∀ s s', Twins own blank s s' → blank (f s) = blank (f s')) :
    Shows own blank (t.upsert r f hf) (t'.upsert r f hf) := by
  have hnone := h.get?_eq_none_iff hkey hr
  unfold Table.upsert
  split
  · rename_i hnew
    rw [dif_pos (hnone.mp hnew)]
    exact h.append rfl rfl
  · rename_i hold
    rw [dif_neg fun hnew ↦ hold (hnone.mpr hnew)]
    exact h.update hf hown (fun s s' htwins ↦ by rw [hkey s s' htwins]) hblank

end Lookup

end Shows

end Shows

end GigMcp.Data.Table

namespace GigMcp.Data.AutoTable

variable {α : Type} {id : α → Int64}

/-- Tables whose sequences are at the same point give the same id to a new row. -/
theorem insert_congr {t t' : AutoTable id} (h : t.seq = t'.seq) (row : Int64 → α)
    (hrow : ∀ i, id (row i) = i) :
    (t.insert row hrow = none ∧ t'.insert row hrow = none) ∨
      ∃ i u u', t.insert row hrow = some (i, u) ∧ t'.insert row hrow = some (i, u') ∧
        u.seq = u'.seq := by
  cases t with
  | mk rows seq hseq hpos hle =>
  cases t' with
  | mk rows' seq' hseq' hpos' hle' =>
  obtain rfl : seq = seq' := h
  by_cases hlt : seq + 1 < 2 ^ 63
  · exact .inr ⟨_, _, _, dif_pos hlt, dif_pos hlt, rfl⟩
  · exact .inl ⟨dif_neg hlt, dif_neg hlt⟩

end GigMcp.Data.AutoTable
