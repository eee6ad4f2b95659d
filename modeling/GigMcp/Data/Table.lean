import Mathlib.Algebra.Group.Nat.Defs
import Mathlib.Data.List.Nodup
import Mathlib.Order.Lattice
import Mathlib.Tactic.Common

/-!
# Keyed tables

A relational table whose rows carry a primary key: a list of rows, in insertion
order, no two with the same key.  The uniqueness of keys is a field, so every
operation here is a total function on well-formed tables and every table there
is can be queried by key.

The operations are those of SQL statements: `upsert` is
`INSERT .. ON CONFLICT (key) DO UPDATE`, `insertNew` is
`INSERT .. ON CONFLICT (key) DO NOTHING`, `update` is `UPDATE .. SET .. WHERE`
and `deleteWhere` is `DELETE .. WHERE`.  Each comes with one equation for `get?`,
and those equations are all the rest of the development uses.

`AutoTable` adds the row-id sequence of an `INTEGER PRIMARY KEY AUTOINCREMENT`
column: an id handed out once is never handed out again, also after its row is
deleted.

Rows that are read in descending order of their keys can be read in pages: the rows after a
page are those whose keys are below the last one of the page (`take_append_filter_lt`).
-/

namespace GigMcp.Data

variable {α κ : Type} {key : α → κ}

/-- A table of rows of type `α` with primary key `key`. -/
@[ext] structure Table (key : α → κ) where
  rows : List α
  nodup : (rows.map key).Nodup

namespace Table

/-- The table without rows. -/
def empty : Table key := ⟨[], List.nodup_nil⟩

instance instInhabited : Inhabited (Table key) := ⟨empty⟩

instance instDecidableEq [DecidableEq α] : DecidableEq (Table key) := fun t u ↦
  decidable_of_iff (t.rows = u.rows) Table.ext_iff.symm

/-- Two rows of a table with one key are one row. -/
theorem eq_of_key_eq (t : Table key) {r s : α} (hr : r ∈ t.rows) (hs : s ∈ t.rows)
    (h : key r = key s) : r = s :=
  List.inj_on_of_nodup_map t.nodup hr hs h

/-- `DELETE .. WHERE p`. -/
def deleteWhere (t : Table key) (p : α → Bool) : Table key where
  rows := t.rows.filter fun r ↦ !p r
  nodup := t.nodup.sublist (List.filter_sublist.map key)

/-- `UPDATE .. SET .. WHERE p`, for an update that leaves the key alone. -/
def update (t : Table key) (p : α → Bool) (f : α → α) (hf : ∀ r, key (f r) = key r) :
    Table key where
  rows := t.rows.map fun r ↦ if p r then f r else r
  nodup := by
    have hk : key ∘ (fun r ↦ if p r then f r else r) = key := by
      funext r
      simp only [Function.comp_apply]
      split
      · exact hf r
      · rfl
    rw [List.map_map, hk]
    exact t.nodup

@[simp] theorem rows_empty : (empty : Table key).rows = [] := rfl

@[simp] theorem rows_deleteWhere (t : Table key) (p : α → Bool) :
    (t.deleteWhere p).rows = t.rows.filter fun r ↦ !p r := rfl

@[simp] theorem rows_update (t : Table key) (p : α → Bool) (f : α → α)
    (hf : ∀ r, key (f r) = key r) :
    (t.update p f hf).rows = t.rows.map fun r ↦ if p r then f r else r := rfl

/-- Deleting nothing changes nothing. -/
theorem deleteWhere_eq_self (t : Table key) {p : α → Bool} (h : ∀ r ∈ t.rows, p r = false) :
    t.deleteWhere p = t := by
  ext1
  rw [rows_deleteWhere, List.filter_eq_self]
  intro r hr
  rw [h r hr]
  rfl

section Lookup

variable [DecidableEq κ]

/-- The row with key `k`. -/
def get? (t : Table key) (k : κ) : Option α := t.rows.find? fun r ↦ key r = k

@[simp] theorem get?_empty (k : κ) : (empty : Table key).get? k = none := rfl

theorem get?_eq_some {t : Table key} {k : κ} {r : α} :
    t.get? k = some r ↔ r ∈ t.rows ∧ key r = k := by
  constructor
  · intro h
    refine ⟨List.mem_of_find?_eq_some h, ?_⟩
    simpa using List.find?_some h
  · rintro ⟨hr, rfl⟩
    cases hs : t.get? (key r) with
    | none => simpa using List.find?_eq_none.mp hs r hr
    | some s =>
        have hmem : s ∈ t.rows := List.mem_of_find?_eq_some hs
        have hkey : key s = key r := by simpa using List.find?_some hs
        rw [t.eq_of_key_eq hmem hr hkey]

theorem get?_eq_none {t : Table key} {k : κ} :
    t.get? k = none ↔ ∀ r ∈ t.rows, key r ≠ k := by
  simp only [get?, List.find?_eq_none, decide_eq_true_eq, ne_eq]

theorem key_of_get? {t : Table key} {k : κ} {r : α} (h : t.get? k = some r) : key r = k :=
  (get?_eq_some.mp h).2

theorem mem_of_get? {t : Table key} {k : κ} {r : α} (h : t.get? k = some r) : r ∈ t.rows :=
  (get?_eq_some.mp h).1

theorem get?_of_mem {t : Table key} {r : α} (h : r ∈ t.rows) : t.get? (key r) = some r :=
  get?_eq_some.mpr ⟨h, rfl⟩

/-- Insert a row whose key is new. -/
def insertFresh (t : Table key) (r : α) (h : t.get? (key r) = none) : Table key where
  rows := t.rows ++ [r]
  nodup := by
    rw [List.map_append, List.nodup_append]
    refine ⟨t.nodup, List.nodup_singleton _, ?_⟩
    intro a ha b hb
    obtain ⟨s, hs, rfl⟩ := List.mem_map.mp ha
    obtain rfl : b = key r := by simpa using hb
    exact get?_eq_none.mp h s hs

/-- `INSERT .. ON CONFLICT (key) DO NOTHING`. -/
def insertNew (t : Table key) (r : α) : Table key :=
  if h : t.get? (key r) = none then t.insertFresh r h else t

/-- `INSERT .. ON CONFLICT (key) DO UPDATE`: the row `r` when its key is new, and
otherwise `f` of the row that is there. -/
def upsert (t : Table key) (r : α) (f : α → α) (hf : ∀ s, key (f s) = key s) : Table key :=
  if h : t.get? (key r) = none then t.insertFresh r h
  else t.update (fun s ↦ key s = key r) f hf

@[simp] theorem get?_deleteWhere (t : Table key) (p : α → Bool) (k : κ) :
    (t.deleteWhere p).get? k = (t.get? k).filter fun r ↦ !p r := by
  ext r
  rw [get?_eq_some, Option.filter_eq_some_iff, get?_eq_some, rows_deleteWhere, List.mem_filter]
  tauto

@[simp] theorem get?_update (t : Table key) (p : α → Bool) (f : α → α)
    (hf : ∀ r, key (f r) = key r) (k : κ) :
    (t.update p f hf).get? k = (t.get? k).map fun r ↦ if p r then f r else r := by
  have hkey : ∀ r, key (if p r then f r else r) = key r := by
    intro r
    split
    · exact hf r
    · rfl
  ext r
  rw [get?_eq_some, Option.map_eq_some_iff, rows_update, List.mem_map]
  constructor
  · rintro ⟨⟨s, hs, rfl⟩, hk⟩
    exact ⟨s, get?_eq_some.mpr ⟨hs, (hkey s).symm.trans hk⟩, rfl⟩
  · rintro ⟨s, hs, rfl⟩
    rw [get?_eq_some] at hs
    exact ⟨⟨s, hs.1, rfl⟩, (hkey s).trans hs.2⟩

theorem get?_insertFresh (t : Table key) (r : α) (h : t.get? (key r) = none) (k : κ) :
    (t.insertFresh r h).get? k = if k = key r then some r else t.get? k := by
  ext s
  rw [get?_eq_some]
  simp only [insertFresh, List.mem_append, List.mem_singleton]
  split
  · rename_i hk
    subst hk
    rw [Option.some.injEq]
    constructor
    · rintro ⟨hs | hs, hk⟩
      · exact absurd hk (get?_eq_none.mp h s hs)
      · exact hs.symm
    · rintro rfl
      exact ⟨.inr rfl, rfl⟩
  · rename_i hk
    rw [get?_eq_some]
    constructor
    · rintro ⟨hs | rfl, rfl⟩
      · exact ⟨hs, rfl⟩
      · exact absurd rfl hk
    · rintro ⟨hs, rfl⟩
      exact ⟨.inl hs, rfl⟩

theorem get?_insertNew (t : Table key) (r : α) (k : κ) :
    (t.insertNew r).get? k =
      if k = key r then some ((t.get? (key r)).getD r) else t.get? k := by
  unfold insertNew
  split
  · rename_i h
    rw [get?_insertFresh, h]
    rfl
  · rename_i h
    obtain ⟨s, hs⟩ := Option.ne_none_iff_exists'.mp h
    split
    · rename_i hk
      rw [hk, hs]
      rfl
    · rfl

theorem get?_upsert (t : Table key) (r : α) (f : α → α) (hf : ∀ s, key (f s) = key s)
    (k : κ) :
    (t.upsert r f hf).get? k =
      if k = key r then some (((t.get? (key r)).map f).getD r) else t.get? k := by
  unfold upsert
  split
  · rename_i h
    rw [get?_insertFresh, h]
    rfl
  · rename_i h
    obtain ⟨s, hs⟩ := Option.ne_none_iff_exists'.mp h
    have hsk := key_of_get? hs
    rw [get?_update]
    split
    · rename_i hk
      subst hk
      simp [hs, hsk]
    · rename_i hk
      cases hu : t.get? k with
      | none => rfl
      | some u =>
          have huk : ¬ key u = key r := fun h ↦ hk ((key_of_get? hu).symm.trans h)
          simp [huk]

/-- An upsert that replaces the whole row. -/
theorem get?_upsert_of_eq (t : Table key) {r : α} {f : α → α} {hf : ∀ s, key (f s) = key s}
    (h : ∀ s, key s = key r → f s = r) (k : κ) :
    (t.upsert r f hf).get? k = if k = key r then some r else t.get? k := by
  rw [get?_upsert]
  cases hrow : t.get? (key r) with
  | none => rfl
  | some s => rw [Option.map_some, h s (key_of_get? hrow), Option.getD_some]

theorem rows_upsert_of_get?_none {t : Table key} {r : α} {f : α → α}
    {hf : ∀ s, key (f s) = key s} (h : t.get? (key r) = none) :
    (t.upsert r f hf).rows = t.rows ++ [r] := by
  rw [upsert, dif_pos h]
  rfl

/-- The rows of a table, one of them singled out. -/
theorem rows_perm_of_get? {t : Table key} {k : κ} {r : α} (h : t.get? k = some r) :
    t.rows.Perm (r :: (t.deleteWhere fun s ↦ key s = k).rows) := by
  obtain ⟨hmem, rfl⟩ := get?_eq_some.mp h
  have hrows : t.rows.Nodup := .of_map key t.nodup
  refine (List.perm_ext_iff_of_nodup hrows ?_).mpr fun s ↦ ?_
  · refine List.nodup_cons.mpr ⟨?_, hrows.sublist List.filter_sublist⟩
    simp
  · simp only [rows_deleteWhere, List.mem_cons, List.mem_filter, Bool.not_eq_true',
      decide_eq_false_iff_not]
    constructor
    · intro hs
      by_cases hk : key s = key r
      · exact .inl (t.eq_of_key_eq hs hmem hk)
      · exact .inr ⟨hs, hk⟩
    · rintro (rfl | ⟨hs, -⟩)
      · exact hmem
      · exact hs

theorem mem_insertFresh {t : Table key} {r s : α} {h : t.get? (key r) = none} :
    s ∈ (t.insertFresh r h).rows ↔ s ∈ t.rows ∨ s = r := by
  simp only [insertFresh, List.mem_append, List.mem_singleton]

end Lookup

end Table

/-! ## Row-id sequences -/

/-- A table whose key is an automatically assigned row id.  Ids are positive,
and none exceeds the sequence's last value. -/
structure AutoTable (id : α → Int64) where
  table : Table id
  seq : Nat
  seq_lt : seq < 2 ^ 63
  pos : ∀ r ∈ table.rows, 0 < (id r).toInt
  le_seq : ∀ r ∈ table.rows, (id r).toInt ≤ seq

namespace AutoTable

variable {id : α → Int64}

/-- The table without rows whose sequence has not started. -/
def empty : AutoTable id where
  table := .empty
  seq := 0
  seq_lt := by decide
  pos := fun r hr ↦ absurd hr (by simp)
  le_seq := fun r hr ↦ absurd hr (by simp)

instance instInhabited : Inhabited (AutoTable id) := ⟨empty⟩

/-- The next id, as long as there is one. -/
theorem toInt_ofNat_succ {n : Nat} (h : n + 1 < 2 ^ 63) :
    (Int64.ofNat (n + 1)).toInt = (n : Int) + 1 := by
  rw [Int64.toInt_ofNat_of_lt h]
  rfl

/-- An id above the sequence is in no row. -/
theorem get?_eq_none_of_lt (t : AutoTable id) {k : Int64} (h : (t.seq : Int) < k.toInt) :
    t.table.get? k = none := by
  rw [Table.get?_eq_none]
  rintro r hr rfl
  have := t.le_seq r hr
  omega

/-- `INSERT`, the id being the next one of the sequence.  There is none left once
the sequence has reached the largest 64-bit integer. -/
def insert (t : AutoTable id) (row : Int64 → α) (hrow : ∀ i, id (row i) = i) :
    Option (Int64 × AutoTable id) :=
  if h : t.seq + 1 < 2 ^ 63 then
    have hid : (Int64.ofNat (t.seq + 1)).toInt = (t.seq : Int) + 1 := toInt_ofNat_succ h
    have hfresh : t.table.get? (id (row (Int64.ofNat (t.seq + 1)))) = none := by
      rw [hrow]
      exact t.get?_eq_none_of_lt (by omega)
    some (Int64.ofNat (t.seq + 1),
      { table := t.table.insertFresh (row (Int64.ofNat (t.seq + 1))) hfresh
        seq := t.seq + 1
        seq_lt := h
        pos := by
          intro r hr
          rcases Table.mem_insertFresh.mp hr with hr | rfl
          · exact t.pos r hr
          · rw [hrow]
            omega
        le_seq := by
          intro r hr
          rcases Table.mem_insertFresh.mp hr with hr | rfl
          · have := t.le_seq r hr
            omega
          · rw [hrow]
            omega })
  else none

/-- `DELETE .. WHERE p`. -/
def deleteWhere (t : AutoTable id) (p : α → Bool) : AutoTable id where
  table := t.table.deleteWhere p
  seq := t.seq
  seq_lt := t.seq_lt
  pos := fun r hr ↦ t.pos r (List.mem_filter.mp hr).1
  le_seq := fun r hr ↦ t.le_seq r (List.mem_filter.mp hr).1

/-- `UPDATE .. SET .. WHERE p`. -/
def update (t : AutoTable id) (p : α → Bool) (f : α → α) (hf : ∀ r, id (f r) = id r) :
    AutoTable id :=
  have hmem : ∀ r ∈ (t.table.update p f hf).rows, ∃ s ∈ t.table.rows, id r = id s := by
    intro r hr
    obtain ⟨s, hs, rfl⟩ := List.mem_map.mp hr
    refine ⟨s, hs, ?_⟩
    split
    · exact hf s
    · rfl
  { table := t.table.update p f hf
    seq := t.seq
    seq_lt := t.seq_lt
    pos := fun r hr ↦ by
      obtain ⟨s, hs, h⟩ := hmem r hr
      rw [h]
      exact t.pos s hs
    le_seq := fun r hr ↦ by
      obtain ⟨s, hs, h⟩ := hmem r hr
      rw [h]
      exact t.le_seq s hs }

@[simp] theorem table_deleteWhere (t : AutoTable id) (p : α → Bool) :
    (t.deleteWhere p).table = t.table.deleteWhere p := rfl

@[simp] theorem table_update (t : AutoTable id) (p : α → Bool) (f : α → α)
    (hf : ∀ r, id (f r) = id r) : (t.update p f hf).table = t.table.update p f hf := rfl

/-- What an insertion does: a new row under an id that no row has had, and every
other row as it was. -/
theorem insert_eq_some {t t' : AutoTable id} {row : Int64 → α} {hrow : ∀ i, id (row i) = i}
    {i : Int64} (h : t.insert row hrow = some (i, t')) :
    i.toInt = (t.seq : Int) + 1 ∧ t'.seq = t.seq + 1 ∧ t.table.get? i = none ∧
      ∀ k, t'.table.get? k = if k = i then some (row i) else t.table.get? k := by
  unfold insert at h
  split at h
  · rename_i hlt
    have hid : (Int64.ofNat (t.seq + 1)).toInt = (t.seq : Int) + 1 := toInt_ofNat_succ hlt
    rw [Option.some.injEq, Prod.mk.injEq] at h
    obtain ⟨rfl, rfl⟩ := h
    refine ⟨hid, rfl, t.get?_eq_none_of_lt (by omega), ?_⟩
    intro k
    rw [Table.get?_insertFresh, hrow]
  · cases h

theorem rows_insert {t t' : AutoTable id} {row : Int64 → α} {hrow : ∀ i, id (row i) = i}
    {i : Int64} (h : t.insert row hrow = some (i, t')) : t'.table.rows = t.table.rows ++ [row i] := by
  unfold insert at h
  split at h
  · cases h
    rfl
  · cases h

/-! ### Tables over time -/

section Follows

variable {β : Type} {proj : α → β} {t t' t'' : AutoTable id}

/-- `t'` may come after `t`: an id that `t` had handed out names in `t'` no row, or
the row it named in `t` as far as `proj` sees it. -/
structure Follows (proj : α → β) (t t' : AutoTable id) : Prop where
  seq_le : t.seq ≤ t'.seq
  same : ∀ (k : Int64) (r' : α), k.toInt ≤ (t.seq : Int) → t'.table.get? k = some r' →
    ∃ r, t.table.get? k = some r ∧ proj r = proj r'

theorem Follows.refl (t : AutoTable id) : Follows proj t t :=
  ⟨Nat.le_refl _, fun _ r' _ h ↦ ⟨r', h, rfl⟩⟩

theorem Follows.trans (h₁ : Follows proj t t') (h₂ : Follows proj t' t'') :
    Follows proj t t'' := by
  refine ⟨Nat.le_trans h₁.seq_le h₂.seq_le, ?_⟩
  intro k r'' hk h
  have hle := h₁.seq_le
  obtain ⟨r', h', e'⟩ := h₂.same k r'' (by omega) h
  obtain ⟨r, h, e⟩ := h₁.same k r' hk h'
  exact ⟨r, h, e.trans e'⟩

/-- A row that is there later is the row that was there before. -/
theorem Follows.proj_eq (h : Follows proj t t') {k : Int64} {r r' : α}
    (hr : t.table.get? k = some r) (hr' : t'.table.get? k = some r') : proj r' = proj r := by
  have hk : k.toInt ≤ t.seq := by
    have := t.le_seq r (Table.mem_of_get? hr)
    rwa [Table.key_of_get? hr] at this
  obtain ⟨s, hs, e⟩ := h.same k r' hk hr'
  rw [hr, Option.some.injEq] at hs
  rw [← e, hs]

theorem follows_insert {row : Int64 → α} {hrow : ∀ i, id (row i) = i} {i : Int64}
    (h : t.insert row hrow = some (i, t')) : Follows proj t t' := by
  obtain ⟨hi, hseq, -, hget⟩ := insert_eq_some h
  refine ⟨by omega, ?_⟩
  intro k r' hk hr'
  have hne : k ≠ i := by
    rintro rfl
    omega
  rw [hget, if_neg hne] at hr'
  exact ⟨r', hr', rfl⟩

theorem follows_update {p : α → Bool} {f : α → α} {hf : ∀ r, id (f r) = id r}
    (hproj : ∀ r, proj (f r) = proj r) : Follows proj t (t.update p f hf) := by
  refine ⟨Nat.le_refl _, ?_⟩
  intro k r' _ hr'
  rw [table_update, Table.get?_update, Option.map_eq_some_iff] at hr'
  obtain ⟨r, hr, rfl⟩ := hr'
  refine ⟨r, hr, ?_⟩
  split
  · exact (hproj r).symm
  · rfl

theorem follows_deleteWhere {p : α → Bool} : Follows proj t (t.deleteWhere p) := by
  refine ⟨Nat.le_refl _, ?_⟩
  intro k r' _ hr'
  rw [table_deleteWhere, Table.get?_deleteWhere, Option.filter_eq_some_iff] at hr'
  exact ⟨r', hr'.1, rfl⟩

end Follows

end AutoTable

/-! ## Pages -/

section Pages

variable [LinearOrder κ] {l l' : List α}

/-- Rows in descending order of their keys are determined by which rows they are. -/
theorem eq_of_descending (h : l.Pairwise fun a b ↦ key b < key a)
    (h' : l'.Pairwise fun a b ↦ key b < key a) (hmem : ∀ a, a ∈ l ↔ a ∈ l') : l = l' := by
  have hirrefl : Std.Irrefl fun a b : α ↦ key b < key a := ⟨fun a ↦ lt_irrefl (key a)⟩
  refine List.Perm.eq_of_pairwise (fun a b _ _ hab hba ↦ ?_) h h' ?_
  · exact absurd hab (lt_asymm hba)
  · exact (List.perm_ext_iff_of_nodup h.nodup h'.nodup).mpr hmem

/-- A page and the rows below its last key are all the rows. -/
theorem take_append_filter_lt (h : l.Pairwise fun a b ↦ key b < key a) {n : Nat} {a : α}
    (ha : (l.take n).getLast? = some a) : l.take n ++ l.filter (fun b ↦ key b < key a) = l := by
  obtain ⟨init, hpage⟩ := List.getLast?_eq_some_iff.mp ha
  have hsplit := List.take_append_drop n l
  rw [← hsplit, List.pairwise_append] at h
  obtain ⟨htake, -, hacross⟩ := h
  have hlast : a ∈ l.take n := List.mem_of_getLast? ha
  have habove : (l.take n).filter (fun b ↦ key b < key a) = [] := by
    rw [List.filter_eq_nil_iff]
    intro b hb
    rw [hpage, List.pairwise_append] at htake
    rw [hpage] at hb
    rw [decide_eq_true_eq, not_lt]
    rcases List.mem_append.mp hb with hb | hb
    · exact le_of_lt (htake.2.2 b hb a (List.mem_singleton_self a))
    · exact le_of_eq (congrArg key (List.mem_singleton.mp hb).symm)
  have hbelow : (l.drop n).filter (fun b ↦ key b < key a) = l.drop n := by
    rw [List.filter_eq_self]
    exact fun b hb ↦ decide_eq_true (hacross a hlast b hb)
  calc l.take n ++ l.filter (fun b ↦ key b < key a)
      = l.take n ++ (l.take n ++ l.drop n).filter (fun b ↦ key b < key a) := by rw [hsplit]
    _ = l.take n ++ l.drop n := by rw [List.filter_append, habove, hbelow, List.nil_append]
    _ = l := hsplit

end Pages

end GigMcp.Data
