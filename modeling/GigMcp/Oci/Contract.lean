import GigMcp.Oci.Extract
import Mathlib.Algebra.GroupWithZero.Nat
import Mathlib.Data.List.TakeWhile

/-!
# The bundle contract

What `extractBundle` makes of an arbitrary archive, on a disk that does not fail and in a
directory that is not there yet.

`Conforms` is the contract in terms of the archive alone.  An extraction succeeds exactly on
the archives that conform; whether it does or not, it only opens files directly in its
directory, and it stops at the first byte above the cap.  The last point is about what
happens on the way, so `writes` lists the files that the loop writes, in order.

The names of an archive are relative to the root of the image: an entry lies at `place`.
-/

namespace GigMcp.Oci

open GigMcp.Data GigMcp.Registry

/-! ## The contract -/

/-- Where an entry lies in the image. -/
def place (e : TarEntry) : String := "/" ++ cleanPath e.name

/-- An entry lies strictly under the directory of a bundle. -/
def InBundle (entrypoint : String) (e : TarEntry) : Prop :=
  Under (dirName entrypoint) (place e) ∧ place e ≠ dirName entrypoint ++ "/"

instance (entrypoint : String) (e : TarEntry) : Decidable (InBundle entrypoint e) :=
  inferInstanceAs (Decidable (_ ∧ _))

/-- The entries of the bundle. -/
def bundled (entrypoint : String) (entries : List TarEntry) : List TarEntry :=
  entries.filter (InBundle entrypoint ·)

/-- The bundle contract. -/
structure Conforms (entrypoint : String) (entries : List TarEntry) : Prop where
  /-- Regular files directly in the directory, with the three names. -/
  named : ∀ e ∈ bundled entrypoint entries, e.type = .reg ∧
    ∃ name ∈ bundleNames entrypoint, place e = joinPath (dirName entrypoint) name
  /-- Only the entrypoint may be executable or large. -/
  sidecar : ∀ e ∈ bundled entrypoint entries,
    place e ≠ joinPath (dirName entrypoint) (baseName entrypoint) →
      e.mode &&& 0o111 = 0 ∧ e.size ≤ maxSidecarBytes
  count : (bundled entrypoint entries).length ≤ maxBundleFiles
  bytes : ((bundled entrypoint entries).map (·.data.length)).sum ≤ maxBundleBytes
  /-- All three are there. -/
  present : ∀ name ∈ bundleNames entrypoint, ∃ e ∈ bundled entrypoint entries,
    place e = joinPath (dirName entrypoint) name

/-- A clean absolute path that is not directly under the root, and is not that of a
sidecar. -/
structure Entrypoint (entrypoint : String) : Prop where
  absolute : entrypoint.toList.head? = some '/'
  clean : cleanPath entrypoint = entrypoint
  deep : dirName entrypoint ≠ "/"
  notSidecar : baseName entrypoint ≠ manifestSidecar ∧ baseName entrypoint ≠ toolspecSidecar

/-! ## The place of an entry -/

section Place

variable {entrypoint rel : String} {e : TarEntry}

theorem head?_dir (h : entrypoint.toList.head? = some '/') :
    (entrypoint.toList.reverse.dropWhile (· ≠ '/')).reverse.head? = some '/' := by
  obtain ⟨cs, hcs⟩ : ∃ cs, entrypoint.toList = '/' :: cs := by
    cases hl : entrypoint.toList with
    | nil =>
        rw [hl] at h
        cases h
    | cons c cs =>
        rw [hl] at h
        cases h
        exact ⟨cs, rfl⟩
  rw [hcs, List.reverse_cons, List.dropWhile_append]
  split
  · rfl
  · rw [List.reverse_append]
    rfl

/-- The directory of an entrypoint, in plain parts. -/
theorem Entrypoint.dir (h : Entrypoint entrypoint) :
    ∃ parts, parts ≠ [] ∧ (∀ p ∈ parts, Plain p) ∧
      dirName entrypoint = "/" ++ String.ofList (List.intercalate ['/'] parts) := by
  have hhead : (String.ofList
      (entrypoint.toList.reverse.dropWhile (· ≠ '/')).reverse).toList.head? = some '/' := by
    rw [String.toList_ofList]
    exact head?_dir h.absolute
  obtain ⟨parts, hplain, hdir⟩ := cleanPath_rooted hhead
  have hdir : dirName entrypoint = "/" ++ String.ofList (List.intercalate ['/'] parts) := by
    rw [dirName, hdir]
    apply String.toList_inj.mp
    simp only [String.toList_append, String.toList_ofList]
    rfl
  refine ⟨parts, ?_, hplain, hdir⟩
  rintro rfl
  exact h.deep hdir

theorem Entrypoint.bundlePath_eq {parts : List (List Char)}
    (h : dirName entrypoint = "/" ++ String.ofList (List.intercalate ['/'] parts)) :
    bundlePath entrypoint = String.ofList (List.intercalate ['/'] parts) ++ "/" := by
  rw [bundlePath, h, trimPrefix_append]

/-- The path of an entry relative to the bundle, in terms of where the entry lies. -/
theorem Entrypoint.relative_eq_some (h : Entrypoint entrypoint) :
    relative entrypoint e = some rel ↔ place e = joinPath (dirName entrypoint) rel := by
  obtain ⟨parts, hne, hplain, hdir⟩ := h.dir
  have hplace : place e = joinPath (dirName entrypoint) rel ↔
      cleanPath e.name = bundlePath entrypoint ++ rel := by
    rw [place, joinPath, hdir, bundlePath_eq hdir, String.append_assoc, String.append_assoc,
      String.append_right_inj, String.append_assoc]
  rw [hplace]
  unfold relative
  dsimp only
  constructor
  · intro hrel
    split at hrel
    · cases hrel
    · rename_i hcond
      simp only [Bool.or_eq_true, Bool.not_eq_true', decide_eq_true_eq, not_or,
        Bool.not_eq_false] at hcond
      obtain ⟨hpre, hstrict⟩ := hcond
      -- the slash that the test appends is not part of the match
      have hname : hasPrefix (cleanPath e.name) (bundlePath entrypoint) = true := by
        rw [hasPrefix, List.isPrefixOf_iff_prefix, String.toList_append] at hpre
        rw [hasPrefix, List.isPrefixOf_iff_prefix]
        rcases List.prefix_concat_iff.mp hpre with heq | hpre
        · refine absurd (String.toList_inj.mp ?_) hstrict
          rw [heq, String.toList_append]
          rfl
        · exact hpre
      obtain ⟨t, ht⟩ := hasPrefix_iff.mp hname
      rw [ht, trimPrefix_append] at hrel
      rw [ht, Option.some.inj hrel]
  · intro hname
    have hpre : hasPrefix (cleanPath e.name ++ "/") (bundlePath entrypoint) = true := by
      rw [hname, String.append_assoc]
      exact hasPrefix_iff.mpr ⟨_, rfl⟩
    have hstrict : cleanPath e.name ++ "/" ≠ bundlePath entrypoint := by
      intro heq
      have hlen := congrArg String.length heq
      rw [hname, String.length_append, String.length_append] at hlen
      have hone : "/".length = 1 := rfl
      omega
    rw [if_neg (by simp [hpre, hstrict]), hname, trimPrefix_append]

/-- The name of a file that is written, when the contract has let it through. -/
theorem Entrypoint.plain (h : Entrypoint entrypoint) (hrel : relative entrypoint e = some rel)
    (hflat : '/' ∉ rel.toList) : Plain rel.toList := by
  obtain ⟨parts, hne, hplain, hdir⟩ := h.dir
  have hname := h.relative_eq_some.mp hrel
  rw [place, joinPath, hdir, String.append_assoc, String.append_assoc, String.append_right_inj,
    ← String.append_assoc] at hname
  refine cleanPath_under hne hplain hname rel.toList ?_
  have hone : rel.toList.splitOn '/' = [rel.toList] := by
    have hcut : (List.intercalate ['/'] [rel.toList]).splitOn '/' = [rel.toList] :=
      List.splitOn_intercalate '/' (fun l hl ↦ List.mem_singleton.mp hl ▸ hflat)
        (List.cons_ne_nil _ _)
    simpa [List.intercalate] using hcut
  rw [hone]
  exact List.mem_singleton_self _

theorem Entrypoint.inBundle_iff (h : Entrypoint entrypoint) :
    InBundle entrypoint e ↔ ∃ rel, relative entrypoint e = some rel := by
  constructor
  · rintro ⟨hunder, -⟩
    obtain ⟨rel, hrel⟩ := under_iff.mp hunder
    exact ⟨rel, h.relative_eq_some.mpr hrel⟩
  · rintro ⟨rel, hrel⟩
    have hplace := h.relative_eq_some.mp hrel
    refine ⟨under_iff.mpr ⟨rel, hplace⟩, fun heq ↦ ?_⟩
    obtain ⟨parts, hne, hplain, hdir⟩ := h.dir
    -- a clean name does not end with a slash
    have hempty : rel = "" := by
      rw [hplace, joinPath] at heq
      have := congrArg String.length heq
      rw [String.length_append] at this
      exact String.length_eq_zero_iff.mp (by omega)
    rw [hempty, place, joinPath, hdir, String.append_assoc, String.append_assoc,
      String.append_right_inj, ← String.append_assoc] at hplace
    have hnil := cleanPath_under hne hplain hplace [] (by simp)
    exact hnil.ne_nil rfl

/-- A base name has no slash. -/
theorem Entrypoint.baseName_flat (h : Entrypoint entrypoint) :
    '/' ∉ (baseName entrypoint).toList := by
  unfold baseName
  dsimp only
  split
  · decide
  · split
    · rename_i hall
      -- a path of slashes is its own directory, and no directory has slashes only
      have hslash : ∀ c ∈ entrypoint.toList, c = '/' := by
        intro c hc
        simpa using List.dropWhile_eq_nil_iff.mp hall c (List.mem_reverse.mpr hc)
      have hself : dirName entrypoint = entrypoint := by
        have hkeep : entrypoint.toList.reverse.dropWhile (· ≠ '/') = entrypoint.toList.reverse := by
          cases hrev : entrypoint.toList.reverse with
          | nil => rfl
          | cons c cs =>
              have hc : c = '/' := hslash c (List.mem_reverse.mp (hrev ▸ List.mem_cons_self))
              exact List.dropWhile_cons_of_neg (by simp [hc])
        rw [dirName, hkeep, List.reverse_reverse, String.ofList_toList, h.clean]
      obtain ⟨parts, hne, hplain, hdir⟩ := h.dir
      obtain ⟨p, ps, rfl⟩ := List.exists_cons_of_ne_nil hne
      obtain ⟨c, cs, rfl⟩ := List.exists_cons_of_ne_nil (hplain p List.mem_cons_self).ne_nil
      have hc : c ∈ entrypoint.toList := by
        rw [← hself, hdir, String.toList_append, String.toList_ofList]
        refine List.mem_append_right _ ?_
        cases ps with
        | nil => simp [List.intercalate]
        | cons q qs => simp [List.intercalate_cons_cons]
      have hslash' := (hplain _ List.mem_cons_self).no_slash
      rw [hslash c hc] at hslash'
      exact absurd List.mem_cons_self hslash'
    · rw [String.toList_ofList, List.mem_reverse]
      intro hmem
      simpa using List.mem_takeWhile_imp hmem

end Place

/-! ## What is written on the way -/

/-- A file that is opened for writing, and the bytes that are written to it. -/
structure Written where
  path : String
  mode : Nat
  data : String

/-- The files after a write. -/
def Written.apply (fs : Files) (w : Written) : Files := fs.write w.path w.mode w.data

/-- What the body of the loop writes when no operation fails, and the accumulators that the
loop goes on with. -/
def entryWrites (entrypoint stageDir : String) (e : TarEntry) (acc : Scan) :
    List Written × Option Scan :=
  match relative entrypoint e with
  | none => ([], some acc)
  | some rel =>
      match entryViolation entrypoint rel e (acc.count + 1) with
      | some _ => ([], none)
      | none =>
          let data := clip (maxBundleBytes - acc.total + 1) e.data
          ([⟨joinPath stageDir rel, bundleMode entrypoint rel, data⟩],
            if maxBundleBytes < acc.total + data.length then none
            else some ⟨acc.total + data.length, acc.count + 1, acc.files ++ [rel]⟩)

/-- The files that the loop writes when no operation fails. -/
def writes (entrypoint stageDir : String) : List TarEntry → Scan → List Written
  | [], _ => []
  | e :: es, acc =>
      (entryWrites entrypoint stageDir e acc).1 ++
        ((entryWrites entrypoint stageDir e acc).2.map (writes entrypoint stageDir es)).getD []

section Writes

variable {entrypoint dir rel : String} {e : TarEntry} {acc : Scan} {fs : Files}

theorem entryViolation_eq_none {count : Nat} :
    entryViolation entrypoint rel e count = none ↔
      '/' ∉ rel.toList ∧ e.type = .reg ∧
        (rel ≠ baseName entrypoint → e.mode &&& 0o111 = 0 ∧ e.size ≤ maxSidecarBytes) ∧
        count ≤ maxBundleFiles := by
  unfold entryViolation
  dsimp only
  by_cases hflat : '/' ∈ rel.toList
  · simp [hflat]
  · rw [if_neg hflat]
    cases htype : e.type with
    | dir | symlink | link | other _ => simp [typeViolation]
    | reg =>
        simp only [typeViolation]
        by_cases hbase : rel = baseName entrypoint
        · simp [← hbase, hflat]
        · by_cases hexec : e.mode &&& 0o111 = 0
          · by_cases hcount : maxBundleFiles < count
            · simp [hbase, hexec, hcount, hflat]
            · by_cases hsize : maxSidecarBytes < e.size
              · simp [hbase, hexec, hcount, hsize, hflat]
              · simp [hbase, hexec, hcount, hsize, hflat, not_lt.mp hcount, not_lt.mp hsize]
          · simp [hbase, hexec, hflat]

/-- An entry of the bundle writes one file, directly in the directory, and an entry that is
passed over writes none. -/
theorem Entrypoint.entryWrites_child (h : Entrypoint entrypoint) {w : Written}
    (hw : w ∈ (entryWrites entrypoint dir e acc).1) :
    ∃ name, Plain name.toList ∧ w.path = joinPath dir name := by
  unfold entryWrites at hw
  cases hrel : relative entrypoint e with
  | none =>
      rw [hrel] at hw
      exact absurd hw List.not_mem_nil
  | some rel =>
      rw [hrel] at hw
      dsimp only at hw
      cases hfine : entryViolation entrypoint rel e (acc.count + 1) with
      | some err =>
          rw [hfine] at hw
          exact absurd hw List.not_mem_nil
      | none =>
          rw [hfine] at hw
          obtain rfl := List.mem_singleton.mp hw
          exact ⟨rel, h.plain hrel (entryViolation_eq_none.mp hfine).1, rfl⟩

/-- Every file that is written lies directly in the directory. -/
theorem Entrypoint.writes_child (h : Entrypoint entrypoint) {es : List TarEntry} {acc : Scan}
    {w : Written} (hw : w ∈ writes entrypoint dir es acc) :
    ∃ name, Plain name.toList ∧ w.path = joinPath dir name := by
  induction es generalizing acc with
  | nil => exact absurd hw List.not_mem_nil
  | cons e es ih =>
      rw [writes] at hw
      rcases List.mem_append.mp hw with hw | hw
      · exact h.entryWrites_child hw
      · cases hnext : (entryWrites entrypoint dir e acc).2 with
        | none =>
            rw [hnext] at hw
            exact absurd hw List.not_mem_nil
        | some acc' =>
            rw [hnext] at hw
            exact ih hw

/-- The bytes of some writes. -/
def bytesOf (ws : List Written) : Nat := (ws.map (·.data.length)).sum

theorem bytesOf_nil : bytesOf [] = 0 := rfl

theorem bytesOf_append (ws ws' : List Written) : bytesOf (ws ++ ws') = bytesOf ws + bytesOf ws' := by
  rw [bytesOf, List.map_append, List.sum_append, bytesOf, bytesOf]

/-- An entry stays within the cap, or it goes at most one byte above and ends the loop. -/
theorem entryWrites_bytes (entrypoint dir : String) (e : TarEntry) (hacc : acc.total ≤ maxBundleBytes) :
    acc.total + bytesOf (entryWrites entrypoint dir e acc).1 ≤ maxBundleBytes + 1 ∧
      ∀ acc' ∈ (entryWrites entrypoint dir e acc).2,
        acc'.total = acc.total + bytesOf (entryWrites entrypoint dir e acc).1 ∧
          acc'.total ≤ maxBundleBytes := by
  unfold entryWrites
  split
  · refine ⟨Nat.le_succ_of_le hacc, ?_⟩
    rintro _ ⟨⟩
    exact ⟨rfl, hacc⟩
  · split
    · exact ⟨Nat.le_succ_of_le hacc, fun _ h ↦ nomatch h⟩
    · have hlen := length_clip (maxBundleBytes - acc.total + 1) e.data
      simp only [bytesOf, List.map_cons, List.map_nil, List.sum_cons, List.sum_nil, Nat.add_zero]
      refine ⟨by omega, ?_⟩
      split
      · exact fun _ h ↦ nomatch h
      · rename_i hfits
        rintro _ ⟨⟩
        exact ⟨rfl, not_lt.mp hfits⟩

/-- At most one byte above the cap is written. -/
theorem writes_bytes (es : List TarEntry) (acc : Scan) (hacc : acc.total ≤ maxBundleBytes) :
    acc.total + bytesOf (writes entrypoint dir es acc) ≤ maxBundleBytes + 1 := by
  induction es generalizing acc with
  | nil => exact Nat.le_succ_of_le hacc
  | cons e es ih =>
      obtain ⟨hentry, hnext⟩ := entryWrites_bytes entrypoint dir e hacc
      rw [writes, bytesOf_append]
      cases hacc' : (entryWrites entrypoint dir e acc).2 with
      | none =>
          rw [Option.map_none, Option.getD_none, bytesOf_nil, Nat.add_zero]
          exact hentry
      | some acc' =>
          obtain ⟨htotal, hcap⟩ := hnext acc' hacc'
          have hrest := ih acc' hcap
          rw [Option.map_some, Option.getD_some]
          omega

/-- What the body of the loop does to the files is to write the listed ones. -/
theorem scanEntry_files_eq (k : Nat) :
    (scanEntry .healthy entrypoint dir k e acc fs).2 =
      (entryWrites entrypoint dir e acc).1.foldl Written.apply fs := by
  unfold scanEntry entryWrites
  cases relative entrypoint e with
  | none => rfl
  | some rel =>
      dsimp only
      cases entryViolation entrypoint rel e (acc.count + 1) with
      | some err => rfl
      | none =>
          dsimp only [writeEntry, Disk.healthy]
          split
          · rfl
          · rfl

/-- The loop goes on after an entry exactly when the list of its writes does. -/
theorem scanEntry_ok_iff (k : Nat) {acc' : Scan} :
    (scanEntry .healthy entrypoint dir k e acc fs).1 = .ok acc' ↔
      (entryWrites entrypoint dir e acc).2 = some acc' := by
  unfold scanEntry entryWrites
  cases relative entrypoint e with
  | none => simp
  | some rel =>
      dsimp only
      cases entryViolation entrypoint rel e (acc.count + 1) with
      | some err => simp
      | none =>
          dsimp only [writeEntry, Disk.healthy]
          split
          · simp
          · simp

/-- The listed writes are those of the loop. -/
theorem scan_files_eq (broken : Option Err) (k : Nat) (es : List TarEntry) (acc : Scan)
    (fs : Files) :
    (scan .healthy broken entrypoint dir k es acc fs).2 =
      (writes entrypoint dir es acc).foldl Written.apply fs := by
  induction es generalizing k acc fs with
  | nil =>
      cases broken with
      | some err => rfl
      | none => rfl
  | cons e es ih =>
      have hfiles : (scanEntry .healthy entrypoint dir k e acc fs).2 = _ := scanEntry_files_eq k
      rw [scan, writes, List.foldl_append, ← hfiles]
      cases hstep : scanEntry .healthy entrypoint dir k e acc fs with
      | mk r fs₁ =>
          cases r with
          | error err =>
              cases hnext : (entryWrites entrypoint dir e acc).2 with
              | none => rfl
              | some acc₁ =>
                  have hok : (scanEntry .healthy entrypoint dir k e acc fs).1 = .ok acc₁ :=
                    (scanEntry_ok_iff k).mpr hnext
                  rw [hstep] at hok
                  cases hok
          | ok acc₁ =>
              have hnext := (scanEntry_ok_iff k).mp (congrArg Prod.fst hstep)
              rw [hnext, andThen_ok]
              exact ih (k + 1) acc₁ fs₁

end Writes

/-! ## Which archives are accepted -/

/-- An entry of the bundle that the loop takes. -/
structure Sound (entrypoint rel : String) (e : TarEntry) : Prop where
  flat : '/' ∉ rel.toList
  regular : e.type = .reg
  sidecar : rel ≠ baseName entrypoint → e.mode &&& 0o111 = 0 ∧ e.size ≤ maxSidecarBytes

/-- All entries of the bundle are taken, and there is room for them after `acc`. -/
structure Admitted (entrypoint : String) (es : List TarEntry) (acc : Scan) : Prop where
  sound : ∀ e ∈ es, ∀ rel, relative entrypoint e = some rel → Sound entrypoint rel e
  count : acc.count + (bundled entrypoint es).length ≤ maxBundleFiles
  bytes : acc.total + ((bundled entrypoint es).map (·.data.length)).sum ≤ maxBundleBytes

section Accepted

variable {entrypoint dir rel : String} {e : TarEntry} {es : List TarEntry} {acc : Scan} {fs : Files}

theorem Entrypoint.bundled_cons_none (h : Entrypoint entrypoint) (hrel : relative entrypoint e = none) :
    bundled entrypoint (e :: es) = bundled entrypoint es := by
  refine List.filter_cons_of_neg ?_
  rw [decide_eq_true_iff, h.inBundle_iff, hrel]
  rintro ⟨rel, hsome⟩
  exact nomatch hsome

theorem Entrypoint.bundled_cons_some (h : Entrypoint entrypoint)
    (hrel : relative entrypoint e = some rel) :
    bundled entrypoint (e :: es) = e :: bundled entrypoint es :=
  List.filter_cons_of_pos (decide_eq_true (h.inBundle_iff.mpr ⟨rel, hrel⟩))

theorem Entrypoint.admitted_cons_none (h : Entrypoint entrypoint)
    (hrel : relative entrypoint e = none) :
    Admitted entrypoint (e :: es) acc ↔ Admitted entrypoint es acc := by
  have hbundled : bundled entrypoint (e :: es) = _ := h.bundled_cons_none hrel
  constructor
  · rintro ⟨hsound, hcount, hbytes⟩
    rw [hbundled] at hcount hbytes
    exact ⟨fun e' he' ↦ hsound e' (List.mem_cons_of_mem _ he'), hcount, hbytes⟩
  · rintro ⟨hsound, hcount, hbytes⟩
    rw [← hbundled] at hcount hbytes
    refine ⟨?_, hcount, hbytes⟩
    intro e' he' rel' hrel'
    rcases List.mem_cons.mp he' with rfl | he'
    · rw [hrel] at hrel'
      exact nomatch hrel'
    · exact hsound e' he' rel' hrel'

theorem Entrypoint.admitted_cons_some (h : Entrypoint entrypoint)
    (hrel : relative entrypoint e = some rel) :
    Admitted entrypoint (e :: es) acc ↔
      Sound entrypoint rel e ∧
        Admitted entrypoint es ⟨acc.total + e.data.length, acc.count + 1, acc.files ++ [rel]⟩ := by
  have hbundled : bundled entrypoint (e :: es) = _ := h.bundled_cons_some hrel
  constructor
  · rintro ⟨hsound, hcount, hbytes⟩
    rw [hbundled, List.length_cons] at hcount
    rw [hbundled, List.map_cons, List.sum_cons] at hbytes
    refine ⟨hsound e List.mem_cons_self rel hrel, ?_, ?_, ?_⟩
    · exact fun e' he' ↦ hsound e' (List.mem_cons_of_mem _ he')
    · dsimp only
      omega
    · dsimp only
      omega
  · rintro ⟨hfirst, hsound, hcount, hbytes⟩
    dsimp only at hcount hbytes
    refine ⟨?_, ?_, ?_⟩
    · intro e' he' rel' hrel'
      rcases List.mem_cons.mp he' with rfl | he'
      · obtain rfl := Option.some.inj (hrel.symm.trans hrel')
        exact hfirst
      · exact hsound e' he' rel' hrel'
    · rw [hbundled, List.length_cons]
      omega
    · rw [hbundled, List.map_cons, List.sum_cons]
      omega

theorem scanEntry_pass (hrel : relative entrypoint e = none) (k : Nat) (acc : Scan) (fs : Files) :
    scanEntry .healthy entrypoint dir k e acc fs = (.ok acc, fs) := by
  unfold scanEntry
  simp only [hrel]

theorem scanEntry_take (hrel : relative entrypoint e = some rel)
    (hfine : entryViolation entrypoint rel e (acc.count + 1) = none)
    (hfits : acc.total + e.data.length ≤ maxBundleBytes) (k : Nat) (fs : Files) :
    scanEntry .healthy entrypoint dir k e acc fs =
      (.ok ⟨acc.total + e.data.length, acc.count + 1, acc.files ++ [rel]⟩,
        fs.write (joinPath dir rel) (bundleMode entrypoint rel) e.data) := by
  unfold scanEntry
  simp only [hrel, hfine, writeEntry_healthy hfits, andThen_ok]

/-- On a whole stream, the loop reaches the end exactly when all entries are admitted. -/
theorem Entrypoint.scan_ok_iff (h : Entrypoint entrypoint) (k : Nat) (acc : Scan) (fs : Files)
    (hcount : acc.count ≤ maxBundleFiles) (hbytes : acc.total ≤ maxBundleBytes) :
    (∃ acc' fs', scan .healthy none entrypoint dir k es acc fs = (.ok acc', fs')) ↔
      Admitted entrypoint es acc := by
  induction es generalizing k acc fs with
  | nil =>
      refine ⟨fun _ ↦ ⟨fun _ he ↦ absurd he List.not_mem_nil, hcount, hbytes⟩, fun _ ↦ ?_⟩
      exact ⟨acc, fs, rfl⟩
  | cons e es ih =>
      constructor
      · rintro ⟨acc', fs', hscan⟩
        rw [scan] at hscan
        obtain ⟨acc₁, fs₁, hstep, hrest⟩ := andThen_eq_ok hscan
        rcases scanEntry_ok hstep with ⟨hrel, rfl, rfl⟩ | ⟨rel, hrel, hfine, hfits, rfl, rfl⟩
        · exact (h.admitted_cons_none hrel).mpr ((ih (k + 1) _ _ hcount hbytes).mp ⟨acc', fs', hrest⟩)
        · obtain ⟨hflat, hreg, hside, hlast⟩ := entryViolation_eq_none.mp hfine
          refine (h.admitted_cons_some hrel).mpr ⟨⟨hflat, hreg, hside⟩, ?_⟩
          exact (ih (k + 1) ⟨_, _, _⟩ _ hlast hfits).mp ⟨acc', fs', hrest⟩
      · intro hadm
        cases hrel : relative entrypoint e with
        | none =>
            obtain ⟨acc', fs', hrest⟩ :=
              (ih (k + 1) acc fs hcount hbytes).mpr ((h.admitted_cons_none hrel).mp hadm)
            refine ⟨acc', fs', ?_⟩
            rw [scan, scanEntry_pass hrel, andThen_ok, hrest]
        | some rel =>
            obtain ⟨hsound, hadm⟩ := (h.admitted_cons_some hrel).mp hadm
            have hlast : acc.count + 1 ≤ maxBundleFiles := by
              have hcount := hadm.count
              dsimp only at hcount
              omega
            have hfits : acc.total + e.data.length ≤ maxBundleBytes := by
              have hbytes := hadm.bytes
              dsimp only at hbytes
              omega
            have hfine := entryViolation_eq_none.mpr
              ⟨hsound.flat, hsound.regular, hsound.sidecar, hlast⟩
            obtain ⟨acc', fs', hrest⟩ := (ih (k + 1) ⟨_, _, _⟩
              (fs.write (joinPath dir rel) (bundleMode entrypoint rel) e.data) hlast hfits).mpr hadm
            refine ⟨acc', fs', ?_⟩
            rw [scan, scanEntry_take hrel hfine hfits, andThen_ok, hrest]

/-- The files of a bundle have to be those of the three names. -/
theorem bundleViolation_eq_none {files : List String} :
    bundleViolation entrypoint files = none ↔
      ∀ name, name ∈ files ↔ name ∈ bundleNames entrypoint := by
  constructor
  · exact fun h ↦ mem_of_bundleViolation h
  · intro h
    have hall : ∀ name ∈ bundleNames entrypoint, name ∈ files := fun name ↦ (h name).mpr
    unfold bundleViolation
    dsimp only
    rw [if_neg (not_not.mpr (hall _ List.mem_cons_self))]
    have hneed : [manifestSidecar, toolspecSidecar].find? (· ∉ files) = none := by
      rw [List.find?_eq_none]
      intro name hname
      simpa using hall name (List.mem_cons_of_mem _ hname)
    have hgot : (files.find? fun f ↦
        f ≠ baseName entrypoint ∧ f ≠ manifestSidecar ∧ f ≠ toolspecSidecar) = none := by
      rw [List.find?_eq_none]
      intro f hf
      have hnamed := (h f).mp hf
      simp only [bundleNames, List.mem_cons, List.not_mem_nil, or_false] at hnamed
      rcases hnamed with rfl | rfl | rfl
      · simp
      · simp
      · simp
    rw [hneed, hgot]

/-- The last of the entries at the place of a file of the bundle. -/
def lastAt (entrypoint : String) (entries : List TarEntry) (name : String) : Option TarEntry :=
  (entries.filter (place · = joinPath (dirName entrypoint) name)).getLast?

/-- What the loop keeps of a file is the contents of its last entry. -/
theorem Entrypoint.held_eq (h : Entrypoint entrypoint) (entries : List TarEntry) (name : String) :
    held entrypoint entries name = (lastAt entrypoint entries name).map (·.data) := by
  induction entries with
  | nil => rfl
  | cons e es ih =>
      rw [held, ih, lastAt, lastAt]
      by_cases hplace : place e = joinPath (dirName entrypoint) name
      · rw [if_pos (h.relative_eq_some.mpr hplace), List.filter_cons_of_pos (by simpa using hplace),
          List.getLast?_cons]
        cases (es.filter (place · = joinPath (dirName entrypoint) name)).getLast? with
        | none => rfl
        | some e' => rfl
      · rw [if_neg fun hrel ↦ hplace (h.relative_eq_some.mp hrel),
          List.filter_cons_of_neg (by simpa using hplace), Option.or_none]

theorem Entrypoint.held_isSome (h : Entrypoint entrypoint) {entries : List TarEntry} {name : String} :
    (held entrypoint entries name).isSome ↔
      ∃ e ∈ bundled entrypoint entries, place e = joinPath (dirName entrypoint) name := by
  rw [h.held_eq, Option.isSome_map, lastAt, List.getLast?_isSome, ne_eq, List.filter_eq_nil_iff]
  simp only [decide_eq_true_eq, not_forall, not_not, bundled, List.mem_filter]
  constructor
  · rintro ⟨e, he, hplace⟩
    exact ⟨e, ⟨he, h.inBundle_iff.mpr ⟨name, h.relative_eq_some.mpr hplace⟩⟩, hplace⟩
  · rintro ⟨e, ⟨he, -⟩, hplace⟩
    exact ⟨e, he, hplace⟩

/-- The names of a bundle are plain. -/
theorem Entrypoint.names_flat (h : Entrypoint entrypoint) {name : String}
    (hname : name ∈ bundleNames entrypoint) : '/' ∉ name.toList := by
  simp only [bundleNames, List.mem_cons, List.not_mem_nil, or_false] at hname
  rcases hname with rfl | rfl | rfl
  · exact h.baseName_flat
  · decide
  · decide

/-- The contract in terms of the loop. -/
theorem Entrypoint.conforms_iff (h : Entrypoint entrypoint) (entries : List TarEntry) :
    Conforms entrypoint entries ↔ Admitted entrypoint entries ⟨0, 0, []⟩ ∧
      ∀ name, (held entrypoint entries name).isSome ↔ name ∈ bundleNames entrypoint := by
  have hmem : ∀ {e rel}, e ∈ entries → relative entrypoint e = some rel →
      e ∈ bundled entrypoint entries := fun he hrel ↦
    List.mem_filter.mpr ⟨he, decide_eq_true (h.inBundle_iff.mpr ⟨_, hrel⟩)⟩
  constructor
  · intro hc
    refine ⟨⟨?_, ?_, ?_⟩, fun name ↦ ⟨fun hheld ↦ ?_, fun hname ↦ h.held_isSome.mpr (hc.present name hname)⟩⟩
    · intro e he rel hrel
      have hplace := h.relative_eq_some.mp hrel
      obtain ⟨hreg, name, hname, hat⟩ := hc.named e (hmem he hrel)
      obtain rfl := joinPath_inj.mp (hplace.symm.trans hat)
      refine ⟨h.names_flat hname, hreg, fun hbase ↦ hc.sidecar e (hmem he hrel) ?_⟩
      exact fun heq ↦ hbase (joinPath_inj.mp (hplace.symm.trans heq))
    · rw [Nat.zero_add]
      exact hc.count
    · rw [Nat.zero_add]
      exact hc.bytes
    · obtain ⟨e, he, hplace⟩ := h.held_isSome.mp hheld
      obtain ⟨-, name', hname', hat⟩ := hc.named e he
      obtain rfl := joinPath_inj.mp (hplace.symm.trans hat)
      exact hname'
  · rintro ⟨⟨hsound, hcount, hbytes⟩, hnames⟩
    rw [Nat.zero_add] at hcount hbytes
    refine ⟨fun e he ↦ ?_, fun e he hbase ↦ ?_, hcount, hbytes,
      fun name hname ↦ h.held_isSome.mp ((hnames name).mpr hname)⟩
    · obtain ⟨hmem, hin⟩ := List.mem_filter.mp he
      obtain ⟨rel, hrel⟩ := h.inBundle_iff.mp (of_decide_eq_true hin)
      have hplace := h.relative_eq_some.mp hrel
      exact ⟨(hsound e hmem rel hrel).regular, rel,
        (hnames rel).mp (h.held_isSome.mpr ⟨e, he, hplace⟩), hplace⟩
    · obtain ⟨hmem, hin⟩ := List.mem_filter.mp he
      obtain ⟨rel, hrel⟩ := h.inBundle_iff.mp (of_decide_eq_true hin)
      refine (hsound e hmem rel hrel).sidecar ?_
      rintro rfl
      exact hbase (h.relative_eq_some.mp hrel)

/-- An extraction on a disk that does not fail succeeds exactly on the archives that
conform. -/
theorem Entrypoint.extractBundle_ok_iff (h : Entrypoint entrypoint) {img : Rootfs}
    (hstream : img.broken = none) :
    (extractBundle .healthy img entrypoint dir fs).1 = .ok () ↔ Conforms entrypoint img.entries := by
  have hstart : ∀ {acc fs'}, scan .healthy none entrypoint dir 0 img.entries ⟨0, 0, []⟩ fs =
      (.ok acc, fs') → ∀ name, name ∈ acc.files ↔ (held entrypoint img.entries name).isSome := by
    intro acc fs' hscan name
    rw [mem_scan_files hscan]
    simp
  have hscan : (∃ acc fs', scan .healthy none entrypoint dir 0 img.entries ⟨0, 0, []⟩ fs =
      (.ok acc, fs')) ↔ _ := h.scan_ok_iff 0 ⟨0, 0, []⟩ fs (Nat.zero_le _) (Nat.zero_le _)
  rw [h.conforms_iff, ← hscan]
  constructor
  · intro hok
    cases hx : extractBundle .healthy img entrypoint dir fs with
    | mk r fs' =>
        rw [hx] at hok
        obtain rfl : r = .ok () := hok
        obtain ⟨acc, hrun, -⟩ := writeBundle_ok (extractBundle_ok hx).2
        rw [hstream] at hrun
        exact ⟨⟨acc, fs', hrun⟩, held_isSome_iff hx⟩
  · rintro ⟨⟨acc, fs', hrun⟩, hnames⟩
    have hset : bundleViolation entrypoint acc.files = none :=
      bundleViolation_eq_none.mpr fun name ↦ (hstart hrun name).trans (hnames name)
    have hwrite : writeBundle .healthy img entrypoint dir fs = (.ok (), fs') := by
      rw [writeBundle, hstream, hrun, andThen_ok, hset]
    have hmk : Disk.healthy.mkdirAll = none := rfl
    simp only [extractBundle, hmk, hwrite]

end Accepted

/-! ## The whole contract -/

/-- What an extraction leaves of an archive: the last entry of each of the three names, with
the mode of its kind, and nothing else. -/
structure Delivered (entrypoint dir : String) (entries : List TarEntry) (fs : Files) : Prop where
  files : ∀ name ∈ bundleNames entrypoint, ∃ e, lastAt entrypoint entries name = some e ∧
    fs (joinPath dir name) = some ⟨e.data, if name = baseName entrypoint then 0o755 else 0o644⟩
  only : ∀ p, Under dir p → fs p ≠ none → ∃ name ∈ bundleNames entrypoint, p = joinPath dir name

/-- A directory that is not there. -/
def Absent (fs : Files) (dir : String) : Prop := ∀ p, p = dir ∨ Under dir p → fs p = none

section Whole

variable {entrypoint dir : String} {img : Rootfs} {fs fs' : Files}

theorem Entrypoint.delivered (h : Entrypoint entrypoint) (hnew : Absent fs dir)
    (hx : extractBundle .healthy img entrypoint dir fs = (.ok (), fs')) :
    Delivered entrypoint dir img.entries fs' := by
  have hold : ∀ name, fs (joinPath dir name) = none := fun name ↦
    hnew _ (.inr (under_append dir name))
  refine ⟨fun name hname ↦ ?_, fun p hp hfile ↦ ?_⟩
  · have hheld := (held_isSome_iff hx name).mpr hname
    rw [h.held_eq, Option.isSome_map] at hheld
    obtain ⟨e, he⟩ := Option.isSome_iff_exists.mp hheld
    refine ⟨e, he, ?_⟩
    rw [extractBundle_files hx, hold name, h.held_eq, he]
    rfl
  · obtain ⟨name, rfl⟩ := under_iff.mp hp
    refine ⟨name, ?_, rfl⟩
    rw [← held_isSome_iff hx, ← Option.ne_none_iff_isSome]
    intro hnone
    refine hfile ((extractBundle_files hx name).trans ?_)
    rw [hold name, hnone]
    rfl

theorem absent_of_error {err : Err}
    (hx : extractBundle .healthy img entrypoint dir fs = (.error err, fs')) : Absent fs' dir := by
  obtain rfl := extractBundle_error rfl hx
  rintro p (rfl | hp)
  · exact Files.removeAll_self
  · exact Files.removeAll_of_under hp

theorem writeBundle_files_eq :
    (writeBundle .healthy img entrypoint dir fs).2 =
      (writes entrypoint dir img.entries ⟨0, 0, []⟩).foldl Written.apply fs := by
  funext p
  rw [← scan_files_eq img.broken 0 img.entries ⟨0, 0, []⟩ fs]
  refine andThen_frame rfl ?_
  intro acc gs hgs
  split
  · exact hgs
  · exact hgs

/-- The bundle contract, for every archive whose stream does not break off, in a directory
that is not there before.

The first three parts are about what is written until the loop ends, before anything is
removed again. -/
theorem extractBundle_contract (hentry : Entrypoint entrypoint) (hstream : img.broken = none)
    (hnew : Absent fs dir) :
    (writeBundle .healthy img entrypoint dir fs).2 =
        (writes entrypoint dir img.entries ⟨0, 0, []⟩).foldl Written.apply fs ∧
      (∀ w ∈ writes entrypoint dir img.entries ⟨0, 0, []⟩,
        ∃ name, Plain name.toList ∧ w.path = joinPath dir name) ∧
      bytesOf (writes entrypoint dir img.entries ⟨0, 0, []⟩) ≤ maxBundleBytes + 1 ∧
      ((extractBundle .healthy img entrypoint dir fs).1 = .ok () ↔
        Conforms entrypoint img.entries) ∧
      ((extractBundle .healthy img entrypoint dir fs).1 = .ok () →
        Delivered entrypoint dir img.entries (extractBundle .healthy img entrypoint dir fs).2) ∧
      ((extractBundle .healthy img entrypoint dir fs).1 ≠ .ok () →
        Absent (extractBundle .healthy img entrypoint dir fs).2 dir) := by
  refine ⟨?_, fun w hw ↦ hentry.writes_child hw, ?_, hentry.extractBundle_ok_iff hstream, ?_, ?_⟩
  · exact writeBundle_files_eq
  · rw [← Nat.zero_add (bytesOf _)]
    exact writes_bytes img.entries ⟨0, 0, []⟩ (Nat.zero_le maxBundleBytes)
  · intro hok
    cases hx : extractBundle .healthy img entrypoint dir fs with
    | mk r fs' =>
        rw [hx] at hok
        obtain rfl : r = .ok () := hok
        exact hentry.delivered hnew hx
  · intro hne
    cases hx : extractBundle .healthy img entrypoint dir fs with
    | mk r fs' =>
        cases r with
        | ok _ =>
            rw [hx] at hne
            exact absurd rfl hne
        | error err => exact absent_of_error hx

end Whole

/-- A bundle with its files in another order, an entrypoint that is there twice, and a file
of the image that is not part of it. -/
def appImage : Rootfs where
  entries :=
    [⟨"etc/passwd", .reg, 0o644, 4, "root"⟩,
      ⟨"app/toolspec.yaml", .reg, 0o644, 5, "tools"⟩,
      ⟨"./app/server", .reg, 0o755, 3, "old"⟩,
      ⟨"app/sub/../server", .reg, 0o755, 6, "engine"⟩,
      ⟨"app/manifest.yaml", .reg, 0o644, 4, "name"⟩]
  broken := none

theorem entrypoint_app : Entrypoint "/app/server" where
  absolute := by decide
  clean := by decide
  deep := by decide
  notSidecar := by decide

/-- The bundle is taken, with the second of its entrypoints. -/
theorem extractBundle_contract_app :
    Conforms "/app/server" appImage.entries ∧
      Delivered "/app/server" "/stage" appImage.entries
        (extractBundle .healthy appImage "/app/server" "/stage" .empty).2 ∧
      (extractBundle .healthy appImage "/app/server" "/stage" .empty).2 "/stage/server" =
        some ⟨"engine", 0o755⟩ := by
  obtain ⟨-, -, -, haccept, hsuccess, -⟩ :=
    extractBundle_contract entrypoint_app (rfl : appImage.broken = none)
      (show Absent .empty "/stage" from fun _ _ ↦ rfl)
  have hok : (extractBundle .healthy appImage "/app/server" "/stage" .empty).1 = .ok () := by
    decide +kernel
  exact ⟨haccept.mp hok, hsuccess hok, by decide +kernel⟩

end GigMcp.Oci
