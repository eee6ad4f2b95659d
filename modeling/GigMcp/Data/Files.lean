import GigMcp.Data.Text

/-!
# Files

Slash-separated paths, treated lexically, and a file system as a map from paths to
files.  Directories exist as far as files lie under them: making one changes nothing,
and removing one removes what is under it.

A character of a file's data stands for a byte.
-/

namespace GigMcp.Data

/-! ## Paths -/

def hasPrefix (s p : String) : Bool := p.toList.isPrefixOf s.toList

def trimPrefix (s p : String) : String :=
  if hasPrefix s p then String.ofList (s.toList.drop p.length) else s

theorem hasPrefix_iff {s p : String} : hasPrefix s p = true ↔ ∃ t, s = p ++ t := by
  rw [hasPrefix, List.isPrefixOf_iff_prefix]
  constructor
  · rintro ⟨cs, hcs⟩
    refine ⟨String.ofList cs, String.toList_inj.mp ?_⟩
    rw [← hcs, String.toList_append, String.toList_ofList]
  · rintro ⟨t, rfl⟩
    rw [String.toList_append]
    exact List.prefix_append _ _

@[simp] theorem trimPrefix_append (p t : String) : trimPrefix (p ++ t) p = t := by
  rw [trimPrefix, if_pos (hasPrefix_iff.mpr ⟨t, rfl⟩), String.toList_append,
    ← String.length_toList, List.drop_left, String.ofList_toList]

/-- One part of a path read after the parts `acc`, the latest first.  A dot is dropped and
two dots take the part before them back, which at the root does nothing. -/
def cleanStep (rooted : Bool) (acc : List (List Char)) (part : List Char) : List (List Char) :=
  if part = [] ∨ part = ['.'] then acc
  else if part = ['.', '.'] then
    match acc with
    | [] => if rooted then [] else [part]
    | top :: rest => if top = ['.', '.'] then part :: acc else rest
  else part :: acc

/-- The shortest path that is lexically the same. -/
def cleanPath (path : String) : String :=
  let cs := path.toList
  let rooted : Bool := cs.head? = some '/'
  let parts := ((cs.splitOn '/').foldl (cleanStep rooted) []).reverse
  let body := List.intercalate ['/'] parts
  if rooted then String.ofList ('/' :: body)
  else if parts = [] then "." else String.ofList body

/-- All but the last part of a path, cleaned. -/
def dirName (path : String) : String :=
  cleanPath (String.ofList ((path.toList.reverse.dropWhile (· ≠ '/')).reverse))

/-- The last part of a path. -/
def baseName (path : String) : String :=
  let cs := path.toList.reverse.dropWhile (· = '/')
  if path = "" then "."
  else if cs = [] then "/"
  else String.ofList (cs.takeWhile (· ≠ '/')).reverse

example : cleanPath "./app//x/../server" = "app/server" := by decide

example : (dirName "/app/server", baseName "/app/server") = ("/app", "server") := by decide

/-! ### Clean paths -/

/-- A part of a path that names something in the directory before it. -/
structure Plain (part : List Char) : Prop where
  ne_nil : part ≠ []
  ne_dot : part ≠ ['.']
  ne_dots : part ≠ ['.', '.']
  no_slash : '/' ∉ part

/-- The parts of a clean path, the latest first: plain ones, after some that go up.  None goes
up from the root. -/
structure CleanParts (rooted : Bool) (acc : List (List Char)) : Prop where
  split : ∃ plain ups, acc = plain ++ ups ∧ (∀ p ∈ plain, Plain p) ∧
    (∀ u ∈ ups, u = ['.', '.']) ∧ (rooted = true → ups = [])

theorem CleanParts.nil (rooted : Bool) : CleanParts rooted [] :=
  ⟨[], [], rfl, fun _ h ↦ (nomatch h), fun _ h ↦ (nomatch h), fun _ ↦ rfl⟩

theorem CleanParts.step {rooted : Bool} {acc : List (List Char)} (h : CleanParts rooted acc)
    {part : List Char} (hpart : '/' ∉ part) : CleanParts rooted (cleanStep rooted acc part) := by
  obtain ⟨plain, ups, rfl, hplain, hups, hroot⟩ := h.split
  unfold cleanStep
  split
  · exact h
  · rename_i hname
    obtain ⟨hnil, hdot⟩ := not_or.mp hname
    split
    · rename_i hdots
      cases plain with
      | nil =>
          cases ups with
          | nil =>
              cases rooted with
              | true => exact .nil true
              | false =>
                  refine ⟨[], [part], rfl, fun _ hp ↦ (nomatch hp), ?_, fun hr ↦ (nomatch hr)⟩
                  intro u hu
                  rw [List.mem_singleton.mp hu, hdots]
          | cons u us =>
              have hu : u = ['.', '.'] := hups u List.mem_cons_self
              have hrooted : rooted ≠ true := fun hr ↦ nomatch hroot hr
              simp only [List.nil_append, if_pos hu]
              refine ⟨[], part :: u :: us, rfl, fun _ hp ↦ (nomatch hp), ?_,
                fun hr ↦ absurd hr hrooted⟩
              intro v hv
              rcases List.mem_cons.mp hv with rfl | hv
              · exact hdots
              · exact hups v hv
      | cons p ps =>
          have hp : p ≠ ['.', '.'] := (hplain p List.mem_cons_self).ne_dots
          simp only [List.cons_append, if_neg hp]
          exact ⟨ps, ups, rfl, fun q hq ↦ hplain q (.tail _ hq), hups, hroot⟩
    · rename_i hdots
      refine ⟨part :: plain, ups, rfl, ?_, hups, hroot⟩
      intro q hq
      rcases List.mem_cons.mp hq with rfl | hq
      · exact ⟨hnil, hdot, hdots, hpart⟩
      · exact hplain q hq

theorem CleanParts.foldl {rooted : Bool} {parts acc : List (List Char)}
    (h : CleanParts rooted acc) (hparts : ∀ p ∈ parts, '/' ∉ p) :
    CleanParts rooted (parts.foldl (cleanStep rooted) acc) := by
  induction parts generalizing acc with
  | nil => exact h
  | cons p ps ih =>
      exact ih (h.step (hparts p List.mem_cons_self)) fun q hq ↦ hparts q (.tail _ hq)

/-- A clean path from the root consists of plain parts. -/
theorem cleanPath_rooted {path : String} (h : path.toList.head? = some '/') :
    ∃ plain, (∀ p ∈ plain, Plain p) ∧
      cleanPath path = String.ofList ('/' :: List.intercalate ['/'] plain) := by
  have hclean := (CleanParts.nil true).foldl
    fun p (hp : p ∈ path.toList.splitOn '/') ↦ notMem_of_mem_splitOn hp
  obtain ⟨plain, ups, hsplit, hplain, -, hroot⟩ := hclean.split
  rw [hroot rfl, List.append_nil] at hsplit
  refine ⟨plain.reverse, fun p hp ↦ hplain p (List.mem_reverse.mp hp), ?_⟩
  simp only [cleanPath, h, decide_true, if_true, hsplit]

/-- A clean path from elsewhere is a dot, or goes up some times and then down along plain
parts. -/
theorem cleanPath_relative {path : String} (h : path.toList.head? ≠ some '/') :
    cleanPath path = "." ∨ ∃ ups plain, ups ++ plain ≠ [] ∧ (∀ u ∈ ups, u = ['.', '.']) ∧
      (∀ p ∈ plain, Plain p) ∧
      cleanPath path = String.ofList (List.intercalate ['/'] (ups ++ plain)) := by
  have hclean := (CleanParts.nil false).foldl
    fun p (hp : p ∈ path.toList.splitOn '/') ↦ notMem_of_mem_splitOn hp
  obtain ⟨plain, ups, hsplit, hplain, hups, -⟩ := hclean.split
  simp only [cleanPath, h, decide_false, Bool.false_eq_true, if_false, hsplit,
    List.reverse_append]
  split
  · exact .inl rfl
  · rename_i hne
    exact .inr ⟨ups.reverse, plain.reverse, hne, fun u hu ↦ hups u (List.mem_reverse.mp hu),
      fun p hp ↦ hplain p (List.mem_reverse.mp hp), rfl⟩

theorem splitOn_append_cons {c : Char} (xs ys : List Char) :
    (xs ++ c :: ys).splitOn c = xs.splitOn c ++ ys.splitOn c :=
  List.splitOnP_append_cons xs ys (beq_self_eq_true c)

/-- A clean path that starts with the parts of a directory goes on with plain parts. -/
theorem cleanPath_under {path rel : String} {parts : List (List Char)} (hne : parts ≠ [])
    (hplain : ∀ p ∈ parts, Plain p)
    (h : cleanPath path = String.ofList (List.intercalate ['/'] parts) ++ "/" ++ rel) :
    ∀ p ∈ rel.toList.splitOn '/', Plain p := by
  have hcut : (cleanPath path).toList.splitOn '/' = parts ++ rel.toList.splitOn '/' := by
    rw [h, String.toList_append, String.toList_append, String.toList_ofList]
    show ((List.intercalate ['/'] parts ++ ['/']) ++ rel.toList).splitOn '/' = _
    rw [List.append_assoc, List.singleton_append, splitOn_append_cons,
      List.splitOn_intercalate '/' (fun p hp ↦ (hplain p hp).no_slash) hne]
  obtain ⟨p₀, ps, rfl⟩ := List.exists_cons_of_ne_nil hne
  have hp₀ : Plain p₀ := hplain p₀ List.mem_cons_self
  by_cases hroot : path.toList.head? = some '/'
  · -- the first part of a path from the root is empty
    obtain ⟨plain, -, hclean⟩ := cleanPath_rooted hroot
    rw [hclean, String.toList_ofList, ← List.nil_append ('/' :: _), splitOn_append_cons,
      List.splitOn_nil, List.singleton_append, List.cons_append] at hcut
    exact absurd (List.cons.inj hcut).1.symm hp₀.ne_nil
  · rcases cleanPath_relative hroot with hdot | ⟨ups, plain, hparts, hups, hplain', hclean⟩
    · rw [hdot] at hcut
      exact absurd (List.cons.inj hcut).1.symm hp₀.ne_dot
    · have hslash : ∀ p ∈ ups ++ plain, '/' ∉ p := by
        intro p hp
        rcases List.mem_append.mp hp with hp | hp
        · rw [hups p hp]
          decide
        · exact (hplain' p hp).no_slash
      rw [hclean, String.toList_ofList, List.splitOn_intercalate '/' hslash hparts] at hcut
      cases ups with
      | cons u us =>
          have hu : u = ['.', '.'] := hups u List.mem_cons_self
          exact absurd ((List.cons.inj hcut).1.symm.trans hu) hp₀.ne_dots
      | nil =>
          intro p hp
          refine hplain' p ?_
          rw [← List.nil_append plain, hcut]
          exact List.mem_append_right _ hp

/-- A path is in a directory, at any depth. -/
def Under (dir path : String) : Prop := (dir ++ "/").toList <+: path.toList

instance (dir path : String) : Decidable (Under dir path) :=
  inferInstanceAs (Decidable (_ <+: _))

theorem under_append (dir rel : String) : Under dir (dir ++ "/" ++ rel) := by
  refine ⟨rel.toList, ?_⟩
  rw [← String.toList_append]

theorem under_iff {dir path : String} : Under dir path ↔ ∃ rel, path = dir ++ "/" ++ rel := by
  constructor
  · rintro ⟨cs, hcs⟩
    refine ⟨String.ofList cs, String.toList_inj.mp ?_⟩
    rw [← hcs, String.toList_append (s := dir ++ "/"), String.toList_ofList]
  · rintro ⟨rel, rfl⟩
    exact under_append dir rel

/-! ## File systems -/

structure File where
  data : String
  mode : Nat
deriving DecidableEq

/-- The files of a file system, by path. -/
abbrev Files : Type := String → Option File

namespace Files

def empty : Files := fun _ ↦ none

/-- Put a file at a path, or none. -/
def set (fs : Files) (path : String) (x : Option File) : Files := fun p ↦
  if p = path then x else fs p

/-- Remove a file, if it is there. -/
def remove (fs : Files) (path : String) : Files := fs.set path none

/-- Remove a path and everything under it. -/
def removeAll (fs : Files) (dir : String) : Files := fun p ↦
  if p = dir ∨ Under dir p then none else fs p

/-- Write a file from its start.  The mode is for a file that is not there yet. -/
def write (fs : Files) (path : String) (mode : Nat) (data : String) : Files :=
  fs.set path (some ⟨data, ((fs path).map File.mode).getD mode⟩)

variable {fs : Files} {path p dir : String} {mode : Nat} {data : String}

@[simp] theorem set_self (x : Option File) : fs.set path x path = x := if_pos rfl

theorem set_of_ne (h : p ≠ path) (x : Option File) : fs.set path x p = fs p := if_neg h

@[simp] theorem set_set (x y : Option File) : (fs.set path x).set path y = fs.set path y := by
  funext p
  by_cases h : p = path
  · rw [h, set_self, set_self]
  · rw [set_of_ne h, set_of_ne h, set_of_ne h]

theorem write_of_ne (h : p ≠ path) : fs.write path mode data p = fs p := set_of_ne h _

theorem removeAll_of_under (h : Under dir p) : fs.removeAll dir p = none := if_pos (.inr h)

theorem removeAll_self : fs.removeAll dir dir = none := if_pos (.inl rfl)

theorem removeAll_of_not_under (hne : p ≠ dir) (h : ¬ Under dir p) : fs.removeAll dir p = fs p :=
  if_neg (not_or.mpr ⟨hne, h⟩)

end Files

/-! ## Operations that may fail -/

section AndThen

variable {ε α β : Type}

/-- Go on from the files that an operation has left, unless it has failed. -/
def andThen (x : Except ε α × Files) (f : α → Files → Except ε β × Files) : Except ε β × Files :=
  match x with
  | (.error e, fs) => (.error e, fs)
  | (.ok a, fs) => f a fs

@[simp] theorem andThen_error (e : ε) (fs : Files) (f : α → Files → Except ε β × Files) :
    andThen (.error e, fs) f = (.error e, fs) := rfl

@[simp] theorem andThen_ok (a : α) (fs : Files) (f : α → Files → Except ε β × Files) :
    andThen (.ok a, fs) f = f a fs := rfl

theorem andThen_eq_ok {x : Except ε α × Files} {f : α → Files → Except ε β × Files} {b : β}
    {fs' : Files} (h : andThen x f = (.ok b, fs')) :
    ∃ a fs, x = (.ok a, fs) ∧ f a fs = (.ok b, fs') := by
  obtain ⟨r, fs⟩ := x
  cases r with
  | error e => cases h
  | ok a => exact ⟨a, fs, rfl, h⟩

/-- A path that both operations leave alone. -/
theorem andThen_frame {x : Except ε α × Files} {f : α → Files → Except ε β × Files} {p : String}
    {old : Option File} (hx : x.2 p = old) (hf : ∀ a fs, fs p = old → (f a fs).2 p = old) :
    (andThen x f).2 p = old := by
  obtain ⟨r, fs⟩ := x
  cases r with
  | error e => exact hx
  | ok a => exact hf a fs hx

end AndThen

/-- At most the first `n` bytes. -/
def clip (n : Nat) (data : String) : String :=
  if data.length ≤ n then data else String.ofList (data.toList.take n)

theorem clip_of_le {n : Nat} {data : String} (h : data.length ≤ n) : clip n data = data := if_pos h

theorem length_clip (n : Nat) (data : String) : (clip n data).length = min n data.length := by
  unfold clip
  split
  · rename_i h
    exact (Nat.min_eq_right h).symm
  · rw [String.length_ofList, List.length_take, String.length_toList]

/-- A reader that may take one byte more than is left notices a file that is too long. -/
theorem clip_eq_of_fits {total limit : Nat} {data : String}
    (h : total + (clip (limit - total + 1) data).length ≤ limit) :
    clip (limit - total + 1) data = data := by
  rw [length_clip] at h
  exact clip_of_le (by omega)

end GigMcp.Data
