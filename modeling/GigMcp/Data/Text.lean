import Mathlib.Algebra.Group.Int.Defs
import Mathlib.Tactic.Common

/-!
# Text

Decimal integers and separated lists, as a program writes them into a text
column and reads them back.

`formatInt` and `parseInt` are the base-10 conversions of 64-bit integers:
formatting is the usual decimal notation, and parsing accepts an optional sign
followed by one or more ASCII digits whose value is in range.  `parseInt` is a
left inverse of `formatInt`, so different integers have different texts.
-/

namespace GigMcp.Data

/-! ## Decimal integers -/

/-- The value of a non-empty string of ASCII digits. -/
def parseDigits (cs : List Char) : Option Nat :=
  if cs ≠ [] ∧ cs.all Char.isDigit then some (Nat.ofDigitChars 10 cs 0) else none

/-- The decimal text of a 64-bit integer. -/
def formatInt (i : Int64) : String :=
  if i.toInt < 0 then "-" ++ i.toInt.natAbs.repr else i.toInt.natAbs.repr

/-- The 64-bit integer with value `n`, when it is in range. -/
def int64InRange (n : Int) : Option Int64 :=
  if -2 ^ 63 ≤ n ∧ n < 2 ^ 63 then some (Int64.ofInt n) else none

/-- The value of a decimal integer of any size, with an optional sign. -/
def parseSigned (s : String) : Option Int :=
  match s.toList with
  | '-' :: cs => (parseDigits cs).map fun n : Nat ↦ (-n : Int)
  | '+' :: cs => (parseDigits cs).map fun n : Nat ↦ (n : Int)
  | cs => (parseDigits cs).map fun n : Nat ↦ (n : Int)

/-- Read a 64-bit integer in base 10. -/
def parseInt (s : String) : Option Int64 := (parseSigned s).bind int64InRange

/-- The value a reader that ignores errors ends up with: zero for a text that is
no integer, the nearest bound for one that is out of range. -/
def parseIntValue (s : String) : Int64 :=
  match parseSigned s with
  | none => 0
  | some n =>
      if n < -2 ^ 63 then Int64.minValue
      else if 2 ^ 63 ≤ n then Int64.maxValue
      else Int64.ofInt n

/-- The decimal digits of a number read back as the number. -/
theorem parseDigits_toDigits (n : Nat) : parseDigits (Nat.toDigits 10 n) = some n := by
  have hall : (Nat.toDigits 10 n).all Char.isDigit := by
    rw [List.all_eq_true]
    intro c hc
    exact Nat.isDigit_of_mem_toDigits (by decide) (by decide) hc
  rw [parseDigits, if_pos ⟨Nat.toDigits_ne_nil, hall⟩, Nat.ofDigitChars_ten_toDigits]

theorem toString_injective {m n : Nat} (h : toString m = toString n) : m = n := by
  have hdigits : Nat.toDigits 10 m = Nat.toDigits 10 n := String.ofList_injective h
  have hparse := congrArg parseDigits hdigits
  rw [parseDigits_toDigits, parseDigits_toDigits] at hparse
  exact Option.some.inj hparse

/-- Every 64-bit integer is in range. -/
theorem int64InRange_toInt (i : Int64) : int64InRange i.toInt = some i := by
  have hlo : -2 ^ 63 ≤ i.toInt := Int64.le_toInt i
  have hhi : i.toInt < 2 ^ 63 := Int64.toInt_lt i
  rw [int64InRange, if_pos ⟨hlo, hhi⟩, Int64.ofInt_toInt]

/-- The first decimal digit of a number is not a sign. -/
theorem toDigits_eq_cons (n : Nat) :
    ∃ c cs, Nat.toDigits 10 n = c :: cs ∧ c ≠ '-' ∧ c ≠ '+' := by
  cases h : Nat.toDigits 10 n with
  | nil => exact absurd h Nat.toDigits_ne_nil
  | cons c cs =>
      have hc : c.isDigit := by
        refine Nat.isDigit_of_mem_toDigits (b := 10) (n := n) (by decide) (by decide) ?_
        rw [h]
        exact List.mem_cons_self
      refine ⟨c, cs, rfl, ?_, ?_⟩
      · rintro rfl
        exact absurd hc (by decide)
      · rintro rfl
        exact absurd hc (by decide)

/-- The decimal text of an integer denotes it. -/
theorem parseSigned_formatInt (i : Int64) : parseSigned (formatInt i) = some i.toInt := by
  unfold formatInt
  split
  · rename_i hneg
    have hval : -((i.toInt.natAbs : Nat) : Int) = i.toInt := by omega
    have htext : ("-" ++ i.toInt.natAbs.repr).toList =
        '-' :: Nat.toDigits 10 i.toInt.natAbs := by
      rw [String.toList_append, Nat.toList_repr]
      rfl
    rw [parseSigned, htext]
    simp only [parseDigits_toDigits, Option.map_some, hval]
  · rename_i hpos
    have hval : ((i.toInt.natAbs : Nat) : Int) = i.toInt := by omega
    obtain ⟨c, cs, hcs, hminus, hplus⟩ := toDigits_eq_cons i.toInt.natAbs
    have hdigits := parseDigits_toDigits i.toInt.natAbs
    rw [parseSigned, Nat.toList_repr, hcs]
    rw [hcs] at hdigits
    split
    · rename_i heq
      exact absurd (List.cons.inj heq).1 hminus
    · rename_i heq
      exact absurd (List.cons.inj heq).1 hplus
    · rw [hdigits, Option.map_some, hval]

/-- **Round trip.**  Reading a formatted integer gives it back. -/
@[simp] theorem parseInt_formatInt (i : Int64) : parseInt (formatInt i) = some i := by
  rw [parseInt, parseSigned_formatInt, Option.bind_some, int64InRange_toInt]

/-- A formatted integer is read back by a reader that ignores errors. -/
theorem parseIntValue_formatInt (i : Int64) : parseIntValue (formatInt i) = i := by
  have hlow : ¬ i.toInt < -2 ^ 63 := Int.not_lt.mpr (Int64.le_toInt i)
  have hhigh : ¬ 2 ^ 63 ≤ i.toInt := Int.not_le.mpr (Int64.toInt_lt i)
  simp only [parseIntValue, parseSigned_formatInt, if_neg hlow, if_neg hhigh, Int64.ofInt_toInt]

/-- Different integers have different texts. -/
theorem formatInt_injective : Function.Injective formatInt := by
  intro i j h
  have := congrArg parseInt h
  simpa using this

/-- The decimal text of an integer consists of digits and a sign. -/
theorem notMem_formatInt {c : Char} (hc : c.isDigit = false) (hsign : c ≠ '-') (i : Int64) :
    c ∉ (formatInt i).toList := by
  have hdigits : c ∉ i.toInt.natAbs.repr.toList := by
    rw [Nat.toList_repr]
    intro h
    rw [Nat.isDigit_of_mem_toDigits (by decide) (by decide) h] at hc
    cases hc
  unfold formatInt
  split
  · rw [String.toList_append]
    intro h
    rcases List.mem_append.mp h with h | h
    · exact hsign (List.mem_singleton.mp h)
    · exact hdigits h
  · exact hdigits

/-! ## Separated lists -/

/-- The first occurrence of a separator cuts a text in only one way. -/
theorem cut_inj {α : Type} {c : α} {a a' b b' : List α} (ha : c ∉ a) (ha' : c ∉ a')
    (h : a ++ c :: b = a' ++ c :: b') : a = a' ∧ b = b' := by
  induction a generalizing a' with
  | nil =>
      cases a' with
      | nil => exact ⟨rfl, (List.cons.inj h).2⟩
      | cons d a' => exact absurd (List.mem_cons.mpr (.inl (List.cons.inj h).1)) ha'
  | cons d a ih =>
      cases a' with
      | nil => exact absurd (List.mem_cons.mpr (.inl (List.cons.inj h).1.symm)) ha
      | cons d' a' =>
          obtain ⟨rfl, hrest⟩ := List.cons.inj h
          obtain ⟨rfl, rfl⟩ := ih (fun hd ↦ ha (.tail _ hd)) (fun hd ↦ ha' (.tail _ hd)) hrest
          exact ⟨rfl, rfl⟩

/-- Cut a text at every occurrence of a character. -/
def splitChar (c : Char) (s : String) : List String :=
  (s.toList.splitOn c).map String.ofList

/-- Glue texts together with a character between them. -/
def joinChar (c : Char) (ss : List String) : String :=
  String.ofList ([c].intercalate (ss.map String.toList))

/-- A list of texts after a round trip through one newline-separated column: the
empty column is read as the empty list. -/
def throughColumn (ss : List String) : List String :=
  if joinChar '\n' ss = "" then [] else splitChar '\n' (joinChar '\n' ss)

/-- Splitting undoes joining as long as no part holds the separator. -/
theorem splitChar_joinChar {c : Char} {ss : List String} (hne : ss ≠ [])
    (h : ∀ s ∈ ss, c ∉ s.toList) : splitChar c (joinChar c ss) = ss := by
  have hmem : ∀ l ∈ ss.map String.toList, c ∉ l := by
    intro l hl
    obtain ⟨s, hs, rfl⟩ := List.mem_map.mp hl
    exact h s hs
  have hmap : ss.map String.toList ≠ [] := by
    simpa using hne
  rw [splitChar, joinChar, String.toList_ofList, List.splitOn_intercalate c hmem hmap,
    List.map_map]
  conv => rhs; rw [← List.map_id ss]
  refine List.map_congr_left fun s _ ↦ ?_
  rw [Function.comp_apply, String.ofList_toList, id_eq]

/-- The parts of a text that was cut do not hold the separator. -/
theorem notMem_of_mem_splitOn {c : Char} {cs part : List Char} (h : part ∈ cs.splitOn c) :
    c ∉ part := by
  induction cs generalizing part with
  | nil =>
      rw [List.splitOn_nil, List.mem_singleton] at h
      rw [h]
      exact List.not_mem_nil
  | cons d cs ih =>
      rw [List.splitOn, List.splitOnP_cons_eq_if_modifyHead, ← List.splitOn] at h
      split at h
      · rcases List.mem_cons.mp h with rfl | h
        · exact List.not_mem_nil
        · exact ih h
      · rename_i hd
        cases hcs : cs.splitOn c with
        | nil =>
            rw [hcs] at h
            exact absurd h List.not_mem_nil
        | cons p ps =>
            rw [hcs, List.modifyHead_cons] at h
            rw [hcs] at ih
            rcases List.mem_cons.mp h with rfl | h
            · have hne : c ≠ d := fun hcd ↦ hd (by simp [hcd])
              exact List.not_mem_cons_of_ne_of_not_mem hne (ih List.mem_cons_self)
            · exact ih (.tail _ h)

/-- Nothing is glued together, or only the empty text. -/
theorem joinChar_eq_empty_iff {c : Char} {ss : List String} :
    joinChar c ss = "" ↔ ss = [] ∨ ss = [""] := by
  constructor
  · intro h
    have hempty : [c].intercalate (ss.map String.toList) = [] := String.ofList_injective h
    rcases ss with _ | ⟨s, _ | ⟨s', ss⟩⟩
    · exact .inl rfl
    · have hs : s.toList ++ [] = [] := hempty
      rw [List.append_nil] at hs
      exact .inr (congrArg (fun s ↦ [s]) (String.toList_eq_nil_iff.mp hs))
    · simp [List.intercalate] at hempty
  · rintro (rfl | rfl)
    · rfl
    · rfl

theorem notMem_of_mem_throughColumn {s : String} {ss : List String} (h : s ∈ throughColumn ss) :
    '\n' ∉ s.toList := by
  unfold throughColumn at h
  split at h
  · cases h
  · obtain ⟨cs, hcs, rfl⟩ := List.mem_map.mp h
    rw [String.toList_ofList]
    exact notMem_of_mem_splitOn hcs

/-- **Round trip.**  A column gives a list back if and only if no text has a newline in it and
the list is not the empty text alone. -/
theorem throughColumn_eq_self_iff {ss : List String} :
    throughColumn ss = ss ↔ (∀ s ∈ ss, '\n' ∉ s.toList) ∧ ss ≠ [""] := by
  constructor
  · intro h
    refine ⟨fun s hs ↦ notMem_of_mem_throughColumn (h.symm ▸ hs), ?_⟩
    rintro rfl
    cases h
  · rintro ⟨hlines, hne⟩
    unfold throughColumn
    split
    · rename_i hempty
      exact ((joinChar_eq_empty_iff.mp hempty).resolve_right hne).symm
    · rename_i hfull
      refine splitChar_joinChar ?_ hlines
      rintro rfl
      exact hfull rfl

/-! ## Searching and trimming -/

/-- One text occurs in another. -/
def hasInfix (sub s : String) : Bool := s.toList.tails.any sub.toList.isPrefixOf

/-- Replace the occurrences of a text that do not overlap, from the left.  `skip`
characters belong to an occurrence that was replaced already. -/
def replaceFrom (old new : List Char) (skip : Nat) : List Char → List Char
  | [] => []
  | c :: cs =>
      match skip with
      | k + 1 => replaceFrom old new k cs
      | 0 =>
          if old.isPrefixOf (c :: cs) then new ++ replaceFrom old new (old.length - 1) cs
          else c :: replaceFrom old new 0 cs

/-- `strings.ReplaceAll`, of a text that is not empty. -/
def replaceAll (old new s : String) : String :=
  String.ofList (replaceFrom old.toList new.toList 0 s.toList)

example : replaceAll "ab" "x" "abcabab" = "xcxx" := by decide

/-- Drop the characters at both ends that satisfy a predicate. -/
def trimWhere (p : Char → Bool) (s : String) : String :=
  String.ofList (((s.toList.dropWhile p).reverse.dropWhile p).reverse)

/-! ## Letters up to case -/

/-- A lower-case letter and its upper-case letter, in either order, or the same character
twice. -/
def CaseEq (c d : Char) : Prop :=
  c = d ∨ (c.isUpper ∧ d.toNat = c.toNat + 32) ∨ (d.isUpper ∧ c.toNat = d.toNat + 32)

theorem isUpper_iff {c : Char} : c.isUpper = true ↔ 65 ≤ c.toNat ∧ c.toNat ≤ 90 := by
  refine Iff.trans decide_eq_true_iff ?_
  exact and_congr UInt32.le_iff_toNat_le UInt32.le_iff_toNat_le

theorem toNat_toLower (c : Char) :
    c.toLower.toNat = if 65 ≤ c.toNat ∧ c.toNat ≤ 90 then c.toNat + 32 else c.toNat := by
  by_cases h : c.isUpper = true
  · obtain ⟨hlo, hhi⟩ := isUpper_iff.mp h
    have hlower : c.toLower = _ := dif_pos (of_decide_eq_true h)
    rw [hlower, if_pos ⟨hlo, hhi⟩]
    show (c.val + 32).toNat = c.val.toNat + 32
    rw [UInt32.toNat_add]
    exact Nat.mod_eq_of_lt (Nat.lt_of_le_of_lt (Nat.add_le_add_right hhi 32) (by decide))
  · have hnot : ¬ (c.val ≥ 'A'.val ∧ c.val ≤ 'Z'.val) := fun hc ↦ h (decide_eq_true hc)
    have hlower : c.toLower = c := dif_neg hnot
    rw [hlower, if_neg fun hc ↦ h (isUpper_iff.mpr hc)]

/-- Two characters have the same lower case if and only if they are equal up to case. -/
theorem toLower_eq_iff {c d : Char} : c.toLower = d.toLower ↔ CaseEq c d := by
  rw [← Char.toNat_inj, toNat_toLower, toNat_toLower, CaseEq, ← Char.toNat_inj, isUpper_iff,
    isUpper_iff]
  split
  · split
    · omega
    · omega
  · split
    · omega
    · omega

/-- A character below the letters is equal to no other up to case. -/
theorem CaseEq.eq_of_lt {c d : Char} (h : CaseEq c d) (hc : c.toNat < 65) : d = c := by
  rcases h with h | ⟨hupper, -⟩ | ⟨hupper, h⟩
  · exact h.symm
  · have := isUpper_iff.mp hupper
    omega
  · have := isUpper_iff.mp hupper
    omega

end GigMcp.Data
