import GigMcp.Proxy.Hosts
import Mathlib.Data.List.Forall2

/-!
# What an allowlist admits

`HostAllowed` compares lower-case texts and cuts a suffix off by its length.  `Admits` says
what an entry stands for without either: a host up to the case of its letters, or every host
that has one label before the entry's suffix.  All that follows is read off from there, the
limits of a wildcard from what can stand before its suffix.
-/

namespace GigMcp.Proxy

open GigMcp.Data

/-- Two texts are equal up to the case of letters. -/
def SameText (a b : List Char) : Prop := List.Forall₂ CaseEq a b

/-- What an entry of an allowlist stands for. -/
def Admits (host entry : List Char) : Prop :=
  SameText host entry ∨
    ∃ suffix label, entry = '*' :: '.' :: suffix ∧ label ≠ [] ∧ '.' ∉ label ∧
      SameText host (label ++ '.' :: suffix)

/-! ## Lower case -/

section Lower

variable {a b l x s : List Char}

theorem sameText_iff : SameText a b ↔ lower a = lower b := by
  rw [lower, lower, ← List.forall₂_eq_eq_eq, List.forall₂_map_left_iff, List.forall₂_map_right_iff]
  simp only [toLower_eq_iff, SameText]

theorem SameText.symm (h : SameText a b) : SameText b a :=
  sameText_iff.mpr (sameText_iff.mp h).symm

theorem SameText.trans (h : SameText a b) (h' : SameText b l) : SameText a l :=
  sameText_iff.mpr ((sameText_iff.mp h).trans (sameText_iff.mp h'))

theorem lower_append (a b : List Char) : lower (a ++ b) = lower a ++ lower b := List.map_append

/-- A dot is not a letter. -/
theorem toLower_eq_dot {c : Char} : c.toLower = '.' ↔ c = '.' := by
  have hdot : '.'.toLower = '.' := by decide
  constructor
  · exact fun h ↦ (toLower_eq_iff.mp (hdot.trans h.symm)).eq_of_lt (by decide)
  · rintro rfl
    exact hdot

theorem dot_mem_lower : '.' ∈ lower l ↔ '.' ∈ l := by
  rw [lower, List.mem_map]
  constructor
  · rintro ⟨c, hc, h⟩
    exact toLower_eq_dot.mp h ▸ hc
  · exact fun h ↦ ⟨'.', h, by decide⟩

theorem lower_eq_nil : lower l = [] ↔ l = [] := List.map_eq_nil_iff

/-- What ends in a dot in lower case ends in a dot. -/
theorem lower_eq_append_dot (h : lower x = lower l ++ ['.']) :
    ∃ l', x = l' ++ ['.'] ∧ lower l' = lower l := by
  obtain ⟨l', d, rfl, hl, hd⟩ := List.map_eq_append_iff.mp h
  obtain ⟨c, rfl, hc⟩ := List.map_eq_singleton_iff.mp hd
  exact ⟨l', by rw [toLower_eq_dot.mp hc], hl⟩

end Lower

theorem exists_mem_of_forall₂ {α : Type} {R : α → α → Prop} {l l' : List α}
    (h : List.Forall₂ R l l') : ∀ a ∈ l, ∃ b ∈ l', R a b := by
  induction h with
  | nil => exact List.forall_mem_nil _
  | cons hab _ ih =>
      refine List.forall_mem_cons.mpr ⟨⟨_, List.mem_cons_self, hab⟩, fun a ha ↦ ?_⟩
      obtain ⟨b, hb, hr⟩ := ih a ha
      exact ⟨b, List.mem_cons_of_mem _ hb, hr⟩

/-! ## The grammar -/

section Grammar

variable {host host' : String} {list list' : List String}

/-- A suffix that is cut off by its length. -/
theorem wildcardAllows_iff {host suffix : List Char} :
    wildcardAllows host suffix = true ↔ ∃ label, label ≠ [] ∧ '.' ∉ label ∧ host = label ++ suffix := by
  simp only [wildcardAllows, Bool.and_eq_true, List.isSuffixOf_iff_suffix, decide_eq_true_eq,
    Bool.not_eq_true', List.contains_eq_mem, decide_eq_false_iff_not]
  constructor
  · rintro ⟨⟨label, rfl⟩, hne, hdot⟩
    rw [List.length_append, Nat.add_sub_cancel, List.take_left] at hne hdot
    exact ⟨label, hne, hdot, rfl⟩
  · rintro ⟨label, hne, hdot, rfl⟩
    rw [List.length_append, Nat.add_sub_cancel, List.take_left]
    exact ⟨List.suffix_append label suffix, hne, hdot⟩

/-- A wildcard in lower case stands for what it stands for. -/
theorem wildcardAllows_lower_iff {host rest : List Char} :
    wildcardAllows (lower host) (lower ('.' :: rest)) = true ↔
      ∃ label, label ≠ [] ∧ '.' ∉ label ∧ SameText host (label ++ '.' :: rest) := by
  rw [wildcardAllows_iff]
  constructor
  · rintro ⟨label, hne, hdot, h⟩
    obtain ⟨front, back, rfl, rfl, hback⟩ := List.map_eq_append_iff.mp h
    refine ⟨front, fun hnil ↦ hne (lower_eq_nil.mpr hnil), fun hmem ↦ hdot (dot_mem_lower.mpr hmem), ?_⟩
    rw [sameText_iff, lower_append, lower_append]
    exact congrArg (lower front ++ ·) hback
  · rintro ⟨label, hne, hdot, h⟩
    refine ⟨lower label, fun hnil ↦ hne (lower_eq_nil.mp hnil),
      fun hmem ↦ hdot (dot_mem_lower.mp hmem), ?_⟩
    rw [← lower_append]
    exact sameText_iff.mp h

theorem entryAllows_iff {entry : String} :
    entryAllows host entry = true ↔ Admits host.toList entry.toList := by
  rw [entryAllows, Bool.or_eq_true, decide_eq_true_iff, ← sameText_iff, Admits]
  refine or_congr_right ?_
  split
  · rename_i rest hentry
    rw [wildcardAllows_lower_iff]
    constructor
    · rintro ⟨label, h⟩
      exact ⟨rest, label, hentry, h⟩
    · rintro ⟨suffix, label, heq, h⟩
      obtain rfl : rest = suffix := by
        rw [hentry] at heq
        exact (List.cons.inj (List.cons.inj heq).2).2
      exact ⟨label, h⟩
  · rename_i hno
    refine ⟨fun h ↦ (nomatch h), ?_⟩
    rintro ⟨suffix, label, heq, -⟩
    exact absurd heq (hno suffix)

theorem hostAllowed_iff : hostAllowed host list = true ↔ ∃ e ∈ list, Admits host.toList e.toList := by
  rw [hostAllowed, List.any_eq_true]
  simp only [entryAllows_iff]

/-- What an entry admits does not depend on the case of letters. -/
theorem Admits.congr {h h' e e' : List Char} (hhost : SameText h h') (hentry : SameText e e')
    (hadmits : Admits h e) : Admits h' e' := by
  rcases hadmits with hsame | ⟨suffix, label, rfl, hne, hdot, hsame⟩
  · exact .inl (hhost.symm.trans (hsame.trans hentry))
  · -- the star and the dot are not letters, so the other entry has them too
    cases hentry with
    | cons hstar htail =>
        cases htail with
        | cons hsep hsuffix =>
            rename_i suffix'
            obtain rfl := hstar.eq_of_lt (by decide)
            obtain rfl := hsep.eq_of_lt (by decide)
            refine .inr ⟨suffix', label, rfl, hne, hdot, hhost.symm.trans (hsame.trans ?_)⟩
            have hlower := sameText_iff.mp hsuffix
            rw [sameText_iff, lower_append, lower_append]
            exact congrArg (fun t ↦ lower label ++ '.' :: t) hlower

/-- Every entry of a list is, up to case, one of another. -/
theorem hostAllowed_mono (hhost : SameText host.toList host'.toList)
    (hlist : ∀ e ∈ list, ∃ e' ∈ list', SameText e.toList e'.toList)
    (h : hostAllowed host list = true) : hostAllowed host' list' = true := by
  obtain ⟨e, he, hadmits⟩ := hostAllowed_iff.mp h
  obtain ⟨e', he', hsame⟩ := hlist e he
  exact hostAllowed_iff.mpr ⟨e', he', hadmits.congr hhost hsame⟩

/-- What a wildcard admits, among the hosts that end like its suffix: those with one label and
a dot before it. -/
theorem wildcard_iff {suffix : String} {front : List Char}
    (hends : SameText host.toList (front ++ suffix.toList)) :
    hostAllowed host ["*." ++ suffix] = true ↔
      ∃ label, label ≠ [] ∧ '.' ∉ label ∧ front = label ++ ['.'] := by
  have hentry : ("*." ++ suffix).toList = '*' :: '.' :: suffix.toList := by simp
  rw [hostAllowed_iff]
  simp only [List.mem_singleton, exists_eq_left, hentry]
  constructor
  · intro hadmits
    obtain ⟨label, hne, hdot, hsame⟩ : ∃ label, label ≠ [] ∧ '.' ∉ label ∧
        SameText host.toList (label ++ '.' :: suffix.toList) := by
      rcases hadmits with hsame | ⟨suffix', label, heq, h⟩
      · exact ⟨['*'], by decide, by decide, hsame⟩
      · obtain rfl := (List.cons.inj (List.cons.inj heq).2).2
        exact ⟨label, h⟩
    have hlower := sameText_iff.mp (hends.symm.trans hsame)
    rw [lower_append, List.append_cons, lower_append, List.append_left_inj, lower_append] at hlower
    obtain ⟨label', rfl, hlabel⟩ := lower_eq_append_dot hlower
    refine ⟨label', fun hnil ↦ ?_, fun hmem ↦ ?_, rfl⟩
    · rw [hnil] at hlabel
      exact hne (lower_eq_nil.mp hlabel.symm)
    · exact hdot (dot_mem_lower.mp (hlabel ▸ dot_mem_lower.mpr hmem))
  · rintro ⟨label, hne, hdot, rfl⟩
    rw [List.append_assoc] at hends
    exact .inr ⟨suffix.toList, label, rfl, hne, hdot, hends⟩

end Grammar

/-- **An allowlist admits exactly its grammar.**  So the answer does not depend on the case of
letters, on the order of the entries or on their number, more entries admit more, and a
wildcard admits neither its suffix alone nor two labels before it nor anything that merely
ends in the same characters. -/
theorem hostAllowed_exactly :
    (∀ host list, hostAllowed host list = true ↔ ∃ e ∈ list, Admits host.toList e.toList) ∧
      (∀ host host' list list', SameText host.toList host'.toList →
        List.Forall₂ (fun e e' ↦ SameText e.toList e'.toList) list list' →
        hostAllowed host list = hostAllowed host' list') ∧
      (∀ host list list', (∀ e, e ∈ list ↔ e ∈ list') → hostAllowed host list = hostAllowed host list') ∧
      (∀ host list list', list ⊆ list' → hostAllowed host list = true → hostAllowed host list' = true) ∧
      ∀ (host suffix : String) (front : List Char), SameText host.toList (front ++ suffix.toList) →
        (front = [] ∨ (∃ label label', front = label ++ '.' :: label' ++ ['.']) ∨
          front.getLast? ≠ some '.') →
        hostAllowed host ["*." ++ suffix] = false := by
  have hrefl : ∀ a : List Char, SameText a a := fun a ↦ sameText_iff.mpr rfl
  refine ⟨fun host list ↦ hostAllowed_iff, ?_, ?_, ?_, ?_⟩
  · intro host host' list list' hhost hlist
    have hthere := exists_mem_of_forall₂ hlist
    have hback := exists_mem_of_forall₂ (hlist.flip.imp fun _ _ h ↦ SameText.symm h)
    rw [Bool.eq_iff_iff]
    exact ⟨hostAllowed_mono hhost hthere, hostAllowed_mono hhost.symm hback⟩
  · intro host list list' hlist
    rw [Bool.eq_iff_iff]
    exact ⟨hostAllowed_mono (hrefl _) fun e he ↦ ⟨e, (hlist e).mp he, hrefl _⟩,
      hostAllowed_mono (hrefl _) fun e he ↦ ⟨e, (hlist e).mpr he, hrefl _⟩⟩
  · intro host list list' hsub
    exact hostAllowed_mono (hrefl _) fun e he ↦ ⟨e, hsub he, hrefl _⟩
  · intro host suffix front hends hfront
    rw [← Bool.not_eq_true, wildcard_iff hends]
    rintro ⟨label, hne, hdot, rfl⟩
    rcases hfront with hnil | ⟨l, l', heq⟩ | hlast
    · exact absurd hnil (by simp)
    · obtain rfl := List.append_cancel_right heq
      exact hdot (by simp)
    · exact hlast (by simp)

example : hostAllowed "API.github.com" ["github.com", "*.GitHub.com"] = true := by decide

end GigMcp.Proxy
