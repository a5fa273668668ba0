import Typestate.Identifier

/-!
# The three passes to a normal form

A path is normalised by trimming it, taking one hash segment off its end and leaving generic arguments
out. Each pass only ever takes something away. So a path is its own normal form exactly if none of the
three finds anything to take, and this can be seen from the path: from its two ends, and from whether a
bracket follows a name anywhere.

## Contents

- §1 Blanks
- §2 The hash segment
- §3 Generic arguments
- §4 Settled paths
-/

namespace Typestate

/-! ## §1 Blanks -/

namespace Text

/-- Neither end of the text is blank. -/
structure Trimmed (cs : List Char) : Prop where
  head : ∀ c, cs.head? = some c → isBlank c = false
  last : ∀ c, cs.getLast? = some c → isBlank c = false

variable {cs : List Char}

theorem dropWhile_isBlank_eq_self_iff :
    cs.dropWhile isBlank = cs ↔ ∀ c, cs.head? = some c → isBlank c = false := by
  cases cs with
  | nil => simp
  | cons c rest =>
    cases hc : isBlank c with
    | true =>
      have hshort := (List.dropWhile_sublist isBlank (l := rest)).length_le
      have hne : rest.dropWhile isBlank ≠ c :: rest := by
        intro heq
        rw [heq, List.length_cons] at hshort
        exact Nat.not_succ_le_self _ hshort
      simp [hc, hne]
    | false => simp [hc]

theorem trimEnd_eq_self_iff : trimEnd cs = cs ↔ ∀ c, cs.getLast? = some c → isBlank c = false := by
  rw [trimEnd, List.reverse_eq_iff, dropWhile_isBlank_eq_self_iff, List.head?_reverse]

theorem prefix_trimEnd (cs : List Char) : trimEnd cs <+: cs := by
  rw [← List.reverse_suffix, trimEnd, List.reverse_reverse]
  exact List.dropWhile_suffix isBlank

theorem trim_sublist (cs : List Char) : (trim cs).Sublist cs :=
  (prefix_trimEnd _).sublist.trans (List.dropWhile_sublist isBlank)

theorem trim_eq_self_iff : trim cs = cs ↔ Trimmed cs := by
  constructor
  · intro h
    -- were the blanks in front taken off, no blank could come back
    have hfront : cs.dropWhile isBlank = cs := by
      refine (List.dropWhile_sublist isBlank).eq_of_length_le ?_
      calc cs.length = (trim cs).length := by rw [h]
        _ ≤ (cs.dropWhile isBlank).length := (prefix_trimEnd _).length_le
    refine ⟨dropWhile_isBlank_eq_self_iff.1 hfront, trimEnd_eq_self_iff.1 ?_⟩
    rwa [trim, hfront] at h
  · intro h
    rw [trim, dropWhile_isBlank_eq_self_iff.2 h.head, trimEnd_eq_self_iff.2 h.last]

/-- Blanks on either side of a text without blank ends are all that is taken off. -/
theorem trim_append {before core after : List Char} (hbefore : ∀ c ∈ before, isBlank c = true)
    (hafter : ∀ c ∈ after, isBlank c = true) (hcore : Trimmed core) (hne : core ≠ []) :
    trim (before ++ core ++ after) = core := by
  have hfront : (core ++ after).dropWhile isBlank = core ++ after := by
    obtain ⟨c, rest, rfl⟩ := List.exists_cons_of_ne_nil hne
    exact dropWhile_isBlank_eq_self_iff.2 hcore.head
  have hblank : ∀ c ∈ after.reverse, isBlank c = true := fun c hc => hafter c (List.mem_reverse.1 hc)
  rw [trim, List.append_assoc, List.dropWhile_append_of_pos hbefore, hfront, trimEnd,
    List.reverse_append, List.dropWhile_append_of_pos hblank]
  exact trimEnd_eq_self_iff.2 hcore.last

/-- The code points of the blanks. -/
def blankCodes : List Nat :=
  [0x09, 0x0A, 0x0B, 0x0C, 0x0D, 0x20, 0x85, 0xA0, 0x1680, 0x2000, 0x2001, 0x2002, 0x2003, 0x2004,
    0x2005, 0x2006, 0x2007, 0x2008, 0x2009, 0x200A, 0x2028, 0x2029, 0x202F, 0x205F, 0x3000]

theorem mem_blankCodes {c : Char} (h : isBlank c = true) : c.toNat ∈ blankCodes := by
  simp only [isBlank, Bool.or_eq_true, Bool.and_eq_true, decide_eq_true_eq, beq_iff_eq] at h
  simp only [blankCodes, List.mem_cons, List.not_mem_nil, or_false]
  omega

end Text

namespace Identifier

theorem isBlank_of_isNameCharacter {c : Char} (h : isNameCharacter c = true) :
    Text.isBlank c = false := by
  have hcodes : ∀ n ∈ Text.blankCodes, n ≠ '_'.toNat ∧
      (Text.inRanges Text.europeanRanges n || Text.inRanges Text.easternRanges n ||
        Text.inRanges Text.historicRanges n || Text.inRanges Text.supplementaryRanges n) = false := by
    decide +kernel
  refine Bool.eq_false_iff.2 fun hblank => ?_
  obtain ⟨hline, hranges⟩ := hcodes _ (Text.mem_blankCodes hblank)
  simp only [isNameCharacter, Bool.or_eq_true, beq_iff_eq] at h
  rcases h with h | rfl
  · exact absurd h (by rw [Text.isAlphanumeric, hranges]; decide)
  · exact hline rfl

/-! ## §2 The hash segment -/

/-- Sixteen lower-case hexadecimal digits. -/
structure IsHash (digits : List Char) : Prop where
  length : digits.length = 16
  digits : ∀ d ∈ digits, isHashDigit d = true

/-- What stands in front of a hash. -/
def hashMark : List Char := [':', ':', 'h']

/-- The path ends in a hash segment. -/
def EndsInHash (path : List Char) : Prop :=
  ∃ front digits, IsHash digits ∧ path = front ++ (hashMark ++ digits)

theorem isHashSegment_iff {cs : List Char} :
    isHashSegment cs = true ↔ ∃ digits, IsHash digits ∧ cs = hashMark ++ digits := by
  constructor
  · intro h
    unfold isHashSegment at h
    split at h
    · next digits =>
      simp only [Bool.and_eq_true, beq_iff_eq, List.all_eq_true] at h
      exact ⟨digits, ⟨h.1, h.2⟩, rfl⟩
    · cases h
  · rintro ⟨digits, hdigits, rfl⟩
    simpa [isHashSegment, hashMark, hdigits.length] using hdigits.digits

theorem length_hashSegment {digits : List Char} (h : IsHash digits) :
    (hashMark ++ digits).length = hashSegmentLength := by
  rw [List.length_append, h.length]
  rfl

theorem dropHash_append (front : List Char) {digits : List Char} (h : IsHash digits) :
    dropHash (front ++ (hashMark ++ digits)) = front := by
  have hkept : (front ++ (hashMark ++ digits)).length - hashSegmentLength = front.length := by
    rw [List.length_append, length_hashSegment h, Nat.add_sub_cancel]
  have hsegment := isHashSegment_iff.2 ⟨digits, h, rfl⟩
  simp only [dropHash, hkept, List.drop_left, List.take_left, hsegment, if_true]

theorem dropHash_of_not_endsInHash {path : List Char} (h : ¬ EndsInHash path) :
    dropHash path = path := by
  unfold dropHash
  simp only
  split
  · next hsegment =>
    obtain ⟨digits, hdigits, heq⟩ := isHashSegment_iff.1 hsegment
    refine absurd ⟨path.take (path.length - hashSegmentLength), digits, hdigits, ?_⟩ h
    rw [← heq, List.take_append_drop]
  · rfl

theorem prefix_dropHash (path : List Char) : dropHash path <+: path := by
  unfold dropHash
  simp only
  split
  · exact List.take_prefix _ _
  · exact List.prefix_rfl

theorem dropHash_eq_self_iff {path : List Char} : dropHash path = path ↔ ¬ EndsInHash path := by
  refine ⟨?_, dropHash_of_not_endsInHash⟩
  rintro h ⟨front, digits, hdigits, rfl⟩
  rw [dropHash_append front hdigits] at h
  have hempty : hashMark ++ digits = [] := by simpa using h
  cases hempty

/-! ## §3 Generic arguments -/

/-- A bracket that opens generic arguments: the character in front of it belongs to a name. -/
def Opens (previous : Option Char) (path : List Char) : Prop :=
  path.head? = some '<' ∧ previous.any isNameCharacter = true

/-- Nothing in front is no name. -/
theorem not_opens_none {path : List Char} : ¬ Opens none path := fun h => Bool.false_ne_true h.2

section
variable {previous : Option Char} {c : Char} {rest : List Char}

theorem dropGenerics_cons_of_opens (h : Opens previous (c :: rest)) :
    dropGenerics 0 previous (c :: rest) = dropGenerics 1 (some c) rest := by
  have hc : (c == '<' && previous.any isNameCharacter) = true := by simpa [Opens] using h
  rw [dropGenerics, if_pos hc]

theorem dropGenerics_cons_of_not_opens (h : ¬ Opens previous (c :: rest)) :
    dropGenerics 0 previous (c :: rest) = c :: dropGenerics 0 (some c) rest := by
  have hc : ¬ (c == '<' && previous.any isNameCharacter) = true := by simpa [Opens] using h
  rw [dropGenerics, if_neg hc]

end

theorem dropGenerics_sublist (depth : Nat) (previous : Option Char) (path : List Char) :
    (dropGenerics depth previous path).Sublist path := by
  fun_induction dropGenerics depth previous path with
  | case1 => exact List.Sublist.refl _
  | case2 _ _ _ _ ih => exact ih.cons _
  | case3 _ _ _ _ ih => exact ih.cons_cons _
  | case4 _ _ _ _ _ ih => exact ih.cons _
  | case5 _ _ _ _ _ _ ih => exact ih.cons _
  | case6 _ _ _ _ _ _ ih => exact ih.cons _

theorem infix_cons_iff {c d : Char} {rest : List Char} :
    [c, '<'] <:+: d :: rest ↔ c = d ∧ rest.head? = some '<' ∨ [c, '<'] <:+: rest := by
  have hhead : ['<'] <+: rest ↔ rest.head? = some '<' := by
    cases rest with
    | nil => simp
    | cons e rest => simp [eq_comm]
  rw [List.infix_cons_iff, List.cons_prefix_cons, hhead]

/-- Nothing is left out exactly if no bracket follows a name. -/
theorem dropGenerics_eq_self_iff {previous : Option Char} {path : List Char} :
    dropGenerics 0 previous path = path ↔
      ¬ Opens previous path ∧ ∀ c, isNameCharacter c = true → ¬ [c, '<'] <:+: path := by
  induction path generalizing previous with
  | nil => simp [dropGenerics, Opens]
  | cons d rest ih =>
    by_cases hopens : Opens previous (d :: rest)
    · -- what is left is a part of the rest
      have hshort := (dropGenerics_sublist 1 (some d) rest).length_le
      refine iff_of_false (fun heq => ?_) fun h => h.1 hopens
      rw [dropGenerics_cons_of_opens hopens] at heq
      rw [heq, List.length_cons] at hshort
      exact Nat.not_succ_le_self _ hshort
    · rw [dropGenerics_cons_of_not_opens hopens, List.cons_inj_right, ih]
      simp only [infix_cons_iff, not_or]
      -- a bracket at the head of the rest has `d` in front of it
      constructor
      · rintro ⟨hfirst, hrest⟩
        refine ⟨hopens, fun c hc => ⟨?_, hrest c hc⟩⟩
        rintro ⟨rfl, hhead⟩
        exact hfirst ⟨hhead, hc⟩
      · rintro ⟨-, h⟩
        refine ⟨?_, fun c hc => (h c hc).2⟩
        rintro ⟨hhead, hd⟩
        exact (h d hd).1 ⟨rfl, hhead⟩

/-- The last character read, with one more character in front. -/
theorem getLast?_cons_or (c : Char) (rest : List Char) (previous : Option Char) :
    (c :: rest).getLast?.or previous = rest.getLast?.or (some c) := by
  rw [List.getLast?_cons]
  cases rest.getLast? <;> rfl

/-- What cannot open generic arguments is kept. -/
theorem dropGenerics_append {previous : Option Char} {front rest : List Char}
    (h : ∀ c ∈ front, c ≠ '<') :
    dropGenerics 0 previous (front ++ rest) =
      front ++ dropGenerics 0 (front.getLast?.or previous) rest := by
  induction front generalizing previous with
  | nil => rfl
  | cons c front ih =>
    have hc : c ≠ '<' := h c (List.mem_cons_self ..)
    have hfront : ∀ d ∈ front, d ≠ '<' := fun d hd => h d (List.mem_cons_of_mem _ hd)
    have hopens : ¬ Opens previous (c :: (front ++ rest)) := fun hopens =>
      hc (Option.some.inj hopens.1)
    rw [List.cons_append, dropGenerics_cons_of_not_opens hopens, ih hfront,
      getLast?_cons_or, List.cons_append]

/-! ## §4 Settled paths -/

/-- None of the three passes finds anything to take off. -/
structure Settled (path : List Char) : Prop where
  trimmed : Text.Trimmed path
  unhashed : ¬ EndsInHash path
  /-- No bracket follows a name. -/
  plain : ∀ c, isNameCharacter c = true → ¬ [c, '<'] <:+: path

/-- **The settled paths are the ones that are their own normal form.** -/
theorem normalizeChars_eq_self_iff {path : List Char} : normalizeChars path = path ↔ Settled path := by
  constructor
  · intro h
    -- the length is back at the end, so no pass has taken anything
    have hgenerics := (dropGenerics_sublist 0 none (dropHash (Text.trim path))).length_le
    have hhash := (prefix_dropHash (Text.trim path)).length_le
    have htrim := (Text.trim_sublist path).length_le
    have hlength : path.length ≤ (dropHash (Text.trim path)).length := by
      rw [normalizeChars] at h
      rwa [h] at hgenerics
    have htrimmed : Text.trim path = path :=
      (Text.trim_sublist path).eq_of_length_le (Nat.le_trans hlength hhash)
    rw [htrimmed] at hlength
    have hunhashed : dropHash path = path := (prefix_dropHash path).eq_of_length_le hlength
    rw [normalizeChars, htrimmed, hunhashed] at h
    exact ⟨Text.trim_eq_self_iff.1 htrimmed, dropHash_eq_self_iff.1 hunhashed,
      (dropGenerics_eq_self_iff.1 h).2⟩
  · intro h
    rw [normalizeChars, Text.trim_eq_self_iff.2 h.trimmed, dropHash_of_not_endsInHash h.unhashed]
    exact dropGenerics_eq_self_iff.2 ⟨not_opens_none, h.plain⟩

end Identifier

end Typestate
