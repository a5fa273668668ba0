import Typestate.Proofs.Classification
import Typestate.Proofs.Fingerprints
import Typestate.Proofs.NormalForm

/-!
# The spellings of a path

A path is a row of names, and an identifier spells it with more than the names: with generic arguments
behind some of them, a hash at the end, and blanks around the whole. Arguments are themselves any text
in which brackets match, so they can hold paths, arrows and further arguments. The normal form of a
spelling is the row of names alone, and so all spellings of one row are recognised as one target.

## Contents

- §1 Matching brackets
- §2 Segments
- §3 Spellings
- §4 The normal form of a spelling
- §5 Spellings of the same names
-/

namespace Typestate

namespace Identifier

/-! ## §1 Brackets -/

/-- The number of closing brackets. A `>` right after `-` belongs to an arrow and closes nothing. -/
def closers (previous : Option Char) : List Char → Nat
  | [] => 0
  | c :: rest => (if c = '>' ∧ previous ≠ some '-' then 1 else 0) + closers (some c) rest

/-- Behind `depth` open brackets, the closing brackets of the text match these and its own. -/
structure Matched (depth : Nat) (previous : Option Char) (text : List Char) : Prop where
  /-- Nowhere have more brackets been closed than opened. -/
  sane : ∀ front, front <+: text → closers previous front ≤ depth + front.count '<'
  /-- At the end, no bracket is left open. -/
  settled : closers previous text = depth + text.count '<'

/-- What can stand between the brackets of an argument list. The text is read behind the bracket that
opens the list, and does not take the closing one for the head of an arrow. -/
structure IsArguments (text : List Char) : Prop where
  matched : Matched 0 (some '<') text
  ending : text.getLast? ≠ some '-'

instance (depth : Nat) (previous : Option Char) (text : List Char) :
    Decidable (Matched depth previous text) :=
  decidable_of_iff
    ((∀ front ∈ text.inits, closers previous front ≤ depth + front.count '<') ∧
      closers previous text = depth + text.count '<')
    ⟨fun h => ⟨fun front hfront => h.1 front ((List.mem_inits front text).2 hfront), h.2⟩,
      fun h => ⟨fun front hfront => h.sane front ((List.mem_inits front text).1 hfront), h.settled⟩⟩

instance (text : List Char) : Decidable (IsArguments text) :=
  decidable_of_iff (Matched 0 (some '<') text ∧ text.getLast? ≠ some '-')
    ⟨fun h => ⟨h.1, h.2⟩, fun h => ⟨h.matched, h.ending⟩⟩

section
variable {depth : Nat} {previous : Option Char} {c : Char} {rest : List Char}

theorem dropGenerics_open :
    dropGenerics (depth + 1) previous ('<' :: rest) = dropGenerics (depth + 2) (some '<') rest := by
  simp [dropGenerics]

theorem dropGenerics_close (h : previous ≠ some '-') :
    dropGenerics (depth + 1) previous ('>' :: rest) = dropGenerics depth (some '>') rest := by
  simp [dropGenerics, h]

theorem dropGenerics_inside (hopen : c ≠ '<') (hclose : ¬ (c = '>' ∧ previous ≠ some '-')) :
    dropGenerics (depth + 1) previous (c :: rest) = dropGenerics (depth + 1) (some c) rest := by
  simp_all [dropGenerics]

namespace Matched

theorem of_open (h : Matched depth previous ('<' :: rest)) : Matched (depth + 1) (some '<') rest where
  sane := by
    intro front hfront
    have hsane := h.sane ('<' :: front) (List.cons_prefix_cons.2 ⟨rfl, hfront⟩)
    simp [closers] at hsane
    omega
  settled := by
    have hsettled := h.settled
    simp [closers] at hsettled
    omega

/-- A closing bracket finds an open one. -/
theorem of_close (h : Matched depth previous ('>' :: rest)) (hprevious : previous ≠ some '-') :
    ∃ outer, depth = outer + 1 ∧ Matched outer (some '>') rest := by
  have hopen : 1 ≤ depth := by
    have hsane := h.sane ['>'] (List.cons_prefix_cons.2 ⟨rfl, List.nil_prefix⟩)
    simpa [closers, hprevious] using hsane
  refine ⟨depth - 1, by omega, ⟨fun front hfront => ?_, ?_⟩⟩
  · have hsane := h.sane ('>' :: front) (List.cons_prefix_cons.2 ⟨rfl, hfront⟩)
    simp [closers, hprevious] at hsane
    omega
  · have hsettled := h.settled
    simp [closers, hprevious] at hsettled
    omega

theorem of_inside (h : Matched depth previous (c :: rest)) (hopen : c ≠ '<')
    (hclose : ¬ (c = '>' ∧ previous ≠ some '-')) : Matched depth (some c) rest where
  sane := by
    intro front hfront
    have hsane := h.sane (c :: front) (List.cons_prefix_cons.2 ⟨rfl, hfront⟩)
    simpa [closers, hclose, List.count_cons, hopen] using hsane
  settled := by simpa [closers, hclose, List.count_cons, hopen] using h.settled

/-- Behind a matched text the scan is back at the outermost open bracket. -/
theorem dropGenerics_append {text : List Char} (h : Matched depth previous text)
    (hending : text.getLast?.or previous ≠ some '-') (rest : List Char) :
    dropGenerics (depth + 1) previous (text ++ '>' :: rest) = dropGenerics 0 (some '>') rest := by
  -- what is left of the text is matched behind as many brackets as the scan has open
  induction text generalizing depth previous with
  | nil =>
    have hsettled : depth = 0 := by simpa [closers] using h.settled.symm
    subst hsettled
    exact dropGenerics_close hending
  | cons c text ih =>
    rw [getLast?_cons_or] at hending
    rw [List.cons_append]
    by_cases hopen : c = '<'
    · subst hopen
      rw [dropGenerics_open, ih h.of_open hending]
    · by_cases hclose : c = '>' ∧ previous ≠ some '-'
      · obtain ⟨rfl, hprevious⟩ := hclose
        obtain ⟨outer, rfl, hmatched⟩ := h.of_close hprevious
        rw [dropGenerics_close hprevious, ih hmatched hending]
      · rw [dropGenerics_inside hopen hclose, ih (h.of_inside hopen hclose) hending]

end Matched

theorem dropGenerics_arguments {arguments : List Char} (h : IsArguments arguments)
    (hc : isNameCharacter c = true) (rest : List Char) :
    dropGenerics 0 (some c) ('<' :: (arguments ++ '>' :: rest)) = dropGenerics 0 (some '>') rest := by
  have hending : arguments.getLast?.or (some '<') ≠ some '-' := by
    have hlast := h.ending
    cases hcase : arguments.getLast? with
    | none => decide
    | some d => rwa [hcase] at hlast
  have hopens : Opens (some c) ('<' :: (arguments ++ '>' :: rest)) := ⟨rfl, hc⟩
  rw [dropGenerics_cons_of_opens hopens]
  exact h.matched.dropGenerics_append hending rest

end

/-! ## §2 Segments -/

theorem ne_of_isNameCharacter {c d : Char} (hc : isNameCharacter c = true)
    (hd : isNameCharacter d = false) : c ≠ d := by
  rintro rfl
  rw [hc] at hd
  cases hd

theorem isNameCharacter_mark : isNameCharacter '<' = false ∧ isNameCharacter ':' = false := by
  decide +kernel

/-- A name with the generic arguments that it is given. -/
structure Segment where
  name : List Char
  arguments : Option (List Char)
  name_ne_nil : name ≠ []
  isName : ∀ c ∈ name, isNameCharacter c = true
  isArguments : ∀ text ∈ arguments, IsArguments text

namespace Segment

/-- The segment as written. -/
def text (s : Segment) : List Char :=
  match s.arguments with
  | none => s.name
  | some arguments => s.name ++ '<' :: (arguments ++ ['>'])

variable (s : Segment)

theorem exists_getLast?_name : ∃ c, s.name.getLast? = some c ∧ isNameCharacter c = true :=
  ⟨_, List.getLast?_eq_some_getLast s.name_ne_nil, s.isName _ (List.getLast_mem s.name_ne_nil)⟩

theorem ne_open_of_mem : ∀ c ∈ s.name, c ≠ '<' :=
  fun c hc => ne_of_isNameCharacter (s.isName c hc) isNameCharacter_mark.1

theorem ne_colon_of_mem : ∀ c ∈ s.name, ¬ c = ':' :=
  fun c hc => ne_of_isNameCharacter (s.isName c hc) isNameCharacter_mark.2

theorem text_of_none (h : s.arguments = none) : s.text = s.name := by
  rw [text, h]

theorem text_of_some {arguments : List Char} (h : s.arguments = some arguments) :
    s.text = s.name ++ ('<' :: arguments) ++ ['>'] := by
  rw [text, h, List.append_assoc]
  rfl

theorem exists_head?_text : ∃ c, s.text.head? = some c ∧ isNameCharacter c = true := by
  obtain ⟨c, rest, hname⟩ := List.exists_cons_of_ne_nil s.name_ne_nil
  have hc : isNameCharacter c = true := s.isName c (hname ▸ List.mem_cons_self ..)
  unfold text
  split <;> exact ⟨c, by rw [hname]; rfl, hc⟩

/-- A segment ends in its name, or in the bracket that closes its arguments. -/
theorem exists_getLast?_text :
    ∃ c, s.text.getLast? = some c ∧
      (s.arguments = none ∧ isNameCharacter c = true ∨ s.arguments ≠ none ∧ c = '>') := by
  cases harguments : s.arguments with
  | none =>
    obtain ⟨c, hlast, hc⟩ := s.exists_getLast?_name
    exact ⟨c, by rw [s.text_of_none harguments, hlast], Or.inl ⟨rfl, hc⟩⟩
  | some arguments =>
    refine ⟨'>', ?_, Or.inr ⟨Option.some_ne_none _, rfl⟩⟩
    rw [s.text_of_some harguments, List.getLast?_concat]

/-- Of a segment the scan keeps the name. -/
theorem dropGenerics_text (previous : Option Char) (rest : List Char) :
    dropGenerics 0 previous (s.text ++ rest) = s.name ++ dropGenerics 0 s.text.getLast? rest := by
  obtain ⟨c, hlast, hc⟩ := s.exists_getLast?_name
  cases harguments : s.arguments with
  | none =>
    rw [s.text_of_none harguments, dropGenerics_append s.ne_open_of_mem, hlast, Option.some_or]
  | some arguments =>
    have hscan := dropGenerics_arguments (s.isArguments arguments harguments) hc rest
    have htext : s.text ++ rest = s.name ++ '<' :: (arguments ++ '>' :: rest) := by
      rw [s.text_of_some harguments]
      simp
    rw [htext, dropGenerics_append s.ne_open_of_mem, hlast, Option.some_or, hscan, s.text_of_some harguments,
      List.getLast?_concat]

end Segment

/-! ## §3 Spellings -/

/-- What stands between two segments. -/
def separator : List Char := [':', ':']

theorem ne_open_of_mem_separator : ∀ c ∈ separator, c ≠ '<' := by simp [separator]

/-- The parts in a row, with the separator between them. -/
def joined (parts : List (List Char)) : List Char := separator.intercalate parts

/-- The name would be taken for a hash behind a separator. -/
def HashLike (name : List Char) : Prop := ∃ digits, IsHash digits ∧ name = 'h' :: digits

/-- A path as an identifier spells it. -/
structure Spelling where
  /-- Blanks in front. -/
  before : List Char
  /-- All segments but the last one. -/
  front : List Segment
  last : Segment
  /-- The digits of the hash behind the last segment. -/
  hash : Option (List Char)
  /-- Blanks at the end. -/
  after : List Char
  blank_before : ∀ c ∈ before, Text.isBlank c = true
  blank_after : ∀ c ∈ after, Text.isBlank c = true
  isHash : ∀ digits ∈ hash, IsHash digits
  /-- What ends a spelling without a hash cannot be taken for one. -/
  unambiguous : hash = none → front ≠ [] → last.arguments = none → ¬ HashLike last.name

namespace Spelling

variable (s : Spelling)

/-- The segments in order. -/
def segments : List Segment := s.front ++ [s.last]

/-- The names in order. -/
def names : List (List Char) := s.segments.map (·.name)

/-- The hash as written. -/
def hashText : List Char :=
  match s.hash with
  | none => []
  | some digits => hashMark ++ digits

/-- The path as written, without the blanks. -/
def core : List Char := joined (s.segments.map (·.text)) ++ s.hashText

/-- The identifier. -/
def text : String := String.ofList (s.before ++ s.core ++ s.after)

end Spelling

/-- The parts in front of the last one, each with a separator behind it. -/
def led (parts : List (List Char)) : List Char := parts.flatMap (· ++ separator)

theorem joined_concat (parts : List (List Char)) (part : List Char) :
    joined (parts ++ [part]) = led parts ++ part := by
  unfold joined
  induction parts with
  | nil => simp [led]
  | cons first parts ih =>
    have hne : parts ++ [part] ≠ [] := by simp
    rw [List.cons_append, List.intercalate_cons_of_ne_nil hne, ih]
    simp [led]

theorem getLast?_led {parts : List (List Char)} (h : parts ≠ []) :
    (led parts).getLast? = some ':' := by
  obtain ⟨front, part, rfl⟩ := (List.eq_nil_or_concat parts).resolve_left h
  simp [led, separator]

/-! ## §4 The normal form -/

theorem toNat_of_isHashDigit {c : Char} (h : isHashDigit c = true) :
    48 ≤ c.toNat ∧ c.toNat ≤ 57 ∨ 97 ≤ c.toNat ∧ c.toNat ≤ 102 := by
  simp only [isHashDigit, Bool.or_eq_true, Bool.and_eq_true, decide_eq_true_eq, Char.le_def,
    UInt32.le_iff_toNat_le] at h
  exact h

theorem IsHash.ne_of_mem {digits : List Char} (h : IsHash digits) {c : Char} (hc : c ∈ digits) :
    c ≠ ':' ∧ c ≠ '>' ∧ Text.isBlank c = false := by
  have hcode := toNat_of_isHashDigit (h.digits c hc)
  refine ⟨?_, ?_, Bool.eq_false_iff.2 fun hblank => ?_⟩
  · rintro rfl
    revert hcode
    decide
  · rintro rfl
    revert hcode
    decide
  · have hmem := Text.mem_blankCodes hblank
    simp only [Text.blankCodes, List.mem_cons, List.not_mem_nil, or_false] at hmem
    omega

theorem IsHash.exists_getLast? {digits : List Char} (h : IsHash digits) :
    ∃ c ∈ digits, digits.getLast? = some c := by
  have hne : digits ≠ [] := by
    rintro rfl
    cases h.length
  exact ⟨_, List.getLast_mem hne, List.getLast?_eq_some_getLast hne⟩

/-- Behind parts with separators, what looks like a hash is one. -/
theorem endsInHash_led_iff {parts : List (List Char)} {name : List Char}
    (hname : ∀ c ∈ name, ¬ c = ':') :
    EndsInHash (led parts ++ name) ↔ parts ≠ [] ∧ HashLike name := by
  constructor
  · rintro ⟨before, digits, hdigits, heq⟩
    have hparts : parts ≠ [] := by
      -- a name alone has no separator in it
      rintro rfl
      have hmem : ':' ∈ name := by
        have hwhole : name = before ++ (hashMark ++ digits) := heq
        rw [hwhole]
        simp [hashMark]
      exact hname ':' hmem rfl
    -- both sides are seen behind their last separator
    have hback : ∀ c ∈ 'h' :: digits, ¬ c = ':' := by
      intro c hc
      rcases List.mem_cons.1 hc with rfl | hc
      · decide
      · exact (hdigits.ne_of_mem hc).1
    have hseam : led parts ++ name = (before ++ separator) ++ 'h' :: digits := by
      rw [heq]
      simp [hashMark, separator]
    have hbefore : (before ++ separator).getLast? = some ':' := by simp [separator]
    obtain ⟨-, hlike⟩ := append_inj_of_seam (p := (· = ':')) (getLast?_led hparts) rfl hbefore rfl
      hname hback hseam
    exact ⟨hparts, digits, hdigits, hlike⟩
  · rintro ⟨hparts, digits, hdigits, rfl⟩
    obtain ⟨front, part, rfl⟩ := (List.eq_nil_or_concat parts).resolve_left hparts
    exact ⟨led front ++ part, digits, hdigits, by simp [led, separator, hashMark]⟩

/-- The scan keeps the names and the separators. -/
theorem dropGenerics_joined (previous : Option Char) (front : List Segment) (last : Segment) :
    dropGenerics 0 previous (led (front.map (·.text)) ++ last.text) =
      led (front.map (·.name)) ++ last.name := by
  -- a segment closes all that it opens, so what was read before it makes no difference
  induction front generalizing previous with
  | nil =>
    have hlast := last.dropGenerics_text previous []
    simpa [led, dropGenerics] using hlast
  | cons s front ih =>
    have hled (p : List Char) (parts : List (List Char)) (rest : List Char) :
        led (p :: parts) ++ rest = p ++ (separator ++ (led parts ++ rest)) := by simp [led]
    rw [List.map_cons, List.map_cons, hled, hled, s.dropGenerics_text,
      dropGenerics_append ne_open_of_mem_separator, ih]

namespace Spelling

variable (s : Spelling)

theorem joined_texts :
    joined (s.segments.map (·.text)) = led (s.front.map (·.text)) ++ s.last.text := by
  rw [segments, List.map_append]
  exact joined_concat ..

theorem joined_names : joined s.names = led (s.front.map (·.name)) ++ s.last.name := by
  rw [names, segments, List.map_append]
  exact joined_concat ..

theorem exists_head?_core : ∃ c, s.core.head? = some c ∧ isNameCharacter c = true := by
  have hfirst : ∃ (first : Segment) (rest : List Char), s.core = first.text ++ rest := by
    rw [core, joined_texts]
    cases s.front with
    | nil => exact ⟨s.last, s.hashText, rfl⟩
    | cons first front => exact ⟨first, _, by simp [led]; rfl⟩
  obtain ⟨first, rest, heq⟩ := hfirst
  obtain ⟨c, hhead, hc⟩ := first.exists_head?_text
  exact ⟨c, by rw [heq, List.head?_append, hhead, Option.some_or], hc⟩

theorem exists_getLast?_core : ∃ c, s.core.getLast? = some c ∧ Text.isBlank c = false := by
  unfold core hashText
  cases hhash : s.hash with
  | none =>
    obtain ⟨c, hlast, hc⟩ := s.last.exists_getLast?_text
    refine ⟨c, by simp [joined_texts, hlast], ?_⟩
    rcases hc with ⟨-, hc⟩ | ⟨-, rfl⟩
    · exact isBlank_of_isNameCharacter hc
    · decide
  | some digits =>
    have hdigits := s.isHash digits hhash
    obtain ⟨c, hmem, hlast⟩ := hdigits.exists_getLast?
    exact ⟨c, by simp [List.getLast?_append, hlast], (hdigits.ne_of_mem hmem).2.2⟩

theorem trimmed_core : Text.Trimmed s.core := by
  obtain ⟨c, hhead, hc⟩ := s.exists_head?_core
  obtain ⟨d, hlast, hd⟩ := s.exists_getLast?_core
  constructor
  · intro e he
    cases hhead.symm.trans he
    exact isBlank_of_isNameCharacter hc
  · intro e he
    cases hlast.symm.trans he
    exact hd

/-- Without a hash there is nothing at the end that looks like one. -/
theorem not_endsInHash (h : s.hash = none) : ¬ EndsInHash (joined (s.segments.map (·.text))) := by
  intro hends
  rw [joined_texts] at hends
  -- the last character is a digit, not a bracket, so the last segment has no arguments
  have hplain : s.last.arguments = none := by
    obtain ⟨before, digits, hdigits, heq⟩ := hends
    obtain ⟨c, hlast, hc⟩ := s.last.exists_getLast?_text
    obtain ⟨d, hd, hdigit⟩ := hdigits.exists_getLast?
    have hsame := congrArg List.getLast? heq
    simp only [List.getLast?_append, hlast, hdigit, Option.some_or, Option.some.injEq] at hsame
    rcases hc with ⟨hplain, -⟩ | ⟨-, rfl⟩
    · exact hplain
    · exact absurd hsame.symm (hdigits.ne_of_mem hd).2.1
  rw [s.last.text_of_none hplain, endsInHash_led_iff s.last.ne_colon_of_mem] at hends
  exact s.unambiguous h (by simpa using hends.1) hplain hends.2

theorem dropHash_core : dropHash s.core = joined (s.segments.map (·.text)) := by
  unfold core hashText
  cases hhash : s.hash with
  | none => rw [List.append_nil, dropHash_of_not_endsInHash (s.not_endsInHash hhash)]
  | some digits => exact dropHash_append _ (s.isHash digits hhash)

/-- Of a spelling only the names are left. -/
theorem normalize_text : normalize s.text = String.ofList (joined s.names) := by
  have hne : s.core ≠ [] := by
    obtain ⟨c, hhead, -⟩ := s.exists_head?_core
    intro hnil
    rw [hnil] at hhead
    cases hhead
  have htrim : Text.trim (s.before ++ s.core ++ s.after) = s.core :=
    Text.trim_append s.blank_before s.blank_after s.trimmed_core hne
  rw [normalize, text, String.toList_ofList, normalizeChars, htrim, s.dropHash_core, s.joined_texts,
    dropGenerics_joined, s.joined_names]

/-! ## §5 Spellings of the same names -/

/-- **The normal form of a spelling is the row of its names.** All spellings of one row have the same
entry and the same marker, and are recognised as one target. -/
theorem normalize_spelling (s : Spelling) :
    normalize s.text = String.ofList (joined s.names) ∧
      ∀ s' : Spelling, s'.names = s.names → ∀ c : Classifier,
        c.known.get? (normalize s'.text) = c.known.get? (normalize s.text) ∧
          markedToken? (normalize s'.text) = markedToken? (normalize s.text) ∧
          ∀ mode, (c.classify mode s.text).provenance.isRecognised = true →
            (c.classify mode s'.text).token = (c.classify mode s.text).token ∧
              (c.classify mode s'.text).provenance = (c.classify mode s.text).provenance := by
  refine ⟨s.normalize_text, fun s' hnames c => ?_⟩
  have halike : normalize s.text = normalize s'.text := by
    rw [s.normalize_text, s'.normalize_text, hnames]
  exact ⟨by rw [halike], by rw [halike], c.recognised_alike halike⟩

/-- A spelling with a hash. -/
def hashedForget : Spelling where
  before := []
  front := [⟨"core".toList, none, by decide, List.all_eq_true.1 (by decide +kernel), by simp⟩,
    ⟨"mem".toList, none, by decide, List.all_eq_true.1 (by decide +kernel), by simp⟩]
  last := ⟨"forget".toList, none, by decide, List.all_eq_true.1 (by decide +kernel), by simp⟩
  hash := some "0123456789abcdef".toList
  after := []
  blank_before := by simp
  blank_after := by simp
  isHash := by
    rintro digits ⟨⟩
    exact ⟨by decide, List.all_eq_true.1 (by decide)⟩
  unambiguous := by simp

/-- A spelling with blanks around it, and with arguments that hold a path, an arrow and brackets. -/
def genericForget : Spelling where
  before := [' ']
  front := hashedForget.front
  last := ⟨"forget".toList, some "fn(<T as Iterator>::Item) -> Vec<u8>".toList, by decide,
    List.all_eq_true.1 (by decide +kernel), by
      rintro text ⟨⟩
      decide +kernel⟩
  hash := none
  after := ['\n']
  blank_before := List.all_eq_true.1 (by decide)
  blank_after := List.all_eq_true.1 (by decide)
  isHash := by simp
  unambiguous := by simp

/-- Both spellings are the built-in entry for `forget`. -/
theorem normalize_spelling_forget :
    hashedForget.text = "core::mem::forget::h0123456789abcdef" ∧
      genericForget.text = " core::mem::forget<fn(<T as Iterator>::Item) -> Vec<u8>>\n" ∧
      normalize hashedForget.text = "core::mem::forget" ∧
      KnownTable.builtin.get? (normalize genericForget.text) =
        some ⟨"core::mem::forget", .neutral, [], []⟩ ∧
      (Classifier.classify ⟨KnownTable.builtin, .empty⟩ .factory genericForget.text).provenance =
        .curated := by
  have hnames : genericForget.names = hashedForget.names := rfl
  obtain ⟨hnormal, halike⟩ := normalize_spelling hashedForget
  obtain ⟨hget, -, hclassify⟩ := halike genericForget hnames ⟨KnownTable.builtin, .empty⟩
  have hrow : String.ofList (joined hashedForget.names) = "core::mem::forget" := by decide +kernel
  rw [hrow] at hnormal
  rw [hnormal] at hget
  have hentry : KnownTable.builtin.get? "core::mem::forget" =
      some ⟨"core::mem::forget", .neutral, [], []⟩ := by decide +kernel
  have hrule : Classifier.Rule ⟨KnownTable.builtin, .empty⟩ hashedForget.text _ :=
    .entry _ (hnormal ▸ hentry)
  have hcurated : (Classifier.classify ⟨KnownTable.builtin, .empty⟩ .factory
      hashedForget.text).provenance = .curated := by
    rw [hrule.classify_eq, CallInfo.provenance_recognised]
  refine ⟨by decide +kernel, by decide +kernel, hnormal, hget.trans hentry, ?_⟩
  exact (hclassify .factory (by rw [hcurated]; rfl)).2.trans hcurated

end Spelling

end Identifier

end Typestate
