import Mathlib.Data.List.TakeWhile
import Typestate.Json.Decode
import Typestate.Json.Printer

/-!
# Reading back what was written

A document written one item to a line is read back as the value it was written from. The two sides
meet in the middle: the layout puts blanks and line breaks around the lexemes of the value and
nothing else, and a reader that starts on the lexemes of a value ends right behind it.

Not every value has a written form of its own. A number has to be a numeral, and a control character
without an escape letter is written as a code unit, so it has to be one already.

## Contents

- §1 `Written`: values that have a written form of their own
- §2 The scanner on quoted texts, words and blanks
- §3 `lexemes`: the scanner on a whole value
- §4 The reader on the lexemes of a value
-/

namespace Typestate

/-! ## §1 Values with a written form -/

namespace Text

theorem ne_of_isDigit {c x : Char} (hc : isDigit c = true) (hx : isDigit x = false) : c ≠ x := by
  rintro rfl
  exact Bool.noConfusion (hc.symm.trans hx)

theorem hexValue?_hexDigit : ∀ {n : Nat}, n < 16 → hexValue? (hexDigit n) = some n := by
  decide

theorem hexValue?_hexDigit_mod (n : Nat) : hexValue? (hexDigit (n % 16)) = some (n % 16) :=
  hexValue?_hexDigit (Nat.mod_lt n (by decide))

/-- The numeral of a number above nine does not start with a zero. -/
theorem head?_decimal_ne {n : Nat} (h : 10 ≤ n) : (decimal n).head? ≠ some '0' := by
  fun_induction decimal n with
  | case1 n hn => omega
  | case2 n hn ih =>
    have hhead : (decimal (n / 10) ++ [digitOf (n % 10)]).head? = (decimal (n / 10)).head? := by
      cases hrest : decimal (n / 10) with
      | nil => exact absurd hrest (decimal_ne_nil _)
      | cons c cs => rfl
    rw [hhead]
    by_cases hlarge : 10 ≤ n / 10
    · exact ih hlarge
    · -- a single digit is left, and it is not zero
      have hsmall : n / 10 < 10 := by omega
      rw [decimal, if_pos hsmall, List.head?_cons]
      intro hzero
      have hvalue := digitValue_digitOf hsmall
      rw [Option.some.inj hzero] at hvalue
      have : digitValue '0' = 0 := rfl
      omega

end Text

namespace Json

/-- A piece that is read back from its written form. -/
def Piece.Settled : Piece → Prop
  | .char c => isControl c = true → (escapeLetter? c).isSome = true
  | .unit _ => True

/-- A text all of whose pieces are read back from their written form. -/
def Quoted.Settled (q : Quoted) : Prop := ∀ p ∈ q, p.Settled

/-- A value that has a written form of its own. -/
inductive Written : Json → Prop where
  | null : Written .null
  | bool (b : Bool) : Written (.bool b)
  | number {n : List Char} : isNumeral n = true → Written (.number n)
  | string {q : Quoted} : q.Settled → Written (.string q)
  | array {vs : List Json} : (∀ v ∈ vs, Written v) → Written (.array vs)
  | object {ms : List (Quoted × Json)} :
      (∀ m ∈ ms, m.1.Settled) → (∀ m ∈ ms, Written m.2) → Written (.object ms)

theorem Piece.settled_ofChar (c : Char) : (Piece.ofChar c).Settled := by
  unfold Piece.ofChar
  split
  · trivial
  · next h =>
    intro hcontrol
    simpa [hcontrol, Option.isSome_iff_ne_none] using h

theorem Quoted.settled_ofString (s : String) : (Quoted.ofString s).Settled := by
  intro p hp
  obtain ⟨c, -, rfl⟩ := List.mem_map.1 hp
  exact Piece.settled_ofChar c

theorem isWhole_decimal (n : Nat) : isWhole (Text.decimal n) = true := by
  have hne : (Text.decimal n).isEmpty = false := by simpa using Text.decimal_ne_nil n
  unfold isWhole isDigits
  rw [hne, Text.all_isDigit_decimal]
  by_cases h : n < 10
  · rw [Text.decimal, if_pos h]
    rfl
  · simp [Text.head?_decimal_ne (Nat.le_of_not_lt h)]

theorem isNumeral_of_isWhole {cs : List Char} (h : isWhole cs = true) : isNumeral cs = true := by
  have hdigits : ∀ c ∈ cs, Text.isDigit c = true := by
    unfold isWhole isDigits at h
    simp only [Bool.and_eq_true, List.all_eq_true] at h
    exact h.1.2
  have htake : cs.takeWhile Text.isDigit = cs := List.takeWhile_eq_self_iff.2 hdigits
  have hdrop : cs.dropWhile Text.isDigit = [] := List.dropWhile_eq_nil_iff.2 hdigits
  unfold isNumeral
  split
  · -- a minus is no digit
    next rest =>
    exact absurd rfl (Text.ne_of_isDigit (x := '-') (hdigits '-' (List.mem_cons_self ..)) rfl)
  · simp only [htake, hdrop, h]
    rfl

theorem written_ofNat (n : Nat) : (Json.ofNat n).Written :=
  .number (isNumeral_of_isWhole (isWhole_decimal n))

theorem written_ofString (s : String) : (Json.ofString s).Written :=
  .string (Quoted.settled_ofString s)

theorem written_ofMembers {members : List (String × Json)} (h : ∀ m ∈ members, m.2.Written) :
    (Json.ofMembers members).Written := by
  refine .object ?_ ?_
  · intro m hm
    obtain ⟨m', -, rfl⟩ := List.mem_map.1 hm
    exact Quoted.settled_ofString m'.1
  · intro m hm
    obtain ⟨m', hm', rfl⟩ := List.mem_map.1 hm
    exact h m' hm'

theorem written_array_iff {vs : List Json} : (Json.array vs).Written ↔ ∀ v ∈ vs, v.Written :=
  ⟨fun | .array h => h, .array⟩

theorem written_ofMembers_iff {members : List (String × Json)} :
    (Json.ofMembers members).Written ↔ ∀ m ∈ members, m.2.Written := by
  refine ⟨fun h m hm => ?_, written_ofMembers⟩
  cases h with
  | object _ hvalues => exact hvalues (Quoted.ofString m.1, m.2) (List.mem_map.2 ⟨m, hm, rfl⟩)

/-! ## §2 The scanner -/

section
variable {acc : List Lexeme} {rest : List Char}

/-- A character that ends a bare word. -/
def endsWord (c : Char) : Bool := isSpace c || c == '"' || (mark? c).isSome

theorem endsWord_of_all {cs : List Char} (h : cs.all (!endsWord ·) = true) :
    ∀ c ∈ cs, endsWord c = false := by simpa using h

/-- What follows does not continue a bare word. -/
def Delimited (rest : List Char) : Prop := ∀ c ∈ rest.head?, endsWord c = true

theorem delimited_nil : Delimited [] := by simp [Delimited]

theorem delimited_cons {c : Char} (h : endsWord c = true) : Delimited (c :: rest) := by
  simpa [Delimited] using h

theorem scanFrom_cons {scan scan' : Scan} {acc' : List Lexeme} {c : Char}
    (h : scanStep scan acc c = some (scan', acc')) :
    scanFrom scan acc (c :: rest) = scanFrom scan' acc' rest := by
  simp [scanFrom, h]

theorem scanFrom_mark {c : Char} {l : Lexeme} (h : mark? c = some l) (hspace : isSpace c = false)
    (hquote : (c == '"') = false) :
    scanFrom .between acc (c :: rest) = scanFrom .between (l :: acc) rest := by
  apply scanFrom_cons
  simp [scanStep, scanBetween, h, hspace, hquote]

theorem scanFrom_spaces {cs : List Char} (h : ∀ c ∈ cs, isSpace c = true) :
    scanFrom .between acc (cs ++ rest) = scanFrom .between acc rest := by
  induction cs with
  | nil => rfl
  | cons c cs ih =>
    have hc := h c (List.mem_cons_self ..)
    have hstep : scanStep .between acc c = some (.between, acc) := by
      simp [scanStep, scanBetween, hc]
    rw [List.cons_append, scanFrom_cons hstep]
    exact ih fun c hc => h c (List.mem_cons_of_mem _ hc)

theorem scanFrom_lineStart (depth : Nat) :
    scanFrom .between acc (lineStart depth ++ rest) = scanFrom .between acc rest := by
  apply scanFrom_spaces
  intro c hc
  rcases List.mem_cons.1 hc with rfl | hc
  · rfl
  · rw [(List.mem_replicate.1 hc).2]
    rfl

/-! ### Words -/

theorem scanFrom_word {done word : List Char} (h : ∀ c ∈ word, endsWord c = false) :
    scanFrom (.word done) acc (word ++ rest) = scanFrom (.word (word.reverse ++ done)) acc rest := by
  induction word generalizing done with
  | nil => rfl
  | cons c word ih =>
    have hc : (isSpace c || c == '"' || (mark? c).isSome) = false := h c (List.mem_cons_self ..)
    have hstep : scanStep (.word done) acc c = some (.word (c :: done), acc) := by
      simp only [scanStep, hc, Bool.false_eq_true, if_false]
    rw [List.cons_append, scanFrom_cons hstep, ih fun c hc => h c (List.mem_cons_of_mem _ hc)]
    simp

theorem scanFrom_word_end {done : List Char} {l : Lexeme} (h : word? done.reverse = some l)
    (hrest : Delimited rest) :
    scanFrom (.word done) acc rest = scanFrom .between (l :: acc) rest := by
  cases rest with
  | nil => simp [scanFrom, h]
  | cons c rest =>
    -- the character that ends the word is read as if the word had not been there
    have hc : (isSpace c || c == '"' || (mark? c).isSome) = true := hrest c rfl
    have hword : scanStep (.word done) acc c = some (scanBetween (l :: acc) c) := by
      simp only [scanStep, hc, if_true, h]
      rfl
    have hbetween : scanStep .between (l :: acc) c = some (scanBetween (l :: acc) c) := rfl
    rw [scanFrom_cons hword, scanFrom_cons hbetween]

/-- A bare word with something behind it that ends it. -/
theorem scanFrom_bare {word : List Char} {l : Lexeme} (h : word? word = some l)
    (hword : ∀ c ∈ word, endsWord c = false) (hrest : Delimited rest) :
    scanFrom .between acc (word ++ rest) = scanFrom .between (l :: acc) rest := by
  cases word with
  | nil => cases h
  | cons c word =>
    -- the first character starts a word, as it is none of a space, a quote and a mark
    have hc := hword c (List.mem_cons_self ..)
    unfold endsWord at hc
    simp only [Bool.or_eq_false_iff, Option.isSome_eq_false_iff, Option.isNone_iff_eq_none] at hc
    obtain ⟨⟨hspace, hquote⟩, hmark⟩ := hc
    have hstep : scanStep .between acc c = some (.word [c], acc) := by
      simp [scanStep, scanBetween, hspace, hquote, hmark]
    rw [List.cons_append, scanFrom_cons hstep,
      scanFrom_word fun c hc => hword c (List.mem_cons_of_mem _ hc), scanFrom_word_end ?_ hrest]
    simpa using h

/-! ### Numerals -/

/-- The characters that numerals are made of. -/
def isNumeralCharacter (c : Char) : Bool :=
  Text.isDigit c || ['-', '+', '.', 'e', 'E'].contains c

theorem endsWord_of_isNumeralCharacter {c : Char} (h : isNumeralCharacter c = true) :
    endsWord c = false := by
  unfold isNumeralCharacter at h
  rcases Bool.or_eq_true_iff.1 h with h | h
  · have hne : ∀ x, Text.isDigit x = false → (c == x) = false := fun x hx =>
      beq_false_of_ne (Text.ne_of_isDigit h hx)
    simp [endsWord, isSpace, mark?, hne ' ' rfl, hne '\t' rfl, hne '\n' rfl, hne '\x0d' rfl,
      hne '"' rfl, hne '[' rfl, hne ']' rfl, hne '\x7b' rfl, hne '\x7d' rfl, hne ':' rfl,
      hne ',' rfl]
  · exact endsWord_of_all (by decide) c (List.contains_iff_mem.1 h)

theorem isNumeralCharacter_of_isDigit {c : Char} (h : Text.isDigit c = true) :
    isNumeralCharacter c = true := by
  simp [isNumeralCharacter, h]

theorem forall_of_isDigits {cs : List Char} (h : isDigits cs = true) :
    ∀ c ∈ cs, isNumeralCharacter c = true := by
  unfold isDigits at h
  simp only [Bool.and_eq_true, List.all_eq_true] at h
  exact fun c hc => isNumeralCharacter_of_isDigit (h.2 c hc)

theorem forall_of_isExponentPart {cs : List Char} (h : isExponentPart cs = true) :
    ∀ c ∈ cs, isNumeralCharacter c = true := by
  cases cs with
  | nil => simp
  | cons e rest =>
    simp only [isExponentPart, Bool.and_eq_true, Bool.or_eq_true, beq_iff_eq] at h
    obtain ⟨he, hrest⟩ := h
    intro c hc
    rcases List.mem_cons.1 hc with rfl | hc
    · rcases he with rfl | rfl <;> rfl
    · cases rest with
      | nil => cases hc
      | cons s digits =>
        simp only at hrest
        split at hrest
        · -- a sign, then digits
          next hs =>
          rcases List.mem_cons.1 hc with rfl | hc
          · rcases hs with rfl | rfl <;> rfl
          · exact forall_of_isDigits hrest c hc
        · exact forall_of_isDigits hrest c hc

/-- A fraction part has no characters but those of numerals. -/
theorem forall_of_isFractionPart {cs : List Char} (h : isFractionPart cs = true) :
    ∀ c ∈ cs, isNumeralCharacter c = true := by
  unfold isFractionPart at h
  split at h
  · next rest =>
    rw [Bool.and_eq_true] at h
    intro c hc
    rcases List.mem_cons.1 hc with rfl | hc
    · rfl
    · rw [← List.takeWhile_append_dropWhile (p := Text.isDigit) (l := rest)] at hc
      rcases List.mem_append.1 hc with hc | hc
      · exact forall_of_isDigits h.1 c hc
      · exact forall_of_isExponentPart h.2 c hc
  · exact forall_of_isExponentPart h

/-- Nor does a numeral, so it is scanned as one word. -/
theorem forall_of_isNumeral {cs : List Char} (h : isNumeral cs = true) :
    ∀ c ∈ cs, isNumeralCharacter c = true := by
  -- a sign may come first, the rest is a whole part and a fraction part
  have hunsigned : ∀ cs : List Char, (isWhole (cs.takeWhile Text.isDigit) &&
      isFractionPart (cs.dropWhile Text.isDigit)) = true →
      ∀ c ∈ cs, isNumeralCharacter c = true := by
    intro cs h c hc
    rw [Bool.and_eq_true] at h
    rw [← List.takeWhile_append_dropWhile (p := Text.isDigit) (l := cs)] at hc
    rcases List.mem_append.1 hc with hc | hc
    · unfold isWhole at h
      rw [Bool.and_eq_true] at h
      exact forall_of_isDigits h.1.1 c hc
    · exact forall_of_isFractionPart h.2 c hc
  unfold isNumeral at h
  split at h
  · next rest =>
    intro c hc
    rcases List.mem_cons.1 hc with rfl | hc
    · rfl
    · exact hunsigned rest h c hc
  · exact hunsigned cs h

theorem word?_of_isNumeral {cs : List Char} (h : isNumeral cs = true) :
    word? cs = some (.number cs) := by
  -- none of the three constants is a numeral
  have hne : ∀ word : List Char, isNumeral word = false → (cs == word) = false := by
    intro word hword
    apply beq_false_of_ne
    rintro rfl
    exact Bool.noConfusion (h.symm.trans hword)
  simp [word?, hne ['n', 'u', 'l', 'l'] rfl, hne ['t', 'r', 'u', 'e'] rfl,
    hne ['f', 'a', 'l', 's', 'e'] rfl, h]

/-! ### Quoted texts -/

theorem of_escapeLetter? {c letter : Char} (h : escapeLetter? c = some letter) :
    (letter == 'u') = false ∧ escaped? letter = some c := by
  have hall : ∀ e ∈ shortEscapes, (e.1 == 'u') = false ∧ escaped? e.1 = some e.2 := by decide
  unfold escapeLetter? at h
  obtain ⟨e, he, rfl⟩ := Option.map_eq_some_iff.1 h
  obtain ⟨hu, hescaped⟩ := hall e (List.mem_of_find?_eq_some he)
  have hc : e.2 = c := by simpa using List.find?_some he
  exact ⟨hu, hc ▸ hescaped⟩

theorem unitOfDigits?_hexDigit {n : Nat} (h : n < 65536) :
    unitOfDigits? (Text.hexDigit (n / 4096 % 16)) (Text.hexDigit (n / 256 % 16))
      (Text.hexDigit (n / 16 % 16)) (Text.hexDigit (n % 16)) = some n.toUInt16 := by
  have hvalue : ((n / 4096 % 16 * 16 + n / 256 % 16) * 16 + n / 16 % 16) * 16 + n % 16 = n := by
    omega
  simp only [unitOfDigits?, Text.hexValue?_hexDigit_mod, Option.bind_eq_bind, Option.bind_some,
    Option.pure_def, hvalue]

theorem scanFrom_unit {done : Quoted} (u : UInt16) :
    scanFrom (.quoted done) acc (writeUnit u.toNat ++ rest) =
      scanFrom (.quoted (.unit u :: done)) acc rest := by
  have hunit := unitOfDigits?_hexDigit u.toNat_lt
  have hback : u.toNat.toUInt16 = u := by simp
  rw [hback] at hunit
  simp [writeUnit, scanFrom, scanStep, Text.hexValue?_hexDigit_mod, hunit]

/-- The scanner reads a piece as it was written. -/
theorem scanFrom_piece {done : Quoted} {p : Piece} (h : p.Settled) :
    scanFrom (.quoted done) acc (p.write ++ rest) = scanFrom (.quoted (p :: done)) acc rest := by
  cases p with
  | unit u => exact scanFrom_unit u
  | char c =>
    cases hletter : escapeLetter? c with
    | some letter =>
      obtain ⟨hu, hescaped⟩ := of_escapeLetter? hletter
      simp [Piece.write, hletter, scanFrom, scanStep, hu, hescaped]
    | none =>
      have hcontrol : isControl c = false := by
        cases hcontrol : isControl c with
        | false => rfl
        | true =>
          have := h hcontrol
          rw [hletter] at this
          cases this
      -- the quote and the backslash are never written plainly
      have hquote : c ≠ '"' := by
        rintro rfl
        cases hletter
      have hslash : c ≠ '\\' := by
        rintro rfl
        cases hletter
      simp [Piece.write, hletter, scanFrom, scanStep, hcontrol, hquote, hslash]

theorem scanFrom_pieces {done q : Quoted} (h : q.Settled) :
    scanFrom (.quoted done) acc (q.flatMap Piece.write ++ '"' :: rest) =
      scanFrom .between (.string (done.reverse ++ q) :: acc) rest := by
  induction q generalizing done with
  | nil => simp [scanFrom, scanStep]
  | cons p q ih =>
    rw [List.flatMap_cons, List.append_assoc, scanFrom_piece (h p (List.mem_cons_self ..)),
      ih fun p hp => h p (List.mem_cons_of_mem _ hp), List.reverse_cons, List.append_assoc]
    rfl

/-- **The scanner reads a text as it was written.** -/
theorem scanFrom_quoted {q : Quoted} (h : q.Settled) :
    scanFrom .between acc (q.write ++ rest) = scanFrom .between (.string q :: acc) rest := by
  unfold Quoted.write
  have hstep : scanStep .between acc '"' = some (.quoted [], acc) := rfl
  rw [List.cons_append, scanFrom_cons hstep, List.append_assoc]
  exact scanFrom_pieces h

end

/-! ## §3 The lexemes of a value -/

mutual

/-- The lexemes that a value is written with. -/
def lexemes : Json → List Lexeme
  | .null => [.null]
  | .bool b => [.bool b]
  | .number n => [.number n]
  | .string q => [.string q]
  | .array [] => [.openArray, .closeArray]
  | .array (v :: vs) => .openArray :: (lexemes v ++ lexemesOfItems vs ++ [.closeArray])
  | .object [] => [.openObject, .closeObject]
  | .object ((k, v) :: ms) =>
    .openObject :: .string k :: .colon :: (lexemes v ++ lexemesOfMembers ms ++ [.closeObject])

/-- The lexemes of the items behind the first. -/
def lexemesOfItems : List Json → List Lexeme
  | [] => []
  | v :: vs => .comma :: (lexemes v ++ lexemesOfItems vs)

/-- The lexemes of the members behind the first. -/
def lexemesOfMembers : List (Quoted × Json) → List Lexeme
  | [] => []
  | (k, v) :: ms => .comma :: .string k :: .colon :: (lexemes v ++ lexemesOfMembers ms)

end

/-- The scanner passes the written value, at any depth, and leaves its lexemes. -/
def Scans (v : Json) : Prop :=
  ∀ (depth : Nat) (acc : List Lexeme) (rest : List Char), Delimited rest →
    scanFrom .between acc (write depth v ++ rest) =
      scanFrom .between ((lexemes v).reverse ++ acc) rest

section
variable {acc : List Lexeme} {rest : List Char} {depth : Nat}

theorem delimited_lineStart : Delimited (lineStart depth ++ rest) := delimited_cons rfl

theorem delimited_writeItems {vs : List Json} (h : Delimited rest) :
    Delimited (writeItems depth vs ++ rest) := by
  cases vs with
  | nil => exact h
  | cons v vs => exact delimited_cons rfl

theorem delimited_writeMembers {ms : List (Quoted × Json)} (h : Delimited rest) :
    Delimited (writeMembers depth ms ++ rest) := by
  cases ms with
  | nil => exact h
  | cons m ms => exact delimited_cons rfl

theorem scanFrom_items {vs : List Json} (h : ∀ v ∈ vs, v.Scans) (hrest : Delimited rest) :
    scanFrom .between acc (writeItems depth vs ++ rest) =
      scanFrom .between ((lexemesOfItems vs).reverse ++ acc) rest := by
  induction vs generalizing acc with
  | nil => rfl
  | cons v vs ih =>
    simp only [writeItems, lexemesOfItems, List.cons_append, List.append_assoc]
    rw [scanFrom_mark (l := .comma) rfl rfl rfl, scanFrom_lineStart,
      h v (List.mem_cons_self ..) _ _ _ (delimited_writeItems hrest),
      ih fun v hv => h v (List.mem_cons_of_mem _ hv)]
    simp

/-- A key, the colon behind it and the blank behind the colon. -/
theorem scanFrom_key {k : Quoted} (h : k.Settled) :
    scanFrom .between acc (k.write ++ ':' :: ' ' :: rest) =
      scanFrom .between (.colon :: .string k :: acc) rest := by
  have hblank : ∀ c ∈ [' '], isSpace c = true := List.forall_mem_singleton.2 rfl
  rw [scanFrom_quoted h, scanFrom_mark (l := .colon) rfl rfl rfl]
  exact scanFrom_spaces hblank

/-- Members after the first are scanned with the comma in front of them. -/
theorem scanFrom_members {ms : List (Quoted × Json)} (hkeys : ∀ m ∈ ms, m.1.Settled)
    (h : ∀ m ∈ ms, m.2.Scans) (hrest : Delimited rest) :
    scanFrom .between acc (writeMembers depth ms ++ rest) =
      scanFrom .between ((lexemesOfMembers ms).reverse ++ acc) rest := by
  induction ms generalizing acc with
  | nil => rfl
  | cons m ms ih =>
    obtain ⟨k, v⟩ := m
    simp only [writeMembers, lexemesOfMembers, List.cons_append, List.append_assoc,
      List.nil_append]
    rw [scanFrom_mark (l := .comma) rfl rfl rfl, scanFrom_lineStart]
    rw [scanFrom_key (hkeys _ (List.mem_cons_self ..)),
      h _ (List.mem_cons_self ..) _ _ _ (delimited_writeMembers hrest),
      ih (fun m hm => hkeys m (List.mem_cons_of_mem _ hm))
        (fun m hm => h m (List.mem_cons_of_mem _ hm))]
    simp

/-- **The scanner passes every written value.** -/
theorem Written.scans {v : Json} (h : v.Written) : v.Scans := by
  induction h with
  | null =>
    intro depth acc rest hrest
    exact scanFrom_bare rfl (endsWord_of_all rfl) hrest
  | bool b =>
    intro depth acc rest hrest
    cases b with
    | true =>
      exact scanFrom_bare rfl (endsWord_of_all rfl) hrest
    | false =>
      exact scanFrom_bare rfl (endsWord_of_all rfl) hrest
  | number h =>
    intro depth acc rest hrest
    exact scanFrom_bare (word?_of_isNumeral h)
      (fun c hc => endsWord_of_isNumeralCharacter (forall_of_isNumeral h c hc)) hrest
  | string h =>
    intro depth acc rest _
    exact scanFrom_quoted h
  | @array vs _ ih =>
    intro depth acc rest _
    cases vs with
    | nil =>
      simp only [write, List.cons_append]
      rw [scanFrom_mark (l := .openArray) rfl rfl rfl, scanFrom_mark (l := .closeArray) rfl rfl rfl]
      rfl
    | cons v vs =>
      simp only [write, lexemes, List.cons_append, List.append_assoc, List.nil_append]
      -- the first item follows the bracket, the others follow commas
      rw [scanFrom_mark (l := .openArray) rfl rfl rfl, scanFrom_lineStart,
        ih v (List.mem_cons_self ..) _ _ _ (delimited_writeItems delimited_lineStart),
        scanFrom_items (fun v hv => ih v (List.mem_cons_of_mem _ hv)) delimited_lineStart,
        scanFrom_lineStart, scanFrom_mark (l := .closeArray) rfl rfl rfl]
      simp
  | @object ms hkeys _ ih =>
    intro depth acc rest _
    cases ms with
    | nil =>
      simp only [write, List.cons_append]
      rw [scanFrom_mark (l := .openObject) rfl rfl rfl,
        scanFrom_mark (l := .closeObject) rfl rfl rfl]
      rfl
    | cons m ms =>
      obtain ⟨k, v⟩ := m
      -- the first member follows the bracket, the others follow commas
      simp only [write, lexemes, List.cons_append, List.append_assoc, List.nil_append]
      rw [scanFrom_mark (l := .openObject) rfl rfl rfl, scanFrom_lineStart,
        scanFrom_key (hkeys _ (List.mem_cons_self ..)),
        ih _ (List.mem_cons_self ..) _ _ _ (delimited_writeMembers delimited_lineStart),
        scanFrom_members (fun m hm => hkeys m (List.mem_cons_of_mem _ hm))
          (fun m hm => ih m (List.mem_cons_of_mem _ hm)) delimited_lineStart,
        scanFrom_lineStart, scanFrom_mark (l := .closeObject) rfl rfl rfl]
      simp

theorem lexemes?_write {v : Json} (h : v.Written) (depth : Nat) :
    lexemes? (write depth v) = some (lexemes v) := by
  have hscan := h.scans depth [] [] delimited_nil
  rw [List.append_nil, List.append_nil] at hscan
  unfold lexemes?
  rw [hscan]
  simp [scanFrom]

end

/-! ## §4 The reader -/

/-- A reader that expects a value reads the lexemes of this one and stands behind it. -/
def Reads (v : Json) : Prop :=
  ∀ (outer : List Frame) (rest : List Lexeme),
    (Cursor.value outer).run (lexemes v ++ rest) = (Cursor.closed v outer).run rest

section
variable {outer : List Frame} {rest : List Lexeme}

theorem Cursor.run_cons {c d : Cursor} {l : Lexeme} (h : c.step l = some d) :
    c.run (l :: rest) = d.run rest := by
  simp [Cursor.run, h]

/-- Behind the bracket of an array a value is read like anywhere else: no value starts with the
closing bracket. -/
theorem Cursor.run_itemOrEnd (v : Json) :
    (Cursor.itemOrEnd outer).run (lexemes v ++ rest) =
      (Cursor.value (.array [] :: outer)).run (lexemes v ++ rest) := by
  obtain ⟨l, ls, hl, hclose⟩ : ∃ l ls, lexemes v = l :: ls ∧ l ≠ .closeArray := by
    cases v with
    | array vs => cases vs <;> exact ⟨_, _, rfl, by simp⟩
    | object ms => cases ms <;> exact ⟨_, _, rfl, by simp⟩
    | _ => exact ⟨_, _, rfl, by simp⟩
  have hstep : (Cursor.itemOrEnd outer).step l = (Cursor.value (.array [] :: outer)).step l := by
    cases l with
    | closeArray => exact absurd rfl hclose
    | _ => rfl
  rw [hl, List.cons_append, Cursor.run, Cursor.run, hstep]

theorem Cursor.run_items {vs done : List Json} {v : Json} (h : ∀ v ∈ vs, v.Reads) :
    (Cursor.closed v (.array done :: outer)).run (lexemesOfItems vs ++ .closeArray :: rest) =
      (Cursor.closed (.array (done.reverse ++ v :: vs)) outer).run rest := by
  induction vs generalizing v done with
  | nil =>
    rw [lexemesOfItems, List.nil_append, Cursor.run_cons (d := .closed _ outer) rfl]
    simp
  | cons w vs ih =>
    rw [lexemesOfItems, List.cons_append, List.append_assoc,
      Cursor.run_cons (d := .value (.array (v :: done) :: outer)) rfl,
      h w (List.mem_cons_self ..), ih fun w hw => h w (List.mem_cons_of_mem _ hw)]
    simp

/-- Members after the first are read behind those that were read before. -/
theorem Cursor.run_members {ms done : List (Quoted × Json)} {k : Quoted} {v : Json}
    (h : ∀ m ∈ ms, m.2.Reads) :
    (Cursor.closed v (.object done k :: outer)).run (lexemesOfMembers ms ++ .closeObject :: rest) =
      (Cursor.closed (.object (done.reverse ++ (k, v) :: ms)) outer).run rest := by
  induction ms generalizing k v done with
  | nil =>
    rw [lexemesOfMembers, List.nil_append, Cursor.run_cons (d := .closed _ outer) rfl]
    simp
  | cons m ms ih =>
    obtain ⟨l, w⟩ := m
    simp only [lexemesOfMembers, List.cons_append, List.append_assoc]
    rw [Cursor.run_cons (d := .key ((k, v) :: done) outer) rfl,
      Cursor.run_cons (d := .colon ((k, v) :: done) l outer) rfl,
      Cursor.run_cons (d := .value (.object ((k, v) :: done) l :: outer)) rfl,
      h _ (List.mem_cons_self ..), ih fun m hm => h m (List.mem_cons_of_mem _ hm)]
    simp

/-- The reader takes in the lexemes of a written value as that value. -/
theorem Written.reads {v : Json} (h : v.Written) : v.Reads := by
  induction h with
  | null => exact fun outer rest => Cursor.run_cons rfl
  | bool b => exact fun outer rest => Cursor.run_cons rfl
  | number _ => exact fun outer rest => Cursor.run_cons rfl
  | string _ => exact fun outer rest => Cursor.run_cons rfl
  | @array vs _ ih =>
    intro outer rest
    cases vs with
    | nil =>
      rw [lexemes, List.cons_append, Cursor.run_cons (d := .itemOrEnd outer) rfl]
      exact Cursor.run_cons rfl
    | cons v vs =>
      simp only [lexemes, List.cons_append, List.append_assoc, List.nil_append]
      rw [Cursor.run_cons (d := .itemOrEnd outer) rfl, Cursor.run_itemOrEnd,
        ih v (List.mem_cons_self ..), Cursor.run_items fun v hv => ih v (List.mem_cons_of_mem _ hv)]
      rfl
  | @object ms _ _ ih =>
    intro outer rest
    cases ms with
    | nil =>
      rw [lexemes, List.cons_append, Cursor.run_cons (d := .keyOrEnd outer) rfl]
      exact Cursor.run_cons rfl
    | cons m ms =>
      obtain ⟨k, v⟩ := m
      simp only [lexemes, List.cons_append, List.append_assoc, List.nil_append]
      rw [Cursor.run_cons (d := .keyOrEnd outer) rfl,
        Cursor.run_cons (d := .colon [] k outer) rfl,
        Cursor.run_cons (d := .value (.object [] k :: outer)) rfl,
        ih _ (List.mem_cons_self ..),
        Cursor.run_members fun m hm => ih m (List.mem_cons_of_mem _ hm)]
      rfl

end

/-- **A written document is read back as the value it was written from.** -/
theorem parse_written {v : Json} (h : v.Written) : parse v.pretty = .ok v := by
  have hread := h.reads [] []
  rw [List.append_nil] at hread
  have hvalue : ofLexemes? (lexemes v) = some v := by
    unfold ofLexemes?
    rw [hread]
    rfl
  unfold parse parse? pretty
  rw [String.toList_ofList, lexemes?_write h 0, Option.bind_some, hvalue]

end Json

end Typestate
