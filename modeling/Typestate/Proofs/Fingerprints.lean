import Mathlib.Data.List.Nodup
import Typestate.Proofs.Bindings
import Typestate.Report.Fingerprint

/-!
# What fingerprints tell apart

The text behind a fingerprint is written without marks between its parts. What can still be read off
it is where the kinds of misuse begin, as a digit comes before them and they hold none, and which kinds
they are. What cannot be read off is where the call target ends and the number of the instruction
begins: a target that ends in digits can pass for a shorter one in front of a longer number. Among the
findings of one report this is the only way in which two of them have the same text.

## Contents

- §1 Rows with a seam, numerals, bytes
- §2 Kinds of misuse
- §3 Findings of one report are at different instructions
- §4 `Finding.RunsInto` and the texts that coincide
-/

namespace Typestate

/-! ## §1 Texts -/

section
variable {α : Type} {p : α → Prop} {front front' rest back back' : List α} {a a' : α}

theorem eq_nil_of_getLast? (hlast : (front ++ rest).getLast? = some a) (ha : p a)
    (hrest : ∀ b ∈ rest, ¬ p b) : rest = [] := by
  by_contra hne
  rw [List.getLast?_append_of_ne_nil _ hne] at hlast
  exact hrest a (List.mem_of_getLast? hlast) ha

/-- The seam shows between a row that ends in an element with the property and a row of elements
without it. -/
theorem append_inj_of_seam (hlast : front.getLast? = some a) (ha : p a)
    (hlast' : front'.getLast? = some a') (ha' : p a') (hback : ∀ b ∈ back, ¬ p b)
    (hback' : ∀ b ∈ back', ¬ p b) (h : front ++ back = front' ++ back') :
    front = front' ∧ back = back' := by
  -- the longer front exceeds the shorter one by elements of the other back
  rcases List.append_eq_append_iff.1 h with ⟨rest, rfl, rfl⟩ | ⟨rest, rfl, rfl⟩
  · cases eq_nil_of_getLast? hlast' ha' fun b hb => hback b (List.mem_append_left _ hb)
    simp
  · cases eq_nil_of_getLast? hlast ha fun b hb => hback' b (List.mem_append_left _ hb)
    simp

end

/-- A numeral ends in a digit. -/
theorem exists_getLast?_toString (n : Nat) :
    ∃ c, (toString n).toList.getLast? = some c ∧ c.isDigit = true := by
  have hne : (toString n).toList ≠ [] := by simp
  refine ⟨_, List.getLast?_eq_some_getLast hne, ?_⟩
  have hmem := List.getLast_mem hne
  simp only [Nat.toString_eq_repr, Nat.toList_repr] at hmem ⊢
  exact Nat.isDigit_of_mem_toDigits (by decide) (by decide) hmem

theorem eq_of_toString_eq {m n : Nat} (h : toString m = toString n) : m = n := by
  -- a numeral read back is its number
  have hread := congrArg (fun s => Nat.ofDigitChars 10 s.toList 0) h
  simpa using hread

theorem toList_loop_eq (bytes : ByteArray) (i : Nat) (read : List UInt8) :
    ByteArray.toList.loop bytes i read = read.reverse ++ bytes.data.toList.drop i := by
  fun_induction ByteArray.toList.loop bytes i read with
  | case1 i read h ih =>
    have hi : i < bytes.data.toList.length := h
    have hget : bytes.get! i = bytes.data.toList[i] :=
      (getElem!_pos bytes.data i h).trans (Array.getElem_toList hi).symm
    rw [ih, List.drop_eq_getElem_cons hi, hget]
    simp
  | case2 i read h =>
    have hi : bytes.data.toList.length ≤ i := Nat.not_lt.1 h
    rw [List.drop_eq_nil_of_le hi, List.append_nil]

/-- Different texts have different bytes. -/
theorem toUTF8_toList_inj {s t : String} : s.toUTF8.toList = t.toUTF8.toList ↔ s = t := by
  have hdata : ∀ bytes : ByteArray, bytes.toList = bytes.data.toList :=
    fun bytes => (toList_loop_eq bytes 0 []).trans (by simp)
  rw [hdata, hdata, Array.toList_inj, ← String.toByteArray_inj]
  exact ByteArray.ext_iff.symm

/-! ## §2 Kinds -/

namespace MemoryError

/-- The set with the given members. -/
def setOf (member : MemoryError → Bool) : FiniteSet MemoryError :=
  FiniteSet.ofList (all.filter member)

/-- The labels of the members, one behind the other. -/
def labels (kinds : FiniteSet MemoryError) : String :=
  String.join ((FiniteSet.toList kinds).map label)

theorem setOf_contains (kinds : FiniteSet MemoryError) : setOf kinds.contains = kinds := by
  apply FiniteSet.ext_contains
  intro kind
  unfold setOf
  rw [FiniteSet.contains_ofList]
  cases kind <;> simp [all]

/-- The labels of a set are those of its members in the order of the kinds. -/
theorem labels_setOf (member : MemoryError → Bool) :
    labels (setOf member) = (if member .useAfterFree then label .useAfterFree else "") ++
      (if member .doubleFree then label .doubleFree else "") := by
  unfold setOf all
  cases huse : member .useAfterFree <;> cases hdouble : member .doubleFree <;>
    simp only [List.filter, huse, hdouble] <;> rfl

theorem not_isDigit_of_mem_label (kind : MemoryError) :
    ∀ c ∈ kind.label.toList, ¬ c.isDigit = true := by
  have hall : kind.label.toList.all (fun c => !c.isDigit) = true := by cases kind <;> rfl
  intro c hc
  simpa using List.all_eq_true.1 hall c hc

theorem not_isDigit_of_mem_labels (kinds : FiniteSet MemoryError) :
    ∀ c ∈ (labels kinds).toList, ¬ c.isDigit = true := by
  have hshown : ∀ (shown : Bool) (kind : MemoryError),
      ∀ c ∈ (if shown then kind.label else "").toList, ¬ c.isDigit = true := by
    intro shown kind
    cases shown with
    | true => exact not_isDigit_of_mem_label kind
    | false => simp
  intro c hc
  rw [← setOf_contains kinds, labels_setOf, String.toList_append] at hc
  rcases List.mem_append.1 hc with hc | hc
  · exact hshown _ _ c hc
  · exact hshown _ _ c hc

/-- Different sets of kinds have different labels. -/
theorem labels_inj {kinds kinds' : FiniteSet MemoryError} (h : labels kinds = labels kinds') :
    kinds = kinds' := by
  -- no label is the beginning of another, so each of the four texts is of one pair of answers only
  have htexts : ∀ use double use' double' : Bool,
      (if use then label .useAfterFree else "") ++ (if double then label .doubleFree else "") =
        (if use' then label .useAfterFree else "") ++ (if double' then label .doubleFree else "") →
      use = use' ∧ double = double' := by
    decide
  rw [← setOf_contains kinds, ← setOf_contains kinds', labels_setOf, labels_setOf] at h
  obtain ⟨huse, hdouble⟩ := htexts _ _ _ _ h
  apply FiniteSet.ext_contains
  intro kind
  cases kind with
  | useAfterFree => rw [huse]
  | doubleFree => rw [hdouble]

end MemoryError

/-! ## §3 One finding to an instruction -/

/-- The first call sites are new to the identities seen before. -/
theorem not_contains_of_mem_firstCallSites (seen : FiniteSet InstId)
    (code : List (Function × Instruction)) :
    ∀ site ∈ firstCallSites seen code, ¬ seen.contains site.instruction = true := by
  fun_induction firstCallSites seen code with
  | case1 => simp
  | case2 seen f i rest hcallee ih => exact ih
  | case3 seen f i rest callee hcallee hseen ih => exact ih
  | case4 seen f i rest callee hcallee hnew ih =>
    intro site hsite
    rcases List.mem_cons.1 hsite with rfl | hsite
    · exact hnew
    · intro hseen
      exact ih site hsite ((FiniteSet.contains_insert ..).2 (Or.inr hseen))

/-- No two call sites of a report share their instruction. -/
theorem nodup_firstCallSites (seen : FiniteSet InstId) (code : List (Function × Instruction)) :
    ((firstCallSites seen code).map (·.instruction)).Nodup := by
  fun_induction firstCallSites seen code with
  | case1 => exact List.nodup_nil
  | case2 seen f i rest hcallee ih => exact ih
  | case3 seen f i rest callee hcallee hseen ih => exact ih
  | case4 seen f i rest callee hcallee hnew ih =>
    -- the sites behind this one are new to a set that holds its identity
    refine List.nodup_cons.2 ⟨fun hmem => ?_, ih⟩
    obtain ⟨site, hsite, heq⟩ := List.mem_map.1 hmem
    apply not_contains_of_mem_firstCallSites _ _ site hsite
    exact (FiniteSet.contains_insert ..).2 (Or.inl heq)

section
variable {program : Program} {classifier : Classifier} {scope : Scope} {runs : RunPair}
variable {f g : Finding}

theorem instruction_of_findingAt? {site : CallSite}
    (h : findingAt? classifier scope runs site = some f) : f.instruction = site.instruction := by
  unfold findingAt? at h
  simp only at h
  split at h
  · split at h
    · cases h
      rfl
    · cases h
  · cases h

/-- A report has one finding to an instruction. -/
theorem eq_of_instruction_eq (hf : f ∈ reconcile program classifier scope runs)
    (hg : g ∈ reconcile program classifier scope runs) (h : f.instruction = g.instruction) :
    f = g := by
  obtain ⟨site, hsite, hfinding⟩ := List.mem_filterMap.1 hf
  obtain ⟨site', hsite', hfinding'⟩ := List.mem_filterMap.1 hg
  -- both findings come from the call site of that instruction
  have hinstruction : site.instruction = site'.instruction := by
    rw [← instruction_of_findingAt? hfinding, ← instruction_of_findingAt? hfinding', h]
  cases List.inj_on_of_nodup_map (nodup_firstCallSites _ _) hsite hsite' hinstruction
  exact Option.some.inj (hfinding.symm.trans hfinding')

end

/-! ## §4 Texts of findings -/

namespace Finding

/-- The function and the call target, one behind the other. -/
def path (f : Finding) : String := f.function ++ f.callee

/-- The numeral of the instruction. -/
def numeral (f : Finding) : String := toString f.instruction.index.toNat

/-- The path of `g` is that of `f` and some digits more, and the same digits are what the numeral of
`f` has in front of that of `g`. -/
def RunsInto (f g : Finding) : Prop :=
  ∃ digits : String, digits ≠ "" ∧ g.path = f.path ++ digits ∧ f.numeral = digits ++ g.numeral

variable {f g : Finding}

theorem identity_eq (f : Finding) :
    f.identity = f.path ++ f.numeral ++ MemoryError.labels f.kinds := rfl

theorem instruction_eq_of_numeral (h : f.numeral = g.numeral) : f.instruction = g.instruction := by
  have hindex : f.instruction.index = g.instruction.index := UInt32.toNat_inj.1 (eq_of_toString_eq h)
  cases hf : f.instruction
  cases hg : g.instruction
  simp_all

/-- The kinds can be read off the text, and so can everything in front of them. -/
theorem identity_eq_iff :
    f.identity = g.identity ↔ f.kinds = g.kinds ∧ f.path ++ f.numeral = g.path ++ g.numeral := by
  -- the seam is found from the end: labels have no digits, and a numeral ends with one
  have hends : ∀ f : Finding, ∃ c, (f.path ++ f.numeral).toList.getLast? = some c ∧
      c.isDigit = true := by
    intro f
    obtain ⟨c, hc, hdigit⟩ := exists_getLast?_toString f.instruction.index.toNat
    refine ⟨c, ?_, hdigit⟩
    rw [String.toList_append, List.getLast?_append]
    exact congrArg (Option.or · _) hc
  constructor
  · intro h
    have hchars : (f.path ++ f.numeral).toList ++ (MemoryError.labels f.kinds).toList =
        (g.path ++ g.numeral).toList ++ (MemoryError.labels g.kinds).toList := by
      rw [← String.toList_append, ← String.toList_append, ← identity_eq, ← identity_eq, h]
    obtain ⟨c, hc, hdigit⟩ := hends f
    obtain ⟨c', hc', hdigit'⟩ := hends g
    obtain ⟨hplace, hlabels⟩ := append_inj_of_seam (p := fun c => c.isDigit = true) hc hdigit
      hc' hdigit' (MemoryError.not_isDigit_of_mem_labels _)
      (MemoryError.not_isDigit_of_mem_labels _) hchars
    exact ⟨MemoryError.labels_inj (String.toList_inj.1 hlabels), String.toList_inj.1 hplace⟩
  · rintro ⟨hkinds, hplace⟩
    rw [identity_eq, identity_eq, hkinds, hplace]

/-- A path that takes digits over from the numeral leaves the text in front of the kinds as it is. -/
theorem RunsInto.place_eq (h : f.RunsInto g) : f.path ++ f.numeral = g.path ++ g.numeral := by
  obtain ⟨digits, -, hpath, hnumeral⟩ := h
  rw [hpath, hnumeral, String.append_assoc]

theorem not_runsInto_of_path_eq (h : f.path = g.path) : ¬ f.RunsInto g := by
  rintro ⟨digits, hne, hpath, -⟩
  rw [h] at hpath
  exact hne (by simpa using congrArg String.length hpath)

theorem runsInto_of_append {digits : List Char} (hne : f.instruction ≠ g.instruction)
    (hpath : g.path.toList = f.path.toList ++ digits)
    (hnumeral : f.numeral.toList = digits ++ g.numeral.toList) : f.RunsInto g := by
  refine ⟨String.ofList digits, fun hempty => ?_, ?_, ?_⟩
  · -- without digits both numerals, and so both instructions, would be the same
    have hnil : digits = [] := by simpa using congrArg String.toList hempty
    rw [hnil, List.nil_append] at hnumeral
    exact hne (instruction_eq_of_numeral (String.toList_inj.1 hnumeral))
  · apply String.toList_inj.1
    rw [hpath, String.toList_append, String.toList_ofList]
  · apply String.toList_inj.1
    rw [hnumeral, String.toList_append, String.toList_ofList]

/-- The same text in front of the kinds can only be divided elsewhere by moving digits across. -/
theorem runsInto_of_place_eq (hne : f.instruction ≠ g.instruction)
    (h : f.path ++ f.numeral = g.path ++ g.numeral) : f.RunsInto g ∨ g.RunsInto f := by
  have hchars : f.path.toList ++ f.numeral.toList = g.path.toList ++ g.numeral.toList := by
    rw [← String.toList_append, ← String.toList_append, h]
  -- one of the two paths is the shorter one
  rcases List.append_eq_append_iff.1 hchars with ⟨digits, hpath, hnumeral⟩ |
    ⟨digits, hpath, hnumeral⟩
  · exact Or.inl (runsInto_of_append hne hpath hnumeral)
  · exact Or.inr (runsInto_of_append (Ne.symm hne) hpath hnumeral)

/-- **Two findings of a report feed the same bytes to the digest exactly where one runs into the
other** and both show the same kinds of misuse. -/
theorem bytes_eq_iff_runsInto {program : Program} {classifier : Classifier} {scope : Scope}
    {runs : RunPair} (hf : f ∈ reconcile program classifier scope runs)
    (hg : g ∈ reconcile program classifier scope runs) (hne : f ≠ g) :
    f.identity.toUTF8.toList = g.identity.toUTF8.toList ↔
      f.kinds = g.kinds ∧ (f.RunsInto g ∨ g.RunsInto f) := by
  have hinstruction : f.instruction ≠ g.instruction := fun h => hne (eq_of_instruction_eq hf hg h)
  rw [toUTF8_toList_inj, identity_eq_iff]
  refine and_congr_right fun _ => ⟨runsInto_of_place_eq hinstruction, ?_⟩
  rintro (h | h)
  · exact h.place_eq
  · exact h.place_eq.symm

end Finding

/-- Three rebuilds, the second of them by a target that ends in a digit. -/
def minting : Program :=
  ⟨[⟨"main", [], none,
      [⟨[⟨⟨12⟩, .call "Buf::from_raw" [⟨0⟩] none⟩, ⟨⟨2⟩, .call "Buf::from_raw1" [⟨0⟩] none⟩,
          ⟨⟨7⟩, .call "Buf::from_raw" [⟨0⟩] none⟩, ⟨⟨3⟩, .ret none⟩], []⟩]⟩],
    .empty⟩

/-- Runs in which a released value and a rewrapped one meet at all three calls of `minting`. -/
def mintingRuns : RunPair :=
  RunPair.filter
    ⟨.ofTable .consuming ⟨FiniteMap.ofList
        [(⟨⟨2⟩, ⟨0⟩⟩, .useAfterFree), (⟨⟨7⟩, ⟨0⟩⟩, .useAfterFree), (⟨⟨12⟩, ⟨0⟩⟩, .useAfterFree)]⟩,
      .ofTable .factory ⟨FiniteMap.ofList
        [(⟨⟨2⟩, ⟨1⟩⟩, .rawWrapped), (⟨⟨7⟩, ⟨1⟩⟩, .rawWrapped), (⟨⟨12⟩, ⟨1⟩⟩, .rawWrapped)]⟩⟩

/-- A finding of `mintingRuns`. -/
def minted (inst : UInt32) (callee : String) : Finding where
  instruction := ⟨inst⟩
  function := "main"
  callee := callee
  token := .rebuild
  values := FiniteMap.ofList
    [(⟨0⟩, FiniteSet.ofList [.useAfterFree]), (⟨1⟩, FiniteSet.ofList [.rawWrapped])]
  kinds := FiniteSet.ofList [.useAfterFree]

theorem reconcile_minting :
    reconcile minting ⟨.empty, .ofProgram minting⟩ .rebuildSites mintingRuns =
      [minted 12 "Buf::from_raw", minted 2 "Buf::from_raw1", minted 7 "Buf::from_raw"] := rfl

theorem minted_ne {inst inst' : UInt32} (h : inst ≠ inst') (callee callee' : String) :
    minted inst callee ≠ minted inst' callee' := by
  intro heq
  cases congrArg Finding.instruction heq
  exact h rfl

/-- The two calls of one target are told apart. -/
theorem bytes_ne_minting :
    minted 12 "Buf::from_raw" ∈
        reconcile minting ⟨.empty, .ofProgram minting⟩ .rebuildSites mintingRuns ∧
      minted 7 "Buf::from_raw" ∈
        reconcile minting ⟨.empty, .ofProgram minting⟩ .rebuildSites mintingRuns ∧
      (minted 12 "Buf::from_raw").identity.toUTF8.toList ≠
        (minted 7 "Buf::from_raw").identity.toUTF8.toList := by
  have hfirst : minted 12 "Buf::from_raw" ∈
      reconcile minting ⟨.empty, .ofProgram minting⟩ .rebuildSites mintingRuns := by
    simp [reconcile_minting]
  have hlast : minted 7 "Buf::from_raw" ∈
      reconcile minting ⟨.empty, .ofProgram minting⟩ .rebuildSites mintingRuns := by
    simp [reconcile_minting]
  refine ⟨hfirst, hlast, fun hbytes => ?_⟩
  -- the paths are the same, so no digits can run into one of them
  have hpath : (minted 12 "Buf::from_raw").path = (minted 7 "Buf::from_raw").path := rfl
  have hruns := (Finding.bytes_eq_iff_runsInto hfirst hlast (minted_ne (by decide) _ _)).1 hbytes
  rcases hruns.2 with h | h
  · exact Finding.not_runsInto_of_path_eq hpath h
  · exact Finding.not_runsInto_of_path_eq hpath.symm h

/-- Instruction 12 of one target passes for instruction 2 of the other: the identities of the program
are all different, and the two findings still have one text. -/
theorem bytes_eq_minting :
    (minting.instructions.map (·.2.id)).Nodup ∧
      minted 12 "Buf::from_raw" ∈
        reconcile minting ⟨.empty, .ofProgram minting⟩ .rebuildSites mintingRuns ∧
      minted 2 "Buf::from_raw1" ∈
        reconcile minting ⟨.empty, .ofProgram minting⟩ .rebuildSites mintingRuns ∧
      minted 12 "Buf::from_raw" ≠ minted 2 "Buf::from_raw1" ∧
      (minted 12 "Buf::from_raw").identity.toUTF8.toList =
        (minted 2 "Buf::from_raw1").identity.toUTF8.toList := by
  refine ⟨by decide, by simp [reconcile_minting], by simp [reconcile_minting],
    minted_ne (by decide) _ _, ?_⟩
  have hidentity : (minted 12 "Buf::from_raw").identity = (minted 2 "Buf::from_raw1").identity := rfl
  rw [hidentity]

end Typestate
