import Mathlib.Data.List.Forall2
import Typestate.Proofs.ProgramCodec
import Typestate.Proofs.Records
import Typestate.Report.Document

/-!
# Reading a report back

The document of a report is read by someone who has neither the program nor the findings. What is read
says everything about the findings: where they are, what kinds they are of, and which values contribute
with which states, sets being listed in declaration order and values in ascending order. No text in it,
whatever characters a name holds, changes what another part says. So two reports with the same text are
reports of the same findings.

## Contents

- §1 Reading
- §2 What a reading says about findings
- §3 Sets as lists in declaration order
- §4 Written entries are read back
- §5 A reading determines the findings
- §6 Whole documents
-/

namespace Typestate

/-! ## §1 Reading -/

/-- The kind of misuse with the given name. -/
def MemoryError.ofName? (name : String) : Option MemoryError := all.find? (fun k => k.name == name)

theorem MemoryError.mem_all (k : MemoryError) : k ∈ all := by
  cases k <;> decide

theorem State.mem_all (s : State) : s ∈ all := by
  cases s <;> decide

@[simp]
theorem MemoryError.ofName?_name (k : MemoryError) : ofName? k.name = some k := by
  cases k <;> decide

@[simp]
theorem State.ofName?_name (s : State) : ofName? s.name = some s := by
  cases s <;> decide

namespace Json

/-- One of a few named things. -/
def readChoice {α : Type} (ofName? : String → Option α) (v : Json) : Except Fault α := do
  let name ← readString v
  match ofName? name with
  | some a => .ok a
  | none => .error (.shape "a known name")

/-- A natural number of any size. -/
def readCount : Json → Except Fault Nat
  | .number n =>
    match Text.ofDecimal? n with
    | some k => .ok k
    | none => .error (.shape "an unsigned integer")
  | _ => .error (.shape "an unsigned integer")

theorem readChoice_ofString {α : Type} {ofName? : String → Option α} {name : String} {a : α}
    (h : ofName? name = some a) : readChoice ofName? (.ofString name) = .ok a := by
  simp [readChoice, h, bind, Except.bind]

@[simp]
theorem readCount_ofNat (n : Nat) : readCount (.ofNat n) = .ok n := by
  simp [readCount, Json.ofNat, Text.ofDecimal?_decimal]

/-- A list that is written item by item is read item by item. -/
theorem readList_array_map {α β : Type} {toJson : α → Json} {read : Json → Except Fault β}
    {entry : α → β} (h : ∀ a, read (toJson a) = .ok (entry a)) (as : List α) :
    readList read (.array (as.map toJson)) = .ok (as.map entry) := by
  refine readList_of_lists (R := fun b v => read v = .ok b) id ⟨_, ?_, rfl⟩
  rw [List.forall₂_map_left_iff, List.forall₂_map_right_iff, List.forall₂_same]
  exact fun a _ => h a

end Json

namespace Report

/-- What a document says about a contributing value. -/
structure ValueEntry where
  value : ValueId
  name : String
  states : List State

/-- What a document says about a finding. -/
structure FindingEntry where
  id : String
  instruction : InstId
  function : String
  callee : String
  token : Token
  kinds : List MemoryError
  values : List ValueEntry

/-- What a document says. -/
structure Reading where
  generatedAt : String
  total : Nat
  findings : List FindingEntry

def ValueEntry.ofJson (v : Json) : Except Json.Fault ValueEntry := do
  let fields ← Json.Fields.ofJson ["value", "name", "states"] v
  let value ← fields.required "value" Json.readWord32
  let name ← fields.required "name" Json.readString
  let states ← fields.required "states" (Json.readList (Json.readChoice State.ofName?))
  pure ⟨⟨value⟩, name, states⟩

def FindingEntry.ofJson (v : Json) : Except Json.Fault FindingEntry := do
  let fields ← Json.Fields.ofJson
    ["id", "instruction", "function", "callee", "token", "kinds", "values"] v
  let id ← fields.required "id" Json.readString
  let instruction ← fields.required "instruction" Json.readWord32
  let function ← fields.required "function" Json.readString
  let callee ← fields.required "callee" Json.readString
  let token ← fields.required "token" (Json.readChoice Token.ofName?)
  let kinds ← fields.required "kinds" (Json.readList (Json.readChoice MemoryError.ofName?))
  let values ← fields.required "values" (Json.readList ValueEntry.ofJson)
  pure ⟨id, ⟨instruction⟩, function, callee, token, kinds, values⟩

def Reading.ofJson (v : Json) : Except Json.Fault Reading := do
  let fields ← Json.Fields.ofJson ["generated_at", "total", "findings"] v
  let generatedAt ← fields.required "generated_at" Json.readString
  let total ← fields.required "total" Json.readCount
  let findings ← fields.required "findings" (Json.readList FindingEntry.ofJson)
  pure ⟨generatedAt, total, findings⟩

/-- Reads a text that has to be exactly one document, the document of a report. -/
def read (text : String) : Except Json.Fault Reading := Json.parse text >>= Reading.ofJson

/-! ## §2 What a reading says -/

/-- The entry says of a contributing value what is so. -/
structure ValueEntry.Describes (program : Program) (values : StateSets) (w : ValueEntry) :
    Prop where
  states : ∃ set, values.get? w.value = some set ∧ w.states = State.all.filter set.contains
  name : w.name = program.valueLabel w.value

/-- The entry says of a finding what is so, and leaves nothing out. -/
structure FindingEntry.Describes (program : Program) (f : Finding) (e : FindingEntry) : Prop where
  id : e.id = f.fingerprint
  instruction : e.instruction = f.instruction
  function : e.function = f.function
  callee : e.callee = f.callee
  token : e.token = f.token
  kinds : e.kinds = MemoryError.all.filter f.kinds.contains
  values_ascend : e.values.Pairwise fun w w' => compare w.value w'.value = .lt
  mem_values : ∀ w, w ∈ e.values ↔ w.Describes program f.values

/-- The reading says what the report was made of: one entry for each finding, in the same order. -/
structure Reading.Describes (program : Program) (fs : List Finding) (time : Timestamp)
    (r : Reading) : Prop where
  generatedAt : r.generatedAt = time.write
  total : r.total = fs.length
  findings : List.Forall₂ (FindingEntry.Describes program) fs r.findings

/-! ## §3 Declaration order -/

/-- The members of a set of finitely many things are listed as they come in the list of all. -/
theorem toList_eq_filter {κ : Type} [Ord κ] [Std.TransOrd κ] [Std.LawfulEqOrd κ] {all : List κ}
    (hall : ∀ k, k ∈ all) (hascend : all.Pairwise fun a b => compare a b = .lt)
    (s : FiniteSet κ) : FiniteSet.toList s = all.filter s.contains := by
  have hlisted : (FiniteSet.toList s).Pairwise fun a b => compare a b = .lt :=
    List.pairwise_map.2 s.ascending
  have hnodup : ∀ {l : List κ}, (l.Pairwise fun a b => compare a b = .lt) → l.Nodup :=
    fun h => h.imp fun hlt heq => by simp [heq] at hlt
  -- two lists with the same members are the same list when both ascend
  refine List.Perm.eq_of_pairwise (fun a b _ _ h h' => ?_) hlisted (hascend.filter _) ?_
  · exact absurd (Std.OrientedCmp.gt_of_lt h) (by simp [h'])
  · rw [List.perm_ext_iff_of_nodup (hnodup hlisted) (hnodup (hascend.filter _))]
    intro k
    rw [FiniteSet.mem_toList_iff, List.mem_filter]
    exact (and_iff_right (hall k)).symm

/-- Sets of states are listed as the states are declared. -/
theorem toList_states (set : FiniteSet State) :
    FiniteSet.toList set = State.all.filter set.contains :=
  toList_eq_filter State.mem_all (by decide) set

theorem toList_kinds (kinds : FiniteSet MemoryError) :
    FiniteSet.toList kinds = MemoryError.all.filter kinds.contains :=
  toList_eq_filter MemoryError.mem_all (by decide) kinds

/-- A set is known from its members among all there are. -/
theorem eq_of_filter_eq {κ : Type} [Ord κ] [Std.TransOrd κ] [Std.LawfulEqOrd κ] {all : List κ}
    (hall : ∀ k, k ∈ all) {s s' : FiniteSet κ} (h : all.filter s.contains = all.filter s'.contains) :
    s = s' := by
  refine FiniteSet.ext_contains fun k => ?_
  have hmem := congrArg (k ∈ ·) h
  simpa [hall k] using hmem

/-! ## §4 Written entries -/

variable (program : Program)

/-- The entry of a contributing value. -/
def ValueEntry.ofBinding (b : ValueId × FiniteSet State) : ValueEntry :=
  ⟨b.1, program.valueLabel b.1, FiniteSet.toList b.2⟩

/-- The entry of a finding. -/
def FindingEntry.ofFinding (f : Finding) : FindingEntry :=
  ⟨f.fingerprint, f.instruction, f.function, f.callee, f.token, FiniteSet.toList f.kinds,
    f.values.toList.map (ValueEntry.ofBinding program)⟩

/-- A written value is read back with the states in their listed order. -/
theorem ValueEntry.ofJson_valueJson (b : ValueId × FiniteSet State) :
    ValueEntry.ofJson (valueJson program b) = .ok (ofBinding program b) := by
  have hstates := Json.readList_map (l := FiniteSet.toList b.2)
    fun s _ => Json.readChoice_ofString s.ofName?_name
  unfold ValueEntry.ofJson valueJson
  rw [Json.Fields.ofJson_ofMembers (by simp)]
  simp [Json.Fields.required, Json.Fields.get?, hstates, ofBinding, bind, Except.bind, pure,
    Except.pure]

/-- A written finding is read back field by field. -/
theorem FindingEntry.ofJson_findingJson (f : Finding) :
    FindingEntry.ofJson (findingJson program f) = .ok (ofFinding program f) := by
  have htoken := Json.readChoice_ofString f.token.ofName?_name
  have hkinds := Json.readList_map (l := FiniteSet.toList f.kinds)
    fun k _ => Json.readChoice_ofString k.ofName?_name
  have hvalues := Json.readList_array_map (ValueEntry.ofJson_valueJson program) f.values.toList
  -- the members of a written object are its fields, each once
  unfold FindingEntry.ofJson findingJson
  rw [Json.Fields.ofJson_ofMembers (by simp)]
  simp [Json.Fields.required, Json.Fields.get?, htoken, hkinds, hvalues, ofFinding, bind,
    Except.bind, pure, Except.pure]

theorem Reading.ofJson_documentJson (fs : List Finding) (time : Timestamp) :
    Reading.ofJson (documentJson program fs time) =
      .ok ⟨time.write, fs.length, fs.map (FindingEntry.ofFinding program)⟩ := by
  have hfindings := Json.readList_array_map (FindingEntry.ofJson_findingJson program) fs
  unfold Reading.ofJson documentJson
  rw [Json.Fields.ofJson_ofMembers (by simp)]
  simp [Json.Fields.required, Json.Fields.get?, hfindings, bind, Except.bind, pure, Except.pure]

/-! ### The document is well formed -/

theorem written_valueJson (b : ValueId × FiniteSet State) : (valueJson program b).Written := by
  refine Json.written_ofMembers ?_
  simp only [List.forall_mem_cons, List.not_mem_nil, false_implies, implies_true, and_true]
  exact ⟨Json.written_ofNat _, Json.written_ofString _,
    written_array fun s _ => Json.written_ofString _⟩

theorem written_findingJson (f : Finding) : (findingJson program f).Written := by
  refine Json.written_ofMembers ?_
  simp only [List.forall_mem_cons, List.not_mem_nil, false_implies, implies_true, and_true]
  exact ⟨Json.written_ofString _, Json.written_ofNat _, Json.written_ofString _,
    Json.written_ofString _, Json.written_ofString _,
    written_array fun k _ => Json.written_ofString _,
    written_array fun b _ => written_valueJson program b⟩

/-- The document has no number or text that the grammar does not allow. -/
theorem written_documentJson (fs : List Finding) (time : Timestamp) :
    (documentJson program fs time).Written := by
  refine Json.written_ofMembers ?_
  simp only [List.forall_mem_cons, List.not_mem_nil, false_implies, implies_true, and_true]
  exact ⟨Json.written_ofString _, Json.written_ofNat _,
    written_array fun f _ => written_findingJson program f⟩

/-! ### Entries say what is so -/

/-- An entry that describes a value is the one that is written for it. -/
theorem ValueEntry.describes_iff {values : StateSets} {w : ValueEntry} :
    w.Describes program values ↔
      ∃ set, values.get? w.value = some set ∧ w = ofBinding program (w.value, set) := by
  constructor
  · rintro ⟨⟨set, hset, hstates⟩, hname⟩
    refine ⟨set, hset, ?_⟩
    rw [ofBinding, toList_states, ← hstates, ← hname]
  · rintro ⟨set, hset, hw⟩
    refine ⟨⟨set, hset, ?_⟩, ?_⟩
    · rw [hw, ofBinding, toList_states]
    · rw [hw, ofBinding]

/-- The entry that is written for a finding describes it. -/
theorem FindingEntry.describes_ofFinding (f : Finding) :
    (ofFinding program f).Describes program f where
  id := rfl
  instruction := rfl
  function := rfl
  callee := rfl
  token := rfl
  kinds := toList_kinds f.kinds
  values_ascend := List.pairwise_map.2 f.values.ascending
  mem_values w := by
    -- the entries of values are those of the bindings, so nothing is left out
    rw [ValueEntry.describes_iff]
    constructor
    · intro hw
      obtain ⟨⟨v, set⟩, hb, rfl⟩ := List.mem_map.1 hw
      exact ⟨set, FiniteMap.mem_toList_iff.1 hb, rfl⟩
    · rintro ⟨set, hset, hw⟩
      rw [hw]
      exact List.mem_map_of_mem (FiniteMap.mem_toList_iff.2 hset)

/-! ## §5 A reading determines the findings -/

variable {program} {f f' : Finding} {e : FindingEntry}

namespace FindingEntry.Describes

/-- Two findings with one entry have the same contributing values. -/
theorem get?_values (h : e.Describes program f) (h' : e.Describes program f') {v : ValueId}
    {set : FiniteSet State} (hset : f.values.get? v = some set) :
    f'.values.get? v = some set := by
  have hw : (ValueEntry.ofBinding program (v, set)).Describes program f.values :=
    (ValueEntry.describes_iff program).2 ⟨set, hset, rfl⟩
  -- the entry of the value in the first finding also describes it in the second
  obtain ⟨set', hset', hstates⟩ := ((h'.mem_values _).1 ((h.mem_values _).2 hw)).states
  have hsame : set = set' := eq_of_filter_eq State.mem_all ((toList_states set).symm.trans hstates)
  rw [hsame]
  exact hset'

/-- An entry describes only one finding. -/
theorem unique (h : e.Describes program f) (h' : e.Describes program f') : f = f' := by
  have hvalues : f.values = f'.values := by
    refine FiniteMap.ext_get? fun v => Option.ext fun set => ?_
    exact ⟨fun hset => h.get?_values h' hset, fun hset => h'.get?_values h hset⟩
  have hkinds : f.kinds = f'.kinds :=
    eq_of_filter_eq MemoryError.mem_all (h.kinds.symm.trans h'.kinds)
  have hinstruction := h.instruction.symm.trans h'.instruction
  have hfunction := h.function.symm.trans h'.function
  have hcallee := h.callee.symm.trans h'.callee
  have htoken := h.token.symm.trans h'.token
  cases f
  cases f'
  simp_all

end FindingEntry.Describes

/-- A reading describes only one list of findings. -/
theorem Reading.Describes.unique {fs fs' : List Finding} {time : Timestamp} {r : Reading}
    (h : r.Describes program fs time) (h' : r.Describes program fs' time) : fs = fs' :=
  List.left_unique_forall₂' (fun _ _ _ h h' => h.unique h') h.findings h'.findings

/-! ## §6 Documents -/

/-- A document is read as the entries that it was written from. -/
theorem exists_read_document (program : Program) (fs : List Finding) (time : Timestamp) :
    ∃ r, read (document program fs time) = .ok r ∧ r.Describes program fs time := by
  have hread : read (document program fs time) =
      .ok ⟨time.write, fs.length, fs.map (FindingEntry.ofFinding program)⟩ := by
    rw [read, document, Json.parse_written (written_documentJson program fs time)]
    exact Reading.ofJson_documentJson program fs time
  have hfindings : List.Forall₂ (FindingEntry.Describes program) fs
      (fs.map (FindingEntry.ofFinding program)) := by
    rw [List.forall₂_map_right_iff, List.forall₂_same]
    exact fun f _ => FindingEntry.describes_ofFinding program f
  exact ⟨_, hread, ⟨rfl, rfl, hfindings⟩⟩

/--
**The document is faithful.** It is one well-formed document, what is read from it says everything
about the findings, and so findings are told apart by their documents.
-/
theorem document_faithful (program : Program) (fs fs' : List Finding) (time : Timestamp) :
    (∃ r, read (document program fs time) = .ok r ∧ r.Describes program fs time) ∧
      (document program fs time = document program fs' time ↔ fs = fs') := by
  refine ⟨exists_read_document program fs time, fun hsame => ?_, fun heq => by rw [heq]⟩
  -- both documents give one reading, and that describes only one list of findings
  obtain ⟨r, hr, hdescribes⟩ := exists_read_document program fs time
  obtain ⟨r', hr', hdescribes'⟩ := exists_read_document program fs' time
  rw [hsame, hr'] at hr
  cases hr
  exact hdescribes.unique hdescribes'

end Report

end Typestate
