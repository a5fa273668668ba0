import Typestate.Program.Codec
import Typestate.Proofs.Bindings
import Typestate.Proofs.WrittenJson

/-!
# Programs and their documents

Every program is read back from its document, whatever its names, texts and numbers are. Each record
is written as an object with distinct field names, so the fields that reading finds are the ones that
were written, and a field that was left out stands for the default it had.

## Contents

- §1 Scalars and lists
- §2 Fields of a record
- §3 The parts of a program
- §4 Names of values
- §5 Whole programs
-/

namespace Typestate

namespace Json

/-! ## §1 Scalars and lists -/

theorem Quoted.decodeFrom_unit {done : List Char} {u : UInt16} {rest : Quoted}
    (hhigh : isHighSurrogate u = false) (hlow : isLowSurrogate u = false) :
    Quoted.decodeFrom done (.unit u :: rest) =
      Quoted.decodeFrom (Char.ofNat u.toNat :: done) rest := by
  conv => lhs; unfold Quoted.decodeFrom
  simp [hhigh, hlow]

/-- Every text is read back from its escapes. -/
theorem Quoted.decodeFrom_ofString (cs done : List Char) :
    Quoted.decodeFrom done (cs.map Piece.ofChar) = some (done.reverse ++ cs) := by
  induction cs generalizing done with
  | nil => simp [Quoted.decodeFrom]
  | cons c cs ih =>
    rw [List.map_cons, Piece.ofChar]
    split
    · next h =>
      -- a code unit of a control character is no surrogate
      have hlt : c.toNat < 32 := by
        rw [Bool.and_eq_true] at h
        exact of_decide_eq_true h.1
      have hunit : c.toNat.toUInt16.toNat = c.toNat := by
        simp only [Nat.toUInt16, UInt16.toNat_ofNat']
        omega
      have hhigh : isHighSurrogate c.toNat.toUInt16 = false := by
        simp only [isHighSurrogate, hunit, Bool.and_eq_false_iff, decide_eq_false_iff_not]
        omega
      have hlow : isLowSurrogate c.toNat.toUInt16 = false := by
        simp only [isLowSurrogate, hunit, Bool.and_eq_false_iff, decide_eq_false_iff_not]
        omega
      rw [Quoted.decodeFrom_unit hhigh hlow, ih, hunit]
      simp
    · simp [Quoted.decodeFrom, ih]

@[simp]
theorem Quoted.decode?_ofString (s : String) : (Quoted.ofString s).decode? = some s := by
  unfold Quoted.decode? Quoted.ofString
  rw [Quoted.decodeFrom_ofString]
  simp

@[simp]
theorem readString_ofString (s : String) : readString (.ofString s) = .ok s := by
  simp [readString, Json.ofString]

/-- A number within the bound is read back from its numeral. -/
theorem readNat_ofNat {bound n : Nat} (h : n < bound) : readNat bound (.ofNat n) = .ok n := by
  simp [readNat, Json.ofNat, Text.ofDecimal?_decimal, h]

@[simp]
theorem readWord32_ofNat (w : UInt32) : readWord32 (.ofNat w.toNat) = .ok w := by
  unfold readWord32
  rw [readNat_ofNat w.toNat_lt]
  simp [Except.map]

@[simp]
theorem readWord64_ofNat (w : UInt64) : readWord64 (.ofNat w.toNat) = .ok w := by
  unfold readWord64
  rw [readNat_ofNat w.toNat_lt]
  simp [Except.map]

/-- A number is no absence. -/
theorem readOption_ofNat {α : Type} {read : Json → Except Fault α} {n : Nat} {a : α}
    (h : read (.ofNat n) = .ok a) : readOption read (.ofNat n) = .ok (some a) := by
  simp only [Json.ofNat] at h ⊢
  simp [readOption, h, Except.map]

/-- What is written item by item is read back item by item. -/
theorem mapM_map {α β : Type} {f : α → β} {g : β → Except Fault α} {l : List α}
    (h : ∀ x ∈ l, g (f x) = .ok x) : (l.map f).mapM g = .ok l := by
  induction l with
  | nil => rfl
  | cons x xs ih =>
    rw [List.map_cons, List.mapM_cons, h x (List.mem_cons_self ..),
      ih fun x hx => h x (List.mem_cons_of_mem _ hx)]
    rfl

theorem readList_map {α : Type} {f : α → Json} {g : Json → Except Fault α} {l : List α}
    (h : ∀ x ∈ l, g (f x) = .ok x) : readList g (.array (l.map f)) = .ok l :=
  mapM_map h

/-! ## §2 Fields -/

namespace Fields

/-- Where the names are distinct, none occurs twice. -/
theorem count_le_one {name : String} {present : List (String × Json)}
    (h : (present.map (·.1)).Nodup) : count name present ≤ 1 := by
  induction present with
  | nil => simp [count]
  | cons m present ih =>
    obtain ⟨hnew, hrest⟩ := List.nodup_cons.1 (List.map_cons ▸ h)
    unfold count at ih ⊢
    rw [List.filter_cons]
    split
    · next hm =>
      -- the name stands at the front, so it stands nowhere behind it
      have hname : m.1 = name := by simpa using hm
      have hnone : present.filter (fun m => m.1 == name) = [] := by
        rw [List.filter_eq_nil_iff]
        intro m' hm' heq
        have heq : m'.1 = name := by simpa using heq
        exact hnew (hname ▸ heq ▸ List.mem_map_of_mem hm')
      simp [hnone]
    · exact ih hrest

/-- The fields of a record that was written as an object with distinct names. -/
theorem ofJson_ofMembers {names : List String} {members : List (String × Json)}
    (h : (members.map (·.1)).Nodup) :
    Fields.ofJson names (.ofMembers members) = .ok ⟨members⟩ := by
  -- every key decodes to the name it was made of, and no name is found twice
  have hpresent : (members.map fun m => (Quoted.ofString m.1, m.2)).mapM member = .ok members :=
    mapM_map fun m _ => by simp [member]
  have hnone : names.find? (fun name => 1 < count name members) = none := by
    rw [List.find?_eq_none]
    intro name _
    have hcount : count name members ≤ 1 := count_le_one h
    simp only [decide_eq_true_eq]
    omega
  simp only [Fields.ofJson, Json.ofMembers, hpresent, bind, Except.bind, hnone]

end Fields

end Json

/-! ## §3 Parts of a program -/

@[simp]
theorem ValueId.ofJson_toJson (v : ValueId) : ValueId.ofJson v.toJson = .ok v := by
  simp [ValueId.ofJson, ValueId.toJson, Except.map]

theorem ValueId.written_toJson (v : ValueId) : v.toJson.Written := Json.written_ofNat _

theorem readList_values (vs : List ValueId) :
    Json.readList ValueId.ofJson (.array (vs.map ValueId.toJson)) = .ok vs :=
  Json.readList_map fun v _ => ValueId.ofJson_toJson v

theorem readOption_value (v : ValueId) :
    Json.readOption ValueId.ofJson v.toJson = .ok (some v) :=
  Json.readOption_ofNat v.ofJson_toJson

theorem written_optionalMember {α : Type} {name : String} {toJson : α → Json} {o : Option α}
    (h : ∀ a, (toJson a).Written) : ∀ m ∈ optionalMember name toJson o, m.2.Written := by
  cases o with
  | none => simp [optionalMember]
  | some a => simpa [optionalMember] using h a

theorem written_array {α : Type} {toJson : α → Json} {xs : List α}
    (h : ∀ x ∈ xs, (toJson x).Written) : (Json.array (xs.map toJson)).Written := by
  refine .array ?_
  intro v hv
  obtain ⟨x, hx, rfl⟩ := List.mem_map.1 hv
  exact h x hx

/-! ### Operations -/

theorem Op.callOfJson_ofMembers (callee : String) (args : List ValueId) (result : Option ValueId) :
    Op.callOfJson (.ofMembers ([("callee", .ofString callee),
      ("args", .array (args.map ValueId.toJson))] ++ optionalMember "result" ValueId.toJson result)) =
      .ok (.call callee args result) := by
  unfold Op.callOfJson
  -- the member of the result is there or not
  cases result with
  | none =>
    rw [Json.Fields.ofJson_ofMembers (by simp [optionalMember])]
    simp [optionalMember, Json.Fields.required, Json.Fields.withDefault, Json.Fields.get?,
      readList_values, bind, Except.bind, pure, Except.pure]
  | some v =>
    rw [Json.Fields.ofJson_ofMembers (by simp [optionalMember])]
    simp [optionalMember, Json.Fields.required, Json.Fields.withDefault, Json.Fields.get?,
      readList_values, readOption_value, bind, Except.bind, pure, Except.pure]

theorem Op.retOfJson_ofMembers (value : Option ValueId) :
    Op.retOfJson (.ofMembers (optionalMember "value" ValueId.toJson value)) = .ok (.ret value) := by
  unfold Op.retOfJson
  cases value with
  | none =>
    rw [Json.Fields.ofJson_ofMembers (by simp [optionalMember])]
    rfl
  | some v =>
    rw [Json.Fields.ofJson_ofMembers (by simp [optionalMember])]
    simp [optionalMember, Json.Fields.withDefault, Json.Fields.get?, readOption_value, bind,
      Except.bind, pure, Except.pure]

theorem Op.otherOfJson_ofMembers (text : String) :
    Op.otherOfJson (.ofMembers [("text", .ofString text)]) = .ok (.other text) := by
  unfold Op.otherOfJson
  rw [Json.Fields.ofJson_ofMembers (by simp)]
  simp [Json.Fields.withDefault, Json.Fields.get?, bind, Except.bind, pure, Except.pure]

/-- Each operation is read back under its own tag. -/
theorem Op.ofJson_toJson (op : Op) : Op.ofJson op.toJson = .ok op := by
  cases op with
  | call callee args result =>
    simpa [Op.toJson, Op.ofJson, Json.ofMembers] using Op.callOfJson_ofMembers callee args result
  | ret value =>
    simpa [Op.toJson, Op.ofJson, Json.ofMembers] using Op.retOfJson_ofMembers value
  | other text =>
    simpa [Op.toJson, Op.ofJson, Json.ofMembers] using Op.otherOfJson_ofMembers text

theorem Op.written_toJson (op : Op) : op.toJson.Written := by
  cases op with
  | call callee args result =>
    refine Json.written_ofMembers (List.forall_mem_singleton.2 (Json.written_ofMembers ?_))
    intro m hm
    rcases List.mem_append.1 hm with hm | hm
    · simp only [List.mem_cons, List.not_mem_nil, or_false] at hm
      rcases hm with rfl | rfl
      · exact Json.written_ofString callee
      · exact written_array fun v _ => v.written_toJson
    · exact written_optionalMember ValueId.written_toJson m hm
  | ret value =>
    exact Json.written_ofMembers (List.forall_mem_singleton.2
      (Json.written_ofMembers (written_optionalMember ValueId.written_toJson)))
  | other text =>
    exact Json.written_ofMembers (List.forall_mem_singleton.2
      (Json.written_ofMembers (List.forall_mem_singleton.2 (Json.written_ofString text))))

/-! ### Instructions, blocks and functions -/

theorem Instruction.ofJson_toJson (i : Instruction) : Instruction.ofJson i.toJson = .ok i := by
  unfold Instruction.ofJson Instruction.toJson
  rw [Json.Fields.ofJson_ofMembers (by simp)]
  simp [Json.Fields.required, Json.Fields.get?, Op.ofJson_toJson, bind, Except.bind, pure,
    Except.pure]

theorem Instruction.written_toJson (i : Instruction) : i.toJson.Written := by
  refine Json.written_ofMembers ?_
  simp only [List.forall_mem_cons, List.not_mem_nil, false_implies, implies_true, and_true]
  exact ⟨Json.written_ofNat _, i.op.written_toJson⟩

theorem Block.ofJson_toJson (b : Block) : Block.ofJson b.toJson = .ok b := by
  -- the two lists are read back first, then the record around them
  have hinstructions := Json.readList_map (l := b.instructions) fun i _ =>
    Instruction.ofJson_toJson i
  have hsuccessors := Json.readList_map (l := b.successors)
    (f := fun s => .ofNat s.toNat) fun s _ => Json.readWord64_ofNat s
  unfold Block.ofJson Block.toJson
  rw [Json.Fields.ofJson_ofMembers (by simp)]
  simp [Json.Fields.required, Json.Fields.withDefault, Json.Fields.get?, hinstructions,
    hsuccessors, bind, Except.bind, pure, Except.pure]

theorem Block.written_toJson (b : Block) : b.toJson.Written := by
  refine Json.written_ofMembers ?_
  simp only [List.forall_mem_cons, List.not_mem_nil, false_implies, implies_true, and_true]
  exact ⟨written_array fun i _ => i.written_toJson, written_array fun s _ => Json.written_ofNat _⟩

/-- A function is read back with its parts, or with the defaults of those that were left out. -/
theorem Function.ofJson_toJson (f : Function) : Function.ofJson f.toJson = .ok f := by
  have hblocks := Json.readList_map (l := f.blocks) fun b _ => Block.ofJson_toJson b
  unfold Function.ofJson Function.toJson
  cases f with
  | mk name params outputArg blocks =>
    -- only a slot that is declared is written
    cases outputArg with
    | none =>
      rw [Json.Fields.ofJson_ofMembers (by simp [optionalMember])]
      simp [optionalMember, Json.Fields.required, Json.Fields.withDefault, Json.Fields.get?,
        readList_values, hblocks, bind, Except.bind, pure, Except.pure]
    | some k =>
      rw [Json.Fields.ofJson_ofMembers (by simp [optionalMember])]
      simp [optionalMember, Json.Fields.required, Json.Fields.withDefault, Json.Fields.get?,
        readList_values, Json.readOption_ofNat (Json.readWord64_ofNat k), hblocks, bind,
        Except.bind, pure, Except.pure]

/-- The document of a function can be written: every string and numeral in it is well formed. -/
theorem Function.written_toJson (f : Function) : f.toJson.Written := by
  refine Json.written_ofMembers ?_
  intro m hm
  simp only [List.mem_append, List.mem_cons, List.not_mem_nil, or_false] at hm
  rcases hm with ((rfl | rfl) | hm) | rfl
  · exact Json.written_ofString f.name
  · exact written_array fun v _ => v.written_toJson
  · exact written_optionalMember (fun _ => Json.written_ofNat _) m hm
  · exact written_array fun b _ => b.written_toJson

/-! ## §4 Names of values -/

theorem plainCharacters?_map (cs : List Char) :
    plainCharacters? (cs.map Json.Piece.char) = some cs := by
  unfold plainCharacters?
  induction cs with
  | nil => rfl
  | cons c cs ih =>
    rw [List.map_cons, List.mapM_cons, ih]
    rfl

theorem Text.isControl_of_isDigit {c : Char} (h : Text.isDigit c = true) :
    Json.isControl c = false := by
  simp only [Text.isDigit, Bool.and_eq_true, decide_eq_true_eq, Char.le_def,
    UInt32.le_iff_toNat_le] at h
  have hlow : 48 ≤ c.toNat := h.1
  simp only [Json.isControl, decide_eq_false_iff_not]
  omega

/-- The key of a value is the one numeral that stands for it. -/
theorem ValueId.ofKey_decimal (v : ValueId) :
    ValueId.ofKey ((Text.decimal v.index.toNat).map Json.Piece.char) = .ok v := by
  unfold ValueId.ofKey
  rw [plainCharacters?_map]
  simp [Json.isWhole_decimal, Text.numeralValue_decimal, v.index.toNat_lt]

/-- The names are read back binding by binding, and a map is built from its bindings. -/
theorem valueNamesOfJson_toJson (names : FiniteMap ValueId String) :
    valueNamesOfJson (valueNamesToJson names) = .ok names := by
  -- key and name are read one after the other
  have hbindings := Json.mapM_map (l := names.toList)
    (f := fun e => ((Text.decimal e.1.index.toNat).map Json.Piece.char, Json.ofString e.2))
    (g := fun m => do
      let key ← ValueId.ofKey m.1
      let name ← Json.readString m.2
      pure (key, name))
    fun e _ => by simp [ValueId.ofKey_decimal, bind, Except.bind, pure, Except.pure]
  show List.mapM _ _ >>= _ = _
  rw [hbindings]
  exact congrArg Except.ok (FiniteMap.ofList_toList names)

theorem written_valueNamesToJson (names : FiniteMap ValueId String) :
    (valueNamesToJson names).Written := by
  refine .object ?_ ?_
  · intro m hm
    obtain ⟨e, -, rfl⟩ := List.mem_map.1 hm
    intro p hp
    obtain ⟨c, hc, rfl⟩ := List.mem_map.1 hp
    -- a digit is no control character
    intro hcontrol
    have hdigit := List.all_eq_true.1 (Text.all_isDigit_decimal _) c hc
    exact absurd hcontrol (by simp [Text.isControl_of_isDigit hdigit])
  · intro m hm
    obtain ⟨e, -, rfl⟩ := List.mem_map.1 hm
    exact Json.written_ofString e.2

/-! ## §5 Programs -/

/-- A program is read back from the tree of its document; the text is left to the parser. -/
theorem Program.ofJson_toJson (p : Program) : Program.ofJson p.toJson = .ok p := by
  have hfunctions := Json.readList_map (l := p.functions) fun f _ => Function.ofJson_toJson f
  unfold Program.ofJson Program.toJson
  by_cases h : p.valueNames.isEmpty = true
  · -- names that are left out are no names at all
    have hempty := FiniteMap.eq_empty_of_isEmpty h
    rw [Json.Fields.ofJson_ofMembers (by simp [h])]
    simp only [h, if_true, List.append_nil, Json.Fields.required, Json.Fields.withDefault,
      Json.Fields.get?, bind, Except.bind, pure, Except.pure]
    cases p with
    | mk functions valueNames => simp [hfunctions, ← hempty]
  · rw [Json.Fields.ofJson_ofMembers (by simp [h])]
    simp [h, Json.Fields.required, Json.Fields.withDefault, Json.Fields.get?, hfunctions,
      valueNamesOfJson_toJson, bind, Except.bind, pure, Except.pure]

theorem Program.written_toJson (p : Program) : p.toJson.Written := by
  refine Json.written_ofMembers ?_
  intro m hm
  rcases List.mem_append.1 hm with hm | hm
  · cases List.mem_singleton.1 hm
    exact written_array fun f _ => f.written_toJson
  · split at hm
    · cases hm
    · cases List.mem_singleton.1 hm
      exact written_valueNamesToJson p.valueNames

/-- **Every program is read back from its document.** -/
theorem Program.parse_pretty (p : Program) : Program.parse p.pretty = .ok p := by
  unfold Program.parse Program.pretty
  rw [Json.parse_written p.written_toJson]
  exact p.ofJson_toJson

end Typestate
