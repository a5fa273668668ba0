import Typestate.Proofs.Records

/-!
# Forms of a program document

A program document consists of records inside records, and each of them may take any of its forms.
All of the documents that come about in this way are read as the same program, the one that is written
among them.

What is not a form is not taken for one. A record that lacks a required field or has a known field
twice is refused, however deep it stands in the document.

## Contents

- §1 The forms of a program
- §2 Reading the forms
- §3 `Inside`: records that stand in a document
- §4 Broken records
-/

namespace Typestate

/-! ## §1 The forms of a program -/

open Json (Slot Record Spells Lists orNull)

/-- The fields of a call. -/
def Op.callSlots (callee : String) (args : List ValueId) (result : Option ValueId) : List Slot :=
  [⟨"callee", Spells callee, False⟩,
    ⟨"args", (· = .array (args.map ValueId.toJson)), args = []⟩,
    ⟨"result", (· = orNull ValueId.toJson result), result = none⟩]

/-- The fields of a return. -/
def Op.retSlots (value : Option ValueId) : List Slot :=
  [⟨"value", (· = orNull ValueId.toJson value), value = none⟩]

/-- The fields of any other operation. -/
def Op.otherSlots (text : String) : List Slot := [⟨"text", Spells text, text = ""⟩]

/-- The forms of an operation: an object with one member, whose key names the kind. -/
inductive Op.Form : Op → Json → Prop where
  | call {callee : String} {args : List ValueId} {result : Option ValueId} {key : Json.Quoted}
      {body : Json} :
      key.decode? = some "call" → Record (callSlots callee args result) body →
      Form (.call callee args result) (.object [(key, body)])
  | ret {value : Option ValueId} {key : Json.Quoted} {body : Json} :
      key.decode? = some "return" → Record (retSlots value) body →
      Form (.ret value) (.object [(key, body)])
  | other {text : String} {key : Json.Quoted} {body : Json} :
      key.decode? = some "other" → Record (otherSlots text) body →
      Form (.other text) (.object [(key, body)])

/-- The fields of an instruction. -/
def Instruction.slots (i : Instruction) : List Slot :=
  [⟨"id", (· = .ofNat i.id.index.toNat), False⟩, ⟨"op", i.op.Form, False⟩]

/-- The forms of an instruction. -/
def Instruction.Form (i : Instruction) : Json → Prop := Record i.slots

/-- The fields of a block. -/
def Block.slots (b : Block) : List Slot :=
  [⟨"instructions", Lists Instruction.Form b.instructions, False⟩,
    ⟨"successors", (· = .array (b.successors.map fun s => .ofNat s.toNat)), b.successors = []⟩]

/-- The forms of a block. -/
def Block.Form (b : Block) : Json → Prop := Record b.slots

/-- The fields of a function. -/
def Function.slots (f : Function) : List Slot :=
  [⟨"name", Spells f.name, False⟩,
    ⟨"params", (· = .array (f.params.map ValueId.toJson)), f.params = []⟩,
    ⟨"output_arg", (· = orNull (fun k => .ofNat k.toNat) f.outputArg), f.outputArg = none⟩,
    ⟨"blocks", Lists Block.Form f.blocks, f.blocks = []⟩]

/-- The forms of a function. -/
def Function.Form (f : Function) : Json → Prop := Record f.slots

/-- The fields of a program. -/
def Program.slots (p : Program) : List Slot :=
  [⟨"functions", Lists Function.Form p.functions, False⟩,
    ⟨"value_names", (· = valueNamesToJson p.valueNames), p.valueNames = .empty⟩]

/-- The forms of a program. -/
def Program.Form (p : Program) : Json → Prop := Record p.slots

/-! ### Written documents are forms -/

/-- A written operation is an object, which leaves out absent values only. -/
theorem Op.form_toJson (op : Op) : op.Form op.toJson := by
  cases op with
  | call callee args result =>
    refine .call (Json.Quoted.decode?_ofString "call") (.ofKept ?_)
    refine .write (Json.spells_ofString callee) (.write rfl ?_)
    cases result with
    | none => exact .leave rfl .nil
    | some v => exact .write rfl .nil
  | ret value =>
    refine .ret (Json.Quoted.decode?_ofString "return") (.ofKept ?_)
    cases value with
    | none => exact .leave rfl .nil
    | some v => exact .write rfl .nil
  | other text =>
    refine .other (Json.Quoted.decode?_ofString "other") (.ofKept ?_)
    exact .write (Json.spells_ofString text) .nil

theorem Instruction.form_toJson (i : Instruction) : i.Form i.toJson :=
  .ofKept (.write rfl (.write i.op.form_toJson .nil))

theorem Block.form_toJson (b : Block) : b.Form b.toJson :=
  .ofKept (.write (Json.lists_map Instruction.form_toJson b.instructions) (.write rfl .nil))

theorem Function.form_toJson (f : Function) : f.Form f.toJson := by
  have hblocks := Json.lists_map Block.form_toJson f.blocks
  obtain ⟨name, params, outputArg, blocks⟩ := f
  refine .ofKept (.write (Json.spells_ofString name) (.write rfl ?_))
  cases outputArg with
  | none => exact .leave rfl (.write hblocks .nil)
  | some k => exact .write rfl (.write hblocks .nil)

theorem Program.form_toJson (p : Program) : p.Form p.toJson := by
  refine .ofKept (.write (Json.lists_map Function.form_toJson p.functions) ?_)
  -- names are written when there are some
  by_cases h : p.valueNames.isEmpty = true
  · rw [if_pos h]
    exact .leave (FiniteMap.eq_empty_of_isEmpty h) .nil
  · rw [if_neg h]
    exact .write rfl .nil

/-! ## §2 Reading the forms -/

/-- Every form of the body of a call is read as its callee, arguments and result. -/
theorem Op.callOfJson_of_record {callee : String} {args : List ValueId} {result : Option ValueId}
    {v : Json} (h : Record (callSlots callee args result) v) :
    Op.callOfJson v = .ok (.call callee args result) := by
  obtain ⟨f, hf, hhas⟩ := h.exists_ofJson (by simp [callSlots])
  simp only [callSlots, List.forall_mem_cons, List.map_cons, List.map_nil] at hf hhas
  obtain ⟨hcallee, hargs, hresult, -⟩ := hhas
  -- the callee has no default, arguments and result have one
  have hcallee := Json.Fields.required_of_has Json.readString hcallee not_false
    fun _ => Json.readString_of_spells
  have hargs := Json.Fields.withDefault_of_has (Json.readList ValueId.ofJson) hargs id
    (by rintro _ rfl; exact readList_values args)
  have hresult := Json.Fields.withDefault_of_has (Json.readOption ValueId.ofJson) hresult id
    (by rintro _ rfl; exact Json.readOption_orNull readOption_value result)
  simp only at hcallee hargs hresult
  simp only [Op.callOfJson, hf, hcallee, hargs, hresult, bind, Except.bind, pure, Except.pure]

theorem Op.retOfJson_of_record {value : Option ValueId} {v : Json}
    (h : Record (retSlots value) v) : Op.retOfJson v = .ok (.ret value) := by
  obtain ⟨f, hf, hhas⟩ := h.exists_ofJson (by simp [retSlots])
  simp only [retSlots, List.forall_mem_cons, List.map_cons, List.map_nil] at hf hhas
  have hvalue := Json.Fields.withDefault_of_has (Json.readOption ValueId.ofJson) hhas.1 id
    (by rintro _ rfl; exact Json.readOption_orNull readOption_value value)
  simp only at hvalue
  simp only [Op.retOfJson, hf, hvalue, bind, Except.bind, pure, Except.pure]

theorem Op.otherOfJson_of_record {text : String} {v : Json} (h : Record (otherSlots text) v) :
    Op.otherOfJson v = .ok (.other text) := by
  obtain ⟨f, hf, hhas⟩ := h.exists_ofJson (by simp [otherSlots])
  simp only [otherSlots, List.forall_mem_cons, List.map_cons, List.map_nil] at hf hhas
  have htext := Json.Fields.withDefault_of_has Json.readString hhas.1 id
    fun _ => Json.readString_of_spells
  simp only at htext
  simp only [Op.otherOfJson, hf, htext, bind, Except.bind, pure, Except.pure]

/-- The key chooses the reader of the body. -/
theorem Op.ofJson_of_form {op : Op} {v : Json} (h : op.Form v) : Op.ofJson v = .ok op := by
  cases h with
  | call hkey hbody => simpa [Op.ofJson, hkey] using Op.callOfJson_of_record hbody
  | ret hkey hbody => simpa [Op.ofJson, hkey] using Op.retOfJson_of_record hbody
  | other hkey hbody => simpa [Op.ofJson, hkey] using Op.otherOfJson_of_record hbody

theorem Instruction.ofJson_of_form {i : Instruction} {v : Json} (h : i.Form v) :
    Instruction.ofJson v = .ok i := by
  obtain ⟨f, hf, hhas⟩ := Record.exists_ofJson h (by simp [slots])
  simp only [slots, List.forall_mem_cons, List.map_cons, List.map_nil] at hf hhas
  obtain ⟨hid, hop, -⟩ := hhas
  have hid := Json.Fields.required_of_has Json.readWord32 hid not_false
    (by rintro _ rfl; exact Json.readWord32_ofNat i.id.index)
  have hop := Json.Fields.required_of_has Op.ofJson hop not_false fun _ => Op.ofJson_of_form
  simp only at hid hop
  simp only [Instruction.ofJson, hf, hid, hop, bind, Except.bind, pure, Except.pure]

theorem Block.ofJson_of_form {b : Block} {v : Json} (h : b.Form v) : Block.ofJson v = .ok b := by
  obtain ⟨f, hf, hhas⟩ := Record.exists_ofJson h (by simp [slots])
  simp only [slots, List.forall_mem_cons, List.map_cons, List.map_nil] at hf hhas
  obtain ⟨hinstructions, hsuccessors, -⟩ := hhas
  have hinstructions := Json.Fields.required_of_has (Json.readList Instruction.ofJson) hinstructions
    not_false fun _ => Json.readList_of_lists (R := Instruction.Form) Instruction.ofJson_of_form
  have hsuccessors := Json.Fields.withDefault_of_has (Json.readList Json.readWord64) hsuccessors id
    (by rintro _ rfl; exact Json.readList_map fun s _ => Json.readWord64_ofNat s)
  simp only at hinstructions hsuccessors
  simp only [Block.ofJson, hf, hinstructions, hsuccessors, bind, Except.bind, pure, Except.pure]

theorem Function.ofJson_of_form {f : Function} {v : Json} (h : f.Form v) :
    Function.ofJson v = .ok f := by
  obtain ⟨fields, hfields, hhas⟩ := Record.exists_ofJson h (by simp [slots])
  simp only [slots, List.forall_mem_cons, List.map_cons, List.map_nil] at hfields hhas
  obtain ⟨hname, hparams, houtput, hblocks, -⟩ := hhas
  -- each field is read by a reader that is known to accept its forms
  have hname := Json.Fields.required_of_has Json.readString hname not_false
    fun _ => Json.readString_of_spells
  have hparams := Json.Fields.withDefault_of_has (Json.readList ValueId.ofJson) hparams id
    (by rintro _ rfl; exact readList_values f.params)
  have houtput := Json.Fields.withDefault_of_has (Json.readOption Json.readWord64) houtput id
    (by rintro _ rfl
        exact Json.readOption_orNull (fun k => Json.readOption_ofNat (Json.readWord64_ofNat k)) _)
  have hblocks := Json.Fields.withDefault_of_has (Json.readList Block.ofJson) hblocks id
    fun _ => Json.readList_of_lists (R := Block.Form) Block.ofJson_of_form
  simp only at hname hparams houtput hblocks
  simp only [Function.ofJson, hfields, hname, hparams, houtput, hblocks, bind, Except.bind, pure,
    Except.pure]

/-- **Every form of a program is read as that program.** -/
theorem Program.ofJson_of_form {p : Program} {v : Json} (h : p.Form v) :
    Program.ofJson v = .ok p := by
  obtain ⟨f, hf, hhas⟩ := Record.exists_ofJson h (by simp [slots])
  simp only [slots, List.forall_mem_cons, List.map_cons, List.map_nil] at hf hhas
  obtain ⟨hfunctions, hnames, -⟩ := hhas
  have hfunctions := Json.Fields.required_of_has (Json.readList Function.ofJson) hfunctions not_false
    fun _ => Json.readList_of_lists (R := Function.Form) Function.ofJson_of_form
  have hnames := Json.Fields.withDefault_of_has valueNamesOfJson hnames id
    (by rintro _ rfl; exact valueNamesOfJson_toJson p.valueNames)
  simp only at hfunctions hnames
  simp only [Program.ofJson, hf, hfunctions, hnames, bind, Except.bind, pure, Except.pure]

/-! ## §3 Records inside a document -/

/-- The kinds of records that a program document consists of. -/
inductive RecordKind where
  | program
  | function
  | block
  | instruction
  /-- The body of a call. -/
  | call
  /-- The body of a return. -/
  | ret
  /-- The body of any other operation. -/
  | other
  deriving DecidableEq

namespace RecordKind

/-- The fields of a kind, in declared order. -/
def fields : RecordKind → List String
  | program => ["functions", "value_names"]
  | function => ["name", "params", "output_arg", "blocks"]
  | block => ["instructions", "successors"]
  | instruction => ["id", "op"]
  | call => ["callee", "args", "result"]
  | ret => ["value"]
  | other => ["text"]

/-- The fields without a default. -/
def required : RecordKind → List String
  | program => ["functions"]
  | function => ["name"]
  | block => ["instructions"]
  | instruction => ["id", "op"]
  | call => ["callee"]
  | _ => []

/-- The field that lists records, and their kind. -/
def listing? : RecordKind → Option (String × RecordKind)
  | program => some ("functions", function)
  | function => some ("blocks", block)
  | block => some ("instructions", instruction)
  | _ => none

/-- The key under which the body of an operation stands. -/
def tag? : RecordKind → Option String
  | call => some "call"
  | ret => some "return"
  | other => some "other"
  | _ => none

end RecordKind

/-- A record of one kind stands directly in a record of another. -/
inductive RecordKind.Child : RecordKind → Json → RecordKind → Json → Prop where
  | element {kind child : RecordKind} {name : String} {v w : Json} {items : List Json} :
      kind.listing? = some (name, child) → Json.FieldOf kind.fields name v (.array items) →
      w ∈ items → Child kind v child w
  | operation {child : RecordKind} {tag : String} {v w : Json} {key : Json.Quoted} :
      child.tag? = some tag → Json.FieldOf instruction.fields "op" v (.object [(key, w)]) →
      key.decode? = some tag → Child .instruction v child w

/-- The records of the document `v`, at any depth, with their kinds. -/
inductive Inside (v : Json) : RecordKind → Json → Prop where
  | root : Inside v .program v
  | child {kind kind' : RecordKind} {w w' : Json} :
      Inside v kind w → kind.Child w kind' w' → Inside v kind' w'

/-! ## §4 Broken records -/

/-- The members are not those of a record of the kind. -/
inductive RecordKind.Broken (kind : RecordKind) (members : List (Json.Quoted × Json)) : Prop where
  /-- A required field is not there. -/
  | missing {name : String} :
      name ∈ kind.required → (∀ m ∈ members, m.1.decode? ≠ some name) → Broken kind members
  /-- A known field is there more than once. -/
  | repeated {name : String} :
      name ∈ kind.fields → 2 ≤ members.countP (fun m => m.1.decode? = some name) →
      Broken kind members

namespace RecordKind

/-- The value is read as a record of the kind. -/
def Accepts : RecordKind → Json → Prop
  | program, v => ∃ p, Program.ofJson v = .ok p
  | function, v => ∃ f, Function.ofJson v = .ok f
  | block, v => ∃ b, Block.ofJson v = .ok b
  | instruction, v => ∃ i, Instruction.ofJson v = .ok i
  | call, v => ∃ op, Op.callOfJson v = .ok op
  | ret, v => ∃ op, Op.retOfJson v = .ok op
  | other, v => ∃ op, Op.otherOfJson v = .ok op

/-- What a record that is read has in its fields. -/
structure Reads (kind : RecordKind) (f : Json.Fields) : Prop where
  /-- Every required field is there. -/
  required : ∀ name ∈ kind.required, ∃ w, f.get? name = some w
  /-- Every listed record is read. -/
  elements : ∀ {name kind' items}, kind.listing? = some (name, kind') →
    f.get? name = some (.array items) → ∀ w ∈ items, Accepts kind' w
  /-- The body of an operation is read. -/
  operation : kind = .instruction → ∀ {kind' tag key w}, tag? kind' = some tag →
    f.get? "op" = some (.object [(key, w)]) → key.decode? = some tag → Accepts kind' w

variable {kind kind' : RecordKind} {v w : Json} {f : Json.Fields}

/-- The key of an operation that was read says what its body was read as. -/
theorem accepts_of_op {op : Op} {tag : String} {key : Json.Quoted}
    (h : Op.ofJson (.object [(key, w)]) = .ok op) (htag : kind'.tag? = some tag)
    (hkey : key.decode? = some tag) : kind'.Accepts w := by
  cases kind' <;> cases htag <;> simp only [Op.ofJson, hkey] at h <;> exact ⟨op, h⟩

/-- **Reading a record reads the records that stand in it.** -/
theorem Accepts.exists_fields (h : kind.Accepts v) :
    ∃ f, Json.Fields.ofJson kind.fields v = .ok f ∧ kind.Reads f := by
  cases kind with
  -- every reader takes the fields apart first and then reads one after the other
  | program =>
    obtain ⟨p, h⟩ := h
    obtain ⟨f, hf, h⟩ := exists_of_bind_eq_ok h
    obtain ⟨functions, hfunctions, -⟩ := exists_of_bind_eq_ok h
    obtain ⟨u, hu, hread⟩ := Json.Fields.of_required hfunctions
    refine ⟨f, hf, ⟨?_, ?_, fun hkind => nomatch hkind⟩⟩
    · exact List.forall_mem_singleton.2 ⟨u, hu⟩
    · rintro name kind' items ⟨⟩ hitems
      rw [hu] at hitems
      cases hitems
      exact Json.exists_of_readList hread
  -- blocks may be left out, but those that are listed are read
  | function =>
    obtain ⟨p, h⟩ := h
    obtain ⟨f, hf, h⟩ := exists_of_bind_eq_ok h
    obtain ⟨name, hname, h⟩ := exists_of_bind_eq_ok h
    obtain ⟨params, -, h⟩ := exists_of_bind_eq_ok h
    obtain ⟨outputArg, -, h⟩ := exists_of_bind_eq_ok h
    obtain ⟨blocks, hblocks, -⟩ := exists_of_bind_eq_ok h
    obtain ⟨u, hu, -⟩ := Json.Fields.of_required hname
    refine ⟨f, hf, ⟨?_, ?_, fun hkind => nomatch hkind⟩⟩
    · exact List.forall_mem_singleton.2 ⟨u, hu⟩
    · rintro name kind' items ⟨⟩ hitems
      exact Json.exists_of_readList (Json.Fields.of_withDefault hblocks hitems)
  | block =>
    obtain ⟨b, h⟩ := h
    obtain ⟨f, hf, h⟩ := exists_of_bind_eq_ok h
    obtain ⟨instructions, hinstructions, -⟩ := exists_of_bind_eq_ok h
    obtain ⟨u, hu, hread⟩ := Json.Fields.of_required hinstructions
    refine ⟨f, hf, ⟨?_, ?_, fun hkind => nomatch hkind⟩⟩
    · exact List.forall_mem_singleton.2 ⟨u, hu⟩
    · rintro name kind' items ⟨⟩ hitems
      rw [hu] at hitems
      cases hitems
      exact Json.exists_of_readList hread
  -- what is read under the operation is known only with its key
  | instruction =>
    obtain ⟨i, h⟩ := h
    obtain ⟨f, hf, h⟩ := exists_of_bind_eq_ok h
    obtain ⟨id, hid, h⟩ := exists_of_bind_eq_ok h
    obtain ⟨op, hop, -⟩ := exists_of_bind_eq_ok h
    obtain ⟨u, hu, -⟩ := Json.Fields.of_required hid
    obtain ⟨body, hbody, hread⟩ := Json.Fields.of_required hop
    refine ⟨f, hf, ⟨?_, fun hlisting => (nomatch hlisting), fun _ => ?_⟩⟩
    · exact List.forall_mem_cons.2 ⟨⟨u, hu⟩, List.forall_mem_singleton.2 ⟨body, hbody⟩⟩
    · intro kind' tag key w htag hw hkey
      rw [hbody] at hw
      cases hw
      exact accepts_of_op hread htag hkey
  | call =>
    obtain ⟨op, h⟩ := h
    obtain ⟨f, hf, h⟩ := exists_of_bind_eq_ok h
    obtain ⟨callee, hcallee, -⟩ := exists_of_bind_eq_ok h
    obtain ⟨u, hu, -⟩ := Json.Fields.of_required hcallee
    exact ⟨f, hf, ⟨List.forall_mem_singleton.2 ⟨u, hu⟩, fun hlisting => (nomatch hlisting),
      fun hkind => nomatch hkind⟩⟩
  | ret =>
    obtain ⟨op, h⟩ := h
    obtain ⟨f, hf, -⟩ := exists_of_bind_eq_ok h
    exact ⟨f, hf, ⟨fun _ hname => (nomatch hname), fun hlisting => (nomatch hlisting),
      fun hkind => nomatch hkind⟩⟩
  | other =>
    obtain ⟨op, h⟩ := h
    obtain ⟨f, hf, -⟩ := exists_of_bind_eq_ok h
    exact ⟨f, hf, ⟨fun _ hname => (nomatch hname), fun hlisting => (nomatch hlisting),
      fun hkind => nomatch hkind⟩⟩

theorem nodup_fields (kind : RecordKind) : kind.fields.Nodup := by
  cases kind <;> decide

theorem mem_fields_of_listing? {name : String} (h : kind.listing? = some (name, kind')) :
    name ∈ kind.fields := by
  cases kind <;> cases h <;> decide

/-- So a record that stands in a record that is read is read as well. -/
theorem Accepts.child (h : kind.Accepts v) (hchild : kind.Child v kind' w) : kind'.Accepts w := by
  obtain ⟨f, hf, hreads⟩ := h.exists_fields
  cases hchild with
  | element hlisting hfield hmem =>
    have hget := Json.Fields.get?_of_fieldOf hf kind.nodup_fields
      (mem_fields_of_listing? hlisting) hfield
    exact hreads.elements hlisting hget _ hmem
  | operation htag hfield hkey =>
    have hget := Json.Fields.get?_of_fieldOf hf (nodup_fields _) (by decide) hfield
    exact hreads.operation rfl htag hget hkey

/-- A document that is read consists of records that are read. -/
theorem accepts_of_inside {p : Program} (h : Program.ofJson v = .ok p)
    (hinside : Inside v kind w) : kind.Accepts w := by
  induction hinside with
  | root => exact ⟨p, h⟩
  | child _ hchild ih => exact ih.child hchild

/-- No record that is read is broken. -/
theorem Accepts.not_broken {members : List (Json.Quoted × Json)}
    (h : kind.Accepts (.object members)) : ¬ kind.Broken members := by
  obtain ⟨f, hf, hreads⟩ := h.exists_fields
  obtain ⟨honce, hget⟩ := Json.Fields.of_ofJson_object hf
  rintro (⟨hname, hnone⟩ | ⟨hname, htwice⟩)
  · -- the required field that was found is one of the members
    obtain ⟨w, hw⟩ := hreads.required _ hname
    rw [hget] at hw
    obtain ⟨m, hm, -⟩ := List.mem_map.1 (List.mem_of_head? hw)
    obtain ⟨hmem, hkey⟩ := List.mem_filter.1 hm
    exact hnone m hmem (of_decide_eq_true hkey)
  · -- a known field was met at most once
    have hlength := honce _ hname
    rw [Json.valuesOf, List.length_map, ← List.countP_eq_length_filter] at hlength
    omega

end RecordKind

/-- **The document of a program in any form is read as the program**, the written form among them, and
a document with a broken record at any depth is refused. -/
theorem Program.parse_of_form (p : Program) :
    p.Form p.toJson ∧
      ∀ text v, Json.parse text = .ok v →
        (p.Form v → Program.parse text = .ok p) ∧
          ∀ kind members, Inside v kind (.object members) → kind.Broken members →
            ∃ fault, Program.parse text = .error fault := by
  refine ⟨p.form_toJson, fun text v hdocument => ⟨fun hform => ?_, ?_⟩⟩
  · unfold Program.parse
    rw [hdocument]
    exact Program.ofJson_of_form hform
  · intro kind members hinside hbroken
    unfold Program.parse
    rw [hdocument]
    cases hread : Program.ofJson v with
    | error fault => exact ⟨fault, hread⟩
    | ok q => exact absurd hbroken (RecordKind.accepts_of_inside hread hinside).not_broken

/-- A document whose records take either form, with fields in another order, left out, absent and
unknown. -/
def scattered : Json :=
  .ofMembers [
    ("note", .ofMembers [("depth", .array [.null])]),
    ("functions", .array [
      .array [.ofString "main", .array [], .null, .array [
        .ofMembers [
          ("successors", .array []),
          ("instructions", .array [
            .array [.ofNat 0, .ofMembers [("other", .array [])]],
            .ofMembers [("op", .ofMembers [("return", .ofMembers [("value", .null)])]),
              ("id", .ofNat 1)]])]]],
      .ofMembers [("output_arg", .null), ("name", .ofString "ext")]])]

/-- The program of that document. -/
def gathered : Program :=
  ⟨[⟨"main", [], none, [⟨[⟨⟨0⟩, .other ""⟩, ⟨⟨1⟩, .ret none⟩], []⟩]⟩, ⟨"ext", [], none, []⟩], .empty⟩

/-- A document with a field that occurs twice, deep inside. -/
def doubled : Json :=
  .ofMembers [
    ("functions", .array [
      .array [.ofString "main", .array [], .null, .array [
        .ofMembers [
          ("instructions", .array [
            .ofMembers [("id", .ofNat 0), ("op", .ofMembers [("return", .array [])]),
              ("id", .ofNat 0)]])]]]])]

/-- The document is a form of the program, record by record from the inside out. -/
theorem form_scattered : gathered.Form scattered := by
  have hkey (s : String) := Json.Quoted.decode?_ofString s
  have hnone {m : Json.Quoted × Json} {names : List String} :
      m ∈ ([] : List (Json.Quoted × Json)) → Json.Unknown names m := fun hm => nomatch hm
  have hother : Instruction.Form ⟨⟨0⟩, .other ""⟩
      (.array [.ofNat 0, .ofMembers [("other", .array [])]]) := by
    have hbody : Record (Op.otherSlots "") (.array []) := .array (.stop (by simp [Op.otherSlots]))
    exact .array (.item rfl (.item (.other (hkey _) hbody) (.stop (by simp))))
  have hret : Instruction.Form ⟨⟨1⟩, .ret none⟩
      (.ofMembers [("op", .ofMembers [("return", .ofMembers [("value", .null)])]),
        ("id", .ofNat 1)]) := by
    have hbody : Record (Op.retSlots none) (.ofMembers [("value", .null)]) :=
      .ofKept (.write rfl .nil)
    exact .object (.write rfl (.write (.ret (hkey _) hbody) .nil)) (fun _ => hnone) (.swap _ _ [])
  have hblock : Block.Form ⟨[⟨⟨0⟩, .other ""⟩, ⟨⟨1⟩, .ret none⟩], []⟩ _ :=
    .object (.write ⟨_, .cons hother (.cons hret .nil), rfl⟩ (.write rfl .nil))
      (fun _ => hnone) (.swap _ _ [])
  have hmain : Function.Form
      ⟨"main", [], none, [⟨[⟨⟨0⟩, .other ""⟩, ⟨⟨1⟩, .ret none⟩], []⟩]⟩ _ :=
    .array (.item (Json.spells_ofString _) (.item rfl (.item rfl
      (.item ⟨_, .cons hblock .nil, rfl⟩ (.stop (by simp))))))
  have hext : Function.Form ⟨"ext", [], none, []⟩
      (.ofMembers [("output_arg", .null), ("name", .ofString "ext")]) :=
    .object (.write (Json.spells_ofString _) (.leave rfl (.write rfl (.leave rfl .nil))))
      (fun _ => hnone) (.swap _ _ [])
  have hnote : ∀ m ∈ [(Json.Quoted.ofString "note", Json.ofMembers [("depth", .array [.null])])],
      Json.Unknown (gathered.slots.map (·.name)) m :=
    List.forall_mem_singleton.2 ⟨"note", hkey _, by decide⟩
  exact .object (.write ⟨_, .cons hmain (.cons hext .nil), rfl⟩ (.leave rfl .nil)) hnote
    (.swap _ _ [])

/-- The field that occurs twice is the identity of an instruction. -/
theorem inside_doubled :
    Inside doubled .instruction (.ofMembers [("id", .ofNat 0),
      ("op", .ofMembers [("return", .array [])]), ("id", .ofNat 0)]) := by
  have hkey (s : String) := Json.Quoted.decode?_ofString s
  have hmain : Inside doubled .function _ :=
    .child .root (.element rfl (.member (List.mem_singleton_self _) (hkey _))
      (List.mem_singleton_self _))
  have hblock : Inside doubled .block _ :=
    .child hmain (.element rfl (.item (List.mem_of_getElem? (i := 3) rfl))
      (List.mem_singleton_self _))
  exact .child hblock (.element rfl (.member (List.mem_singleton_self _) (hkey _))
    (List.mem_singleton_self _))

/-- One document is read in spite of its forms, the other refused for a field deep inside. -/
theorem parse_scattered :
    Program.parse scattered.pretty = .ok gathered ∧
      ∃ fault, Program.parse doubled.pretty = .error fault := by
  have hscattered : scattered.Written := by
    simp [scattered, Json.written_array_iff, Json.written_ofMembers_iff, Json.written_ofNat,
      Json.written_ofString, Json.Written.null]
  have hdoubled : doubled.Written := by
    simp [doubled, Json.written_array_iff, Json.written_ofMembers_iff, Json.written_ofNat,
      Json.written_ofString, Json.Written.null]
  have hname : "id" ∈ RecordKind.instruction.fields := by decide
  exact ⟨((Program.parse_of_form gathered).2 _ _ (Json.parse_written hscattered)).1 form_scattered,
    ((Program.parse_of_form gathered).2 _ _ (Json.parse_written hdoubled)).2 _ _ inside_doubled
      (.repeated hname (by decide))⟩

end Typestate
