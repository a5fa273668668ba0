import Mathlib.Logic.Function.Basic
import Typestate.Proofs.Flow

/-!
# Renaming values and instructions

Values and instructions are known by their identities alone, so both can be renamed as long as
different ones stay different. Maps are kept in ascending key order, and a renaming changes that order;
everything here is therefore said through look-up. Every operation on facts commutes with a renaming
of the values in them.

## Contents

- §1 Maps with other keys or other values
- §2 `Renaming`, and renamed code
- §3 Renamed facts
- §4 Renamed tables
-/

namespace Typestate

/-! ## §1 Maps -/

namespace FiniteMap

/-- The map that binds the image of every key. -/
def mapKeys {κ ι α : Type} [Ord κ] [Ord ι] [Std.TransOrd ι] (f : κ → ι) (m : FiniteMap κ α) :
    FiniteMap ι α :=
  ofList (m.toList.map fun e => (f e.1, e.2))

/-- The map that binds every key to the image of its value. -/
def mapValues {κ α β : Type} [Ord κ] (f : α → β) (m : FiniteMap κ α) : FiniteMap κ β :=
  ⟨m.entries.map fun e => (e.1, f e.2),
    List.pairwise_map.2 (m.ascending.imp fun h => h)⟩

section Keys

variable {κ ι α : Type} [Ord κ] [Ord ι] [Std.TransOrd ι]
variable {f : κ → ι}

@[simp]
theorem mapKeys_empty : (empty : FiniteMap κ α).mapKeys f = empty := rfl

variable [Std.LawfulEqOrd ι] [DecidableEq ι]

/-- Only images of keys are bound. -/
theorem get?_mapKeys_of_ne {l : ι} (h : ∀ k, f k ≠ l) (m : FiniteMap κ α) :
    (m.mapKeys f).get? l = none := by
  refine get?_ofList fun v => iff_of_false (fun hv => ?_) (fun hv => nomatch hv)
  obtain ⟨e, -, he⟩ := List.mem_map.1 hv
  exact h e.1 (congrArg Prod.fst he)

variable [Std.LawfulEqOrd κ]

/-- Looking up an image in the renamed map is looking up the key in the old one. -/
theorem get?_mapKeys (hf : Function.Injective f) (m : FiniteMap κ α) (k : κ) :
    (m.mapKeys f).get? (f k) = m.get? k := by
  refine get?_ofList fun v => ?_
  rw [← mem_toList_iff]
  simp only [List.mem_map, Prod.mk.injEq, Prod.exists]
  constructor
  · -- an injective renaming gives an image to one key only
    rintro ⟨k', v', hmem, hk, rfl⟩
    exact hf hk ▸ hmem
  · exact fun hmem => ⟨k, v, hmem, rfl, rfl⟩

/-- A map is the renamed one when it binds the image of every key as that binds the key, and binds
nothing else. -/
theorem eq_mapKeys (hf : Function.Injective f) {m : FiniteMap κ α} {m' : FiniteMap ι α}
    (hget : ∀ k, m'.get? (f k) = m.get? k) (honly : ∀ l, (∀ k, f k ≠ l) → m'.get? l = none) :
    m' = m.mapKeys f := by
  apply ext_get?
  intro l
  -- every key of the new map is an image or it is none
  by_cases hl : ∃ k, f k = l
  · obtain ⟨k, rfl⟩ := hl
    rw [hget, get?_mapKeys hf]
  · have hl : ∀ k, f k ≠ l := fun k hk => hl ⟨k, hk⟩
    rw [honly l hl, get?_mapKeys_of_ne hl]

/-- Renaming keys by different names forgets nothing. -/
theorem mapKeys_injective [Std.TransOrd κ] (hf : Function.Injective f) :
    Function.Injective (mapKeys f : FiniteMap κ α → FiniteMap ι α) := by
  intro a b h
  apply ext_get?
  intro k
  rw [← get?_mapKeys hf, h, get?_mapKeys hf]

/-- Renaming keys commutes with a change at one key. -/
theorem mapKeys_alter [Std.TransOrd κ] [DecidableEq κ] (hf : Function.Injective f)
    (m : FiniteMap κ α) (k : κ) (g : Option α → α) :
    (m.mapKeys f).alter (f k) g = (m.alter k g).mapKeys f := by
  apply eq_mapKeys hf
  · intro k'
    simp only [get?_alter, get?_mapKeys hf, hf.eq_iff]
  · intro l hl
    rw [get?_alter, if_neg fun h => hl k h.symm, get?_mapKeys_of_ne hl]

theorem mapKeys_insert [Std.TransOrd κ] [DecidableEq κ] (hf : Function.Injective f)
    (m : FiniteMap κ α) (k : κ) (v : α) :
    (m.mapKeys f).insert (f k) v = (m.insert k v).mapKeys f :=
  mapKeys_alter hf m k fun _ => v

/-- Renaming keys commutes with merging, which goes key by key. -/
theorem mapKeys_mergeWith [Std.TransOrd κ] [DecidableEq κ] (hf : Function.Injective f)
    (combine : α → α → α) (a b : FiniteMap κ α) :
    mergeWith combine (a.mapKeys f) (b.mapKeys f) = (mergeWith combine a b).mapKeys f := by
  apply eq_mapKeys hf
  · intro k
    simp only [get?_mergeWith, get?_mapKeys hf]
  · intro l hl
    rw [get?_mergeWith, get?_mapKeys_of_ne hl, get?_mapKeys_of_ne hl]
    rfl

/-- Renaming keys commutes with a filter that treats a key and its image alike. -/
theorem mapKeys_filter [Std.TransOrd κ] (hf : Function.Injective f) {keep : κ → α → Bool}
    {keep' : ι → α → Bool} (hkeep : ∀ k v, keep' (f k) v = keep k v) (m : FiniteMap κ α) :
    (m.mapKeys f).filter keep' = (m.filter keep).mapKeys f := by
  apply eq_mapKeys hf
  · intro k
    -- a binding survives on either side if it is there and is kept
    apply Option.ext
    intro v
    rw [get?_filter_eq_some_iff, get?_filter_eq_some_iff, get?_mapKeys hf, hkeep]
  · intro l hl
    apply Option.eq_none_iff_forall_ne_some.2
    intro v hv
    rw [get?_filter_eq_some_iff, get?_mapKeys_of_ne hl] at hv
    cases hv.1

end Keys

section Values

variable {κ α β : Type} [Ord κ]

/-- Mapping values leaves every binding at its key. -/
@[simp]
theorem get?_mapValues (f : α → β) (m : FiniteMap κ α) (k : κ) :
    (m.mapValues f).get? k = (m.get? k).map f := by
  show find k (m.entries.map fun e => (e.1, f e.2)) = (find k m.entries).map f
  induction m.entries with
  | nil => rfl
  | cons e rest ih =>
    simp only [List.map_cons, find, ih]
    split <;> rfl

@[simp]
theorem keys_mapValues (f : α → β) (m : FiniteMap κ α) : (m.mapValues f).keys = m.keys := by
  simp [keys, mapValues]

/-- Mapping values commutes with a change that treats the mapped values alike. -/
theorem mapValues_alter [Std.TransOrd κ] [Std.LawfulEqOrd κ] [DecidableEq κ] (f : α → β)
    (m : FiniteMap κ α) (k : κ) {g : Option α → α} {g' : Option β → β}
    (h : ∀ o, g' (Option.map f o) = f (g o)) :
    (m.mapValues f).alter k g' = (m.alter k g).mapValues f := by
  apply ext_get?
  intro l
  simp only [get?_alter, get?_mapValues, h]
  split <;> rfl

theorem mapValues_insert [Std.TransOrd κ] [Std.LawfulEqOrd κ] [DecidableEq κ] (f : α → β)
    (m : FiniteMap κ α) (k : κ) (v : α) :
    (m.mapValues f).insert k (f v) = (m.insert k v).mapValues f :=
  mapValues_alter f m k fun _ => rfl

end Values

end FiniteMap

/-! ## §2 Renamings -/

/-- New identities for values and instructions; different ones stay different. -/
structure Renaming where
  value : ValueId → ValueId
  inst : InstId → InstId
  value_injective : Function.Injective value
  inst_injective : Function.Injective inst

/-- The renaming that changes nothing. -/
def Renaming.identity : Renaming :=
  ⟨id, id, Function.injective_id, Function.injective_id⟩

@[simp]
theorem Renaming.value_identity : identity.value = id := rfl

@[simp]
theorem Renaming.inst_identity : identity.inst = id := rfl

section
variable (ρ : Renaming)

def Op.rename : Op → Op
  | .call callee args result => .call callee (args.map ρ.value) (result.map ρ.value)
  | .ret value => .ret (value.map ρ.value)
  | .other text => .other text

def Instruction.rename (i : Instruction) : Instruction := ⟨ρ.inst i.id, i.op.rename ρ⟩

def Block.rename (b : Block) : Block :=
  { b with instructions := b.instructions.map (Instruction.rename ρ) }

def Function.rename (f : Function) : Function :=
  { f with
    params := f.params.map ρ.value
    blocks := f.blocks.map (Block.rename ρ) }

/-- The program with renamed values and instructions, and any names for the new values. -/
def Program.rename (names : FiniteMap ValueId String) (p : Program) : Program :=
  ⟨p.functions.map (Function.rename ρ), names⟩

@[simp]
theorem Instruction.callee?_rename (i : Instruction) : (i.rename ρ).callee? = i.callee? := by
  unfold callee? rename
  cases i.op <;> rfl

@[simp]
theorem Instruction.isReturn_rename (i : Instruction) : (i.rename ρ).isReturn = i.isReturn := by
  unfold isReturn rename
  cases i.op <;> rfl

@[simp]
theorem Function.name_rename (f : Function) : (f.rename ρ).name = f.name := rfl

@[simp]
theorem Function.hasBody_rename (f : Function) : (f.rename ρ).hasBody = f.hasBody := by
  simp [hasBody, rename]

/-- Renaming goes through the blocks instruction by instruction. -/
theorem Function.instructions_rename (f : Function) :
    (f.rename ρ).instructions = f.instructions.map (Instruction.rename ρ) := by
  simp [instructions, rename, Block.rename, List.flatMap_map, List.map_flatMap]

/-- Bodies are found by name, and functions keep their names. -/
theorem Program.body?_rename (names : FiniteMap ValueId String) (p : Program) (name : String) :
    (p.rename ρ names).body? name = (p.body? name).map (Function.rename ρ) := by
  unfold body? rename
  rw [List.find?_map]
  simp [Function.comp_def]

end

/-- Code renamed to its own names is the same code. -/
theorem Function.rename_identity (f : Function) : f.rename .identity = f := by
  -- from the operations outwards
  have hop : Op.rename .identity = id := by
    funext op
    cases op <;> simp [Op.rename]
  have hinst : Instruction.rename .identity = id := by
    funext i
    simp [Instruction.rename, hop]
  have hblock : Block.rename .identity = id := by
    funext b
    simp [Block.rename, hinst]
  simp [rename, hblock]

/-! ## §3 Facts -/

section
variable (ρ : Renaming)

/-- Joining goes value by value, so it is indifferent to their names. -/
theorem Facts.join_mapKeys (a b : Facts) :
    Facts.join (a.mapKeys ρ.value) (b.mapKeys ρ.value) = (Facts.join a b).mapKeys ρ.value :=
  FiniteMap.mapKeys_mergeWith ρ.value_injective State.join a b

/-- Every operation on facts below gathers observations, so it follows this one. -/
theorem Facts.gather_mapKeys (items : List (ValueId × Observation)) (facts : Facts) :
    Facts.gather (items.map (Prod.map ρ.value id)) (facts.mapKeys ρ.value) =
      (Facts.gather items facts).mapKeys ρ.value := by
  unfold gather
  rw [List.foldl_map]
  -- one item at a time: nothing observed adds nothing, a state is joined at the new name
  apply List.foldl_hom (FiniteMap.mapKeys ρ.value)
  rintro facts ⟨v, _ | s⟩
  · rfl
  · exact FiniteMap.mapKeys_alter ρ.value_injective facts v _

/-- The parameters receive the same states when arguments and parameters are renamed together. -/
theorem passArguments_mapKeys (facts : Facts) (pairs : List (ValueId × ValueId)) (passed : Facts) :
    passArguments (facts.mapKeys ρ.value) (pairs.map (Prod.map ρ.value ρ.value))
        (passed.mapKeys ρ.value) =
      (passArguments facts pairs passed).mapKeys ρ.value := by
  rw [passArguments_eq_gather, passArguments_eq_gather, ← Facts.gather_mapKeys]
  simp [Function.comp_def, FiniteMap.get?_mapKeys ρ.value_injective]

theorem readBack_mapKeys (exit : Facts) (pairs : List (ValueId × ValueId)) (facts : Facts) :
    readBack (exit.mapKeys ρ.value) (pairs.map (Prod.map ρ.value ρ.value))
        (facts.mapKeys ρ.value) =
      (readBack exit pairs facts).mapKeys ρ.value := by
  rw [readBack_eq_gather, readBack_eq_gather, ← Facts.gather_mapKeys]
  simp [Function.comp_def, FiniteMap.get?_mapKeys ρ.value_injective]

theorem recordExit_mapKeys (params : List ValueId) (facts exit : Facts) :
    recordExit (params.map ρ.value) (facts.mapKeys ρ.value) (exit.mapKeys ρ.value) =
      (recordExit params facts exit).mapKeys ρ.value := by
  rw [recordExit_eq_gather, recordExit_eq_gather, ← Facts.gather_mapKeys]
  simp [Function.comp_def, FiniteMap.get?_mapKeys ρ.value_injective]

/-- What is returned is a state, which no renaming touches. -/
theorem recordReturn_mapKeys (value : Option ValueId) (facts : Facts) (ret : Option State) :
    recordReturn (value.map ρ.value) (facts.mapKeys ρ.value) ret = recordReturn value facts ret := by
  rw [recordReturn_eq, recordReturn_eq]
  cases value with
  | none => rfl
  | some v => simp [FiniteMap.get?_mapKeys ρ.value_injective]

/-- The returned state goes to the renamed result. -/
theorem bindResult_mapKeys (result : Option ValueId) (ret : Option State) (facts : Facts) :
    bindResult (result.map ρ.value) ret (facts.mapKeys ρ.value) =
      (bindResult result ret facts).mapKeys ρ.value := by
  cases result with
  | none => rfl
  | some v =>
    cases ret with
    | none => rfl
    | some s => exact FiniteMap.mapKeys_insert ρ.value_injective facts v s

/-- A position stands for an argument by its place in the list, whatever is listed. -/
theorem Position.argument?_map {α β : Type} (f : α → β) (args : List α) (p : Position) :
    Position.argument? (args.map f) p = (Position.argument? args p).map f := by
  unfold argument?
  split
  · rfl
  · exact List.getElem?_map

namespace CallModel

variable (m : CallModel) (callee : String) (args : List ValueId) (result : Option ValueId)

theorem consume_mapKeys (facts : Facts) (p : Position) :
    m.consume callee (args.map ρ.value) (facts.mapKeys ρ.value) p =
      (m.consume callee args facts p).mapKeys ρ.value := by
  unfold consume
  rw [Position.argument?_map]
  cases Position.argument? args p with
  | none => rfl
  | some v =>
    simp only [Option.map_some, FiniteMap.get?_mapKeys ρ.value_injective]
    exact FiniteMap.mapKeys_insert ρ.value_injective facts v _

theorem produce_mapKeys (facts : Facts) (p : Position) :
    m.produce callee (args.map ρ.value) (result.map ρ.value) (facts.mapKeys ρ.value) p =
      (m.produce callee args result facts p).mapKeys ρ.value := by
  -- the target is the result or an argument, and both have been renamed
  have htarget : target? (args.map ρ.value) (result.map ρ.value) p =
      (target? args result p).map ρ.value := by
    unfold target?
    split
    · rfl
    · exact Position.argument?_map ρ.value args p
  unfold produce
  rw [htarget]
  cases target? args result p with
  | none => rfl
  | some v => exact FiniteMap.mapKeys_insert ρ.value_injective facts v _

/-- **A call treats all values alike**, whatever they are called. -/
theorem apply_mapKeys (facts : Facts) :
    m.apply callee (args.map ρ.value) (result.map ρ.value) (facts.mapKeys ρ.value) =
      (m.apply callee args result facts).mapKeys ρ.value := by
  have hconsume : (FiniteSet.toList (m.info callee).consumers).foldl
      (m.consume callee (args.map ρ.value)) (facts.mapKeys ρ.value) =
        ((FiniteSet.toList (m.info callee).consumers).foldl (m.consume callee args) facts).mapKeys
          ρ.value :=
    List.foldl_hom (FiniteMap.mapKeys ρ.value) fun facts p => m.consume_mapKeys ρ callee args facts p
  -- the two folds follow one after the other, the second only if the call produces
  unfold apply
  split
  · simp only [hconsume]
    split
    · exact List.foldl_hom (FiniteMap.mapKeys ρ.value) fun facts p =>
        m.produce_mapKeys ρ callee args result facts p
    · rfl
  · rfl

end CallModel

end

/-! ## §4 Tables -/

section
variable (ρ : Renaming)

def Cell.rename (c : Cell) : Cell := ⟨ρ.inst c.inst, ρ.value c.value⟩

/-- Two cells with one new name have one instruction and one value. -/
theorem Cell.rename_injective : Function.Injective (Cell.rename ρ) := by
  rintro ⟨i, v⟩ ⟨j, w⟩ h
  obtain ⟨hinst, hvalue⟩ := Cell.mk.inj h
  obtain rfl := ρ.inst_injective hinst
  obtain rfl := ρ.value_injective hvalue
  rfl

namespace Table

/-- The table with the same states in the renamed cells. -/
def rename (t : Table) : Table := ⟨t.states.mapKeys (Cell.rename ρ)⟩

@[simp]
theorem get?_rename (t : Table) (i : InstId) (v : ValueId) :
    (t.rename ρ).get? (ρ.inst i) (ρ.value v) = t.get? i v :=
  FiniteMap.get?_mapKeys (Cell.rename_injective ρ) t.states ⟨i, v⟩

/-- There are no cells but the renamed ones. -/
theorem get?_rename_of_ne {j : InstId} {w : ValueId} (h : ∀ i v, ρ.inst i = j → ρ.value v ≠ w)
    (t : Table) : (t.rename ρ).get? j w = none := by
  apply FiniteMap.get?_mapKeys_of_ne
  rintro ⟨i, v⟩ hcell
  obtain ⟨hi, hv⟩ := Cell.mk.inj hcell
  exact h i v hi hv

/-- A table is the renamed one when it holds the state of every cell in the renamed cell, and
nothing else. -/
theorem eq_rename {t t' : Table} (hget : ∀ i v, t'.get? (ρ.inst i) (ρ.value v) = t.get? i v)
    (honly : ∀ j w, (∀ i v, ρ.inst i = j → ρ.value v ≠ w) → t'.get? j w = none) :
    t' = t.rename ρ := by
  refine congrArg mk (FiniteMap.eq_mapKeys (Cell.rename_injective ρ) ?_ ?_)
  · exact fun c => hget c.inst c.value
  · intro c hc
    refine honly c.inst c.value fun i v hi hv => hc ⟨i, v⟩ ?_
    rw [Cell.rename, hi, hv]

/-- Rows are joined into renamed tables as into the old ones. -/
theorem joinRow_rename (t : Table) (i : InstId) (facts : Facts) :
    (t.rename ρ).joinRow (ρ.inst i) (facts.mapKeys ρ.value) = (t.joinRow i facts).rename ρ := by
  apply eq_rename
  · intro j v
    simp only [get?_joinRow, get?_rename, FiniteMap.get?_mapKeys ρ.value_injective,
      ρ.inst_injective.eq_iff]
  · intro j w hne
    rw [get?_joinRow]
    split
    · -- a cell of the row has a value that is no new name, so the facts do not have it either
      next hj =>
      have hw : ∀ v, ρ.value v ≠ w := fun v => hne i v hj.symm
      rw [get?_rename_of_ne ρ (fun _ v _ => hw v), FiniteMap.get?_mapKeys_of_ne hw]
      rfl
    · exact get?_rename_of_ne ρ hne t

end Table

end

/-- A table renamed to its own names has the same cells. -/
theorem Table.rename_identity (t : Table) : t.rename .identity = t :=
  (eq_rename .identity (fun _ _ => rfl) fun j w h => absurd rfl (h j w rfl)).symm

end Typestate
