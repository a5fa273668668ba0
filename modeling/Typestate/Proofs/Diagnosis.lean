import Typestate.Proofs.ControlFlow

/-!
# The first defect of an input

The check in front of the solver goes through an input in a fixed order and stops at the first
defect. That order is written down here as one list of checkpoints, and what is wrong at a checkpoint
is said without reference to how the check finds out; in particular an identity is repeated when an
*earlier checkpoint* has it, not when it is in some set of identities that is carried along. The check
accepts exactly the well-formed inputs, and its error is the defect of the first checkpoint that has
one.

## Contents

- §1 Checkpoints and their defects
- §2 `Diagnosis`: going through checkpoints up to the first defect
- §3 What each loop of the check reports
- §4 Well-formed inputs
-/

namespace Typestate

/-! ## §1 Checkpoints -/

/-- A place of an input that the check looks at. -/
inductive Checkpoint where
  | entry (name : String)
  | successor (f : Function) (k : Nat) (target : UInt64)
  /-- The end of block `k` of the function. -/
  | ending (f : Function) (k : Nat) (b : Block)
  | instruction (i : Instruction)

/-- The identity that a checkpoint adds to those seen. -/
def Checkpoint.id? : Checkpoint → Option InstId
  | instruction i => some i.id
  | _ => none

/-- What is looked at in block `k` of a function. -/
def Block.checkpoints (f : Function) (k : Nat) (b : Block) : List Checkpoint :=
  b.successors.map (.successor f k) ++ .ending f k b :: b.instructions.map .instruction

/-- What is looked at in a function, block by block. -/
def Function.checkpoints (f : Function) : List Checkpoint :=
  f.blocks.zipIdx.flatMap fun p => p.1.checkpoints f p.2

/-- Everything that is looked at, in order: entry points, then functions. -/
def Program.checkpoints (program : Program) (entries : List String) : List Checkpoint :=
  entries.map .entry ++ program.functions.flatMap (·.checkpoints)

/-- What is wrong at a checkpoint that comes behind those of `before`. -/
inductive Defect (program : Program) (before : List Checkpoint) : Checkpoint → SolveError → Prop where
  | unknownEntryPoint {name : String} :
      (∀ f ∈ program.functions, f.name ≠ name) →
      Defect program before (.entry name) (.unknownEntryPoint name)
  | entryWithoutBody {name : String} :
      (∃ f ∈ program.functions, f.name = name) →
      (∀ f ∈ program.functions, f.name = name → f.blocks = []) →
      Defect program before (.entry name) (.entryWithoutBody name)
  | invalidSuccessor {f : Function} {k : Nat} {target : UInt64} :
      f.blocks.length ≤ target.toNat →
      Defect program before (.successor f k target) (.invalidSuccessor f.name k target.toNat)
  | missingReturn {f : Function} {k : Nat} {b : Block} :
      b.successors = [] → (∀ i, b.instructions.getLast? = some i → i.isReturn = false) →
      Defect program before (.ending f k b) (.missingReturn f.name k)
  /-- An earlier instruction has the same identity. -/
  | duplicateInstruction {i j : Instruction} :
      .instruction j ∈ before → j.id = i.id →
      Defect program before (.instruction i) (.duplicateInstruction i.id)

/-! ## §2 Diagnoses -/

/-- Going through the points behind those of `before`, the first defect met is the given one; none if
no point has a defect. -/
inductive Diagnosis (program : Program) :
    List Checkpoint → List Checkpoint → Option SolveError → Prop where
  | done {before : List Checkpoint} : Diagnosis program before [] none
  | found {before rest : List Checkpoint} {q : Checkpoint} {e : SolveError} :
      Defect program before q e → Diagnosis program before (q :: rest) (some e)
  | pass {before rest : List Checkpoint} {q : Checkpoint} {r : Option SolveError} :
      (∀ e, ¬ Defect program before q e) → Diagnosis program (before ++ [q]) rest r →
      Diagnosis program before (q :: rest) r

variable {program : Program} {before a b : List Checkpoint} {q : Checkpoint} {e e' : SolveError}

/-- At one checkpoint there is at most one thing wrong. -/
theorem Defect.unique (h : Defect program before q e) (h' : Defect program before q e') : e = e' := by
  -- only entry points have two kinds of defects, and these exclude each other
  cases h with
  | unknownEntryPoint hnone =>
    cases h' with
    | unknownEntryPoint _ => rfl
    | entryWithoutBody hsome _ =>
      obtain ⟨f, hf, hname⟩ := hsome
      exact absurd hname (hnone f hf)
  | entryWithoutBody hsome _ =>
    cases h' with
    | unknownEntryPoint hnone =>
      obtain ⟨f, hf, hname⟩ := hsome
      exact absurd hname (hnone f hf)
    | entryWithoutBody _ _ => rfl
  | invalidSuccessor _ =>
    cases h'
    rfl
  | missingReturn _ _ =>
    cases h'
    rfl
  | duplicateInstruction _ _ =>
    cases h'
    rfl

namespace Diagnosis

/-- **There is one diagnosis.** -/
theorem unique {r r' : Option SolveError} (h : Diagnosis program before a r)
    (h' : Diagnosis program before a r') : r = r' := by
  -- both diagnoses walk the same list and stop at its first defect
  induction h with
  | done =>
    cases h'
    rfl
  | found hdefect =>
    cases h' with
    | found hdefect' => rw [hdefect.unique hdefect']
    | pass hnone _ => exact absurd hdefect (hnone _)
  | pass hnone _ ih =>
    cases h' with
    | found hdefect => exact absurd hdefect (hnone _)
    | pass _ h' => exact ih h'

/-- Behind points without a defect the search goes on. -/
theorem append {r : Option SolveError} (h : Diagnosis program before a none)
    (h' : Diagnosis program (before ++ a) b r) : Diagnosis program before (a ++ b) r := by
  induction a generalizing before with
  | nil => rwa [List.append_nil] at h'
  | cons q a ih =>
    cases h with
    | pass hnone h => exact .pass hnone (ih h (by rwa [List.append_assoc]))

/-- What comes behind a defect is not looked at. -/
theorem append_right (h : Diagnosis program before a (some e)) (b : List Checkpoint) :
    Diagnosis program before (a ++ b) (some e) := by
  induction a generalizing before with
  | nil => cases h
  | cons q a ih =>
    cases h with
    | found hdefect => exact .found hdefect
    | pass hnone h => exact .pass hnone (ih h)

/-- No defect is passed over. -/
theorem not_defect {earlier later : List Checkpoint}
    (h : Diagnosis program before (earlier ++ q :: later) none) :
    ¬ Defect program (before ++ earlier) q e := by
  induction earlier generalizing before with
  | nil =>
    cases h with
    | pass hnone _ => exact (List.append_nil before).symm ▸ hnone e
  | cons p earlier ih =>
    cases h with
    | pass _ h =>
      have hlater := ih h
      rwa [List.append_assoc] at hlater

theorem exists_defect (h : Diagnosis program before a (some e)) :
    ∃ earlier q later, a = earlier ++ q :: later ∧ Defect program (before ++ earlier) q e := by
  induction a generalizing before with
  | nil => cases h
  | cons q a ih =>
    cases h with
    | found hdefect => exact ⟨[], q, a, rfl, by rwa [List.append_nil]⟩
    | pass _ h =>
      obtain ⟨earlier, p, later, rfl, hdefect⟩ := ih h
      exact ⟨q :: earlier, p, later, rfl, by rwa [List.append_assoc] at hdefect⟩

end Diagnosis

/-! ## §3 Reports -/

/-- The computation reports the diagnosis of the points; when there is no defect, its result fits
everything that has been looked at. -/
def Reports {α : Type} (program : Program) (fits : α → List Checkpoint → Prop)
    (before points : List Checkpoint) : Except SolveError α → Prop
  | .ok x => Diagnosis program before points none ∧ fits x (before ++ points)
  | .error e => Diagnosis program before points (some e)

namespace Reports

variable {α β : Type} {fits : α → List Checkpoint → Prop} {fits' : β → List Checkpoint → Prop}

theorem append (h : Diagnosis program before a none) {x : Except SolveError α}
    (h' : Reports program fits (before ++ a) b x) : Reports program fits before (a ++ b) x := by
  cases x with
  | error e => exact h.append h'
  | ok x => exact ⟨h.append h'.1, List.append_assoc before a b ▸ h'.2⟩

/-- **Reports compose** along the steps of a computation. -/
theorem bind {x : Except SolveError α} {f : α → Except SolveError β}
    (h : Reports program fits before a x)
    (hf : ∀ y, fits y (before ++ a) → Reports program fits' (before ++ a) b (f y)) :
    Reports program fits' before (a ++ b) (x >>= f) := by
  cases x with
  | error e => exact Diagnosis.append_right h b
  | ok x => exact append h.1 (hf x h.2)

theorem pass (h : ∀ e, ¬ Defect program before q e) {x : Except SolveError α}
    (h' : Reports program fits (before ++ [q]) a x) : Reports program fits before (q :: a) x :=
  append (a := [q]) (.pass h .done) h'

end Reports

theorem reports_checkEntry (name : String) :
    Reports program (fun _ _ => True) before [.entry name] (program.checkEntry name) := by
  unfold Program.checkEntry
  split
  · next hnone =>
    refine Diagnosis.found (.unknownEntryPoint fun f hf hname => ?_)
    exact List.filter_eq_nil_iff.1 hnone f hf (beq_iff_eq.2 hname)
  · next hsome =>
    obtain ⟨f, hf⟩ := List.exists_mem_of_ne_nil _ hsome
    obtain ⟨hmem, hname⟩ := List.mem_filter.1 hf
    split
    · next hany =>
      -- some candidate has a body, so neither defect is there
      obtain ⟨g, hg, hbody⟩ := List.any_eq_true.1 hany
      obtain ⟨hmem', hname'⟩ := List.mem_filter.1 hg
      refine ⟨.pass (fun e he => ?_) .done, trivial⟩
      cases he with
      | unknownEntryPoint hnone => exact hnone g hmem' (beq_iff_eq.1 hname')
      | entryWithoutBody _ hnone =>
        have hempty := hnone g hmem' (beq_iff_eq.1 hname')
        simp [Function.hasBody, hempty] at hbody
    · next hnone =>
      refine Diagnosis.found (.entryWithoutBody ⟨f, hmem, beq_iff_eq.1 hname⟩ fun g hg hname' => ?_)
      have hbody : ¬ g.hasBody = true := fun hbody =>
        hnone (List.any_eq_true.2 ⟨g, List.mem_filter.2 ⟨hg, beq_iff_eq.2 hname'⟩, hbody⟩)
      simpa [Function.hasBody] using hbody

theorem reports_checkEntries (entries : List String) :
    Reports program (fun _ _ => True) before (entries.map .entry) (program.checkEntries entries) := by
  induction entries generalizing before with
  | nil => exact ⟨.done, trivial⟩
  | cons name entries ih => exact (reports_checkEntry name).bind (a := [.entry name]) fun _ _ => ih

/-- The set holds the identities of the instructions looked at. -/
def Remembers (seen : FiniteSet InstId) (points : List Checkpoint) : Prop :=
  ∀ x, seen.contains x = true ↔ ∃ i, .instruction i ∈ points ∧ i.id = x

theorem Remembers.append {seen : FiniteSet InstId} (h : Remembers seen before)
    (hnone : ∀ i, .instruction i ∉ a) : Remembers seen (before ++ a) := by
  intro x
  rw [h x]
  simp [hnone]

theorem Remembers.insert {seen : FiniteSet InstId} (h : Remembers seen before) (i : Instruction) :
    Remembers (FiniteSet.insert seen i.id) (before ++ [.instruction i]) := by
  intro x
  rw [FiniteSet.contains_insert, h x]
  constructor
  · rintro (rfl | ⟨j, hj, hid⟩)
    · exact ⟨i, by simp, rfl⟩
    · exact ⟨j, List.mem_append_left _ hj, hid⟩
  · rintro ⟨j, hj, hid⟩
    rcases List.mem_append.1 hj with hj | hj
    · exact Or.inr ⟨j, hj, hid⟩
    · cases List.mem_singleton.1 hj
      exact Or.inl hid.symm

theorem reports_checkIdentities {seen : FiniteSet InstId} (h : Remembers seen before)
    (is : List Instruction) :
    Reports program Remembers before (is.map .instruction) (Program.checkIdentities seen is) := by
  induction is generalizing seen before with
  | nil => exact ⟨.done, (List.append_nil before).symm ▸ h⟩
  | cons i is ih =>
    unfold Program.checkIdentities
    -- an identity that is known was seen at an earlier checkpoint
    split
    · next hseen =>
      obtain ⟨j, hj, hid⟩ := (h i.id).1 hseen
      exact Diagnosis.found (.duplicateInstruction hj hid)
    · next hnew =>
      refine Reports.pass (fun e he => ?_) (ih (h.insert i))
      cases he with
      | duplicateInstruction hj hid => exact hnew ((h i.id).2 ⟨_, hj, hid⟩)

theorem diagnosis_successors {f : Function} (k : Nat) {targets : List UInt64}
    (h : ∀ t ∈ targets, t.toNat < f.blocks.length) :
    Diagnosis program before (targets.map (.successor f k)) none := by
  induction targets generalizing before with
  | nil => exact .done
  | cons t targets ih =>
    refine .pass (fun e he => ?_) (ih fun u hu => h u (List.mem_cons_of_mem _ hu))
    cases he with
    | invalidSuccessor hge => exact absurd (h t (List.mem_cons_self ..)) (Nat.not_lt.2 hge)

theorem endsOpen_iff (b : Block) :
    (b.successors.isEmpty && !(b.instructions.getLast?.any (·.isReturn))) = true ↔
      b.successors = [] ∧ ∀ i, b.instructions.getLast? = some i → i.isReturn = false := by
  rw [Bool.and_eq_true, List.isEmpty_iff, Bool.not_eq_true', Option.any_eq_false]

theorem reports_checkBlock (f : Function) {seen : FiniteSet InstId} (h : Remembers seen before)
    (k : Nat) (b : Block) :
    Reports program Remembers before (b.checkpoints f k) (Program.checkBlock f seen k b) := by
  unfold Program.checkBlock Block.checkpoints
  split
  · next target hfind =>
    -- the successors before the first one out of range pass
    obtain ⟨hrange, inside, outside, heq, hinside⟩ := List.find?_eq_some_iff_append.1 hfind
    have hpass : Diagnosis program before (inside.map (.successor f k)) none :=
      diagnosis_successors k fun t ht => by simpa using hinside t ht
    rw [heq, List.map_append, List.append_assoc]
    exact hpass.append (.found (.invalidSuccessor (of_decide_eq_true hrange)))
  · next hfind =>
    have hpass : Diagnosis program before (b.successors.map (.successor f k)) none :=
      diagnosis_successors k fun t ht => by simpa using List.find?_eq_none.1 hfind t ht
    refine Reports.append hpass ?_
    split
    · next hopen =>
      obtain ⟨hempty, hlast⟩ := (endsOpen_iff b).1 hopen
      exact Diagnosis.found (.missingReturn hempty hlast)
    · next hclosed =>
      refine Reports.pass (fun e he => ?_) (reports_checkIdentities ?_ b.instructions)
      · cases he with
        | missingReturn hempty hlast => exact hclosed ((endsOpen_iff b).2 ⟨hempty, hlast⟩)
      · exact (h.append (by simp)).append (by simp)

theorem reports_checkBlocks (f : Function) {seen : FiniteSet InstId} (h : Remembers seen before)
    (k : Nat) (bs : List Block) :
    Reports program Remembers before ((bs.zipIdx k).flatMap fun p => p.1.checkpoints f p.2)
      (Program.checkBlocks f seen k bs) := by
  induction bs generalizing seen before k with
  | nil => exact ⟨.done, (List.append_nil before).symm ▸ h⟩
  | cons b bs ih => exact (reports_checkBlock f h k b).bind fun _ hseen => ih hseen (k + 1)

theorem reports_checkFunctions {seen : FiniteSet InstId} (h : Remembers seen before)
    (fs : List Function) :
    Reports program Remembers before (fs.flatMap (·.checkpoints))
      (Program.checkFunctions seen fs) := by
  induction fs generalizing seen before with
  | nil => exact ⟨.done, (List.append_nil before).symm ▸ h⟩
  | cons f fs ih => exact (reports_checkBlocks f h 0 f.blocks).bind fun _ hseen => ih hseen

/-- **The check reports the first defect** in the order of the checkpoints. -/
theorem reports_validate (program : Program) (entries : List String) :
    Reports program (fun _ _ => True) [] (program.checkpoints entries) (program.validate entries) := by
  refine (reports_checkEntries entries).bind fun _ _ => ?_
  have hseen : Remembers FiniteSet.empty ([] ++ entries.map .entry) := by
    intro x
    constructor
    · exact fun h => (nomatch h)
    · rintro ⟨i, hi, -⟩
      simp at hi
  have hfunctions : Reports program Remembers ([] ++ entries.map .entry)
      (program.functions.flatMap (·.checkpoints))
      (Program.checkFunctions FiniteSet.empty program.functions) := reports_checkFunctions hseen _
  -- behind the last function there is nothing left to look at
  rw [← List.append_nil (program.functions.flatMap _)]
  exact hfunctions.bind fun _ _ => ⟨.done, trivial⟩

/-! ## §4 Well-formed inputs -/

namespace Program

/-- An input that the solver can work on. -/
structure WellFormed (program : Program) (entries : List String) : Prop where
  /-- Every entry point names a function with blocks. -/
  entries : ∀ name ∈ entries, ∃ f ∈ program.functions, f.name = name ∧ f.blocks ≠ []
  successors : ∀ f ∈ program.functions, ∀ b ∈ f.blocks, ∀ t ∈ b.successors,
    t.toNat < f.blocks.length
  /-- A block that does not continue ends in a return. -/
  returns : ∀ f ∈ program.functions, ∀ b ∈ f.blocks, b.successors = [] →
    ∃ i, b.instructions.getLast? = some i ∧ i.isReturn = true
  identities : ((program.functions.flatMap (·.instructions)).map (·.id)).Nodup

theorem mem_checkpoints_iff {entries : List String} :
    q ∈ program.checkpoints entries ↔
      (∃ name ∈ entries, .entry name = q) ∨
        ∃ f ∈ program.functions, ∃ (b : Block) (k : Nat),
          f.blocks[k]? = some b ∧ q ∈ b.checkpoints f k := by
  unfold checkpoints Function.checkpoints
  simp only [List.mem_append, List.mem_map, List.mem_flatMap, Prod.exists,
    List.mk_mem_zipIdx_iff_getElem?]

theorem filterMap_block_checkpoints (f : Function) (k : Nat) (b : Block) :
    (b.checkpoints f k).filterMap Checkpoint.id? = b.instructions.map (·.id) := by
  have hsuccessors : (b.successors.map (Checkpoint.successor f k)).filterMap Checkpoint.id? = [] :=
    List.filterMap_eq_nil_iff.2 (by simp [Checkpoint.id?])
  have hinstructions : (b.instructions.map Checkpoint.instruction).filterMap Checkpoint.id? =
      b.instructions.map (·.id) := by
    rw [List.filterMap_map, ← List.filterMap_eq_map]
    rfl
  unfold Block.checkpoints
  rw [List.filterMap_append, hsuccessors, List.nil_append, List.filterMap_cons_none rfl,
    hinstructions]

/-- The identities come up in program order. -/
theorem filterMap_checkpoints (program : Program) (entries : List String) :
    (program.checkpoints entries).filterMap Checkpoint.id? =
      (program.functions.flatMap (·.instructions)).map (·.id) := by
  have hentries : (entries.map Checkpoint.entry).filterMap Checkpoint.id? = [] :=
    List.filterMap_eq_nil_iff.2 (by simp [Checkpoint.id?])
  have hfunction (f : Function) :
      f.checkpoints.filterMap Checkpoint.id? = f.instructions.map (·.id) := by
    unfold Function.checkpoints Function.instructions
    simp only [List.filterMap_flatMap, filterMap_block_checkpoints, List.map_flatMap]
    -- the numbers of the blocks no longer matter
    rw [← List.flatMap_map Prod.fst fun b : Block => b.instructions.map (·.id),
      List.zipIdx_map_fst]
  unfold checkpoints
  rw [List.filterMap_append, hentries, List.nil_append, List.filterMap_flatMap, List.map_flatMap]
  simp only [hfunction]

/-- Where no identity is repeated, no instruction has the identity of an earlier one. -/
theorem id_ne_of_nodup {entries : List String}
    (h : ((program.functions.flatMap (·.instructions)).map (·.id)).Nodup)
    {earlier later : List Checkpoint} {i j : Instruction}
    (heq : program.checkpoints entries = earlier ++ .instruction i :: later)
    (hj : .instruction j ∈ earlier) : j.id ≠ i.id := by
  intro hid
  -- the identity would come up among the earlier ones and again here
  rw [← filterMap_checkpoints program entries, heq, List.filterMap_append] at h
  have hearlier : i.id ∈ earlier.filterMap Checkpoint.id? :=
    List.mem_filterMap.2 ⟨_, hj, congrArg some hid⟩
  have hhere : i.id ∈ (Checkpoint.instruction i :: later).filterMap Checkpoint.id? :=
    List.mem_filterMap.2 ⟨_, List.mem_cons_self .., rfl⟩
  exact (List.nodup_append.1 h).2.2 _ hearlier _ hhere rfl

theorem validate_ne_duplicateInstruction
    (h : ((program.functions.flatMap (·.instructions)).map (·.id)).Nodup) (entries : List String)
    (i : InstId) : program.validate entries ≠ .error (.duplicateInstruction i) := by
  intro hvalidate
  have hreports := reports_validate program entries
  rw [hvalidate] at hreports
  obtain ⟨earlier, q, later, heq, hdefect⟩ := Diagnosis.exists_defect hreports
  cases hdefect with
  | duplicateInstruction hj hid => exact id_ne_of_nodup h heq hj hid

/-- What the check accepts has no open block: its end would have been reported. -/
theorem returns_of_validate {entries : List String} (h : program.validate entries = .ok ())
    {f : Function} (hf : f ∈ program.functions) {b : Block} (hb : b ∈ f.blocks)
    (hempty : b.successors = []) : ∃ i, b.instructions.getLast? = some i ∧ i.isReturn = true := by
  have hnone := reports_validate program entries
  rw [h] at hnone
  obtain ⟨k, hk⟩ := List.getElem?_of_mem hb
  have hending : .ending f k b ∈ program.checkpoints entries :=
    mem_checkpoints_iff.2 (Or.inr ⟨f, hf, b, k, hk, by simp [Block.checkpoints]⟩)
  obtain ⟨earlier, later, heq⟩ := List.append_of_mem hending
  rw [heq] at hnone
  -- were no last instruction a return, the end of the block would be a defect
  have hclosed (hlast : ∀ i, b.instructions.getLast? = some i → i.isReturn = false) : False :=
    hnone.1.not_defect (.missingReturn hempty hlast)
  cases hlast : b.instructions.getLast? with
  | none => exact (hclosed fun i hi => by simp [hlast] at hi).elim
  | some i =>
    cases hreturn : i.isReturn with
    | true => exact ⟨i, rfl, hreturn⟩
    | false =>
      refine (hclosed fun j hj => ?_).elim
      rw [hlast] at hj
      cases hj
      exact hreturn

theorem WellFormed.of_validate {entries : List String}
    (h : program.validate entries = .ok ()) : program.WellFormed entries where
  entries := by
    intro name hname
    obtain ⟨f, hbody⟩ := (checked_of_validate h).bodies name hname
    exact ⟨f, mem_of_body? hbody, name_of_body? hbody,
      List.length_pos_iff.1 (blocks_of_body? hbody)⟩
  successors := (checked_of_validate h).successors
  returns _ hf _ hb := returns_of_validate h hf hb
  identities := (checked_of_validate h).identities

/-- No checkpoint of a well-formed input has a defect. -/
theorem WellFormed.not_defect {entries : List String} (h : program.WellFormed entries)
    {earlier later : List Checkpoint} (heq : program.checkpoints entries = earlier ++ q :: later) :
    ¬ Defect program earlier q e := by
  have hq : q ∈ program.checkpoints entries := by simp [heq]
  -- what a checkpoint asks is one of the conditions of being well formed
  rw [mem_checkpoints_iff] at hq
  intro hdefect
  cases hdefect with
  | @unknownEntryPoint name hnone =>
    have hname : name ∈ entries := by simpa [Block.checkpoints] using hq
    obtain ⟨f, hf, hname, -⟩ := h.entries name hname
    exact hnone f hf hname
  | @entryWithoutBody name _ hnone =>
    have hname : name ∈ entries := by simpa [Block.checkpoints] using hq
    obtain ⟨f, hf, hname, hbody⟩ := h.entries name hname
    exact hbody (hnone f hf hname)
  | @invalidSuccessor f k t hge =>
    obtain ⟨_, hf, b, _, hb, _, ht, rfl, -, rfl⟩ : ∃ g ∈ program.functions, ∃ (b : Block) (j : Nat),
        g.blocks[j]? = some b ∧ ∃ u ∈ b.successors, g = f ∧ j = k ∧ u = t := by
      simpa [Block.checkpoints] using hq
    exact absurd (h.successors _ hf b (List.mem_of_getElem? hb) _ ht) (Nat.not_lt.2 hge)
  | @missingReturn f k b hempty hlast =>
    obtain ⟨_, hf, _, _, hb, rfl, rfl, rfl⟩ : ∃ g ∈ program.functions, ∃ (c : Block) (j : Nat),
        g.blocks[j]? = some c ∧ f = g ∧ k = j ∧ b = c := by
      simpa [Block.checkpoints] using hq
    obtain ⟨i, hi, hreturn⟩ := h.returns _ hf _ (List.mem_of_getElem? hb) hempty
    rw [hlast i hi] at hreturn
    cases hreturn
  | @duplicateInstruction i j hj hid =>
    exact id_ne_of_nodup h.identities heq hj hid

theorem WellFormed.validate_eq {entries : List String} (h : program.WellFormed entries) :
    program.validate entries = .ok () := by
  have hreports := reports_validate program entries
  cases hvalidate : program.validate entries with
  | ok _ => rfl
  | error e =>
    rw [hvalidate] at hreports
    obtain ⟨earlier, q, later, heq, hdefect⟩ := Diagnosis.exists_defect hreports
    exact absurd hdefect (h.not_defect heq)

/-- **The check accepts exactly the well-formed inputs**, and otherwise its error is the defect of the
first checkpoint that has one. -/
theorem validate_first_defect (program : Program) (entries : List String) :
    (program.validate entries = .ok () ↔ program.WellFormed entries) ∧
      ∀ e, program.validate entries = .error e ↔
        Diagnosis program [] (program.checkpoints entries) (some e) := by
  refine ⟨⟨WellFormed.of_validate, WellFormed.validate_eq⟩, fun e => ?_⟩
  -- the check reports some diagnosis, and there is only one
  have hreports := reports_validate program entries
  constructor
  · intro h
    rwa [h] at hreports
  · intro h
    cases hvalidate : program.validate entries with
    | ok _ =>
      rw [hvalidate] at hreports
      cases hreports.1.unique h
    | error e' =>
      rw [hvalidate] at hreports
      cases Diagnosis.unique hreports h
      rfl

-- a successor out of range comes before the identity that its block repeats
example : validate ⟨[⟨"main", [], none, [⟨[⟨⟨0⟩, .ret none⟩], []⟩]⟩,
      ⟨"spare", [], none, [⟨[⟨⟨0⟩, .ret none⟩], [0, 7, 9]⟩]⟩], .empty⟩ ["main"] =
    .error (.invalidSuccessor "spare" 0 7) := by rfl

end Program

end Typestate
