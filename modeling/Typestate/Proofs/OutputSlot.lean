import Mathlib.Algebra.Group.Nat.Defs
import Typestate.Proofs.Coverage

/-!
# The place of a declared output slot

Argument positions are counted as in the source. A declared output slot is one argument more, so
positions from the slot on move up by one, and a produced value arrives at the slot as well. A slot is
a 64-bit index and a position has 32 bits: slots below `2 ^ 31` stand for themselves, and the others
wrap around to a position that may lie in front of the arguments, or among them, or be the one of the
returned value.

## Contents

- §1 The position that a number stands for
- §2 `Recognition`: what a call is recognised as, before mode and slot
- §3 `CallInfo.Follows` and `CallInfo.MakesRoom`: a slot among the positions of a call
- §4 Slots above all arguments
- §5 The slots that are placed exactly
-/

namespace Typestate

/-! ## §1 Numbers as positions -/

namespace Position

theorem next_of_le {p : Position} (h : p ≤ maxArgument) : next p = p + 1 :=
  Int.min_eq_left (Int.le_trans (Int.add_le_add_right h 1) (by decide))

theorem ofIndex_eq (n : Nat) :
    ofIndex n = if n % 2 ^ 32 < 2 ^ 31 then ((n % 2 ^ 32 : Nat) : Int)
      else ((n % 2 ^ 32 : Nat) : Int) - 4294967296 := by
  have hsize : ((UInt32.size : Nat) : Int) = 4294967296 := rfl
  show Int.bmod (n : Int) UInt32.size = _
  rw [Int.bmod_def, hsize]
  split <;> split <;> omega

/-- Numbers that fit stand for themselves. -/
theorem ofIndex_of_lt {n : Nat} (h : n < 2 ^ 31) : ofIndex n = n := by
  have hsmall : n % 2 ^ 32 = n := Nat.mod_eq_of_lt (by omega)
  rw [ofIndex_eq, hsmall, if_pos h]

theorem ofIndex_le_largest (n : Nat) : ofIndex n ≤ largest := by
  rw [ofIndex_eq]
  show (_ : Int) ≤ 2147483647
  split <;> omega

/-- The last slot of every `2 ^ 32` falls on the place of the returned value. -/
theorem ofSlot_eq_result_iff (k : UInt64) : ofSlot k = result ↔ k.toNat % 2 ^ 32 = 2 ^ 32 - 1 := by
  rw [ofSlot, ofIndex_eq]
  show (_ : Int) = -1 ↔ _
  split <;> omega

end Position

/-! ## §2 Recognised targets -/

/-- What a call is recognised as: its role, the arguments that move and the positions that a produced
value may arrive at, all of them as in the source. -/
structure Recognition where
  token : Token
  consumers : List Position
  outputs : List Position

namespace Recognition

/-- Whether calls of this kind produce a tracked value: a rebuild where the mode follows owners, any
other role where there is a position for the value. -/
def Produces (r : Recognition) (mode : Mode) : Prop :=
  if r.token = .rebuild then mode = .factory else r.outputs ≠ []

/-- Where a produced value arrives when no slot is declared. A rebuild without positions of its own
hands the owner back as its result. -/
def Receives (r : Recognition) (mode : Mode) (p : Position) : Prop :=
  r.Produces mode ∧ (p ∈ r.outputs ∨ r.outputs = [] ∧ p = Position.result)

/-- All positions are among those that an entry may name. -/
structure InRange (r : Recognition) : Prop where
  consumers : ∀ p ∈ r.consumers, 0 ≤ p ∧ p ≤ Position.maxArgument
  outputs : ∀ p ∈ r.outputs, Position.result ≤ p ∧ p ≤ Position.maxArgument

theorem InRange.of_fault? {f : KnownFunction} (h : f.fault? = none) :
    InRange ⟨f.token, f.consumers, f.outputs⟩ := by
  unfold KnownFunction.fault? at h
  split at h
  · cases h
  · next hconsumers =>
    split at h
    · cases h
    · next houtputs =>
      constructor
      · simpa [KnownFunction.inRange] using hconsumers
      · simpa [KnownFunction.inRange] using houtputs

end Recognition

/-- The target is recognised: by an entry of the table that passes its check, or else by a marker. -/
inductive Classifier.Recognises (c : Classifier) (identifier : String) : Recognition → Prop where
  /-- The table has an entry under the normalised identifier. -/
  | entry (f : KnownFunction) :
      c.known.get? (Identifier.normalize identifier) = some f → f.fault? = none →
      Recognises c identifier ⟨f.token, f.consumers, f.outputs⟩
  /-- There is no entry and the normalised identifier holds a marker. -/
  | marker (token : Token) :
      c.known.get? (Identifier.normalize identifier) = none →
      markedToken? (Identifier.normalize identifier) = some token →
      Recognises c identifier ⟨token, [0],
        if token = .extract ∨ token = .rebuild then [Position.result] else []⟩

namespace Classifier.Recognises

variable {c : Classifier} {identifier : String} {r : Recognition}

theorem inRange (h : c.Recognises identifier r) : r.InRange := by
  cases h with
  | entry f _ hcheck => exact .of_fault? hcheck
  | marker token _ _ =>
    have hresult : Position.result ≤ Position.result ∧ Position.result ≤ Position.maxArgument := by
      decide
    constructor
    · simp [Position.maxArgument]
    · dsimp only
      split <;> simp [hresult]

/-- The mode and the slot are all that a classification adds to the recognition. -/
theorem classify_eq (h : c.Recognises identifier r) :
    ∃ provenance, ∀ mode, c.classify mode identifier =
      .recognised mode r.token (FiniteSet.ofList r.consumers) (FiniteSet.ofList r.outputs)
        provenance ((c.declarations.resolve? identifier).bind (·.outputArg)) := by
  cases h with
  | entry f hknown _ => exact ⟨.curated, (Rule.entry f hknown).classify_eq⟩
  | marker token hknown hmarked =>
    refine ⟨.heuristic, fun mode => ?_⟩
    rw [(Rule.marker token hknown hmarked).classify_eq]
    -- the two ways to write down the positions of a marked call agree token by token
    cases token <;> rfl

end Classifier.Recognises

section
variable (mode : Mode) (r : Recognition)

theorem production_fst :
    (production mode r.token (FiniteSet.ofList r.outputs)).1 = true ↔ r.Produces mode := by
  unfold Recognition.Produces production
  cases r.token <;> cases mode <;> simp [FiniteSet.isEmpty_ofList]

theorem contains_production (p : Position) :
    (production mode r.token (FiniteSet.ofList r.outputs)).2.contains p = true ↔
      r.Receives mode p := by
  unfold Recognition.Receives Recognition.Produces production
  cases r.token with
  | rebuild =>
    cases mode with
    | consuming => simp [FiniteSet.empty, FiniteMap.contains]
    | factory => cases r.outputs <;> simp [FiniteSet.isEmpty_ofList, FiniteSet.contains_ofList]
  | neutral | extract | release | access =>
    cases r.outputs <;> simp [FiniteSet.contains_ofList]

end

/-! ## §3 Making room -/

/-- Where a moving argument is once the output slot has its place. -/
def Position.beside (slot : Option UInt64) (p : Position) : Position :=
  match slot with
  | none => p
  | some k => if ofSlot k ≤ p then next p else p

/-- The call is what it was recognised as, whatever positions that names: the arguments that move are
those beside the slot, and what it produces arrives at the slot as well. -/
structure CallInfo.Follows (info : CallInfo) (r : Recognition) (mode : Mode) (slot : Option UInt64) :
    Prop where
  token : info.token = r.token
  consumers : ∀ q, info.consumers.contains q = true ↔ ∃ p ∈ r.consumers, Position.beside slot p = q
  isFactory : info.isFactory = true ↔ r.Produces mode
  outputs : ∀ q, info.outputs.contains q = true ↔
    r.Receives mode q ∨ r.Produces mode ∧ ∃ k, slot = some k ∧ q = Position.ofSlot k

/-- The call has an argument more at `slot`: the moving arguments from the slot on are one further up,
and what the call produces arrives at the slot as well. -/
structure CallInfo.MakesRoom (info : CallInfo) (r : Recognition) (mode : Mode) (slot : Int) :
    Prop where
  consumers : ∀ q, info.consumers.contains q = true ↔
    (q ∈ r.consumers ∧ q < slot) ∨ ∃ p ∈ r.consumers, slot ≤ p ∧ q = p + 1
  isFactory : info.isFactory = true ↔ r.Produces mode
  outputs : ∀ q, info.outputs.contains q = true ↔
    r.Receives mode q ∨ r.Produces mode ∧ q = slot

namespace CallInfo

variable {mode : Mode} {r : Recognition}

section
variable (mode) (token : Token) (consumers outputs : FiniteSet Position)
variable (provenance : Provenance) (k : UInt64)

theorem consumers_recognised_some :
    (recognised mode token consumers outputs provenance (some k)).consumers =
      FiniteSet.map (Position.beside (some k)) consumers := rfl

theorem outputs_recognised_some :
    (recognised mode token consumers outputs provenance (some k)).outputs =
      if (production mode token outputs).1 then
        FiniteSet.insert (production mode token outputs).2 (Position.ofSlot k)
      else (production mode token outputs).2 := rfl

end

/-- A recognised call follows its recognition beside any slot. -/
theorem follows_recognised (mode : Mode) (r : Recognition) (provenance : Provenance)
    (slot : Option UInt64) :
    (recognised mode r.token (FiniteSet.ofList r.consumers) (FiniteSet.ofList r.outputs)
      provenance slot).Follows r mode slot := by
  constructor
  · rw [token_recognised]
  · intro q
    cases slot with
    | none => simp [recognised, Position.beside, FiniteSet.contains_ofList]
    | some k =>
      simp only [consumers_recognised_some, FiniteSet.contains_map, FiniteSet.contains_ofList]
  · rw [isFactory_recognised]
    exact production_fst mode r
  · intro q
    -- the slot is used exactly when something is produced
    have hproduces := production_fst mode r
    have hreceives := contains_production mode r q
    cases slot with
    | none => simpa [recognised] using hreceives
    | some k =>
      rw [outputs_recognised_some]
      split
      · next h => simp [FiniteSet.contains_insert, hreceives, hproduces.1 h, or_comm]
      · next h => simp [hreceives, mt hproduces.2 h]

/-- Positions in range are far from the largest one, so those from the slot on all move up. -/
theorem Follows.makesRoom {info : CallInfo} {k : UInt64} (hr : r.InRange)
    (h : info.Follows r mode (some k)) : info.MakesRoom r mode (Position.ofSlot k) := by
  have hnext : ∀ p ∈ r.consumers, Position.next p = p + 1 :=
    fun p hp => Position.next_of_le (hr.consumers p hp).2
  constructor
  · intro q
    rw [h.consumers]
    constructor
    · rintro ⟨p, hp, rfl⟩
      -- a consumer stays in front of the slot or moves up by one
      by_cases hle : Position.ofSlot k ≤ p
      · exact Or.inr ⟨p, hp, hle, (if_pos hle).trans (hnext p hp)⟩
      · have hstays : Position.beside (some k) p = p := if_neg hle
        rw [hstays]
        exact Or.inl ⟨hp, Int.not_le.1 hle⟩
    · rintro (⟨hq, hlt⟩ | ⟨p, hp, hle, rfl⟩)
      · exact ⟨q, hq, if_neg (Int.not_le.2 hlt)⟩
      · exact ⟨p, hp, (if_pos hle).trans (hnext p hp)⟩
  · exact h.isFactory
  · simpa using h.outputs

namespace MakesRoom

variable {info : CallInfo} {slot place : Int}

/-- The slot is kept free of moving arguments. -/
theorem not_contains_slot (h : info.MakesRoom r mode slot) :
    ¬ info.consumers.contains slot = true := by
  rw [h.consumers]
  rintro (⟨-, hlt⟩ | ⟨p, -, hle, heq⟩)
  · exact Int.lt_irrefl _ hlt
  · rw [heq] at hle
    exact Int.not_le.2 (Int.lt_succ p) hle

/-! ## §4 High slots -/

/-- With all moving arguments in front of the place, room can as well be made above all arguments. -/
theorem of_high (hr : r.InRange) (h : info.MakesRoom r mode place)
    (hhigh : Position.maxArgument < slot) (hproduces : ¬ r.Produces mode)
    (hfront : ∀ p ∈ r.consumers, p < place) : info.MakesRoom r mode slot := by
  constructor
  · intro q
    -- nothing moves on either side: all consumers are in front of both places
    rw [h.consumers]
    constructor
    · rintro (⟨hq, -⟩ | ⟨p, hp, hle, -⟩)
      · exact Or.inl ⟨hq, Int.lt_of_le_of_lt (hr.consumers q hq).2 hhigh⟩
      · exact absurd (hfront p hp) (Int.not_lt.2 hle)
    · rintro (⟨hq, -⟩ | ⟨p, hp, hle, -⟩)
      · exact Or.inl ⟨hq, hfront q hq⟩
      · exact absurd (Int.lt_of_le_of_lt (hr.consumers p hp).2 hhigh) (Int.not_lt.2 hle)
  · exact h.isFactory
  · simpa [hproduces] using h.outputs

section
variable (hr : r.InRange) (h : info.MakesRoom r mode place) (hslot : info.MakesRoom r mode slot)
variable (hhigh : Position.maxArgument < slot)
include hr h hslot hhigh

/-- Room above all arguments moves none of them. -/
theorem lt_of_high {p : Int} (hp : p ∈ r.consumers) : p < place := by
  -- otherwise every moving argument from the place on is followed by another, without end
  by_contra hle
  have hclimb : ∀ n : Nat, p + n ∈ r.consumers := by
    intro n
    induction n with
    | zero => simpa using hp
    | succ n ih =>
      have hbehind : place ≤ p + n := by omega
      have hmoved := (h.consumers (p + n + 1)).2 (Or.inr ⟨p + n, ih, hbehind, rfl⟩)
      rcases (hslot.consumers _).1 hmoved with ⟨hnext, -⟩ | ⟨q, hq, habove, -⟩
      · rwa [Int.natCast_succ, ← Int.add_assoc]
      · exact absurd (Int.lt_of_le_of_lt (hr.consumers q hq).2 hhigh) (Int.not_lt.2 habove)
  have hlow : 0 ≤ p := (hr.consumers p hp).1
  have htop : p + (256 : Nat) ≤ 255 := (hr.consumers _ (hclimb 256)).2
  omega

/-- A produced value would have to arrive at the slot. -/
theorem not_produces_of_high (hne : slot ≠ place) : ¬ r.Produces mode := by
  intro hproduces
  have hreached := (hslot.outputs slot).2 (Or.inr ⟨hproduces, rfl⟩)
  rcases (h.outputs slot).1 hreached with ⟨-, hmem | ⟨-, hresult⟩⟩ | ⟨-, heq⟩
  · exact absurd (hr.outputs slot hmem).2 (Int.not_le.2 hhigh)
  · rw [hresult] at hhigh
    exact absurd hhigh (by decide)
  · exact hne heq

end

end MakesRoom

end CallInfo

/-! ## §5 Exact slots -/

section
variable {c : Classifier} {identifier : String} {r : Recognition} {d : Declaration} {k : UInt64}

theorem Classifier.Recognises.makesRoom (h : c.Recognises identifier r)
    (hdeclared : c.declarations.resolve? identifier = some d) (hslot : d.outputArg = some k)
    (mode : Mode) : (c.classify mode identifier).MakesRoom r mode (Position.ofSlot k) := by
  obtain ⟨provenance, hclassify⟩ := h.classify_eq
  rw [hclassify, hdeclared, Option.bind_some, hslot]
  exact (CallInfo.follows_recognised mode r provenance (some k)).makesRoom h.inRange

/-- **Declared slots below `2 ^ 31` are placed exactly**, and they are the only ones that are, apart
from calls without a produced value all of whose arguments stay in front of the wrapped slot. Any slot
is kept free of moving arguments at the position it stands for; the returned value becomes an output
by way of the last slot of every `2 ^ 32`. -/
theorem Classifier.makesRoom_of_recognises (h : c.Recognises identifier r)
    (hdeclared : c.declarations.resolve? identifier = some d) (hslot : d.outputArg = some k)
    (mode : Mode) :
    (c.classify mode identifier).MakesRoom r mode (Position.ofSlot k) ∧
    ((c.classify mode identifier).MakesRoom r mode k.toNat ↔ k.toNat < 2 ^ 31 ∨
      ¬ r.Produces mode ∧ ∀ p ∈ r.consumers, p < Position.ofSlot k) ∧
    ¬ (c.classify mode identifier).consumers.contains (Position.ofSlot k) = true ∧
    ((c.classify mode identifier).outputs.contains Position.result = true ↔
      r.Receives mode Position.result ∨ r.Produces mode ∧ k.toNat % 2 ^ 32 = 2 ^ 32 - 1) := by
  have hr := h.inRange
  have hplaced := h.makesRoom hdeclared hslot mode
  refine ⟨hplaced, ?_, hplaced.not_contains_slot, ?_⟩
  · rcases Nat.lt_or_ge k.toNat (2 ^ 31) with hlow | hge
    · have hplace : Position.ofSlot k = k.toNat := Position.ofIndex_of_lt hlow
      rw [← hplace]
      exact iff_of_true hplaced (Or.inl hlow)
    -- a slot that does not fit is above all arguments, and its place is another position
    have hhigh : Position.maxArgument < (k.toNat : Int) := by
      show (255 : Int) < _
      omega
    have hne : (k.toNat : Int) ≠ Position.ofSlot k := by
      intro heq
      have hlow : (k.toNat : Int) ≤ 2147483647 := heq ▸ Position.ofIndex_le_largest k.toNat
      omega
    constructor
    · intro hexact
      exact Or.inr ⟨hplaced.not_produces_of_high hr hexact hhigh hne,
        fun p hp => hplaced.lt_of_high hr hexact hhigh hp⟩
    · rintro (hlow | ⟨hproduces, hfront⟩)
      · exact absurd hlow (Nat.not_lt.2 hge)
      · exact hplaced.of_high hr hhigh hproduces hfront
  · rw [hplaced.outputs, eq_comm (a := Position.result), Position.ofSlot_eq_result_iff]

end

/-- Declarations with a slot among the arguments and with one that wraps around to the first. -/
def slotting : Program :=
  ⟨[⟨"core::ptr::copy", [], some 1, []⟩, ⟨"core::ptr::drop_in_place", [], some 4294967296, []⟩],
    .empty⟩

/-- Two of the built-in entries, over the declarations of `slotting`. -/
def slottingClassifier : Classifier :=
  ⟨⟨FiniteMap.ofList
      [("core::ptr::copy", ⟨"core::ptr::copy", .access, [0, 1], []⟩),
        ("core::ptr::drop_in_place", ⟨"core::ptr::drop_in_place", .release, [0], []⟩)]⟩,
    .ofProgram slotting⟩

theorem recognises_copy : slottingClassifier.Recognises "core::ptr::copy" ⟨.access, [0, 1], []⟩ :=
  .entry ⟨"core::ptr::copy", .access, [0, 1], []⟩ rfl (by decide)

theorem recognises_drop :
    slottingClassifier.Recognises "core::ptr::drop_in_place" ⟨.release, [0], []⟩ :=
  .entry ⟨"core::ptr::drop_in_place", .release, [0], []⟩ rfl (by decide)

theorem resolve?_slotting :
    slottingClassifier.declarations.resolve? "core::ptr::copy" = some ⟨0, some 1, false⟩ ∧
      slottingClassifier.declarations.resolve? "core::ptr::drop_in_place" =
        some ⟨0, some 4294967296, false⟩ := by
  decide

/-- A slot between the two arguments of a copy leaves the first where it is and moves the second. -/
theorem makesRoom_copy :
    slottingClassifier.Recognises "core::ptr::copy" ⟨.access, [0, 1], []⟩ ∧
      slottingClassifier.declarations.resolve? "core::ptr::copy" = some ⟨0, some 1, false⟩ ∧
      (slottingClassifier.classify .factory "core::ptr::copy").MakesRoom
        ⟨.access, [0, 1], []⟩ .factory 1 := by
  have hdeclared := resolve?_slotting.1
  have hroom := Classifier.makesRoom_of_recognises recognises_copy hdeclared rfl .factory
  exact ⟨recognises_copy, hdeclared, hroom.2.1.2 (Or.inl (by decide))⟩

/-- The slot `2 ^ 32` takes the place of the released argument, which moves although it is far in front
of the slot. -/
theorem not_makesRoom_drop :
    slottingClassifier.Recognises "core::ptr::drop_in_place" ⟨.release, [0], []⟩ ∧
      slottingClassifier.declarations.resolve? "core::ptr::drop_in_place" =
        some ⟨0, some 4294967296, false⟩ ∧
      ¬ (slottingClassifier.classify .consuming "core::ptr::drop_in_place").MakesRoom
        ⟨.release, [0], []⟩ .consuming 4294967296 := by
  have hdeclared := resolve?_slotting.2
  refine ⟨recognises_drop, hdeclared, fun h => ?_⟩
  have hstays := (h.consumers 0).2 (Or.inl ⟨List.mem_singleton.2 rfl, by decide⟩)
  have hwraps : Position.ofSlot 4294967296 = 0 := by decide
  have hplaced := recognises_drop.makesRoom hdeclared rfl .consuming
  exact hplaced.not_contains_slot (hwraps ▸ hstays)

end Typestate
