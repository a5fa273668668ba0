import Typestate.Proofs.OutputSlot

/-!
# What a classification shows of the mode and of its rule

The mode has a say only after a rule has made a call a rebuild, and then only in what the call produces.
The rule itself can be told from the provenance, whatever entries the table holds: each of the four
provenances stands for one answer to the questions whether the normalised identifier is in the table,
whether it holds a marker, and whether the program declares the identifier as written.

## Contents

- §1 Producing and having a place to produce at
- §2 Both modes of one target
- §3 The rule behind a classification
-/

namespace Typestate

/-! ## §1 Production -/

theorem FiniteSet.isEmpty_insert {κ : Type} [Ord κ] [Std.LawfulEqOrd κ] [Std.TransOrd κ]
    [DecidableEq κ] (s : FiniteSet κ) (key : κ) : (insert s key).isEmpty = false :=
  FiniteMap.isEmpty_insert s key ()

section
variable (mode : Mode) (token : Token) (outputs : FiniteSet Position)

/-- Producing and having a place to produce at are the same. -/
theorem production_fst_iff :
    (production mode token outputs).1 = true ↔ (production mode token outputs).2.isEmpty = false := by
  cases token with
  | rebuild =>
    cases mode with
    | consuming => exact iff_of_false Bool.false_ne_true (Ne.symm Bool.false_ne_true)
    | factory =>
      -- a rebuild without a place of its own produces at the result
      refine iff_of_true rfl ?_
      unfold production
      cases hempty : outputs.isEmpty with
      | true => rfl
      | false => simp [hempty]
  | neutral | extract | release | access => simp [production]

/-- An output slot keeps it so, since it is used when something is produced. -/
theorem CallInfo.isFactory_recognised_iff (consumers : FiniteSet Position) (provenance : Provenance)
    (slot : Option UInt64) :
    (recognised mode token consumers outputs provenance slot).isFactory = true ↔
      (recognised mode token consumers outputs provenance slot).outputs.isEmpty = false := by
  have hproduction := production_fst_iff mode token outputs
  cases slot with
  | none => exact hproduction
  | some k =>
    unfold recognised
    simp only
    split
    · next hproduces => simp [hproduces, FiniteSet.isEmpty_insert]
    · next hidle => simpa [hidle] using hproduction

end

/-! ## §2 Both modes -/

/-- What two classifications of one target share, the first of them in the consuming mode and the
second in the factory mode. -/
structure CallInfo.Paired (consuming factory : CallInfo) : Prop where
  token : consuming.token = factory.token
  provenance : consuming.provenance = factory.provenance
  consumers : consuming.consumers = factory.consumers
  /-- The mode is not felt where nothing is rebuilt. -/
  eq_of_ne_rebuild : consuming.token ≠ .rebuild → consuming = factory
  /-- An owner that is rebuilt is only followed in the factory mode. -/
  ignored : consuming.token = .rebuild →
    consuming.isFactory = false ∧ consuming.outputs.isEmpty = true
  followed : consuming.token = .rebuild → factory.isFactory = true ∧ factory.outputs.isEmpty = false

namespace Classifier

variable (c : Classifier) (identifier : String)

/-- The two classifications of a target are made by one rule. -/
theorem paired : (c.classify .consuming identifier).Paired (c.classify .factory identifier) := by
  -- only a recognised call can be a rebuild, and it is one in both modes
  have hrebuild (h : (c.classify .consuming identifier).token = .rebuild) : ∃ consumers outputs
      provenance slot, ∀ mode, c.classify mode identifier =
        .recognised mode .rebuild consumers outputs provenance slot := by
    obtain ⟨info, hrule⟩ := c.exists_rule identifier
    have hinfo := hrule.classify_eq
    rw [hinfo] at h
    cases hrule with
    | entry f hknown =>
      rw [CallInfo.token_recognised] at h
      exact ⟨_, _, _, _, fun mode => h ▸ hinfo mode⟩
    | marker token hknown hmarked =>
      rw [CallInfo.token_recognised] at h
      exact ⟨_, _, _, _, fun mode => h ▸ hinfo mode⟩
    | declared d hknown hmarked hdeclared => cases h
    | unknown hknown hmarked hdeclared => cases h
  constructor
  · rw [c.token_classify, c.token_classify]
  · exact c.provenance_classify identifier _ _
  · exact c.consumers_classify identifier _ _
  · exact fun h => c.classify_of_ne_rebuild identifier h _ _
  · intro h
    obtain ⟨consumers, outputs, provenance, slot, hshape⟩ := hrebuild h
    have hidle : (c.classify .consuming identifier).isFactory = false := by
      rw [hshape, CallInfo.isFactory_recognised]
      rfl
    -- places to produce at would make it a factory
    refine ⟨hidle, Bool.of_not_eq_false fun hplaces => ?_⟩
    rw [hshape] at hidle hplaces
    rw [(CallInfo.isFactory_recognised_iff ..).2 hplaces] at hidle
    cases hidle
  · intro h
    obtain ⟨consumers, outputs, provenance, slot, hshape⟩ := hrebuild h
    have hproduces : (c.classify .factory identifier).isFactory = true := by
      rw [hshape, CallInfo.isFactory_recognised]
      rfl
    refine ⟨hproduces, ?_⟩
    rw [hshape] at hproduces ⊢
    exact (CallInfo.isFactory_recognised_iff ..).1 hproduces

end Classifier

/-! ## §3 Rules -/

/-- The classification of a target by a table and a program says by which rule it was made, and what
the rule has to say. -/
structure CallInfo.Explained (info : CallInfo) (known : KnownTable) (program : Program) (mode : Mode)
    (identifier : String) : Prop where
  isFactory_iff : info.isFactory = true ↔ info.outputs.isEmpty = false
  curated_iff : info.provenance = .curated ↔
    ∃ f, known.get? (Identifier.normalize identifier) = some f
  heuristic_iff : info.provenance = .heuristic ↔
    known.get? (Identifier.normalize identifier) = none ∧ Marked (Identifier.normalize identifier)
  fallback_iff : info.provenance = .fallback ↔
    known.get? (Identifier.normalize identifier) = none ∧
      ¬ Marked (Identifier.normalize identifier) ∧ program.Declares identifier
  unresolved_iff : info.provenance = .unresolved ↔
    known.get? (Identifier.normalize identifier) = none ∧
      ¬ Marked (Identifier.normalize identifier) ∧ ¬ program.Declares identifier
  /-- The first rule follows the entry, checked or not, beside the slot of the declaration. -/
  enters : info.provenance = .curated →
    ∃ f, known.get? (Identifier.normalize identifier) = some f ∧
      info.Follows ⟨f.token, f.consumers, f.outputs⟩ mode
        ((Classifier.mk known (.ofProgram program)).slot? identifier)
  /-- The second rule follows the marker. -/
  marks : info.provenance = .heuristic →
    ∃ token, markedToken? (Identifier.normalize identifier) = some token ∧
      info.Follows ⟨token, [0], token.markedOutputs⟩ mode
        ((Classifier.mk known (.ofProgram program)).slot? identifier)
  /-- The last but one rule accesses the arguments below the position that the number of parameters
  stands for. These are all arguments exactly as long as that number fits. -/
  accesses : info.provenance = .fallback → info.token = .access ∧ info.outputs.isEmpty = true ∧
    ∃ d, (Declarations.ofProgram program).resolve? identifier = some d ∧
      (∀ p : Int, info.consumers.contains p = true ↔ 0 ≤ p ∧ p < Position.ofIndex d.arity) ∧
      ((∀ p : Int, info.consumers.contains p = true ↔ 0 ≤ p ∧ p < d.arity) ↔ d.arity < 2 ^ 31)
  /-- The last rule does nothing. -/
  idles : info.provenance = .unresolved →
    info.token = .neutral ∧ info.consumers.isEmpty = true ∧ info.outputs.isEmpty = true

namespace CallInfo

/-- The arguments counted by a position are those in front of it. -/
theorem contains_accessAll (arity : Nat) (p : Int) :
    (accessAll arity).consumers.contains p = true ↔ 0 ≤ p ∧ p < Position.ofIndex arity := by
  unfold accessAll
  simp only [FiniteSet.contains_ofList, List.mem_map, List.mem_range]
  constructor
  · rintro ⟨n, hn, rfl⟩
    exact ⟨Int.natCast_nonneg n, Int.lt_toNat.1 hn⟩
  · rintro ⟨hnonneg, hlt⟩
    have hbelow : p.toNat < (Position.ofIndex arity).toNat :=
      (Int.toNat_lt_toNat (Int.lt_of_le_of_lt hnonneg hlt)).2 hlt
    exact ⟨p.toNat, hbelow, Int.toNat_of_nonneg hnonneg⟩

/-- The largest position is never accessed, so where there is an argument at it some are left out. -/
theorem accessAll_complete_iff (arity : Nat) :
    (∀ p : Int, (accessAll arity).consumers.contains p = true ↔ 0 ≤ p ∧ p < arity) ↔
      arity < 2 ^ 31 := by
  constructor
  · intro hall
    by_contra hlarge
    have hplace : 0 ≤ Position.largest ∧ Position.largest < (arity : Int) := by
      show (0 : Int) ≤ 2147483647 ∧ (2147483647 : Int) < arity
      omega
    -- the argument at the largest position would have to be accessed
    have hlast := ((contains_accessAll arity _).1 ((hall _).2 hplace)).2
    exact Int.not_lt.2 (Position.ofIndex_le_largest arity) hlast
  · intro hfits p
    rw [contains_accessAll, Position.ofIndex_of_lt hfits]

end CallInfo

namespace Classifier

/-- A classification has what its rule says, and no other rule applies. -/
theorem explained (known : KnownTable) (program : Program) (mode : Mode) (identifier : String) :
    ((Classifier.mk known (.ofProgram program)).classify mode identifier).Explained known program
      mode identifier := by
  obtain ⟨info, hrule⟩ := (Classifier.mk known (.ofProgram program)).exists_rule identifier
  rw [hrule.classify_eq]
  cases hrule with
  | entry f hknown =>
    -- neither the marker nor the declaration was looked for
    have hknown : known.get? (Identifier.normalize identifier) = some f := hknown
    constructor
    case enters =>
      exact fun _ => ⟨f, hknown,
        CallInfo.follows_recognised mode ⟨f.token, f.consumers, f.outputs⟩ _ _⟩
    all_goals
      simp [CallInfo.provenance_recognised, CallInfo.isFactory_recognised_iff, hknown]
  | marker token hknown hmarked =>
    have hknown : known.get? (Identifier.normalize identifier) = none := hknown
    have hholds := marked_of_markedToken? hmarked
    constructor
    case marks =>
      exact fun _ => ⟨token, hmarked,
        CallInfo.follows_recognised mode ⟨token, [0], token.markedOutputs⟩ _ _⟩
    all_goals
      simp [CallInfo.provenance_recognised, CallInfo.isFactory_recognised_iff, hknown, hholds]
  | declared d hknown hmarked hdeclared =>
    have hknown : known.get? (Identifier.normalize identifier) = none := hknown
    have hmarked := markedToken?_eq_none_iff.1 hmarked
    have hdeclares : program.Declares identifier := by
      by_contra hnone
      rw [Declarations.resolve?_eq_none_iff.2 hnone] at hdeclared
      cases hdeclared
    constructor
    case accesses =>
      exact fun _ => ⟨rfl, rfl, d, hdeclared, CallInfo.contains_accessAll d.arity,
        CallInfo.accessAll_complete_iff d.arity⟩
    case isFactory_iff => exact iff_of_false Bool.false_ne_true (Ne.symm Bool.false_ne_true)
    all_goals simp [CallInfo.accessAll, hknown, hmarked, hdeclares]
  | unknown hknown hmarked hdeclared =>
    have hknown : known.get? (Identifier.normalize identifier) = none := hknown
    have hmarked := markedToken?_eq_none_iff.1 hmarked
    have hdeclares := Declarations.resolve?_eq_none_iff.1 hdeclared
    constructor
    case idles => exact fun _ => ⟨rfl, rfl, rfl⟩
    case isFactory_iff => exact iff_of_false Bool.false_ne_true (Ne.symm Bool.false_ne_true)
    all_goals simp [CallInfo.inert, hknown, hmarked, hdeclares]

/-- **The mode is felt at rebuilding calls only**, and there only in what is produced; and of every
classification the provenance tells the rule that decided, whatever the table holds. A call that is
only declared accesses all its arguments exactly if they are fewer than `2 ^ 31`. -/
theorem classify_by_rule (known : KnownTable) (program : Program) (identifier : String) :
    ((Classifier.mk known (.ofProgram program)).classify .consuming identifier).Paired
        ((Classifier.mk known (.ofProgram program)).classify .factory identifier) ∧
      ∀ mode, ((Classifier.mk known (.ofProgram program)).classify mode identifier).Explained known
        program mode identifier :=
  ⟨paired _ identifier, fun mode => explained known program mode identifier⟩

end Classifier

/-- A declaration with a given number of parameters. -/
def crowd (arity : Nat) : Program :=
  ⟨[⟨"work", List.replicate arity ⟨0⟩, none, []⟩], .empty⟩

/-- The index gives the arity without going through the parameters. -/
theorem resolve?_crowd (arity : Nat) :
    (Declarations.ofProgram (crowd arity)).resolve? "work" = some ⟨arity, none, false⟩ := by
  have hadded := Declarations.resolve?_add .empty ⟨"work", List.replicate arity ⟨0⟩, none, []⟩ "work"
  rw [if_pos rfl] at hadded
  refine hadded.trans ?_
  rw [Function.declaration, List.length_replicate]
  rfl

/-- A call with `2 ^ 31` arguments accesses none of them. -/
theorem not_contains_crowd :
    (Declarations.ofProgram (crowd (2 ^ 31))).resolve? "work" = some ⟨2 ^ 31, none, false⟩ ∧
      ((Classifier.mk .empty (.ofProgram (crowd (2 ^ 31)))).classify .consuming "work").provenance =
        .fallback ∧
      ¬ ((Classifier.mk .empty (.ofProgram (crowd (2 ^ 31)))).classify .consuming
        "work").consumers.contains 0 = true := by
  have hdeclared := resolve?_crowd (2 ^ 31)
  have hrule : (Classifier.mk .empty (.ofProgram (crowd (2 ^ 31)))).Rule "work" _ :=
    .declared _ rfl (by decide) hdeclared
  rw [hrule.classify_eq]
  refine ⟨hdeclared, rfl, fun h => ?_⟩
  -- as a position, `2 ^ 31` is a negative number, and no argument is in front of it
  have hbelow := ((CallInfo.contains_accessAll _ _).1 h).2
  exact absurd hbelow (by decide)

end Typestate
