import Mathlib.Data.List.Infix
import Typestate.Classifier
import Typestate.Proofs.Resolution

/-!
# What decides a classification

Four rules are tried in order. The normalised identifier decides between the first two, an entry of the
table and a marker; the identifier as written decides between the other two, through the declarations
of the program. A call that one of the first two rules applies to is recognised, and the identifier as
written then only contributes the declared output slot.

## Contents

- §1 Marked identifiers and declared names
- §2 The four rules
- §3 Recognised calls
-/

namespace Typestate

/-! ## §1 Markers and declarations -/

/-- The search finds a pattern wherever it stands. -/
theorem occursIn_iff {pattern text : List Char} : occursIn pattern text = true ↔ pattern <:+: text := by
  induction text with
  | nil => simp [occursIn]
  | cons c rest ih => rw [occursIn, Bool.or_eq_true, ih, List.isPrefixOf_iff_prefix, List.infix_cons_iff]

/-- One of the markers stands somewhere in the identifier. -/
def Marked (identifier : String) : Prop :=
  ∃ row ∈ markers, ∃ marker ∈ row.2, marker.toList <:+: identifier.toList

theorem markedToken?_eq_none_iff {identifier : String} :
    markedToken? identifier = none ↔ ¬ Marked identifier := by
  simp only [markedToken?, Option.map_eq_none_iff, List.find?_eq_none, List.any_eq_true,
    occursIn_iff, Marked, not_exists, not_and]

theorem marked_of_markedToken? {identifier : String} {token : Token}
    (h : markedToken? identifier = some token) : Marked identifier := by
  by_contra hmarked
  rw [markedToken?_eq_none_iff.2 hmarked] at h
  cases h

/-- The program declares or defines a function of exactly this name. -/
def Program.Declares (program : Program) (name : String) : Prop :=
  ∃ f ∈ program.functions, f.name = name

theorem Declarations.resolve?_eq_none_iff {program : Program} {name : String} :
    (ofProgram program).resolve? name = none ↔ ¬ program.Declares name := by
  rw [resolve?_ofProgram, Option.or_eq_none_iff, Option.map_eq_none_iff, Option.map_eq_none_iff,
    List.getLast?_eq_none_iff]
  simp only [Program.definitions, Program.function?, List.filter_eq_nil_iff, List.find?_eq_none,
    Program.Declares, Bool.and_eq_true, beq_iff_eq, not_exists, not_and]
  -- a definition is an occurrence of the name as well
  constructor
  · rintro ⟨-, hnone⟩
    exact hnone
  · exact fun hnone => ⟨fun f hf hname => absurd hname (hnone f hf), hnone⟩

/-! ## §2 Rules -/

/-- Where a call that is known by a marker only leaves what it produces. -/
def Token.markedOutputs : Token → List Position
  | extract | rebuild => [Position.result]
  | neutral | release | access => []

namespace Classifier

/-- The hidden result argument that the target is declared with. -/
def slot? (c : Classifier) (identifier : String) : Option UInt64 :=
  (c.declarations.resolve? identifier).bind (·.outputArg)

/-- The rule that decides a target, and what it makes of the target in either mode. -/
inductive Rule (c : Classifier) (identifier : String) : (Mode → CallInfo) → Prop where
  | entry (f : KnownFunction) :
      c.known.get? (Identifier.normalize identifier) = some f →
      Rule c identifier fun mode => .recognised mode f.token (FiniteSet.ofList f.consumers)
        (FiniteSet.ofList f.outputs) .curated (c.slot? identifier)
  | marker (token : Token) :
      c.known.get? (Identifier.normalize identifier) = none →
      markedToken? (Identifier.normalize identifier) = some token →
      Rule c identifier fun mode => .recognised mode token (FiniteSet.ofList [0])
        (FiniteSet.ofList token.markedOutputs) .heuristic (c.slot? identifier)
  | declared (d : Declaration) :
      c.known.get? (Identifier.normalize identifier) = none →
      markedToken? (Identifier.normalize identifier) = none →
      c.declarations.resolve? identifier = some d →
      Rule c identifier fun _ => .accessAll d.arity
  | unknown :
      c.known.get? (Identifier.normalize identifier) = none →
      markedToken? (Identifier.normalize identifier) = none →
      c.declarations.resolve? identifier = none →
      Rule c identifier fun _ => .inert .unresolved

variable {c : Classifier} {identifier : String} {info : Mode → CallInfo}

/-- The rule that applies decides, in both modes. -/
theorem Rule.classify_eq (h : c.Rule identifier info) (mode : Mode) :
    c.classify mode identifier = info mode := by
  cases h with
  | entry f hknown => simp only [classify, hknown, slot?]
  | marker token hknown hmarked =>
    simp only [classify, hknown, hmarked, slot?]
    -- the outputs of a marked call are chosen by its role
    cases token <;> rfl
  | declared d hknown hmarked hdeclared => simp only [classify, hknown, hmarked, hdeclared]
  | unknown hknown hmarked hdeclared => simp only [classify, hknown, hmarked, hdeclared]

/-- Some rule applies to every target. -/
theorem exists_rule (c : Classifier) (identifier : String) : ∃ info, c.Rule identifier info := by
  cases hknown : c.known.get? (Identifier.normalize identifier) with
  | some f => exact ⟨_, .entry f hknown⟩
  | none =>
    cases hmarked : markedToken? (Identifier.normalize identifier) with
    | some token => exact ⟨_, .marker token hknown hmarked⟩
    | none =>
      cases hdeclared : c.declarations.resolve? identifier with
      | some d => exact ⟨_, .declared d hknown hmarked hdeclared⟩
      | none => exact ⟨_, .unknown hknown hmarked hdeclared⟩

end Classifier

/-! ## §3 Recognised calls -/

namespace CallInfo

variable (mode : Mode) (token : Token) (consumers outputs : FiniteSet Position)
variable (provenance : Provenance) (slot : Option UInt64)

theorem token_recognised :
    (recognised mode token consumers outputs provenance slot).token = token := by
  cases slot <;> rfl

theorem provenance_recognised :
    (recognised mode token consumers outputs provenance slot).provenance = provenance := by
  cases slot <;> rfl

theorem isFactory_recognised :
    (recognised mode token consumers outputs provenance slot).isFactory =
      (production mode token outputs).1 := by
  cases slot <;> rfl

/-- An output slot moves consumed positions, whatever is produced. -/
theorem consumers_recognised (mode' : Mode) :
    (recognised mode token consumers outputs provenance slot).consumers =
      (recognised mode' token consumers outputs provenance slot).consumers := by
  cases slot <;> rfl

end CallInfo

namespace Classifier

variable {c : Classifier} {identifier identifier' : String}

/-- Targets with one normal form are recognised as the same. -/
theorem recognised_alike (h : Identifier.normalize identifier = Identifier.normalize identifier')
    (mode : Mode) (hrecognised : (c.classify mode identifier).provenance.isRecognised = true) :
    (c.classify mode identifier').token = (c.classify mode identifier).token ∧
      (c.classify mode identifier').provenance = (c.classify mode identifier).provenance := by
  obtain ⟨info, hrule⟩ := c.exists_rule identifier
  rw [hrule.classify_eq] at hrecognised ⊢
  -- the rules for recognised calls look at the normal form only
  cases hrule with
  | entry f hknown =>
    have hrule' : c.Rule identifier' _ := .entry f (h ▸ hknown)
    rw [hrule'.classify_eq]
    simp only [CallInfo.token_recognised, CallInfo.provenance_recognised, and_self]
  | marker token hknown hmarked =>
    have hrule' : c.Rule identifier' _ := .marker token (h ▸ hknown) (h ▸ hmarked)
    rw [hrule'.classify_eq]
    simp only [CallInfo.token_recognised, CallInfo.provenance_recognised, and_self]
  | declared d hknown hmarked hdeclared => cases hrecognised
  | unknown hknown hmarked hdeclared => cases hrecognised

end Classifier

end Typestate
