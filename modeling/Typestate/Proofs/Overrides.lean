import Mathlib.Data.Set.Card
import Typestate.Analysis
import Typestate.Proofs.Lookup

/-!
# Configured entries override in order

Entries are added to a table under the normal forms of their names, so different spellings of a name
fall on one key, and there the last entry of the list stands. The table that comes out is described by
its look-ups: a key holds the last entry listed for it, or else what the base holds. How the list is cut
into additions makes no difference. A target is classified by the configured entry that is last for its
normal form; built-in entries and markers only count where no configured entry does.

## Contents

- §1 The entry that counts for a key
- §2 Keys of an extended table
- §3 Names of the built-in entries
- §4 Configured classification
-/

namespace Typestate

/-! ## §1 The last entry for a key -/

/-- `f` is the last of the listed entries whose name has the normal form `key`. -/
def LastFor (fs : List KnownFunction) (key : String) (f : KnownFunction) : Prop :=
  ∃ before after, fs = before ++ f :: after ∧ Identifier.normalize f.name = key ∧
    ∀ g ∈ after, Identifier.normalize g.name ≠ key

/-- No listed entry has a name with the normal form `key`. -/
def NoneFor (fs : List KnownFunction) (key : String) : Prop :=
  ∀ f ∈ fs, Identifier.normalize f.name ≠ key

/-- There is a last entry for a key unless there is none. -/
theorem exists_lastFor (fs : List KnownFunction) (key : String) :
    (∃ f, LastFor fs key f) ∨ NoneFor fs key := by
  induction fs with
  | nil => exact Or.inr fun f hf => nomatch hf
  | cons g fs ih =>
    rcases ih with ⟨f, before, after, rfl, hname, hafter⟩ | hnone
    · exact Or.inl ⟨f, g :: before, after, rfl, hname, hafter⟩
    · by_cases hg : Identifier.normalize g.name = key
      · exact Or.inl ⟨g, [], fs, rfl, hg, hnone⟩
      · refine Or.inr fun f hf => ?_
        rcases List.mem_cons.1 hf with rfl | hf
        · exact hg
        · exact hnone f hf

namespace KnownTable

variable {t : KnownTable} {fs : List KnownFunction} {key : String} {f : KnownFunction}

theorem get?_addAll_of_lastFor (h : LastFor fs key f) :
    (t.addAll fs).get? key = some { f with name := key } := by
  obtain ⟨before, after, rfl, hname, hafter⟩ := h
  exact get?_addAll_of_eq hname hafter

theorem get?_addAll_of_noneFor (h : NoneFor fs key) : (t.addAll fs).get? key = t.get? key := by
  have hfilter : fs.filter (fun f => Identifier.normalize f.name = key) = [] := by
    simpa [NoneFor] using h
  rw [get?_addAll, hfilter]
  rfl

/-! ## §2 Keys -/

theorem isSome_get?_addAll_iff :
    ((t.addAll fs).get? key).isSome = true ↔
      (t.get? key).isSome = true ∨ ∃ f ∈ fs, Identifier.normalize f.name = key := by
  rcases exists_lastFor fs key with ⟨f, hlast⟩ | hnone
  · rw [get?_addAll_of_lastFor hlast]
    obtain ⟨before, after, rfl, hname, -⟩ := hlast
    exact ⟨fun _ => Or.inr ⟨f, by simp, hname⟩, fun _ => rfl⟩
  · rw [get?_addAll_of_noneFor hnone]
    refine ⟨Or.inl, ?_⟩
    rintro (hbase | ⟨f, hf, hname⟩)
    · exact hbase
    · exact absurd hname (hnone f hf)

/-- The size of a table is the number of its keys. -/
theorem encard_keys (t : KnownTable) : {key | (t.get? key).isSome}.encard = (t.size : ℕ∞) := by
  -- keys ascend, so none is listed twice
  have hnodup : t.entries.keys.Nodup := by
    unfold List.Nodup FiniteMap.keys
    rw [List.pairwise_map]
    refine t.entries.ascending.imp fun {a b} hlt heq => ?_
    rw [heq, Std.compare_self] at hlt
    cases hlt
  have hset : {key | (t.get? key).isSome} = (t.entries.keys.toFinset : Set String) := by
    ext key
    simp only [Set.mem_ofPred_eq, Option.isSome_iff_exists, List.coe_toFinset,
      FiniteMap.mem_keys_iff]
    rfl
  rw [hset, Set.encard_coe_eq_coe_finsetCard, List.toFinset_card_of_nodup hnodup]
  simp [FiniteMap.keys, size, FiniteMap.size]

/-- Additions one after the other are one addition of all their entries. -/
theorem foldl_addAll (parts : List (List KnownFunction)) (t : KnownTable) :
    parts.foldl addAll t = t.addAll parts.flatten := List.foldl_flatten.symm

/-! ## §3 Names -/

/-- Every entry has the key that it is kept under as its name. -/
def Named (t : KnownTable) : Prop := ∀ key f, t.get? key = some f → f.name = key

theorem Named.add (h : t.Named) (f : KnownFunction) : (t.add f).Named := by
  intro key g hg
  rw [get?_add] at hg
  split at hg
  · cases hg
    rfl
  · exact h key g hg

theorem Named.addAll (h : t.Named) (fs : List KnownFunction) : (t.addAll fs).Named :=
  List.foldlRecOn fs KnownTable.add h fun _ ht f _ => ht.add f

theorem named_builtin : builtin.Named := by
  -- the built-in entries are kept under their names as written
  unfold builtin FiniteMap.ofList
  refine List.foldlRecOn (motive := fun m : FiniteMap String KnownFunction => Named ⟨m⟩) _ _
    (fun key f h => by cases h) ?_
  intro m hm b hb key f hf
  obtain ⟨g, -, rfl⟩ := List.mem_map.1 hb
  have hf : (m.insert g.name g).get? key = some f := hf
  rw [FiniteMap.get?_insert] at hf
  split at hf
  · next hkey =>
    cases hf
    exact hkey.symm
  · exact hm key f hf

/-- What the entries `fs` make of a table, by its look-ups. -/
structure ExtendedBy (t : KnownTable) (fs : List KnownFunction) (t' : KnownTable) : Prop where
  /-- The last entry for a key stands under it, with the key as its name. -/
  last : ∀ key f, LastFor fs key f → t'.get? key = some { f with name := key }
  /-- Other keys are left alone. -/
  base : ∀ key, NoneFor fs key → t'.get? key = t.get? key
  keys : ∀ key, (t'.get? key).isSome = true ↔
    (t.get? key).isSome = true ∨ ∃ f ∈ fs, Identifier.normalize f.name = key
  /-- Entries that fall on one key count once. -/
  size : (t'.size : ℕ∞) = {key | (t'.get? key).isSome}.encard

theorem extendedBy_addAll (t : KnownTable) (fs : List KnownFunction) :
    t.ExtendedBy fs (t.addAll fs) where
  last _ _ := get?_addAll_of_lastFor
  base _ := get?_addAll_of_noneFor
  keys _ := isSome_get?_addAll_iff
  size := (encard_keys _).symm

end KnownTable

/-! ## §4 Classification -/

namespace Settings

variable {s : Settings} {identifier : String}

/-- A configured entry decides, whatever is built in and whatever markers there are. -/
theorem classify_of_lastFor {f : KnownFunction}
    (h : LastFor s.known (Identifier.normalize identifier) f) (program : Program) (mode : Mode) :
    (s.classifier program).classify mode identifier =
      .recognised mode f.token (FiniteSet.ofList f.consumers) (FiniteSet.ofList f.outputs) .curated
        ((s.classifier program).slot? identifier) := by
  have hrule : (s.classifier program).Rule identifier _ :=
    .entry _ (KnownTable.get?_addAll_of_lastFor h)
  exact hrule.classify_eq mode

theorem classify_of_noneFor (h : NoneFor s.known (Identifier.normalize identifier))
    (program : Program) (mode : Mode) :
    (s.classifier program).classify mode identifier =
      (default.classifier program).classify mode identifier :=
  Classifier.classify_congr (KnownTable.get?_addAll_of_noneFor h) _ mode

/-- **Configured entries override in order, up to normal forms.** Added to any table they stand under
the normal forms of their names, the last one for each; in one addition or in several. In tables that
grow from the built-in one every entry has its key as its name. And a target of any program is
classified by the last configured entry for its normal form, if there is one, in front of the built-in
entries and of the markers; if there is none, as without configuration. -/
theorem configured_in_order :
    (∀ (t : KnownTable) (fs : List KnownFunction), t.ExtendedBy fs (t.addAll fs)) ∧
      (∀ (t : KnownTable) (parts : List (List KnownFunction)),
        parts.foldl KnownTable.addAll t = t.addAll parts.flatten) ∧
      (∀ fs : List KnownFunction, (KnownTable.builtin.addAll fs).Named) ∧
      ∀ (s : Settings) (program : Program) (mode : Mode) (identifier : String),
        (∀ f, LastFor s.known (Identifier.normalize identifier) f →
          (s.classifier program).classify mode identifier =
            .recognised mode f.token (FiniteSet.ofList f.consumers) (FiniteSet.ofList f.outputs)
              .curated ((s.classifier program).slot? identifier)) ∧
          (NoneFor s.known (Identifier.normalize identifier) →
            (s.classifier program).classify mode identifier =
              (default.classifier program).classify mode identifier) :=
  ⟨KnownTable.extendedBy_addAll, fun t parts => KnownTable.foldl_addAll parts t,
    fun fs => KnownTable.named_builtin.addAll fs,
    fun _ program mode _ => ⟨fun _ h => classify_of_lastFor h program mode,
      fun h => classify_of_noneFor h program mode⟩⟩

/-- Two spellings of a built-in name, and a name with a marker in it. -/
def respelling : Settings :=
  { Settings.default with
    known := [⟨"core::mem::forget<T>", .release, [0], []⟩,
      ⟨" core::mem::forget::h0123456789abcdef", .access, [1, 1], []⟩,
      ⟨"arena::into_raw", .neutral, [], []⟩] }

/-- The second spelling stands in place of the first and of the built-in entry, and the name with a
marker is what its entry says; the three entries have two keys. -/
theorem configured_respelling :
    LastFor respelling.known (Identifier.normalize "core::mem::forget<u8>")
        ⟨" core::mem::forget::h0123456789abcdef", .access, [1, 1], []⟩ ∧
      (respelling.classifier ⟨[], .empty⟩).classify .consuming "core::mem::forget<u8>" =
        ⟨.access, false, .empty, FiniteSet.ofList [1], .curated⟩ ∧
      LastFor respelling.known (Identifier.normalize "arena::into_raw<u8>")
        ⟨"arena::into_raw", .neutral, [], []⟩ ∧
      (respelling.classifier ⟨[], .empty⟩).classify .factory "arena::into_raw<u8>" =
        .inert .curated ∧
      (KnownTable.addAll ⟨.empty⟩ respelling.known).size = 2 := by
  have hforget : LastFor respelling.known (Identifier.normalize "core::mem::forget<u8>")
      ⟨" core::mem::forget::h0123456789abcdef", .access, [1, 1], []⟩ :=
    ⟨[⟨"core::mem::forget<T>", .release, [0], []⟩], [⟨"arena::into_raw", .neutral, [], []⟩], rfl,
      by decide +kernel, by decide +kernel⟩
  have hraw : LastFor respelling.known (Identifier.normalize "arena::into_raw<u8>")
      ⟨"arena::into_raw", .neutral, [], []⟩ :=
    ⟨respelling.known.take 2, [], rfl, by decide +kernel, by simp⟩
  -- both targets have a configured entry for their normal forms
  obtain ⟨-, -, -, hclassify⟩ := configured_in_order
  refine ⟨hforget, ?_, hraw, ?_, by decide +kernel⟩
  · rw [(hclassify respelling ⟨[], .empty⟩ .consuming _).1 _ hforget]
    decide +kernel
  · rw [(hclassify respelling ⟨[], .empty⟩ .factory _).1 _ hraw]
    decide +kernel

end Settings

end Typestate
