import Typestate.Proofs.Spelling

/-!
# Entries that are named by a normal form

An entry is kept under the normal form of its name, and a target is looked up by its own normal form.
An entry whose name is the normal form of a target is therefore found for this target only if that
normal form is its own normal form. It need not be: the three passes look for something once each and
in turn, and what one of them takes away can leave something in front of the next blank, hash or
bracket that an earlier pass would have taken.

## Contents

- §1 What the passes expose
- §2 The names of a spelling
- §3 Configured entries
- §4 An entry under the normal form of a target
-/

namespace Typestate

/-! ## §1 Exposed paths -/

namespace Text

theorem head_trim {cs : List Char} {c : Char} (h : (trim cs).head? = some c) : isBlank c = false := by
  obtain ⟨rest, hrest⟩ := prefix_trimEnd (cs.dropWhile isBlank)
  have hhead : (cs.dropWhile isBlank).head? = some c := by
    rw [← hrest, List.head?_append]
    exact Option.or_eq_some_iff.2 (Or.inl h)
  have hnot := List.head?_dropWhile_not isBlank cs
  rwa [hhead] at hnot

end Text

namespace Identifier

/-- Something that a pass takes off is still there. -/
inductive Exposed (path : List Char) : Prop where
  | blank (c : Char) : path.getLast? = some c → Text.isBlank c = true → Exposed path
  | hash : EndsInHash path → Exposed path
  | bracket (c : Char) : isNameCharacter c = true → [c, '<'] <:+: path → Exposed path

theorem head?_dropGenerics (path : List Char) : (dropGenerics 0 none path).head? = path.head? := by
  cases path with
  | nil => rfl
  | cons c rest =>
    rw [dropGenerics_cons_of_not_opens not_opens_none]
    rfl

/-- Nothing blank is ever exposed at the front. -/
theorem head_normalizeChars {path : List Char} {c : Char}
    (h : (normalizeChars path).head? = some c) : Text.isBlank c = false := by
  rw [normalizeChars, head?_dropGenerics] at h
  obtain ⟨rest, hrest⟩ := prefix_dropHash (Text.trim path)
  have hhead : (Text.trim path).head? = some c := by
    rw [← hrest, List.head?_append]
    exact Option.or_eq_some_iff.2 (Or.inl h)
  exact Text.head_trim hhead

theorem settled_normalizeChars_iff {path : List Char} :
    Settled (normalizeChars path) ↔ ¬ Exposed (normalizeChars path) := by
  constructor
  · intro h hexposed
    -- each way to be exposed contradicts one field
    cases hexposed with
    | blank c hlast hblank => exact Bool.false_ne_true ((h.trimmed.last c hlast).symm.trans hblank)
    | hash hhash => exact h.unhashed hhash
    | bracket c hc hbracket => exact h.plain c hc hbracket
  · intro h
    exact
      { trimmed := ⟨fun c => head_normalizeChars,
          fun c hlast => Bool.eq_false_iff.2 fun hblank => h (.blank c hlast hblank)⟩
        unhashed := fun hhash => h (.hash hhash)
        plain := fun c hc hbracket => h (.bracket c hc hbracket) }

/-- A normal form is its own exactly if the passes have exposed nothing. -/
theorem normalize_normalize_eq_iff {path : String} :
    normalize (normalize path) = normalize path ↔ ¬ Exposed (normalize path).toList := by
  simp only [normalize, String.toList_ofList, String.ofList_inj, normalizeChars_eq_self_iff,
    settled_normalizeChars_iff]

/-! ## §2 Spellings -/

namespace Spelling

variable (s : Spelling)

theorem getLast?_names : ∃ c, (joined s.names).getLast? = some c ∧ isNameCharacter c = true := by
  obtain ⟨c, hlast, hc⟩ := s.last.exists_getLast?_name
  exact ⟨c, by rw [joined_names, List.getLast?_append, hlast, Option.some_or], hc⟩

theorem ne_open_of_mem_names {c : Char} (h : c ∈ joined s.names) : c ≠ '<' := by
  rw [joined_names, led, List.mem_append, List.mem_flatMap] at h
  rcases h with ⟨part, hpart, hmem⟩ | hlast
  · obtain ⟨t, -, rfl⟩ := List.mem_map.1 hpart
    rcases List.mem_append.1 hmem with hmem | hmem
    · exact t.ne_open_of_mem c hmem
    · exact ne_open_of_mem_separator c hmem
  · exact s.last.ne_open_of_mem c hlast

/-- A row of names exposes a hash if its last name looks like one, and nothing else. -/
theorem exposed_names_iff :
    Exposed (joined s.names) ↔ s.front ≠ [] ∧ HashLike s.last.name := by
  have hhash : EndsInHash (joined s.names) ↔ s.front ≠ [] ∧ HashLike s.last.name := by
    rw [joined_names, endsInHash_led_iff s.last.ne_colon_of_mem, Ne, List.map_eq_nil_iff]
  refine ⟨fun h => ?_, fun h => .hash (hhash.2 h)⟩
  -- names begin and end with name characters and have no brackets left
  cases h with
  | blank c hlast hblank =>
    obtain ⟨d, hd, hname⟩ := s.getLast?_names
    cases hd.symm.trans hlast
    rw [isBlank_of_isNameCharacter hname] at hblank
    cases hblank
  | hash h => exact hhash.1 h
  | bracket c hc hbracket =>
    have hopen : '<' ∈ joined s.names := hbracket.subset (by simp)
    exact absurd rfl (s.ne_open_of_mem_names hopen)

end Spelling

end Identifier

/-! ## §3 Configured entries -/

namespace KnownTable

theorem get?_add (t : KnownTable) (f : KnownFunction) (key : String) :
    (t.add f).get? key =
      if key = Identifier.normalize f.name then some { f with name := key } else t.get? key := by
  unfold add get?
  rw [FiniteMap.get?_insert]
  split
  · next h => rw [h]
  · rfl

/-- The last of the added entries counts that is kept under the key. -/
theorem get?_addAll (t : KnownTable) (fs : List KnownFunction) (key : String) :
    (t.addAll fs).get? key =
      ((fs.filter fun f => Identifier.normalize f.name = key).getLast?.map
        fun f => { f with name := key }).or (t.get? key) := by
  induction fs generalizing t with
  | nil => rfl
  | cons f fs ih =>
    have hstep : t.addAll (f :: fs) = (t.add f).addAll fs := rfl
    rw [hstep, ih, get?_add]
    by_cases hkey : key = Identifier.normalize f.name
    · -- the first entry counts if no other is kept under the key
      cases hlast : (fs.filter fun g => Identifier.normalize g.name = key).getLast? <;>
        simp [← hkey, List.getLast?_cons, hlast]
    · simp [hkey, Ne.symm hkey]

variable {t : KnownTable} {before after : List KnownFunction} {f : KnownFunction} {key : String}

theorem get?_addAll_of_eq (hname : Identifier.normalize f.name = key)
    (hafter : ∀ g ∈ after, Identifier.normalize g.name ≠ key) :
    (t.addAll (before ++ f :: after)).get? key = some { f with name := key } := by
  have hrest : after.filter (fun g => Identifier.normalize g.name = key) = [] := by
    simpa using hafter
  simp [get?_addAll, hname, hrest]

theorem get?_addAll_of_ne (hname : Identifier.normalize f.name ≠ key) :
    (t.addAll (before ++ f :: after)).get? key = (t.addAll (before ++ after)).get? key := by
  simp [get?_addAll, hname]

end KnownTable

/-! ## §4 The entry and the target -/

namespace Classifier

theorem classify_congr {t t' : KnownTable} {identifier : String}
    (h : t.get? (Identifier.normalize identifier) = t'.get? (Identifier.normalize identifier))
    (d : Declarations) (mode : Mode) :
    classify ⟨t, d⟩ mode identifier = classify ⟨t', d⟩ mode identifier := by
  simp only [classify, h]

end Classifier

namespace Identifier

/-- **An entry that is named by the normal form of a target is found for it exactly if nothing is
exposed in that normal form**; otherwise it is kept under another name, and the target is classified as
if the entry were not there. Among spelled paths, only a last name that looks like a hash is exposed. -/
theorem entry_under_normalForm (target : String) :
    (normalize (normalize target) = normalize target ↔ ¬ Exposed (normalize target).toList) ∧
      (∀ s : Spelling, s.text = target →
        (Exposed (normalize target).toList ↔ s.front ≠ [] ∧ HashLike s.last.name)) ∧
      ∀ (f : KnownFunction) (after : List KnownFunction), f.name = normalize target →
        (∀ g ∈ after, normalize g.name ≠ normalize f.name) →
        ∀ (t : KnownTable) (before : List KnownFunction) (d : Declarations) (mode : Mode),
          (¬ Exposed (normalize target).toList →
            (t.addAll (before ++ f :: after)).get? (normalize target) = some f ∧
              Classifier.classify ⟨t.addAll (before ++ f :: after), d⟩ mode target =
                .recognised mode f.token (FiniteSet.ofList f.consumers) (FiniteSet.ofList f.outputs)
                  .curated (Classifier.slot? ⟨t.addAll (before ++ f :: after), d⟩ target)) ∧
          (Exposed (normalize target).toList →
            Classifier.classify ⟨t.addAll (before ++ f :: after), d⟩ mode target =
              Classifier.classify ⟨t.addAll (before ++ after), d⟩ mode target) := by
  refine ⟨normalize_normalize_eq_iff, ?_, fun f after hname hafter t before d mode => ⟨?_, ?_⟩⟩
  · rintro s rfl
    rw [s.normalize_text, String.toList_ofList]
    exact s.exposed_names_iff
  · intro hplain
    have hkey : normalize f.name = normalize target := by
      rw [hname]
      exact normalize_normalize_eq_iff.2 hplain
    rw [hkey] at hafter
    have hfound : (t.addAll (before ++ f :: after)).get? (normalize target) = some f := by
      rw [KnownTable.get?_addAll_of_eq hkey hafter, ← hname]
    -- an entry comes first among the rules
    have hrule : Classifier.Rule ⟨t.addAll (before ++ f :: after), d⟩ target _ := .entry f hfound
    exact ⟨hfound, hrule.classify_eq mode⟩
  · intro hexposed
    -- the entry is kept under what is left of its name, where the target is not looked for
    have hkey : normalize f.name ≠ normalize target := by
      rw [hname]
      exact fun h => normalize_normalize_eq_iff.1 h hexposed
    exact Classifier.classify_congr (KnownTable.get?_addAll_of_ne hkey) d mode

/-- An entry that overrides the built-in one for `forget`, with another entry behind it. -/
theorem entry_under_normalForm_forget :
    Spelling.genericForget.text = " core::mem::forget<fn(<T as Iterator>::Item) -> Vec<u8>>\n" ∧
      normalize Spelling.genericForget.text = "core::mem::forget" ∧
      ¬ Exposed (normalize Spelling.genericForget.text).toList ∧
      (KnownTable.builtin.addAll
          [⟨"core::mem::forget", .release, [0], []⟩, ⟨"core::mem::take<T>", .access, [0], []⟩]).get?
        (normalize Spelling.genericForget.text) = some ⟨"core::mem::forget", .release, [0], []⟩ := by
  have htext : Spelling.genericForget.text =
    " core::mem::forget<fn(<T as Iterator>::Item) -> Vec<u8>>\n" := by decide +kernel
  have hnormal : normalize Spelling.genericForget.text = "core::mem::forget" := by
    rw [htext]
    decide +kernel
  obtain ⟨-, hexposed, hentry⟩ := entry_under_normalForm Spelling.genericForget.text
  have hplain : ¬ Exposed (normalize Spelling.genericForget.text).toList := by
    rw [hexposed Spelling.genericForget rfl]
    -- the last name does not even begin like a hash
    rintro ⟨-, digits, -, hlike⟩
    have hfirst : some 'f' = some 'h' := congrArg List.head? hlike
    exact absurd hfirst (by decide)
  have hafter : ∀ g ∈ [(⟨"core::mem::take<T>", .access, [0], []⟩ : KnownFunction)],
      normalize g.name ≠ normalize "core::mem::forget" := by decide +kernel
  have hfound := hentry ⟨"core::mem::forget", .release, [0], []⟩ _ hnormal.symm hafter
    KnownTable.builtin [] .empty .consuming
  exact ⟨htext, hnormal, hplain, (hfound.1 hplain).1⟩

/-- The second group of brackets follows no name until the first one is gone. -/
theorem not_found_under_normalForm :
    normalize "free<T><U>" = "free<U>" ∧
      normalize (normalize "free<T><U>") ≠ normalize "free<T><U>" ∧
      (KnownTable.empty.add ⟨"free<U>", .release, [0], []⟩).get? (normalize "free<T><U>") = none ∧
      Classifier.classify ⟨KnownTable.empty.add ⟨"free<U>", .release, [0], []⟩, .empty⟩ .consuming
        "free<T><U>" = .inert .unresolved := by
  decide +kernel

end Identifier

end Typestate
