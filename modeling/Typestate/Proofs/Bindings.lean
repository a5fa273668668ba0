import Typestate.FiniteMap

/-!
# Bindings and look-ups

A finite map can be read in two ways: as its list of bindings and as the partial function `get?`.
The two agree, so a fold over the bindings of a map can be described by look-ups alone.

## Contents

- §1 Listed bindings are the ones that look-up finds
- §2 Merging, and maps built from lists, seen through look-up
- §3 Sets: membership after insertion, and the listed members
-/

namespace Typestate

namespace FiniteMap

variable {κ α : Type} [Ord κ] [Std.LawfulEqOrd κ]

/-! ## §1 Listed bindings -/

/-- In an ascending list every binding is the one that look-up finds for its key. -/
theorem find_eq_some_iff {entries : List (κ × α)} (h : Ascending entries) {k : κ} {v : α} :
    find k entries = some v ↔ (k, v) ∈ entries := by
  induction entries with
  | nil => simp [find]
  | cons e rest ih =>
    obtain ⟨l, w⟩ := e
    have hrest := (List.pairwise_cons.1 h).1
    have hasc : Ascending rest := List.Pairwise.of_cons h
    by_cases hk : k = l
    · subst hk
      -- the key stands at the front, so it cannot stand behind it as well
      have hnot : (k, v) ∉ rest := by
        intro hm
        have hlt := hrest (k, v) hm
        simp at hlt
      simp [find, hnot, eq_comm]
    · have hne : compare k l ≠ .eq := fun e => hk (Std.compare_eq_iff_eq.1 e)
      simp [find, hne, hk, ih hasc]

theorem mem_toList_iff {m : FiniteMap κ α} {k : κ} {v : α} :
    (k, v) ∈ m.toList ↔ m.get? k = some v :=
  (find_eq_some_iff m.ascending).symm

/-- A filtered map has the bindings that are kept. -/
theorem get?_filter_eq_some_iff {keep : κ → α → Bool} {m : FiniteMap κ α} {k : κ} {v : α} :
    (m.filter keep).get? k = some v ↔ m.get? k = some v ∧ keep k v = true := by
  rw [← mem_toList_iff, ← mem_toList_iff]
  exact List.mem_filter

omit [Std.LawfulEqOrd κ] in
theorem isEmpty_eq_true_iff {m : FiniteMap κ α} : m.isEmpty = true ↔ m.toList = [] :=
  List.isEmpty_iff

/-- Writing a binding never leaves a map empty. -/
theorem isEmpty_insert [Std.TransOrd κ] [DecidableEq κ] (m : FiniteMap κ α) (k : κ) (v : α) :
    (m.insert k v).isEmpty = false := by
  have hmem : (k, v) ∈ (m.insert k v).toList := mem_toList_iff.2 (by simp)
  exact List.isEmpty_eq_false_iff.2 (List.ne_nil_of_mem hmem)

/-- Dropping keys drops exactly their look-ups. -/
theorem get?_filter_keys (keep : κ → Bool) (m : FiniteMap κ α) (k : κ) :
    (m.filter fun k _ => keep k).get? k = if keep k then m.get? k else none := by
  apply Option.ext
  intro v
  rw [get?_filter_eq_some_iff]
  by_cases h : keep k = true <;> simp [h]

theorem mem_keys_iff {m : FiniteMap κ α} {k : κ} : k ∈ m.keys ↔ ∃ v, m.get? k = some v := by
  simp only [keys, List.mem_map, Prod.exists, exists_and_right, exists_eq_right]
  exact exists_congr fun v => mem_toList_iff

/-- A change at one key adds at most that key. -/
theorem mem_keys_alter [Std.TransOrd κ] [DecidableEq κ] {m : FiniteMap κ α} {key k : κ}
    {f : Option α → α} : k ∈ (m.alter key f).keys ↔ k = key ∨ k ∈ m.keys := by
  rw [mem_keys_iff, mem_keys_iff, get?_alter]
  by_cases h : k = key <;> simp [h]

theorem mem_values_iff {m : FiniteMap κ α} {v : α} : v ∈ m.values ↔ ∃ k, m.get? k = some v := by
  simp only [values, List.mem_map, Prod.exists, exists_eq_right]
  exact exists_congr fun k => mem_toList_iff

/-! ## §2 Merging -/

variable [Std.TransOrd κ] [DecidableEq κ]

/-- Combining in an ascending list meets each key once, so look-ups are merged. -/
theorem get?_foldl_combine (combine : α → α → α) {entries : List (κ × α)} (h : Ascending entries)
    (a : FiniteMap κ α) (k : κ) :
    (entries.foldl
      (fun m e => m.alter e.1 (fun | none => e.2 | some old => combine old e.2)) a).get? k =
      (a.get? k).merge combine (find k entries) := by
  induction entries generalizing a with
  | nil => simp [find]
  | cons e rest ih =>
    obtain ⟨l, w⟩ := e
    have hrest := (List.pairwise_cons.1 h).1
    have hasc : Ascending rest := List.Pairwise.of_cons h
    rw [List.foldl_cons, ih hasc, get?_alter]
    by_cases hk : k = l
    · -- what was combined at the front is final: all later keys are above it
      subst hk
      rw [find_eq_none_of_lt hrest]
      cases ha : a.get? k <;> simp [find]
    · have hne : compare k l ≠ .eq := fun e => hk (Std.compare_eq_iff_eq.1 e)
      simp [find, hne, hk]

@[simp]
theorem get?_mergeWith (combine : α → α → α) (a b : FiniteMap κ α) (k : κ) :
    (mergeWith combine a b).get? k = (a.get? k).merge combine (b.get? k) :=
  get?_foldl_combine combine b.ascending a k

/-- Inserting bindings whose keys all differ from `k` does not change what `k` is bound to. -/
theorem get?_foldl_insert_of_notMem {bindings : List (κ × α)} (a : FiniteMap κ α) {k : κ}
    (h : ∀ v, (k, v) ∉ bindings) :
    (bindings.foldl (fun m b => m.insert b.1 b.2) a).get? k = a.get? k := by
  induction bindings generalizing a with
  | nil => rfl
  | cons b rest ih =>
    -- the first binding is not of this key, and neither is a later one
    have hk : k ≠ b.1 := by
      rintro rfl
      exact h b.2 (List.mem_cons_self ..)
    rw [List.foldl_cons, ih _ (fun v hv => h v (List.mem_cons_of_mem _ hv)), get?_insert, if_neg hk]

/-- Inserting bindings among which `k` has only the value `v` binds `k` to `v`. -/
theorem get?_foldl_insert_of_mem {bindings : List (κ × α)} (a : FiniteMap κ α) {k : κ} {v : α}
    (hv : (k, v) ∈ bindings) (huniq : ∀ w, (k, w) ∈ bindings → w = v) :
    (bindings.foldl (fun m b => m.insert b.1 b.2) a).get? k = some v := by
  induction bindings generalizing a with
  | nil => simp at hv
  | cons b rest ih =>
    rw [List.foldl_cons]
    by_cases hrest : (k, v) ∈ rest
    · exact ih _ hrest (fun w hw => huniq w (List.mem_cons_of_mem _ hw))
    · -- the binding stands at the front, and nothing behind it rebinds the key
      have hb : b = (k, v) := by
        rcases List.mem_cons.1 hv with hv | hv
        · exact hv.symm
        · exact absurd hv hrest
      subst hb
      have hnone : ∀ w, (k, w) ∉ rest := by
        intro w hw
        have := huniq w (List.mem_cons_of_mem _ hw)
        subst this
        exact hrest hw
      rw [get?_foldl_insert_of_notMem _ hnone, get?_insert, if_pos rfl]

/-- A map built from bindings binds a key as they do, when they agree on its value. -/
theorem get?_ofList {bindings : List (κ × α)} {k : κ} {o : Option α}
    (h : ∀ v, (k, v) ∈ bindings ↔ o = some v) : (ofList bindings).get? k = o := by
  unfold ofList
  cases o with
  | none =>
    have hnone : ∀ v, (k, v) ∉ bindings := fun v hv => nomatch (h v).1 hv
    exact get?_foldl_insert_of_notMem .empty hnone
  | some v =>
    have huniq : ∀ w, (k, w) ∈ bindings → w = v := fun w hw => (Option.some.inj ((h w).1 hw)).symm
    exact get?_foldl_insert_of_mem .empty ((h v).2 rfl) huniq

/-- A map is the one that is built from its own bindings. -/
theorem ofList_toList (m : FiniteMap κ α) : ofList m.toList = m :=
  ext_get? fun _ => get?_ofList fun _ => mem_toList_iff

omit [Std.LawfulEqOrd κ] [Std.TransOrd κ] [DecidableEq κ] in
theorem eq_empty_of_isEmpty {m : FiniteMap κ α} (h : m.isEmpty = true) : m = .empty := by
  obtain ⟨entries, ascending⟩ := m
  cases List.isEmpty_iff.1 h
  rfl

end FiniteMap

/-! ## §3 Sets -/

namespace FiniteSet

variable {κ : Type} [Ord κ] [Std.LawfulEqOrd κ]

theorem mem_toList_iff {s : FiniteSet κ} {k : κ} : k ∈ toList s ↔ s.contains k = true := by
  rw [toList, FiniteMap.mem_keys_iff, FiniteMap.contains, Option.isSome_iff_exists]

/-- Insertion adds its key and no other. -/
theorem contains_insert [Std.TransOrd κ] [DecidableEq κ] (s : FiniteSet κ) (key k : κ) :
    (insert s key).contains k = true ↔ k = key ∨ s.contains k = true := by
  by_cases hk : k = key <;> simp [insert, FiniteMap.contains, hk]

theorem contains_foldl_insert [Std.TransOrd κ] [DecidableEq κ] (members : List κ) (s : FiniteSet κ)
    (k : κ) : (members.foldl insert s).contains k = true ↔ k ∈ members ∨ s.contains k = true := by
  induction members generalizing s with
  | nil => simp
  | cons key members ih =>
    rw [List.foldl_cons, ih, contains_insert, List.mem_cons]
    -- the first member was put in before the others
    constructor
    · rintro (h | h | h)
      · exact Or.inl (Or.inr h)
      · exact Or.inl (Or.inl h)
      · exact Or.inr h
    · rintro ((h | h) | h)
      · exact Or.inr (Or.inl h)
      · exact Or.inl h
      · exact Or.inr (Or.inr h)

/-- The set of a list has its members. -/
theorem contains_ofList [Std.TransOrd κ] [DecidableEq κ] (members : List κ) (k : κ) :
    (ofList members).contains k = true ↔ k ∈ members := by
  unfold ofList
  rw [contains_foldl_insert]
  simp [empty, FiniteMap.contains]

/-- Sets with the same members are equal. -/
theorem ext_contains [Std.TransOrd κ] {s s' : FiniteSet κ}
    (h : ∀ k, s.contains k = true ↔ s'.contains k = true) : s = s' := by
  apply FiniteMap.ext_get?
  intro k
  have hk : (s.get? k).isSome = true ↔ (s'.get? k).isSome = true := h k
  -- the values bound are all the same, so presence decides
  cases hs : s.get? k <;> cases hs' : s'.get? k <;> simp [hs, hs'] at hk ⊢

theorem isEmpty_eq_false_iff (s : FiniteSet κ) :
    s.isEmpty = false ↔ ∃ k, s.contains k = true := by
  simp only [← mem_toList_iff, FiniteMap.isEmpty, List.isEmpty_eq_false_iff_exists_mem, toList,
    FiniteMap.keys, List.mem_map]
  constructor
  · rintro ⟨e, he⟩
    exact ⟨e.1, e, he, rfl⟩
  · rintro ⟨-, e, he, -⟩
    exact ⟨e, he⟩

theorem isEmpty_ofList [Std.TransOrd κ] [DecidableEq κ] (members : List κ) :
    (ofList members).isEmpty = members.isEmpty := by
  cases members with
  | nil => rfl
  | cons key rest =>
    have hkey : (ofList (key :: rest)).contains key = true :=
      (contains_ofList _ key).2 (List.mem_cons_self ..)
    exact (isEmpty_eq_false_iff _).2 ⟨key, hkey⟩

/-- The image of a set has the images of its members. -/
theorem contains_map {ι : Type} [Ord ι] [Std.TransOrd ι] [Std.LawfulEqOrd ι] [DecidableEq ι]
    (f : κ → ι) (s : FiniteSet κ) (j : ι) :
    (map f s).contains j = true ↔ ∃ k, s.contains k = true ∧ f k = j := by
  simp only [map, contains_ofList, List.mem_map, mem_toList_iff]

theorem any_eq_true_iff (p : κ → Bool) (s : FiniteSet κ) :
    any p s = true ↔ ∃ k, s.contains k = true ∧ p k = true := by
  simp [any, mem_toList_iff]

theorem all_eq_true_iff (p : κ → Bool) (s : FiniteSet κ) :
    all p s = true ↔ ∀ k, s.contains k = true → p k = true := by
  simp [all, mem_toList_iff]

end FiniteSet

end Typestate
