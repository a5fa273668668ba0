/-!
# Finite maps and finite sets in canonical form

A finite map is the list of its bindings in strictly ascending key order. Every finite partial
function therefore has exactly one representation, so structural equality *is* equality of maps,
listing the bindings is listing them in key order, and "did this update change anything" can be
answered by comparing the map before with the map after.

## Contents

- §1 `FiniteMap`: look-up, update at one key, restriction
- §2 The look-up view: what every operation does to `get?`
- §3 Extensionality: two maps with the same look-up are the same map
- §4 `FiniteSet`: the maps that bind each member to the unit value
-/

namespace Typestate

/-! ## §1 Maps -/

/-- The key of every binding in `entries` comes strictly after the key of each binding before it. -/
def Ascending {κ : Type} {α : Type} [Ord κ] (entries : List (κ × α)) : Prop :=
  entries.Pairwise (fun a b => compare a.1 b.1 = .lt)

/-- A finite partial function from `κ` to `α`, as its bindings in ascending key order. -/
structure FiniteMap (κ : Type) (α : Type) [Ord κ] where
  /-- The bindings. -/
  entries : List (κ × α)
  /-- Keys ascend strictly, which also rules out repeated keys. -/
  ascending : Ascending entries

namespace FiniteMap

variable {κ α β : Type} [Ord κ]

instance [DecidableEq κ] [DecidableEq α] : DecidableEq (FiniteMap κ α) := fun a b =>
  if h : a.entries = b.entries then
    isTrue (by cases a; cases b; cases h; rfl)
  else
    isFalse (fun e => h (e ▸ rfl))

/-- The map without bindings. -/
def empty : FiniteMap κ α := ⟨[], List.Pairwise.nil⟩

instance : EmptyCollection (FiniteMap κ α) := ⟨empty⟩

instance : Inhabited (FiniteMap κ α) := ⟨empty⟩

/-- The value bound to `key` in a list of bindings. -/
def find (key : κ) : List (κ × α) → Option α
  | [] => none
  | (k, v) :: rest => if compare key k = .eq then some v else find key rest

/-- The value bound to `key`, if any. -/
def get? (m : FiniteMap κ α) (key : κ) : Option α := find key m.entries

/-- Whether `key` is bound. -/
def contains (m : FiniteMap κ α) (key : κ) : Bool := (m.get? key).isSome

/-- The bindings in ascending key order. -/
def toList (m : FiniteMap κ α) : List (κ × α) := m.entries

/-- The bound keys in ascending order. -/
def keys (m : FiniteMap κ α) : List κ := m.entries.map (·.1)

/-- The bound values in ascending order of their keys. -/
def values (m : FiniteMap κ α) : List α := m.entries.map (·.2)

/-- The number of bindings. -/
def size (m : FiniteMap κ α) : Nat := m.entries.length

/-- Whether there is no binding. -/
def isEmpty (m : FiniteMap κ α) : Bool := m.entries.isEmpty

/-- Rebinds `key` in an ascending list: the new value is `f` of the value found there, if any. -/
def place (key : κ) (f : Option α → α) : List (κ × α) → List (κ × α)
  | [] => [(key, f none)]
  | (k, v) :: rest =>
    match compare key k with
    | .lt => (key, f none) :: (k, v) :: rest
    | .eq => (k, f (some v)) :: rest
    | .gt => (k, v) :: place key f rest

/-- A binding after `place` has the placed key or a key that was there before. -/
theorem mem_place {key : κ} {f : Option α → α} {entries : List (κ × α)} {b : κ × α}
    (h : b ∈ place key f entries) : b.1 = key ∨ b.1 ∈ entries.map (·.1) := by
  induction entries with
  | nil =>
    simp only [place, List.mem_singleton] at h
    exact Or.inl (by rw [h])
  | cons e rest ih =>
    obtain ⟨k, v⟩ := e
    simp only [place] at h
    split at h
    · rcases List.mem_cons.1 h with h | h
      · exact Or.inl (by rw [h])
      · exact Or.inr (List.mem_map_of_mem h)
    · rcases List.mem_cons.1 h with h | h
      · exact Or.inr (by simp [h])
      · exact Or.inr (by simpa using Or.inr ⟨b.2, h⟩)
    · rcases List.mem_cons.1 h with h | h
      · exact Or.inr (by simp [h])
      · rcases ih h with h | h
        · exact Or.inl h
        · exact Or.inr (List.mem_cons_of_mem _ h)

/-- Placing a key keeps the bindings in ascending order. -/
theorem ascending_place [Std.TransOrd κ] {key : κ} {f : Option α → α} {entries : List (κ × α)}
    (h : Ascending entries) : Ascending (place key f entries) := by
  induction entries with
  | nil => exact List.pairwise_singleton _ _
  | cons e rest ih =>
    obtain ⟨k, v⟩ := e
    have hrest := (List.pairwise_cons.1 h).1
    have hasc : Ascending rest := List.Pairwise.of_cons h
    simp only [place]
    split
    · next hlt =>
      refine List.Pairwise.cons ?_ h
      intro b hb
      rcases List.mem_cons.1 hb with rfl | hb
      · exact hlt
      · exact Std.TransCmp.lt_trans hlt (hrest b hb)
    · exact List.Pairwise.cons hrest hasc
    · next hgt =>
      refine List.Pairwise.cons ?_ (ih hasc)
      intro b hb
      rcases mem_place hb with hk | hk
      · show compare k b.1 = .lt
        rw [hk]
        exact Std.OrientedCmp.gt_iff_lt.1 hgt
      · obtain ⟨c, hc, hcb⟩ := List.mem_map.1 hk
        show compare k b.1 = .lt
        rw [← hcb]
        exact hrest c hc

/-- The map with `key` bound to `f` of its old value; `f none` when it was unbound. -/
def alter [Std.TransOrd κ] (m : FiniteMap κ α) (key : κ) (f : Option α → α) : FiniteMap κ α :=
  ⟨place key f m.entries, ascending_place m.ascending⟩

/-- The map with `key` bound to `value`. -/
def insert [Std.TransOrd κ] (m : FiniteMap κ α) (key : κ) (value : α) : FiniteMap κ α :=
  m.alter key (fun _ => value)

/-- The map of the given bindings; a later binding of a key replaces an earlier one. -/
def ofList [Std.TransOrd κ] (bindings : List (κ × α)) : FiniteMap κ α :=
  bindings.foldl (fun m b => m.insert b.1 b.2) empty

/-- The bindings that satisfy `keep`. -/
def filter (keep : κ → α → Bool) (m : FiniteMap κ α) : FiniteMap κ α :=
  ⟨m.entries.filter (fun b => keep b.1 b.2), List.Pairwise.filter _ m.ascending⟩

/-- The bindings of `b` combined into `a`: at a key bound in both, `combine old new`. -/
def mergeWith [Std.TransOrd κ] (combine : α → α → α) (a b : FiniteMap κ α) : FiniteMap κ α :=
  b.entries.foldl (fun m e => m.alter e.1 (fun | none => e.2 | some old => combine old e.2)) a

/-! ## §2 The look-up view -/

@[simp]
theorem get?_empty (key : κ) : (empty : FiniteMap κ α).get? key = none := rfl

/-- A key below every bound key is unbound. -/
theorem find_eq_none_of_lt {k : κ} {entries : List (κ × α)}
    (h : ∀ b ∈ entries, compare k b.1 = .lt) : find k entries = none := by
  induction entries with
  | nil => rfl
  | cons b l ih =>
    have hb := h b (List.mem_cons_self ..)
    simp [find, hb, ih (fun c hc => h c (List.mem_cons_of_mem _ hc))]

/-- What placing `key` does to the look-up of `k`. -/
theorem find_place [Std.TransOrd κ] [Std.LawfulEqOrd κ] [DecidableEq κ] (key k : κ) (f : Option α → α)
    {entries : List (κ × α)} (h : Ascending entries) :
    find k (place key f entries) = if k = key then some (f (find key entries)) else find k entries := by
  induction entries with
  | nil => by_cases hk : k = key <;> simp [place, find, hk]
  | cons e rest ih =>
    obtain ⟨k', v⟩ := e
    have hrest := (List.pairwise_cons.1 h).1
    have hasc : Ascending rest := List.Pairwise.of_cons h
    simp only [place]
    split
    · next hlt =>
      -- the new key is below every old one, so it was unbound
      have hall : ∀ b ∈ (k', v) :: rest, compare key b.1 = .lt := by
        intro b hb
        rcases List.mem_cons.1 hb with rfl | hb
        · exact hlt
        · exact Std.TransCmp.lt_trans hlt (hrest b hb)
      rw [find_eq_none_of_lt hall]
      by_cases hk : k = key <;> simp [find, hk]
    · next heq =>
      have hkk : key = k' := Std.compare_eq_iff_eq.1 heq
      subst hkk
      by_cases hk : k = key <;> simp [find, hk]
    · next hgt =>
      have hne : key ≠ k' := by
        intro e
        rw [e, Std.compare_self] at hgt
        cases hgt
      by_cases hk : k = k'
      · subst hk
        have hne' : k ≠ key := fun e => hne e.symm
        simp [find, hne']
      · have h1 : compare k k' ≠ .eq := fun e => hk (Std.compare_eq_iff_eq.1 e)
        have h2 : compare key k' ≠ .eq := fun e => hne (Std.compare_eq_iff_eq.1 e)
        simp only [find, h1, h2, if_false]
        exact ih hasc

@[simp]
theorem get?_alter [Std.TransOrd κ] [Std.LawfulEqOrd κ] [DecidableEq κ] (m : FiniteMap κ α)
    (key k : κ) (f : Option α → α) :
    (m.alter key f).get? k = if k = key then some (f (m.get? key)) else m.get? k := by
  unfold get? alter
  rw [find_place key k f m.ascending]

@[simp]
theorem get?_insert [Std.TransOrd κ] [Std.LawfulEqOrd κ] [DecidableEq κ] (m : FiniteMap κ α)
    (key k : κ) (value : α) :
    (m.insert key value).get? k = if k = key then some value else m.get? k :=
  get?_alter m key k _

/-! ## §3 Extensionality -/

/-- Ascending lists of bindings with the same look-up are the same list. -/
theorem entries_eq_of_find_eq [Std.TransOrd κ] [Std.LawfulEqOrd κ] :
    ∀ {a b : List (κ × α)}, Ascending a → Ascending b → (∀ k, find k a = find k b) → a = b
  | [], [], _, _, _ => rfl
  | [], (k, v) :: _, _, _, h => by simpa [find] using h k
  | (k, v) :: _, [], _, _, h => by simpa [find] using h k
  | (k, v) :: as, (l, w) :: bs, ha, hb, h => by
    have hka := (List.pairwise_cons.1 ha).1
    have hlb := (List.pairwise_cons.1 hb).1
    -- the two least keys agree: the smaller one would be unbound on the other side
    have hkl : k = l := by
      cases hc : compare k l with
      | eq => exact Std.compare_eq_iff_eq.1 hc
      | lt =>
        have hn : find k ((l, w) :: bs) = none := find_eq_none_of_lt (by
          intro b hm
          rcases List.mem_cons.1 hm with rfl | hm
          · exact hc
          · exact Std.TransCmp.lt_trans hc (hlb b hm))
        have := h k
        rw [hn] at this
        simp [find] at this
      | gt =>
        have hc' : compare l k = .lt := Std.OrientedCmp.gt_iff_lt.1 hc
        have hn : find l ((k, v) :: as) = none := find_eq_none_of_lt (by
          intro b hm
          rcases List.mem_cons.1 hm with rfl | hm
          · exact hc'
          · exact Std.TransCmp.lt_trans hc' (hka b hm))
        have := h l
        rw [hn] at this
        simp [find] at this
    subst hkl
    have hvw : v = w := by simpa [find] using h k
    subst hvw
    have htail : as = bs := by
      refine entries_eq_of_find_eq (List.Pairwise.of_cons ha) (List.Pairwise.of_cons hb) ?_
      intro j
      by_cases hj : j = k
      · subst hj
        rw [find_eq_none_of_lt hka, find_eq_none_of_lt hlb]
      · have hne : compare j k ≠ .eq := fun e => hj (Std.compare_eq_iff_eq.1 e)
        simpa [find, hne] using h j
    rw [htail]

/-- **Canonical form.** Two maps with the same look-up are equal as structures. -/
theorem ext_get? [Std.TransOrd κ] [Std.LawfulEqOrd κ] {a b : FiniteMap κ α}
    (h : ∀ k, a.get? k = b.get? k) : a = b := by
  have := entries_eq_of_find_eq a.ascending b.ascending h
  cases a
  cases b
  cases this
  rfl

end FiniteMap

/-! ## §4 Sets -/

/-- A finite set, as the map that binds each member to the unit value. -/
abbrev FiniteSet (κ : Type) [Ord κ] := FiniteMap κ Unit

namespace FiniteSet

variable {κ : Type} [Ord κ]

/-- The set without members. -/
def empty : FiniteSet κ := FiniteMap.empty

/-- The members in ascending order. -/
def toList (s : FiniteSet κ) : List κ := FiniteMap.keys s

/-- The set with `key` as a member. -/
def insert [Std.TransOrd κ] (s : FiniteSet κ) (key : κ) : FiniteSet κ := FiniteMap.insert s key ()

/-- The set of the listed members. -/
def ofList [Std.TransOrd κ] (members : List κ) : FiniteSet κ := members.foldl insert empty

/-- The members of either set. -/
def union [Std.TransOrd κ] (a b : FiniteSet κ) : FiniteSet κ := (toList b).foldl insert a

/-- Whether some member satisfies `p`. -/
def any (p : κ → Bool) (s : FiniteSet κ) : Bool := (toList s).any p

/-- Whether every member satisfies `p`. -/
def all (p : κ → Bool) (s : FiniteSet κ) : Bool := (toList s).all p

/-- The images of the members. -/
def map {ι : Type} [Ord ι] [Std.TransOrd ι] (f : κ → ι) (s : FiniteSet κ) : FiniteSet ι :=
  ofList ((toList s).map f)

end FiniteSet

end Typestate
