import Mathlib.Data.List.Forall2
import Typestate.Proofs.ControlFlow
import Typestate.Proofs.ProgramCodec

/-!
# Forms of a record

A record is written in one way but may be read in many. It is an object, whose members come in any
order, may be joined by members that nobody knows and may lack fields that hold their default; or it
is an array of its fields in their declared order, from whose end fields that hold their default may
be missing. Whatever the form, reading finds in each field what the form shows for it.

The other way round, what reading finds in a field is all that the form has there: no known field
occurs a second time, and a required field is never made up.

## Contents

- §1 `Record`: the forms of a record
- §2 The members of a name
- §3 Reading a record in any form
- §4 Texts, lists and values that may be absent
- §5 What a record that was read looked like
-/

namespace Typestate

namespace Json

/-! ## §1 The forms of a record -/

/-- A field of a record, as it may be written. -/
structure Slot where
  name : String
  /-- The values that stand for what the field holds. -/
  Shows : Json → Prop
  /-- Whether the field holds its default, so that it may be left out. -/
  Omissible : Prop

/-- Members that show the fields of a record in declared order, some of them left out. -/
inductive Kept : List Slot → List (Quoted × Json) → Prop where
  | nil : Kept [] []
  | keep {slot : Slot} {slots : List Slot} {key : Quoted} {v : Json}
      {members : List (Quoted × Json)} :
      key.decode? = some slot.name → slot.Shows v → Kept slots members →
      Kept (slot :: slots) ((key, v) :: members)
  | leave {slot : Slot} {slots : List Slot} {members : List (Quoted × Json)} :
      slot.Omissible → Kept slots members → Kept (slot :: slots) members

/-- Items that show the fields of a record in declared order, some left out at the end. -/
inductive Row : List Slot → List Json → Prop where
  | stop {slots : List Slot} : (∀ slot ∈ slots, slot.Omissible) → Row slots []
  | item {slot : Slot} {slots : List Slot} {v : Json} {items : List Json} :
      slot.Shows v → Row slots items → Row (slot :: slots) (v :: items)

/-- The member has a key, and it is none of the names. -/
def Unknown (names : List String) (m : Quoted × Json) : Prop :=
  ∃ key, m.1.decode? = some key ∧ key ∉ names

/-- The forms of a record. -/
inductive Record (slots : List Slot) : Json → Prop where
  /-- Members that show fields, and others that nobody knows, in any order. -/
  | object {kept unknown members : List (Quoted × Json)} :
      Kept slots kept → (∀ m ∈ unknown, Unknown (slots.map (·.name)) m) →
      members.Perm (kept ++ unknown) → Record slots (.object members)
  | array {items : List Json} : Row slots items → Record slots (.array items)

/-- A field under its own name. -/
theorem Kept.write {slot : Slot} {slots : List Slot} {v : Json} {members : List (Quoted × Json)}
    (hshows : slot.Shows v) (h : Kept slots members) :
    Kept (slot :: slots) ((Quoted.ofString slot.name, v) :: members) :=
  .keep (Quoted.decode?_ofString slot.name) hshows h

/-- The form in which records are written: members in declared order. -/
theorem Record.ofKept {slots : List Slot} {members : List (String × Json)}
    (h : Kept slots (members.map fun m => (Quoted.ofString m.1, m.2))) :
    Record slots (.ofMembers members) := by
  have hunknown : ∀ m ∈ ([] : List (Quoted × Json)), Unknown (slots.map (·.name)) m := by simp
  exact .object h hunknown (by rw [List.append_nil])

/-! ## §2 The members of a name -/

/-- The values of the members of a name. -/
def valuesOf (name : String) (members : List (Quoted × Json)) : List Json :=
  (members.filter fun m => m.1.decode? = some name).map (·.2)

section
variable {slot : Slot} {slots : List Slot} {names : List String} {name : String}
  {members : List (Quoted × Json)} {key : Quoted} {v : Json} {f : Fields}

theorem valuesOf_cons_of_eq (h : key.decode? = some name) :
    valuesOf name ((key, v) :: members) = v :: valuesOf name members := by
  simp [valuesOf, h]

theorem valuesOf_cons_of_ne (h : key.decode? ≠ some name) :
    valuesOf name ((key, v) :: members) = valuesOf name members := by
  simp [valuesOf, h]

/-- Members that nobody knows have nothing for a known name. -/
theorem valuesOf_of_unknown (h : ∀ m ∈ members, Unknown names m) (hname : name ∈ names) :
    valuesOf name members = [] := by
  unfold valuesOf
  rw [List.map_eq_nil_iff, List.filter_eq_nil_iff]
  intro m hm hkey
  obtain ⟨key, hdecode, hnot⟩ := h m hm
  rw [of_decide_eq_true hkey] at hdecode
  cases hdecode
  exact hnot hname

/-- A name that is no field has no value. -/
theorem Kept.valuesOf_of_notMem (h : Kept slots members) (hname : name ∉ slots.map (·.name)) :
    valuesOf name members = [] := by
  induction h with
  | nil => rfl
  | @keep slot slots key v members hkey _ _ ih =>
    -- the name is neither that of the first field nor one of the later
    obtain ⟨hne, hrest⟩ := not_or.1 (List.mem_cons.not.1 hname)
    rw [valuesOf_cons_of_ne (by rw [hkey]; exact fun heq => hne (Option.some.inj heq).symm)]
    exact ih hrest
  | leave _ _ ih => exact ih (not_or.1 (List.mem_cons.not.1 hname)).2

theorem name_ne_of_mem {first : Slot} (hfirst : first.name ∉ slots.map (·.name))
    (hslot : slot ∈ slots) : first.name ≠ slot.name := by
  intro heq
  rw [heq] at hfirst
  exact hfirst (List.mem_map_of_mem hslot)

/-- A field has one value among the members that are kept, unless it is left out. -/
theorem Kept.valuesOf_eq (h : Kept slots members) (hnodup : (slots.map (·.name)).Nodup)
    (hslot : slot ∈ slots) :
    (∃ v, valuesOf slot.name members = [v] ∧ slot.Shows v) ∨
      valuesOf slot.name members = [] ∧ slot.Omissible := by
  induction h with
  | nil => cases hslot
  | @keep first slots key v members hkey hshows hkept ih =>
    obtain ⟨hfirst, hrest⟩ := List.nodup_cons.1 hnodup
    rcases List.mem_cons.1 hslot with rfl | hslot
    · rw [valuesOf_cons_of_eq hkey, hkept.valuesOf_of_notMem hfirst]
      exact Or.inl ⟨v, rfl, hshows⟩
    · -- the first member belongs to another field
      have hdiffers : key.decode? ≠ some slot.name := by
        rw [hkey]
        exact fun heq => name_ne_of_mem hfirst hslot (Option.some.inj heq)
      rw [valuesOf_cons_of_ne hdiffers]
      exact ih hrest hslot
  | @leave first slots members homissible hkept ih =>
    obtain ⟨hfirst, hrest⟩ := List.nodup_cons.1 hnodup
    rcases List.mem_cons.1 hslot with rfl | hslot
    · exact Or.inr ⟨hkept.valuesOf_of_notMem hfirst, homissible⟩
    · exact ih hrest hslot

theorem Kept.exists_key (h : Kept slots members) :
    ∀ m ∈ members, ∃ key, m.1.decode? = some key := by
  induction h with
  | nil => exact fun m hm => nomatch hm
  | keep hkey _ _ ih => exact List.forall_mem_cons.2 ⟨⟨_, hkey⟩, ih⟩
  | leave _ _ ih => exact ih

/-! ## §3 Reading a record -/

namespace Fields

/-! ### Objects -/

/-- Members whose keys all decode are read. -/
theorem exists_mapM_member (h : ∀ m ∈ members, ∃ key, m.1.decode? = some key) :
    ∃ present, members.mapM member = .ok present := by
  induction members with
  | nil => exact ⟨[], rfl⟩
  | cons m members ih =>
    obtain ⟨⟨key, hkey⟩, hrest⟩ := List.forall_mem_cons.1 h
    obtain ⟨present, hpresent⟩ := ih hrest
    have hmember : member m = .ok (key, m.2) := by simp [member, hkey]
    exact ⟨(key, m.2) :: present, by rw [List.mapM_cons, hmember, hpresent]; rfl⟩

/-- Decoding the keys keeps the members of a name. -/
theorem filter_of_mapM_member {present : List (String × Json)}
    (h : members.mapM member = .ok present) (name : String) :
    (present.filter fun m => m.1 == name).map (·.2) = valuesOf name members := by
  induction members generalizing present with
  | nil =>
    cases h
    rfl
  | cons m members ih =>
    rw [List.mapM_cons] at h
    obtain ⟨m', hm', h⟩ := exists_of_bind_eq_ok h
    obtain ⟨rest, hrest, h⟩ := exists_of_bind_eq_ok h
    cases h
    obtain ⟨key, v⟩ := m
    unfold member at hm'
    split at hm'
    · next text hkey =>
      cases hm'
      -- the first member is one of the name or plays no part
      by_cases hname : text = name
      · subst hname
        rw [valuesOf_cons_of_eq hkey, ← ih hrest]
        simp
      · rw [valuesOf_cons_of_ne (by simpa [hkey] using hname), ← ih hrest]
        simp [hname]
    · cases hm'

/-- An object that was read has each known name at most once, and its fields hold the first value. -/
theorem of_ofJson_object (h : Fields.ofJson names (.object members) = .ok f) :
    (∀ name ∈ names, (valuesOf name members).length ≤ 1) ∧
      ∀ name, f.get? name = (valuesOf name members).head? := by
  obtain ⟨present, hpresent, h⟩ := exists_of_bind_eq_ok h
  have hvalues := filter_of_mapM_member hpresent
  split at h
  · cases h
  · next honce =>
    cases h
    refine ⟨fun name hname => ?_, fun name => ?_⟩
    · -- a known name that occurs twice would have been refused
      have hcount := List.find?_eq_none.1 honce name hname
      rw [← hvalues, List.length_map]
      exact Nat.not_lt.1 (of_decide_eq_false (eq_false_of_ne_true hcount))
    · rw [← hvalues, List.head?_map, List.head?_filter]
      rfl

/-- An object without repeated known names is read. -/
theorem exists_ofJson_object (hkeys : ∀ m ∈ members, ∃ key, m.1.decode? = some key)
    (honce : ∀ name ∈ names, (valuesOf name members).length ≤ 1) :
    ∃ f, Fields.ofJson names (.object members) = .ok f := by
  obtain ⟨present, hpresent⟩ := exists_mapM_member hkeys
  -- the check for repeated names finds none
  have hnone : names.find? (fun name => 1 < count name present) = none := by
    refine List.find?_eq_none.2 fun name hname => ?_
    have hcount := honce name hname
    rw [← filter_of_mapM_member hpresent, List.length_map] at hcount
    exact ne_true_of_eq_false (decide_eq_false (Nat.not_lt.2 hcount))
  refine ⟨⟨present⟩, ?_⟩
  simp only [Fields.ofJson, hpresent, bind, Except.bind, hnone]

/-! ### Both forms -/

/-- The field holds a value that the slot shows, or nothing when it may be left out. -/
def Has (f : Fields) (slot : Slot) : Prop :=
  (∃ v, f.get? slot.name = some v ∧ slot.Shows v) ∨ f.get? slot.name = none ∧ slot.Omissible

end Fields

theorem Row.length_le {items : List Json} (h : Row slots items) : items.length ≤ slots.length := by
  induction h with
  | stop _ => exact Nat.zero_le _
  | item _ _ ih => exact Nat.succ_le_succ ih

/-- In an array the fields that are there stand at their places, and those missing at the end hold
their defaults. -/
theorem Row.has {items : List Json} (h : Row slots items) (hnodup : (slots.map (·.name)).Nodup)
    (hslot : slot ∈ slots) : Fields.Has ⟨(slots.map (·.name)).zip items⟩ slot := by
  induction h with
  | stop homissible =>
    refine Or.inr ⟨?_, homissible slot hslot⟩
    rw [List.zip_nil_right]
    rfl
  | @item first slots v items hshows _ ih =>
    obtain ⟨hfirst, hrest⟩ := List.nodup_cons.1 hnodup
    rcases List.mem_cons.1 hslot with rfl | hslot
    · exact Or.inl ⟨v, by simp [Fields.get?], hshows⟩
    · -- the first item belongs to another field
      have hne := name_ne_of_mem hfirst hslot
      have hskip : Fields.get? ⟨((first :: slots).map (·.name)).zip (v :: items)⟩ slot.name =
          Fields.get? ⟨(slots.map (·.name)).zip items⟩ slot.name := by
        simp [Fields.get?, hne]
      unfold Fields.Has
      rw [hskip]
      exact ih hrest hslot

/-- **Every form of a record is read**, and its fields hold what they show. -/
theorem Record.exists_ofJson (h : Record slots v) (hnodup : (slots.map (·.name)).Nodup) :
    ∃ f, Fields.ofJson (slots.map (·.name)) v = .ok f ∧ ∀ slot ∈ slots, f.Has slot := by
  cases h with
  | @object kept unknown members hkept hunknown hperm =>
    have hvalues : ∀ slot ∈ slots, valuesOf slot.name members = valuesOf slot.name kept := by
      intro slot hslot
      have hnone := valuesOf_of_unknown hunknown (List.mem_map_of_mem hslot)
      have hsame : (valuesOf slot.name members).Perm (valuesOf slot.name kept) := by
        have hall := (hperm.filter fun m => m.1.decode? = some slot.name).map (·.2)
        rw [List.filter_append, List.map_append] at hall
        rw [← List.append_nil (valuesOf slot.name kept), ← hnone]
        exact hall
      -- at most one value is left, so its place does not matter
      rcases hkept.valuesOf_eq hnodup hslot with ⟨v, hv, -⟩ | ⟨hv, -⟩
      · rw [hv] at hsame ⊢
        exact List.perm_singleton.1 hsame
      · rw [hv] at hsame ⊢
        exact List.perm_nil.1 hsame
    -- so the object is read: every key decodes, and no known name has two values
    have hkeys : ∀ m ∈ members, ∃ key, m.1.decode? = some key := by
      intro m hm
      rcases List.mem_append.1 (hperm.mem_iff.1 hm) with hm | hm
      · exact hkept.exists_key m hm
      · obtain ⟨key, hkey, -⟩ := hunknown m hm
        exact ⟨key, hkey⟩
    have honce : ∀ name ∈ slots.map (·.name), (valuesOf name members).length ≤ 1 := by
      intro name hname
      obtain ⟨slot, hslot, rfl⟩ := List.mem_map.1 hname
      rw [hvalues slot hslot]
      rcases hkept.valuesOf_eq hnodup hslot with ⟨v, hv, -⟩ | ⟨hv, -⟩ <;> simp [hv]
    obtain ⟨f, hf⟩ := Fields.exists_ofJson_object hkeys honce
    refine ⟨f, hf, fun slot hslot => ?_⟩
    unfold Fields.Has
    rw [(Fields.of_ofJson_object hf).2, hvalues slot hslot]
    rcases hkept.valuesOf_eq hnodup hslot with ⟨v, hv, hshows⟩ | ⟨hv, homissible⟩
    · exact Or.inl ⟨v, by rw [hv]; rfl, hshows⟩
    · exact Or.inr ⟨by rw [hv]; rfl, homissible⟩
  | @array items hrow =>
    have hlength : items.length ≤ (slots.map (·.name)).length := by
      rw [List.length_map]
      exact hrow.length_le
    exact ⟨_, if_pos hlength, fun slot hslot => hrow.has hnodup hslot⟩

variable {α : Type} {a absent : α} (read : Json → Except Fault α)

/-- A required field is read from what the form shows for it. -/
theorem Fields.required_of_has (h : f.Has slot) (hrequired : ¬ slot.Omissible)
    (hread : ∀ v, slot.Shows v → read v = .ok a) : f.required slot.name read = .ok a := by
  unfold Fields.required
  rcases h with ⟨v, hv, hshows⟩ | ⟨-, homissible⟩
  · rw [hv]
    exact hread v hshows
  · exact absurd homissible hrequired

/-- An optional field is read from what the form shows for it or has its default. -/
theorem Fields.withDefault_of_has (h : f.Has slot) (habsent : slot.Omissible → a = absent)
    (hread : ∀ v, slot.Shows v → read v = .ok a) :
    f.withDefault slot.name absent read = .ok a := by
  unfold Fields.withDefault
  rcases h with ⟨v, hv, hshows⟩ | ⟨hv, homissible⟩
  · rw [hv]
    exact hread v hshows
  · rw [hv, habsent homissible]

end

/-! ## §4 Texts, lists and values that may be absent -/

/-- The forms of a text. -/
def Spells (s : String) (v : Json) : Prop := ∃ q : Quoted, q.decode? = some s ∧ v = .string q

theorem spells_ofString (s : String) : Spells s (.ofString s) :=
  ⟨Quoted.ofString s, Quoted.decode?_ofString s, rfl⟩

theorem readString_of_spells {s : String} {v : Json} (h : Spells s v) : readString v = .ok s := by
  obtain ⟨q, hq, rfl⟩ := h
  simp [readString, hq]

/-- The forms of a list: its elements in order, each in a form of its own. -/
def Lists {α : Type} (R : α → Json → Prop) (xs : List α) (v : Json) : Prop :=
  ∃ items, List.Forall₂ R xs items ∧ v = .array items

theorem lists_map {α : Type} {R : α → Json → Prop} {toJson : α → Json}
    (h : ∀ x, R x (toJson x)) (xs : List α) : Lists R xs (.array (xs.map toJson)) :=
  ⟨_, List.forall₂_map_right_iff.2 (List.forall₂_same.2 fun x _ => h x), rfl⟩

/-- A list is read item by item, each in its own form. -/
theorem readList_of_lists {α : Type} {R : α → Json → Prop} {read : Json → Except Fault α}
    (hread : ∀ {x v}, R x v → read v = .ok x) {xs : List α} {v : Json} (h : Lists R xs v) :
    readList read v = .ok xs := by
  obtain ⟨items, hitems, rfl⟩ := h
  show items.mapM read = .ok xs
  induction hitems with
  | nil => rfl
  | cons hx _ ih =>
    rw [List.mapM_cons, hread hx, ih]
    rfl

/-- The value of something that may be absent. -/
def orNull {α : Type} (toJson : α → Json) : Option α → Json
  | none => .null
  | some a => toJson a

theorem readOption_orNull {α : Type} {toJson : α → Json} {read : Json → Except Fault α}
    (hread : ∀ a, readOption read (toJson a) = .ok (some a)) (o : Option α) :
    readOption read (orNull toJson o) = .ok o := by
  cases o with
  | none => rfl
  | some a => exact hread a

/-! ## §5 What was read -/

/-- In the record, written in either form, the field has a value. -/
inductive FieldOf (names : List String) (name : String) : Json → Json → Prop where
  | member {members : List (Quoted × Json)} {key : Quoted} {w : Json} :
      (key, w) ∈ members → key.decode? = some name → FieldOf names name (.object members) w
  | item {items : List Json} {w : Json} :
      (name, w) ∈ names.zip items → FieldOf names name (.array items) w

variable {names : List String} {name : String} {v w : Json} {f : Fields} {α : Type} {a : α}
  {read : Json → Except Fault α}

theorem find?_zip_of_mem {items : List Json} (hnodup : names.Nodup)
    (h : (name, w) ∈ names.zip items) :
    (names.zip items).find? (fun m => m.1 == name) = some (name, w) := by
  induction names generalizing items with
  | nil => simp at h
  | cons first names ih =>
    obtain ⟨hfirst, hrest⟩ := List.nodup_cons.1 hnodup
    cases items with
    | nil => simp at h
    | cons x items =>
      rw [List.zip_cons_cons] at h ⊢
      rcases List.mem_cons.1 h with heq | h
      · cases heq
        simp
      · -- the name stands behind the first one, so it differs from it
        have hne : first ≠ name := by
          rintro rfl
          exact hfirst (List.of_mem_zip h).1
        rw [List.find?_cons_of_neg (by simpa using hne)]
        exact ih hrest h

/-- What stands in a field is what reading the record finds there. -/
theorem Fields.get?_of_fieldOf (h : Fields.ofJson names v = .ok f) (hnodup : names.Nodup)
    (hname : name ∈ names) (hfield : FieldOf names name v w) : f.get? name = some w := by
  cases hfield with
  | @member members key _ hmem hkey =>
    obtain ⟨honce, hget⟩ := Fields.of_ofJson_object h
    have hw : w ∈ valuesOf name members :=
      List.mem_map.2 ⟨_, List.mem_filter.2 ⟨hmem, decide_eq_true hkey⟩, rfl⟩
    rw [hget]
    -- there is no second value that could come first
    match hvalues : valuesOf name members, hw, honce name hname with
    | [u], hw, _ => rw [List.mem_singleton.1 hw]; rfl
  | @item items _ hmem =>
    unfold Fields.ofJson at h
    simp only at h
    split at h
    · cases h
      unfold Fields.get?
      rw [find?_zip_of_mem hnodup hmem]
      rfl
    · cases h

theorem Fields.of_required (h : f.required name read = .ok a) :
    ∃ w, f.get? name = some w ∧ read w = .ok a := by
  unfold Fields.required at h
  split at h
  · next w hw => exact ⟨w, hw, h⟩
  · cases h

theorem Fields.of_withDefault {absent : α} (h : f.withDefault name absent read = .ok a)
    (hw : f.get? name = some w) : read w = .ok a := by
  unfold Fields.withDefault at h
  rwa [hw] at h

theorem exists_of_readList {as : List α} {items : List Json}
    (h : readList read (.array items) = .ok as) : ∀ w ∈ items, ∃ a, read w = .ok a := by
  replace h : items.mapM read = .ok as := h
  induction items generalizing as with
  | nil => exact fun w hw => nomatch hw
  | cons x items ih =>
    rw [List.mapM_cons] at h
    obtain ⟨a, ha, h⟩ := exists_of_bind_eq_ok h
    obtain ⟨rest, hrest, -⟩ := exists_of_bind_eq_ok h
    exact List.forall_mem_cons.2 ⟨⟨a, ha⟩, ih hrest⟩

end Json

end Typestate
