import Typestate.Proofs.Flow
import Typestate.Solver.Validate

/-!
# Control flow of checked programs

The places of a program, how control moves between them, and what the check in front of the solver
guarantees: entry points have bodies, successors exist, and an instruction identity determines the
place of its instruction.

## Contents

- §1 Places, the instruction that comes next, reached blocks
- §2 What the check guarantees
- §3 An identity belongs to one place
-/

namespace Typestate

/-! ## §1 Places -/

/-- `rest` is what remains of block `k` of the function from some place in it on. -/
def Remains (f : Function) (k : Nat) (rest : List Instruction) : Prop :=
  ∃ b, f.blocks[k]? = some b ∧ rest <:+ b.instructions

theorem Remains.tail {f : Function} {k : Nat} {i : Instruction} {rest : List Instruction}
    (h : Remains f k (i :: rest)) : Remains f k rest := by
  obtain ⟨b, hb, hsuffix⟩ := h
  exact ⟨b, hb, (List.suffix_cons i rest).trans hsuffix⟩

theorem Function.remains_of_mem {f : Function} {i : Instruction} (hi : i ∈ f.instructions) :
    ∃ k rest, Remains f k (i :: rest) := by
  obtain ⟨b, hb, hi⟩ := List.mem_flatMap.1 hi
  obtain ⟨k, hk⟩ := List.getElem?_of_mem hb
  obtain ⟨before, rest, heq⟩ := List.append_of_mem hi
  exact ⟨k, rest, b, hk, before, heq.symm⟩

theorem Remains.mem_instructions {program : Program} {f : Function} {k : Nat} {i : Instruction}
    {rest : List Instruction} (h : Remains f k (i :: rest)) (hbody : program.body? f.name = some f) :
    (f, i) ∈ program.instructions := by
  obtain ⟨b, hb, hsuffix⟩ := h
  have hi : i ∈ f.instructions :=
    List.mem_flatMap.2 ⟨b, List.mem_of_getElem? hb, hsuffix.subset (List.mem_cons_self ..)⟩
  exact List.mem_flatMap.2 ⟨f, Program.mem_of_body? hbody, List.mem_map_of_mem hi⟩

/-- The first instruction met from a place on: the next one in the block, or behind its end the
first one met along successors, through blocks without instructions. -/
inductive Next (f : Function) : Nat → List Instruction → Instruction → Prop where
  | here {k : Nat} {i : Instruction} {rest : List Instruction} : Next f k (i :: rest) i
  | jump {k : Nat} {b b' : Block} {t : UInt64} {j : Instruction} :
      f.blocks[k]? = some b → t ∈ b.successors → f.blocks[t.toNat]? = some b' →
      Next f t.toNat b'.instructions j → Next f k [] j

/-- The blocks that can be reached: the first block of every entry point, successors, and the first
block of every body entered from a reached block. -/
inductive Reached (program : Program) (entries : List String) : Function → Nat → Prop where
  | entry {name : String} {f : Function} :
      name ∈ entries → program.body? name = some f → Reached program entries f 0
  | jump {f : Function} {k : Nat} {b : Block} {t : UInt64} :
      Reached program entries f k → f.blocks[k]? = some b → t ∈ b.successors →
      Reached program entries f t.toNat
  | enter {f : Function} {k : Nat} {b : Block} {i : Instruction} {e : Entering} :
      Reached program entries f k → f.blocks[k]? = some b → i ∈ b.instructions →
      program.entering? i = some e → Reached program entries e.target 0

/-- A reached block belongs to the body of some name. -/
theorem Reached.body {program : Program} {entries : List String} {f : Function} {k : Nat}
    (h : Reached program entries f k) : program.body? f.name = some f := by
  induction h with
  | entry _ hbody => exact Program.body?_name hbody
  | jump _ _ _ ih => exact ih
  | enter _ _ _ he _ => exact Program.body?_of_entering he

/-! ## §2 The check -/

/-- What the check in front of the solver guarantees. -/
structure Program.Checked (program : Program) (entries : List String) : Prop where
  bodies : ∀ name ∈ entries, ∃ f, program.body? name = some f
  successors : ∀ f ∈ program.functions, ∀ b ∈ f.blocks, ∀ t ∈ b.successors,
    t.toNat < f.blocks.length
  identities : ((program.functions.flatMap (·.instructions)).map (·.id)).Nodup

/-- A computation that succeeds does so through its first step. -/
theorem exists_of_bind_eq_ok {ε α β : Type} {x : Except ε α} {f : α → Except ε β} {r : β}
    (h : (x >>= f) = .ok r) : ∃ a, x = .ok a ∧ f a = .ok r := by
  cases x with
  | error e => cases h
  | ok a => exact ⟨a, rfl, h⟩

theorem eq_ok_of_toOption {ε α : Type} {x : Except ε α} {a : α} (h : x.toOption = some a) :
    x = .ok a := by
  cases x with
  | error e => cases h
  | ok b =>
    cases h
    rfl

namespace Program

/-- Identities that are new and distinct, and the set of all identities seen afterwards. -/
structure Adds (seen : FiniteSet InstId) (ids : List InstId) (seen' : FiniteSet InstId) : Prop where
  distinct : ids.Nodup
  fresh : ∀ x ∈ ids, ¬ seen.contains x = true
  contains : ∀ x, seen'.contains x = true ↔ seen.contains x = true ∨ x ∈ ids

theorem Adds.nil (seen : FiniteSet InstId) : Adds seen [] seen :=
  ⟨List.nodup_nil, by simp, by simp⟩

theorem Adds.append {seen seen' seen'' : FiniteSet InstId} {a b : List InstId}
    (h : Adds seen a seen') (h' : Adds seen' b seen'') : Adds seen (a ++ b) seen'' where
  distinct := by
    refine List.nodup_append.2 ⟨h.distinct, h'.distinct, ?_⟩
    -- what the second part adds is fresh even after the first
    rintro x hx y hy rfl
    exact h'.fresh x hy ((h.contains x).2 (Or.inr hx))
  fresh := by
    intro x hx hseen
    rcases List.mem_append.1 hx with hx | hx
    · exact h.fresh x hx hseen
    · exact h'.fresh x hx ((h.contains x).2 (Or.inl hseen))
  contains := by
    intro x
    rw [h'.contains, h.contains, List.mem_append, or_assoc]

theorem adds_of_checkIdentities {seen seen' : FiniteSet InstId} {is : List Instruction}
    (h : checkIdentities seen is = .ok seen') : Adds seen (is.map (·.id)) seen' := by
  induction is generalizing seen with
  | nil =>
    cases h
    exact Adds.nil seen'
  | cons i rest ih =>
    unfold checkIdentities at h
    split at h
    · cases h
    · -- the first identity is new, so it adds itself to what has been seen
      next hnew =>
      have hone : Adds seen [i.id] (FiniteSet.insert seen i.id) :=
        ⟨by simp, by simpa using hnew, by
          intro x
          rw [FiniteSet.contains_insert, List.mem_singleton, or_comm]⟩
      exact hone.append (ih h)

theorem of_checkBlock {f : Function} {seen seen' : FiniteSet InstId} {k : Nat} {b : Block}
    (h : checkBlock f seen k b = .ok seen') :
    (∀ t ∈ b.successors, t.toNat < f.blocks.length) ∧
      Adds seen (b.instructions.map (·.id)) seen' := by
  unfold checkBlock at h
  split at h
  · cases h
  · next hnone =>
    split at h
    · cases h
    · refine ⟨?_, adds_of_checkIdentities h⟩
      intro t ht
      simpa using List.find?_eq_none.1 hnone t ht

/-- Blocks that pass the check have their successors in range, and their identities have been added. -/
theorem of_checkBlocks {f : Function} {seen seen' : FiniteSet InstId} {k : Nat} {bs : List Block}
    (h : checkBlocks f seen k bs = .ok seen') :
    (∀ b ∈ bs, ∀ t ∈ b.successors, t.toNat < f.blocks.length) ∧
      Adds seen ((bs.flatMap (·.instructions)).map (·.id)) seen' := by
  induction bs generalizing seen k with
  | nil =>
    cases h
    exact ⟨by simp, Adds.nil seen'⟩
  | cons b rest ih =>
    obtain ⟨mid, hblock, hrest⟩ := exists_of_bind_eq_ok h
    obtain ⟨hrange, hadds⟩ := of_checkBlock hblock
    -- the identities of this block are remembered when the next one is checked
    obtain ⟨hranges, hadds'⟩ := ih hrest
    refine ⟨?_, ?_⟩
    · intro c hc
      rcases List.mem_cons.1 hc with rfl | hc
      · exact hrange
      · exact hranges c hc
    · rw [List.flatMap_cons, List.map_append]
      exact hadds.append hadds'

/-- So has every function that passes it. -/
theorem of_checkFunctions {seen seen' : FiniteSet InstId} {fs : List Function}
    (h : checkFunctions seen fs = .ok seen') :
    (∀ f ∈ fs, ∀ b ∈ f.blocks, ∀ t ∈ b.successors, t.toNat < f.blocks.length) ∧
      Adds seen ((fs.flatMap (·.instructions)).map (·.id)) seen' := by
  induction fs generalizing seen with
  | nil =>
    cases h
    exact ⟨by simp, Adds.nil seen'⟩
  | cons f rest ih =>
    obtain ⟨mid, hblocks, hrest⟩ := exists_of_bind_eq_ok h
    obtain ⟨hrange, hadds⟩ := of_checkBlocks hblocks
    obtain ⟨hranges, hadds'⟩ := ih hrest
    refine ⟨?_, ?_⟩
    · intro g hg
      rcases List.mem_cons.1 hg with rfl | hg
      · exact hrange
      · exact hranges g hg
    · rw [List.flatMap_cons, List.map_append]
      exact hadds.append hadds'

theorem body_of_checkEntry {program : Program} {name : String}
    (h : program.checkEntry name = .ok ()) : ∃ f, program.body? name = some f := by
  unfold checkEntry at h
  split at h
  · cases h
  · -- some function of that name has a body, so a first one does
    split at h
    · next hany =>
      obtain ⟨f, hf, hbody⟩ := List.any_eq_true.1 hany
      obtain ⟨hmem, hname⟩ := List.mem_filter.1 hf
      have : (program.body? name).isSome := by
        unfold body?
        rw [List.find?_isSome]
        exact ⟨f, hmem, by simp only [Bool.and_eq_true]; exact ⟨hname, hbody⟩⟩
      exact Option.isSome_iff_exists.1 this
    · cases h

theorem bodies_of_checkEntries {program : Program} {entries : List String}
    (h : program.checkEntries entries = .ok ()) :
    ∀ name ∈ entries, ∃ f, program.body? name = some f := by
  induction entries with
  | nil => simp
  | cons e rest ih =>
    obtain ⟨_, hentry, hrest⟩ := exists_of_bind_eq_ok h
    intro name hname
    rcases List.mem_cons.1 hname with rfl | hname
    · exact body_of_checkEntry hentry
    · exact ih hrest name hname

/-- **Accepted inputs are well formed.** -/
theorem checked_of_validate {program : Program} {entries : List String}
    (h : program.validate entries = .ok ()) : program.Checked entries := by
  obtain ⟨_, hentries, h⟩ := exists_of_bind_eq_ok h
  obtain ⟨seen, hfunctions, -⟩ := exists_of_bind_eq_ok h
  obtain ⟨hrange, hadds⟩ := of_checkFunctions hfunctions
  exact ⟨bodies_of_checkEntries hentries, hrange, hadds.distinct⟩

end Program

/-! ## §3 One place for each identity -/

/-- In a list whose images are disjoint, a common element fixes the index. -/
theorem index_eq_of_mem {α β : Type} {l : List α} {g : α → List β} (h : (l.flatMap g).Nodup)
    {m n : Nat} {a b : α} {x : β} (ha : l[m]? = some a) (hb : l[n]? = some b) (hxa : x ∈ g a)
    (hxb : x ∈ g b) : m = n := by
  have hpair := (List.pairwise_flatMap.1 h).2
  rw [List.pairwise_iff_getElem] at hpair
  obtain ⟨hm, rfl⟩ := List.getElem?_eq_some_iff.1 ha
  obtain ⟨hn, rfl⟩ := List.getElem?_eq_some_iff.1 hb
  -- at two indices the images would share `x`
  rcases Nat.lt_trichotomy m n with hlt | heq | hgt
  · exact absurd rfl (hpair m n hm hn hlt x hxa x hxb)
  · exact heq
  · exact absurd rfl (hpair n m hn hm hgt x hxb x hxa)

/-- Two remainders of the same run of instructions that start with the same identity are equal. -/
theorem suffix_eq_of_id_eq {is : List Instruction} (h : (is.map (·.id)).Nodup) {i j : Instruction}
    {rest rest' : List Instruction} (hi : i :: rest <:+ is) (hj : j :: rest' <:+ is)
    (hid : i.id = j.id) : i :: rest = j :: rest' := by
  -- the shorter remainder would otherwise repeat its first identity inside the longer one
  have aux : ∀ {i j : Instruction} {rest rest' : List Instruction}, i :: rest <:+ is →
      j :: rest' <:+ is → i.id = j.id → (i :: rest).length ≤ (j :: rest').length →
      i :: rest = j :: rest' := by
    intro i j rest rest' hi hj hid hlen
    have hsuffix : i :: rest <:+ j :: rest' := List.suffix_of_suffix_length_le hi hj hlen
    rcases List.suffix_cons_iff.1 hsuffix with heq | hinner
    · exact heq
    · have hnodup : ((j :: rest').map (·.id)).Nodup :=
        h.sublist ((hj.sublist).map _)
      have hmem : i ∈ rest' := hinner.subset (List.mem_cons_self ..)
      rw [List.map_cons, List.nodup_cons] at hnodup
      exact absurd (hid ▸ List.mem_map_of_mem hmem) hnodup.1
  rcases Nat.le_total (i :: rest).length (j :: rest').length with hle | hle
  · exact aux hi hj hid hle
  · exact (aux hj hi hid.symm hle).symm

/-- **An identity belongs to one place**: function, block and remainder are determined by it. -/
theorem Program.Checked.place_unique {program : Program} {entries : List String}
    (h : program.Checked entries) {f f' : Function} {k k' : Nat} {i i' : Instruction}
    {rest rest' : List Instruction} (hf : f ∈ program.functions) (hf' : f' ∈ program.functions)
    (hrest : Remains f k (i :: rest)) (hrest' : Remains f' k' (i' :: rest')) (hid : i.id = i'.id) :
    f = f' ∧ k = k' ∧ i :: rest = i' :: rest' := by
  obtain ⟨b, hb, hsuffix⟩ := hrest
  obtain ⟨b', hb', hsuffix'⟩ := hrest'
  have hmem : i ∈ b.instructions := hsuffix.subset (List.mem_cons_self ..)
  have hmem' : i' ∈ b'.instructions := hsuffix'.subset (List.mem_cons_self ..)
  -- functions, then blocks, then instructions: each level is determined by the identity
  have hids := h.identities
  rw [List.map_flatMap] at hids
  obtain ⟨m, hm⟩ := List.getElem?_of_mem hf
  obtain ⟨n, hn⟩ := List.getElem?_of_mem hf'
  have hif : i.id ∈ f.instructions.map (·.id) :=
    List.mem_map_of_mem (List.mem_flatMap.2 ⟨b, List.mem_of_getElem? hb, hmem⟩)
  have hif' : i.id ∈ f'.instructions.map (·.id) :=
    hid ▸ List.mem_map_of_mem (List.mem_flatMap.2 ⟨b', List.mem_of_getElem? hb', hmem'⟩)
  have hmn := index_eq_of_mem hids hm hn hif hif'
  subst hmn
  have hff : f = f' := by
    rw [hm] at hn
    exact Option.some.inj hn
  subst hff
  have hblocks : (f.blocks.flatMap fun b => b.instructions.map (·.id)).Nodup := by
    have hall := (List.pairwise_flatMap.1 hids).1 f hf
    unfold Function.instructions at hall
    rwa [List.map_flatMap] at hall
  have hkk := index_eq_of_mem hblocks hb hb' (List.mem_map_of_mem hmem)
    (hid ▸ List.mem_map_of_mem hmem')
  subst hkk
  have hbb : b = b' := by
    rw [hb] at hb'
    exact Option.some.inj hb'
  subst hbb
  have hnodup := (List.pairwise_flatMap.1 hblocks).1 b (List.mem_of_getElem? hb)
  exact ⟨rfl, rfl, suffix_eq_of_id_eq hnodup hsuffix hsuffix' hid⟩

end Typestate
