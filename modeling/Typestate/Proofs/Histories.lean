import Typestate.Transition

/-!
# What the automaton recognises

The state after a whole history of calls can be read off the history without going through the states
in between. Neutral calls do not count. Of the others the first one decides whether the value may be
looked at in this way at all, and the one right after the first release decides between the two memory
errors. As long as nothing is released the state only climbs, so the order of the calls does not matter.

## Contents

- §1 Moves, and the state read off them
- §2 Live values climb
- §3 Released values
- §4 Histories from the start
-/

namespace Typestate

/-! ## §1 Moves -/

/-- The calls of a history that can move a state. -/
def moves (history : List Token) : List Token := history.filter (· != .neutral)

namespace Token

/-- Whether a value that nothing is known about may be met by a call of this role. -/
def opens (mode : Mode) : Token → Bool
  | extract => true
  | rebuild => mode.producesOwner
  | neutral | release | access => false

/-- The least that is known about a value after a call of this role. -/
def level : Token → State
  | neutral | extract => .rawReferenced
  | rebuild => .rawWrapped
  | access => .used
  | release => .dropped

end Token

namespace State

/-- The state of a value that was never released, by the most that happened to it. -/
def ofLive (ms : List Token) : State :=
  if .access ∈ ms then .used else if .rebuild ∈ ms then .rawWrapped else .rawReferenced

/-- The state of a released value, by what happened to it next. -/
def ofReleased : Option Token → State
  | none => .dropped
  | some .release => .doubleFree
  | some _ => .useAfterFree

/-- The state of a value that has been through exactly these moves. -/
def ofMoves (mode : Mode) (ms : List Token) : State :=
  match ms.head? with
  | none => .uninit
  | some first =>
    if first.opens mode then
      match ms.dropWhile (· != .release) with
      | [] => ofLive ms
      | _ :: later => ofReleased later.head?
    else .violation

variable {mode : Mode} {s : State} {t : Token} {l ms : List Token}

@[simp]
theorem run_nil : s.run mode [] = s := rfl

@[simp]
theorem run_cons : s.run mode (t :: l) = (t.step mode s).run mode l := rfl

theorem run_append (l' : List Token) : s.run mode (l ++ l') = (s.run mode l).run mode l' :=
  List.foldl_append

/-- Neutral calls leave no trace in the state. -/
theorem run_moves (history : List Token) : s.run mode (moves history) = s.run mode history := by
  induction history generalizing s with
  | nil => rfl
  | cons t history ih =>
    -- a neutral call is dropped from the moves and does not move the state
    by_cases ht : t = .neutral
    · subst ht
      simpa [moves] using ih
    · simpa [moves, ht] using ih

/-- An absorbing state is left by no history. -/
theorem run_of_isAbsorbing (h : s.isAbsorbing = true) : s.run mode l = s := by
  induction l with
  | nil => rfl
  | cons t l ih => rw [run_cons, Token.step_of_isAbsorbing h, ih]

/-! ## §2 Live values -/

/-- Something is known about the value, and it is neither released nor in error. -/
def IsLive (s : State) : Prop := s = .rawReferenced ∨ s = .rawWrapped ∨ s = .used

instance (s : State) : Decidable s.IsLive := inferInstanceAs (Decidable (_ ∨ _))

theorem IsLive.rawReferenced_le (hs : s.IsLive) : rawReferenced ≤ s := by
  rcases hs with rfl | rfl | rfl <;> decide

theorem IsLive.ne_violation (hs : s.IsLive) : s ≠ violation := by
  rcases hs with rfl | rfl | rfl <;> decide

theorem IsLive.step_release (hs : s.IsLive) : Token.release.step mode s = dropped := by
  rcases hs with rfl | rfl | rfl <;> rfl

theorem isLive_ofLive (ms : List Token) : (ofLive ms).IsLive := by
  unfold ofLive
  split
  · decide
  · split <;> decide

/-- A live value climbs to the level of the call. -/
theorem step_of_isLive (hs : s.IsLive) : t.step mode s = s.join t.level := by
  rcases hs with rfl | rfl | rfl <;> cases t <;> rfl

/-- Only a release ends the life of a value. -/
theorem isLive_join_level (hs : s.IsLive) (ht : t ≠ .release) : (s.join t.level).IsLive := by
  cases t with
  | release => exact absurd rfl ht
  | neutral | extract | rebuild | access => rcases hs with rfl | rfl | rfl <;> decide

/-- The first call counts by its level, wherever the others stand. -/
theorem ofLive_cons (ht : t ≠ .release) : ofLive (t :: l) = t.level.join (ofLive l) := by
  unfold ofLive
  cases t with
  | release => exact absurd rfl ht
  | neutral | extract | rebuild | access =>
    by_cases haccess : .access ∈ l <;> by_cases hrebuild : .rebuild ∈ l <;>
      simp [haccess, hrebuild] <;> rfl

/-- Without a release, a live value climbs to the highest level on its way. -/
theorem run_of_isLive (hs : s.IsLive) (h : .release ∉ l) : s.run mode l = s.join (ofLive l) := by
  induction l generalizing s with
  | nil => rcases hs with rfl | rfl | rfl <;> rfl
  | cons t l ih =>
    have ht : t ≠ .release := fun heq => h (heq ▸ List.mem_cons_self ..)
    have hl : .release ∉ l := fun hmem => h (List.mem_cons_of_mem _ hmem)
    calc s.run mode (t :: l)
        = (s.join t.level).run mode l := by rw [run_cons, step_of_isLive hs]
      _ = (s.join t.level).join (ofLive l) := ih (isLive_join_level hs ht) hl
      _ = s.join (ofLive (t :: l)) := by rw [join_assoc, ofLive_cons ht]

theorem run_rawReferenced (h : .release ∉ l) : rawReferenced.run mode l = ofLive l := by
  have hle : rawReferenced ≤ ofLive l := (isLive_ofLive l).rawReferenced_le
  rw [run_of_isLive (Or.inl rfl) h]
  exact le_antisymm (join_le hle (le_refl _)) (le_join_right _ _)

/-! ## §3 Released values -/

/-- The first move after a release is final. -/
theorem run_dropped (h : .neutral ∉ l) : dropped.run mode l = ofReleased l.head? := by
  cases l with
  | nil => rfl
  | cons t l =>
    have hstep : t.step mode .dropped = ofReleased (some t) ∧
        (ofReleased (some t)).isAbsorbing = true := by
      cases t with
      | neutral => exact absurd (List.mem_cons_self ..) h
      | extract | rebuild | release | access => exact ⟨rfl, rfl⟩
    rw [run_cons, hstep.1, run_of_isAbsorbing hstep.2]
    rfl

/-- A value whose pointer was taken is followed up to its first release and one move beyond. -/
theorem run_of_referenced (h : .neutral ∉ ms) : rawReferenced.run mode ms =
    match ms.dropWhile (· != .release) with
    | [] => ofLive ms
    | _ :: later => ofReleased later.head? := by
  have hbefore : .release ∉ ms.takeWhile (· != .release) :=
    fun hmem => by simpa using List.all_eq_true.1 List.all_takeWhile _ hmem
  have hsplit := List.takeWhile_append_dropWhile (p := (· != Token.release)) (l := ms)
  split
  · next hnone =>
    rw [hnone, List.append_nil] at hsplit
    rw [hsplit] at hbefore
    exact run_rawReferenced hbefore
  · next t later hsome =>
    -- the rest begins with the release, at which the value is still live
    obtain rfl : t = .release := by
      have hhead := List.head?_dropWhile_not (· != Token.release) ms
      simpa [hsome] using hhead
    have hlater : .neutral ∉ later := fun hmem => h (by
      rw [← hsplit, hsome]
      exact List.mem_append_right _ (List.mem_cons_of_mem _ hmem))
    calc rawReferenced.run mode ms
        = rawReferenced.run mode (ms.takeWhile (· != .release) ++ .release :: later) := by
          rw [← hsome, hsplit]
      _ = dropped.run mode later := by
          rw [run_append, run_rawReferenced hbefore, run_cons, (isLive_ofLive _).step_release]
      _ = ofReleased later.head? := run_dropped hlater

/-! ## §4 From the start -/

/-- An opening call finds a value without history like one whose pointer was taken. -/
theorem step_uninit_of_opens (h : t.opens mode = true) :
    t.step mode uninit = t.step mode rawReferenced := by
  revert h
  cases t <;> cases mode <;> decide

theorem step_uninit_of_not_opens (ht : t ≠ .neutral) (h : ¬ t.opens mode = true) :
    t.step mode uninit = violation := by
  revert ht h
  cases t <;> cases mode <;> decide

/-- From the start a history without neutral calls leads where its moves say. -/
theorem run_uninit (h : .neutral ∉ ms) : uninit.run mode ms = ofMoves mode ms := by
  cases ms with
  | nil => rfl
  | cons first rest =>
    unfold ofMoves
    simp only [List.head?_cons]
    -- the first move opens the value for the rest or condemns it
    split
    · next hopens =>
      rw [← run_of_referenced h, run_cons, run_cons, step_uninit_of_opens hopens]
    · next hcloses =>
      have hfirst : first ≠ .neutral := fun heq => h (heq ▸ List.mem_cons_self ..)
      rw [run_cons, step_uninit_of_not_opens hfirst hcloses, run_of_isAbsorbing rfl]

/-- What an opening call begins is never ill typed. -/
theorem ofMoves_ne_violation (hfirst : ms.head? = some t) (h : t.opens mode = true) :
    ofMoves mode ms ≠ violation := by
  unfold ofMoves
  simp only [hfirst, h, if_true]
  split
  · exact (isLive_ofLive ms).ne_violation
  · next later _ =>
    cases later.head? with
    | none => decide
    | some t => cases t <;> decide

/-- The mode matters to histories that begin with a rebuild and to no others. -/
theorem ofMoves_consuming_ne_iff :
    ofMoves .consuming ms ≠ ofMoves .factory ms ↔ ms.head? = some .rebuild := by
  constructor
  · intro hne
    cases hfirst : ms.head? with
    | none => exact absurd (by simp [ofMoves, hfirst]) hne
    | some t =>
      -- any other beginning opens the history in neither mode or in both
      cases t with
      | rebuild => rfl
      | neutral | extract | release | access =>
        exact absurd (by simp [ofMoves, hfirst, Token.opens]) hne
  · intro hfirst
    have hconsuming : ofMoves .consuming ms = violation := by
      simp [ofMoves, hfirst, Token.opens, Mode.producesOwner]
    rw [hconsuming]
    exact (ofMoves_ne_violation hfirst rfl).symm

theorem neutral_notMem_moves (history : List Token) : .neutral ∉ moves history := by
  simp [moves]

/-- **A history is recognised by two of its moves**, the first one and the one after the first release,
and by the most that happened where there is no release. The two modes part exactly over the histories
whose first move is a rebuild. -/
theorem run_eq_ofMoves (history : List Token) :
    (∀ mode, uninit.run mode history = ofMoves mode (moves history)) ∧
    (uninit.run .consuming history ≠ uninit.run .factory history ↔
      (moves history).head? = some .rebuild) := by
  have hmoves := neutral_notMem_moves history
  have hrun (mode : Mode) : uninit.run mode history = ofMoves mode (moves history) := by
    rw [← run_moves history, run_uninit hmoves]
  refine ⟨hrun, ?_⟩
  rw [hrun, hrun]
  exact ofMoves_consuming_ne_iff

-- only the move after the first release counts, however many follow
example : uninit.run .factory [.neutral, .rebuild, .access, .release, .neutral, .release, .extract] =
    .doubleFree := by decide

end State

end Typestate
