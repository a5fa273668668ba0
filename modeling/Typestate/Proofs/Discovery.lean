import Mathlib.Data.List.Infix
import Typestate.Config.Discovery
import Typestate.Files.Tree

/-!
# Where a configuration is found

The search for a configuration climbs from parent to parent of a path as it is written. An absolute path
has all its directories among its parents, up to the root. The parents of a relative path end with the
current directory, so the search from there never looks above it: the nearest configuration is found
only if it lies in the current directory or below, and one that lies higher up is found under the
absolute path of the same program and missed under the relative one.

## Contents

- §1 Places that paths lead to
- §2 Parents and directories
- §3 `Nearest`: the nearest directory with a configuration
- §4 What the search finds
- §5 The same program by a relative and by an absolute path
-/

namespace Typestate

/-! ## §1 Places -/

namespace Path

/-- One segment further from a place. -/
def step (place : Place) (segment : List Char) : Place :=
  if isIdle segment then place
  else if segment == ['.', '.'] then place.dropLast
  else place ++ [segment]

/-- The place that a path starts from. -/
def origin (current : Place) (p : Path) : Place := if p.anchor = .root then [] else current

/-- The place that a path leads to from a current directory, by its text alone. -/
def resolve (current : Place) (p : Path) : Place := p.segments.foldl step (p.origin current)

/-- The segments that mean something. -/
def names (p : Path) : List (List Char) := p.segments.filter (fun s => !isIdle s)

/-- No segment leads back. -/
def Descends (p : Path) : Prop := ∀ s ∈ p.segments, s ≠ ['.', '.']

theorem resolve_eq {p : Path} (h : p.Descends) (current : Place) :
    p.resolve current = p.origin current ++ p.names := by
  have aux : ∀ (segments : List (List Char)) (place : Place), (∀ s ∈ segments, s ≠ ['.', '.']) →
      segments.foldl step place = place ++ segments.filter (fun s => !isIdle s) := by
    intro segments
    induction segments with
    | nil => simp
    | cons s segments ih =>
      intro place hsegments
      rw [List.foldl_cons, ih _ fun t ht => hsegments t (List.mem_cons_of_mem _ ht)]
      have hs : s ≠ ['.', '.'] := hsegments s (List.mem_cons_self ..)
      by_cases hidle : isIdle s = true <;> simp [step, hidle, hs]
  exact aux p.segments _ h

/-- A file in the directory at a path lies in the place that the path leads to. -/
theorem resolve_child {name : String} (hidle : isIdle name.toList = false)
    (hback : name.toList ≠ ['.', '.']) (current : Place) (p : Path) :
    (p.child name).resolve current = p.resolve current ++ [name.toList] := by
  have hname : ∀ place, step place name.toList = place ++ [name.toList] := by
    intro place
    simp [step, hidle, hback]
  have hempty : ∀ place, step place [] = place := fun _ => rfl
  unfold child
  split
  · -- the leading dot stands alone
    next hanchor hsegments =>
    have horigin : p.origin current = current := by simp [origin, hanchor]
    simp only [resolve, hsegments, horigin, List.foldl_cons, List.foldl_nil, hempty, hname]
    rfl
  · split
    · next hlast =>
      -- a slash at the end leads nowhere
      obtain ⟨front, hfront⟩ := List.getLast?_eq_some_iff.1 (beq_iff_eq.1 hlast)
      simp only [resolve, hfront, List.dropLast_concat, List.foldl_append, List.foldl_cons,
        List.foldl_nil, hempty, hname]
      rfl
    · simp only [resolve, List.foldl_append, List.foldl_cons, List.foldl_nil, hname]
      rfl

/-! ## §2 Parents -/

theorem trimIdle_concat (segments : List (List Char)) (s : List Char) :
    trimIdle (segments ++ [s]) = if isIdle s then trimIdle segments else segments ++ [s] := by
  by_cases h : isIdle s = true <;> simp [trimIdle, h]

/-- Without its idle end a row of segments is empty or ends with its last name. -/
theorem trimIdle_cases (segments : List (List Char)) :
    trimIdle segments = [] ∧ segments.filter (fun s => !isIdle s) = [] ∨
      ∃ front last, trimIdle segments = front ++ [last] ∧ (∀ s ∈ front, s ∈ segments) ∧
        segments.filter (fun s => !isIdle s) = front.filter (fun s => !isIdle s) ++ [last] := by
  induction segments using List.reverseRecOn with
  | nil => exact Or.inl ⟨rfl, rfl⟩
  | append_singleton segments s ih =>
    rw [trimIdle_concat]
    -- an idle last segment is dropped, any other one is the last name
    by_cases hs : isIdle s = true
    · rcases ih with ⟨htrim, hnames⟩ | ⟨front, last, htrim, hfront, hnames⟩
      · exact Or.inl (by simp [hs, htrim, hnames])
      · refine Or.inr ⟨front, last, by simp [hs, htrim], ?_, by simp [hs, hnames]⟩
        exact fun t ht => List.mem_append_left _ (hfront t ht)
    · exact Or.inr ⟨segments, s, by simp [hs], fun t ht => List.mem_append_left _ ht, by simp [hs]⟩

theorem filter_trimIdle (segments : List (List Char)) :
    (trimIdle segments).filter (fun s => !isIdle s) = segments.filter (fun s => !isIdle s) := by
  induction segments using List.reverseRecOn with
  | nil => rfl
  | append_singleton segments s ih =>
    rw [trimIdle_concat]
    by_cases hs : isIdle s = true <;> simp [hs, ih]

theorem mem_of_mem_trimIdle {segments : List (List Char)} {s : List Char}
    (h : s ∈ trimIdle segments) : s ∈ segments :=
  List.mem_reverse.1 ((List.dropWhile_suffix _).subset (List.mem_reverse.1 h))

/-- A path without names has no parent, unless it is the leading dot. -/
theorem parent?_of_names_eq_nil {p : Path} (h : p.names = []) :
    p.parent? = if p.anchor = .here then some ⟨.nothing, []⟩ else none := by
  rcases trimIdle_cases p.segments with ⟨htrim, -⟩ | ⟨front, last, -, -, hnames⟩
  · unfold parent?
    rw [htrim]
    cases p.anchor <;> rfl
  · have hnil := hnames.symm.trans h
    simp at hnil

/-- The parent of a path with names lacks the last of them. -/
theorem exists_parent {p : Path} (h : p.names ≠ []) :
    ∃ q, p.parent? = some q ∧ q.anchor = p.anchor ∧ q.names = p.names.dropLast ∧
      (p.Descends → q.Descends) := by
  rcases trimIdle_cases p.segments with ⟨-, hnames⟩ | ⟨front, last, htrim, hfront, hnames⟩
  · exact absurd hnames h
  · refine ⟨⟨p.anchor, trimIdle front⟩, ?_, rfl, ?_, ?_⟩
    · unfold parent?
      rw [htrim]
      -- the last segment of the trimmed path is what the parent lacks
      split
      · next hnil => simp at hnil
      · rw [List.dropLast_concat]
    · show (trimIdle front).filter (fun s => !isIdle s) = p.names.dropLast
      rw [filter_trimIdle, names, hnames, List.dropLast_concat]
    · exact fun hdescends s hs => hdescends s (hfront s (mem_of_mem_trimIdle hs))

/-- The directory of a path is its place without the last name. -/
theorem directory_spec {p : Path} (h : p.names ≠ []) (hdescends : p.Descends) :
    p.directory.Descends ∧ p.directory.names = p.names.dropLast ∧
      ∀ current, p.directory.origin current = p.origin current := by
  obtain ⟨q, hparent, hanchor, hnames, hq⟩ := exists_parent h
  unfold directory
  rw [hparent]
  simp only
  split
  · -- nothing is left of the path, and the dot takes its place
    next hempty =>
    have hq : q.anchor = .nothing ∧ q.names = [] := by
      simp only [isEmpty, Bool.and_eq_true, beq_iff_eq, Bool.or_eq_true] at hempty
      refine ⟨hempty.1, ?_⟩
      rcases hempty.2 with hsegments | hsegments <;> rw [names, hsegments] <;> rfl
    refine ⟨by simp [Descends, here], by rw [← hnames, hq.2]; rfl, fun current => ?_⟩
    simp [origin, here, ← hanchor, hq.1]
  · exact ⟨hq hdescends, hnames, fun current => by simp [origin, hanchor]⟩

end Path

/-! ## §3 The nearest configuration -/

namespace Config

/-- The configuration file of a directory, whether or not it is there. -/
def inDirectory (dir : Place) : Place := dir ++ [fileName.toList]

/-- The result is the configuration of the nearest directory that has one, among `dir` and the
directories above it as far as `top`; nothing if none of them has one. -/
def Nearest (isFile : Place → Bool) (top dir : Place) : Option Place → Prop
  | some file => ∃ d, top <+: d ∧ d <+: dir ∧ file = inDirectory d ∧ isFile file = true ∧
      ∀ d', d <+: d' → d' <+: dir → d' ≠ d → isFile (inDirectory d') = false
  | none => ∀ d, top <+: d → d <+: dir → isFile (inDirectory d) = false

namespace Nearest

variable {isFile : Place → Bool} {top dir : Place} {found found' : Option Place}

/-- A directory with a configuration is its own nearest one. -/
theorem here (htop : top <+: dir) (h : isFile (inDirectory dir) = true) :
    Nearest isFile top dir (some (inDirectory dir)) := by
  refine ⟨dir, htop, List.prefix_refl dir, rfl, h, fun d' hd hd' hne => ?_⟩
  exact absurd (hd'.eq_of_length_le hd.length_le) hne

theorem none_of_top (h : isFile (inDirectory top) = false) : Nearest isFile top top none := by
  intro d htop hd
  rw [hd.eq_of_length_le htop.length_le]
  exact h

/-- From a directory without a configuration the search goes on above it. -/
theorem climb {name : List Char}
    (h : isFile (inDirectory (dir ++ [name])) = false) (hfound : Nearest isFile top dir found) :
    Nearest isFile top (dir ++ [name]) found := by
  cases found with
  | none =>
    intro d hd hdir
    -- a directory on the way is this one or is above it
    rcases List.prefix_concat_iff.1 hdir with rfl | hdir
    · exact h
    · exact hfound d hd hdir
  | some file =>
    obtain ⟨d, hd, hdir, hfile, hthere, hnearer⟩ := hfound
    refine ⟨d, hd, hdir.trans (List.prefix_append _ _), hfile, hthere, fun d' hd' hdir' hne => ?_⟩
    rcases List.prefix_concat_iff.1 hdir' with rfl | hdir'
    · exact h
    · exact hnearer d' hd' hdir' hne

theorem unique (h : Nearest isFile top dir found) (h' : Nearest isFile top dir found') :
    found = found' := by
  cases found with
  | none =>
    cases found' with
    | none => rfl
    | some file =>
      obtain ⟨d, hd, hdir, rfl, hthere, -⟩ := h'
      rw [h d hd hdir] at hthere
      cases hthere
  | some file =>
    obtain ⟨d, hd, hdir, rfl, hthere, hnearer⟩ := h
    cases found' with
    | none =>
      rw [h' d hd hdir] at hthere
      cases hthere
    | some file' =>
      obtain ⟨d', hd', hdir', rfl, hthere', hnearer'⟩ := h'
      -- of two directories above the same one, one lies above the other
      by_cases hne : d' = d
      · rw [hne]
      · rcases List.prefix_or_prefix_of_prefix hdir hdir' with hle | hle
        · rw [hnearer d' hle hdir' hne] at hthere'
          cases hthere'
        · rw [hnearer' d hle hdir (Ne.symm hne)] at hthere
          cases hthere

/-- What is found below `top` is also found when the search may go on above it. -/
theorem widen {file : Place} (h : Nearest isFile top dir (some file)) :
    Nearest isFile [] dir (some file) := by
  obtain ⟨d, -, h⟩ := h
  exact ⟨d, List.nil_prefix, h⟩

/-- The search up to `top` finds what the search up to the root finds, unless there is a
configuration above `top` and none below. -/
theorem eq_iff (htop : top <+: dir) (h : Nearest isFile top dir found)
    (h' : Nearest isFile [] dir found') :
    found = found' ↔
      (∃ d, top <+: d ∧ d <+: dir ∧ isFile (inDirectory d) = true) ∨
        ∀ d, d <+: top → d ≠ top → isFile (inDirectory d) = false := by
  cases found with
  | some file =>
    refine ⟨fun _ => Or.inl ?_, fun _ => h.widen.unique h'⟩
    obtain ⟨d, hd, hdir, rfl, hthere, -⟩ := h
    exact ⟨d, hd, hdir, hthere⟩
  | none =>
    constructor
    · rintro rfl
      exact Or.inr fun d hd _ => h' d List.nil_prefix (hd.trans htop)
    · rintro (⟨d, hd, hdir, hthere⟩ | habove)
      · rw [h d hd hdir] at hthere
        cases hthere
      · refine Nearest.unique (fun d _ hdir => ?_) h'
        -- a directory above the program's lies above `top` or not
        by_cases hd : top <+: d
        · exact h d hd hdir
        · have hd' := (List.prefix_or_prefix_of_prefix hdir htop).resolve_right hd
          exact habove d hd' fun heq => hd (heq ▸ List.prefix_refl _)

end Nearest

/-! ## §4 The search -/

/-- The file that the search from `start` finds, where a file is there or not by its place alone. -/
def located (isFile : Place → Bool) (current : Place) (start : Path) : Option Place :=
  (Id.run (find? (fun p => pure (isFile (p.resolve current))) start)).map (·.resolve current)

/-- The first configuration next to one of the paths. -/
def firstOf (isFile : Place → Bool) (current : Place) (dirs : List Path) : Option Place :=
  ((dirs.map (·.child fileName)).find? fun p => isFile (p.resolve current)).map (·.resolve current)

/-- The search asks for one candidate after the other, as a search in a list does. -/
theorem located_eq (isFile : Place → Bool) (current : Place) (start : Path) :
    located isFile current start = firstOf isFile current start.ancestors := by
  have hfirst : ∀ paths : List Path,
      Id.run (firstM (fun p => pure (isFile (p.resolve current))) paths) =
        paths.find? fun p => isFile (p.resolve current) := by
    intro paths
    induction paths with
    | nil => rfl
    | cons p paths ih =>
      rw [firstM, List.find?_cons]
      cases isFile (p.resolve current) with
      | false => exact ih
      | true => rfl
  unfold located find? candidates firstOf
  rw [hfirst]

section
variable (isFile : Place → Bool) (current : Place)

/-- The candidate of a directory is the file with the fixed name in it. -/
theorem firstOf_cons {p : Path} (h : p.Descends) (dirs : List Path) :
    firstOf isFile current (p :: dirs) =
      if isFile (inDirectory (p.origin current ++ p.names)) then
        some (inDirectory (p.origin current ++ p.names))
      else firstOf isFile current dirs := by
  have hchild : (p.child fileName).resolve current =
      inDirectory (p.origin current ++ p.names) := by
    rw [Path.resolve_child (by decide) (by decide), Path.resolve_eq h]
    rfl
  unfold firstOf
  rw [List.map_cons, List.find?_cons, hchild]
  cases isFile (inDirectory (p.origin current ++ p.names)) with
  | false => rfl
  | true => exact congrArg some hchild

/-- A path without names decides alone. -/
theorem nearest_alone {p : Path} (hdescends : p.Descends) (hnames : p.names = []) :
    Nearest isFile (p.origin current) (p.origin current ++ p.names)
      (firstOf isFile current [p]) := by
  rw [firstOf_cons isFile current hdescends, hnames, List.append_nil]
  split
  · next hthere => exact Nearest.here (List.prefix_refl _) hthere
  · next hmissing => exact Nearest.none_of_top (Bool.eq_false_iff.2 hmissing)

/-- **The search climbs to where the path starts from**, and no further. -/
theorem nearest_ancestors {count : Nat} {p : Path} (hdescends : p.Descends)
    (hcount : p.names.length ≤ count) :
    Nearest isFile (p.origin current) (p.origin current ++ p.names)
      (firstOf isFile current (p.ancestorsUpTo count)) := by
  induction count generalizing p with
  | zero =>
    have hnames : p.names = [] := List.eq_nil_of_length_eq_zero (Nat.le_zero.1 hcount)
    exact nearest_alone isFile current hdescends hnames
  | succ count ih =>
    rw [Path.ancestorsUpTo]
    by_cases hnames : p.names = []
    · rw [Path.parent?_of_names_eq_nil hnames]
      by_cases hanchor : p.anchor = .here
      · -- the dot has the empty path as its parent, which leads to the same place
        have horigin : p.origin current = current := by simp [Path.origin, hanchor]
        have hrest := ih (p := ⟨.nothing, []⟩) (by simp [Path.Descends]) (Nat.zero_le _)
        rw [if_pos hanchor]
        simp only
        rw [firstOf_cons isFile current hdescends, horigin, hnames, List.append_nil]
        split
        · next hthere => exact Nearest.here (List.prefix_refl _) hthere
        · simpa [Path.origin, Path.names] using hrest
      · rw [if_neg hanchor]
        exact nearest_alone isFile current hdescends hnames
    · -- the parent lacks the last name
      obtain ⟨q, hparent, hanchor, hq, hqdescends⟩ := Path.exists_parent hnames
      have horigin : q.origin current = p.origin current := by simp [Path.origin, hanchor]
      have hlength : q.names.length ≤ count := by
        rw [hq, List.length_dropLast]
        omega
      have hrest := ih (hqdescends hdescends) hlength
      rw [horigin] at hrest
      rw [hparent]
      simp only
      rw [firstOf_cons isFile current hdescends]
      split
      · next hthere => exact Nearest.here (List.prefix_append _ _) hthere
      · next hmissing =>
        have hsplit : p.origin current ++ p.names =
            (p.origin current ++ q.names) ++ [p.names.getLast hnames] := by
          rw [hq, List.append_assoc, List.dropLast_concat_getLast]
        rw [hsplit] at hmissing ⊢
        exact hrest.climb (Bool.eq_false_iff.2 hmissing)

/-- From the directory of a program the search goes up to where the path of the program starts from. -/
theorem nearest_located {p : Path} (hnames : p.names ≠ []) (hdescends : p.Descends) :
    Nearest isFile (p.origin current) (p.origin current ++ p.names.dropLast)
      (located isFile current p.directory) := by
  obtain ⟨hdirectory, hdropped, horigin⟩ := Path.directory_spec hnames hdescends
  have hcount : p.directory.names.length ≤ p.directory.segments.length + 1 :=
    Nat.le_succ_of_le (List.length_filter_le _ _)
  have hnearest := nearest_ancestors isFile current hdirectory hcount
  rw [horigin, hdropped] at hnearest
  rw [located_eq]
  exact hnearest

end

end Config

/-! ## §5 Relative and absolute paths -/

namespace Path

/-- A name of a directory: it means something and does not lead back. -/
def IsName (s : List Char) : Prop := isIdle s = false ∧ s ≠ ['.', '.']

/-- The absolute path of a relative one, as written behind the current directory. -/
def absolute (current : Place) (p : Path) : Path := ⟨.root, current ++ p.segments⟩

theorem names_absolute {current : Place} (h : ∀ s ∈ current, IsName s) (p : Path) :
    (p.absolute current).names = current ++ p.names := by
  have hcurrent : current.filter (fun s => !isIdle s) = current :=
    List.filter_eq_self.2 fun s hs => by simp [(h s hs).1]
  rw [names, absolute, List.filter_append, hcurrent]
  rfl

theorem descends_absolute {current : Place} (h : ∀ s ∈ current, IsName s) {p : Path}
    (hp : p.Descends) : (p.absolute current).Descends := by
  intro s hs
  rcases List.mem_append.1 hs with hs | hs
  · exact (h s hs).2
  · exact hp s hs

end Path

namespace Config

/-- **A relative path hides what lies above the current directory.** Let a program be named by a
relative path that does not lead back. Under its absolute path the search finds the nearest
configuration from the directory of the program up to the root; under the path as given, the nearest one
up to the current directory. The two agree exactly if there is a configuration in the current directory
or below, or none above it. -/
theorem search_ends_at_current {current : Place} (hcurrent : ∀ s ∈ current, Path.IsName s)
    {program : Path} (hrelative : program.anchor = .nothing) (hnames : program.names ≠ [])
    (hdescends : program.Descends) (isFile : Place → Bool) :
    Nearest isFile current (current ++ program.names.dropLast)
        (located isFile current program.directory) ∧
      Nearest isFile [] (current ++ program.names.dropLast)
        (located isFile current (program.absolute current).directory) ∧
      (located isFile current program.directory =
          located isFile current (program.absolute current).directory ↔
        (∃ d, current <+: d ∧ d <+: current ++ program.names.dropLast ∧
            isFile (inDirectory d) = true) ∨
          ∀ d, d <+: current → d ≠ current → isFile (inDirectory d) = false) := by
  have hgiven := nearest_located isFile current hnames hdescends
  have horigin : program.origin current = current := by simp [Path.origin, hrelative]
  rw [horigin] at hgiven
  -- the absolute path starts at the root and has the names of the current directory in front
  have habsolute : (program.absolute current).names = current ++ program.names :=
    Path.names_absolute hcurrent program
  have hfull := nearest_located isFile current (p := program.absolute current)
    (by simp [habsolute, hnames]) (Path.descends_absolute hcurrent hdescends)
  rw [habsolute, List.dropLast_append_of_ne_nil hnames] at hfull
  exact ⟨hgiven, hfull, hgiven.eq_iff (List.prefix_append _ _) hfull⟩

/-- Of two configurations, in the current directory and above it, both ways to name a program further
down find the nearer one. -/
theorem search_from_work :
    Path.ofString "/home/me/work//main.json" =
        (Path.ofString "work//main.json").absolute ["home".toList, "me".toList] ∧
      (∀ s ∈ ["home".toList, "me".toList], Path.IsName s) ∧
      (Path.ofString "work//main.json").anchor = .nothing ∧
      (Path.ofString "work//main.json").names ≠ [] ∧ (Path.ofString "work//main.json").Descends ∧
      located (fun p => decide (p.length ≤ 3 ∧ p.getLast? = some fileName.toList))
          ["home".toList, "me".toList] (Path.ofString "work//main.json").directory =
        located (fun p => decide (p.length ≤ 3 ∧ p.getLast? = some fileName.toList))
          ["home".toList, "me".toList] (Path.ofString "/home/me/work//main.json").directory := by
  have hcurrent : ∀ s ∈ ["home".toList, "me".toList], Path.IsName s := by
    unfold Path.IsName
    decide
  have hdescends : (Path.ofString "work//main.json").Descends := by
    unfold Path.Descends
    decide
  have hnames : (Path.ofString "work//main.json").names ≠ [] := by decide
  refine ⟨by decide, hcurrent, rfl, hnames, hdescends, ?_⟩
  have hsearch := search_ends_at_current hcurrent rfl hnames hdescends
    fun p => decide (p.length ≤ 3 ∧ p.getLast? = some fileName.toList)
  -- the current directory itself has a configuration
  refine hsearch.2.2.2 (Or.inl ⟨_, List.prefix_refl _, List.prefix_append _ _, by decide⟩)

/-- The only configuration lies above the current directory: it is found for the absolute path of the
program and not for the relative one. -/
theorem search_misses_above :
    Path.ofString "/home/main.json" = (Path.ofString "main.json").absolute ["home".toList] ∧
      located (fun p => p == [fileName.toList]) ["home".toList]
        (Path.ofString "/home/main.json").directory = some [fileName.toList] ∧
      located (fun p => p == [fileName.toList]) ["home".toList]
        (Path.ofString "main.json").directory = none := by
  decide

end Config

end Typestate
