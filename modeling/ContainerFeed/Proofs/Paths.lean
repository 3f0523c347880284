import ContainerFeed.Path
import Mathlib.Data.List.TakeWhile
import Mathlib.Tactic.Set

/-!
# Paths as lists of steps

Operations on documents take a path apart in two ways: into all of its steps, or into a parent
and a last step. This file proves that both describe the same address, however the slashes are
placed, and that the path of a child adds the steps of the child to those of its parent.
-/

namespace ContainerFeed.Path

/-- The steps that a list of characters spells. -/
def steps (chars : List Char) : List String :=
  ((chars.splitOn '/').filter (fun piece => piece ≠ [])).map String.ofList

/-- The steps of a path are those that its characters spell. -/
theorem segments_eq_steps (path : String) : segments path = steps path.toList := rfl

/-- No characters spell no steps. -/
@[simp]
theorem steps_nil : steps [] = [] := rfl

/-- The root has no steps. -/
@[simp]
theorem segments_root : segments root = [] := rfl

/-- The root is its own parent, and its last step is empty. -/
@[simp]
theorem parentAndLeaf_root : parentAndLeaf root = (root, "") := by
  decide +kernel

/-- A slash separates: the steps before it and those after it do not influence each other. -/
theorem steps_append_slash (before after : List Char) :
    steps (before ++ '/' :: after) = steps before ++ steps after := by
  have hsplit : (before ++ '/' :: after).splitOn '/' =
      before.splitOn '/' ++ after.splitOn '/' :=
    List.splitOnP_append_cons before after (by simp)
  simp only [steps, hsplit, List.filter_append, List.map_append]

/-- Slashes at the end of a path change nothing. -/
theorem steps_append_slashes (chars slashes : List Char) (h : ∀ c ∈ slashes, c = '/') :
    steps (chars ++ slashes) = steps chars := by
  induction slashes generalizing chars with
  | nil => simp
  | cons c rest ih =>
    obtain rfl : c = '/' := h c (by simp)
    have hrest := ih [] fun d hd => h d (by simp [hd])
    rw [List.nil_append, steps_nil] at hrest
    rw [steps_append_slash, hrest, List.append_nil]

/-- A non-empty text without slashes is one step. -/
theorem steps_of_slash_not_mem {chars : List Char} (hslash : '/' ∉ chars) (hne : chars ≠ []) :
    steps chars = [String.ofList chars] := by
  have hsplit : chars.splitOn '/' = [chars] := by
    apply List.splitOnP_eq_singleton
    intro c hc
    have hc' : c ≠ '/' := fun heq => hslash (heq ▸ hc)
    simpa using hc'
  simp [steps, hsplit, hne]

/-- A key that a document may use without confusion: not empty and without slashes. -/
def PlainStep (step : String) : Prop :=
  step ≠ "" ∧ '/' ∉ step.toList

/-- A plain step is a path of one step. -/
theorem PlainStep.segments {step : String} (h : PlainStep step) : segments step = [step] := by
  have hne : step.toList ≠ [] := fun heq => h.1 (by simpa using heq)
  rw [segments_eq_steps, steps_of_slash_not_mem h.2 hne, String.ofList_toList]

/-- No piece of a text between slashes holds a slash. -/
private theorem slash_not_mem_of_mem_splitOn {chars piece : List Char}
    (h : piece ∈ chars.splitOn '/') : '/' ∉ piece := by
  induction chars generalizing piece with
  | nil =>
    obtain rfl : piece = [] := List.mem_singleton.mp h
    simp
  | cons c rest ih =>
    rw [List.splitOn_cons_eq_if_modifyHead] at h
    split at h
    · rcases List.mem_cons.mp h with rfl | h
      · simp
      · exact ih h
    · rename_i hc
      obtain ⟨first, others, hsplit⟩ := List.exists_cons_of_ne_nil (List.splitOn_ne_nil '/' rest)
      rw [hsplit, List.modifyHead_cons] at h
      rw [hsplit, List.forall_mem_cons] at ih
      rcases List.mem_cons.mp h with rfl | h
      · rw [List.mem_cons, not_or]
        exact ⟨fun heq => hc (by simp [← heq]), ih.1⟩
      · exact ih.2 piece h

/-- The steps that are spelt are neither empty nor hold a slash. -/
theorem plainStep_of_mem_steps {chars : List Char} {step : String} (h : step ∈ steps chars) :
    PlainStep step := by
  obtain ⟨piece, hpiece, rfl⟩ := List.mem_map.mp h
  obtain ⟨hsplit, hne⟩ := List.mem_filter.mp hpiece
  exact ⟨by simpa using hne, by simpa using slash_not_mem_of_mem_splitOn hsplit⟩

/-- A slash between two paths separates the steps of one from those of the other. -/
theorem segments_append_slash (before after : String) :
    segments (before ++ "/" ++ after) = segments before ++ segments after := by
  have hslash : "/".toList = ['/'] := rfl
  simp only [segments_eq_steps, String.toList_append, hslash, List.append_assoc,
    List.singleton_append, steps_append_slash]

/-- The path of a child has the steps of the parent and then those of the child. -/
theorem segments_join (parent child : String) :
    segments (join parent child) = segments parent ++ segments child := by
  unfold join
  split
  case isTrue hend =>
    have hlast : parent.toList.getLast? = some '/' := by simpa [endsWithSlash] using hend
    obtain ⟨front, hfront⟩ := List.getLast?_eq_some_iff.mp hlast
    simp only [segments_eq_steps]
    rw [String.toList_append, hfront, List.append_assoc, List.singleton_append,
      steps_append_slash, steps_append_slash]
    simp
  case isFalse => exact segments_append_slash parent child

/-- A path spells the steps that have been joined to it. -/
theorem segments_foldl_join {below : List String} (h : ∀ step ∈ below, PlainStep step)
    (path : String) : segments (below.foldl join path) = segments path ++ below := by
  induction below generalizing path with
  | nil => simp
  | cons step below ih =>
    obtain ⟨hstep, hbelow⟩ := List.forall_mem_cons.mp h
    rw [List.foldl_cons, ih hbelow, segments_join, hstep.segments, List.append_assoc,
      List.singleton_append]

/-- What a path ends with, read backwards: the last step, and before it nothing or a slash and
the parent. -/
private theorem steps_of_reverse_parts {chars leaf tail : List Char}
    (hparts : chars.reverse.dropWhile (· == '/') = leaf ++ tail)
    (htail : tail = [] ∨ tail = '/' :: tail.drop 1) :
    steps chars = steps (tail.drop 1).reverse ++ steps leaf.reverse := by
  have hchars : chars = (leaf ++ tail).reverse ++
      (chars.reverse.takeWhile (· == '/')).reverse := by
    rw [← hparts, ← List.reverse_append, List.takeWhile_append_dropWhile, List.reverse_reverse]
  have hslashes : ∀ c ∈ (chars.reverse.takeWhile (· == '/')).reverse, c = '/' := by
    intro c hc
    simpa using List.mem_takeWhile_imp (List.mem_reverse.mp hc)
  rw [hchars, steps_append_slashes _ _ hslashes]
  rcases htail with rfl | hslash
  · simp
  · rw [hslash, List.reverse_append, List.reverse_cons, List.append_assoc,
      List.singleton_append, steps_append_slash]
    rfl

private theorem dropWhile_ne_slash_cases (chars : List Char) :
    chars.dropWhile (· != '/') = [] ∨
      chars.dropWhile (· != '/') = '/' :: (chars.dropWhile (· != '/')).drop 1 := by
  have hhead := List.head?_dropWhile_not (· != '/') chars
  cases hcase : chars.dropWhile (· != '/') with
  | nil => exact Or.inl rfl
  | cons c rest =>
    rw [hcase] at hhead
    right
    simpa using hhead

/-- Past the slashes at its beginning a text is over, or a step begins. -/
private theorem takeWhile_ne_slash_eq_nil {chars : List Char}
    (h : (chars.dropWhile (· == '/')).takeWhile (· != '/') = []) :
    chars.dropWhile (· == '/') = [] := by
  have hhead := List.head?_dropWhile_not (· == '/') chars
  cases hcase : chars.dropWhile (· == '/') with
  | nil => rfl
  | cons c rest =>
    rw [hcase] at hhead h
    have hc : c ≠ '/' := by simpa using hhead
    simp [hc] at h

/-- The last step is what stands behind the last slash that is not at the end. -/
private theorem parentAndLeaf_snd (path : String) :
    (parentAndLeaf path).2 = String.ofList
      ((path.toList.reverse.dropWhile (· == '/')).takeWhile (· != '/')).reverse := by
  unfold parentAndLeaf
  dsimp only
  split <;> rfl

/-- Splitting off the last step agrees with splitting into all steps. Only a path without steps
has an empty last step. -/
theorem segments_parentAndLeaf (path : String) :
    (parentAndLeaf path).2 = "" ∧ segments path = [] ∨
      (parentAndLeaf path).2 ≠ "" ∧
        segments path = segments (parentAndLeaf path).1 ++ [(parentAndLeaf path).2] := by
  set backwards := path.toList.reverse.dropWhile (· == '/') with hbackwards
  set leaf := backwards.takeWhile (· != '/') with hleaf
  set tail := backwards.dropWhile (· != '/') with htail
  have hsteps : segments path = steps (tail.drop 1).reverse ++ steps leaf.reverse :=
    steps_of_reverse_parts (List.takeWhile_append_dropWhile.symm)
      (dropWhile_ne_slash_cases backwards)
  have hlast : (parentAndLeaf path).2 = String.ofList leaf.reverse := parentAndLeaf_snd path
  have hparent : segments (parentAndLeaf path).1 = steps (tail.drop 1).reverse := by
    unfold parentAndLeaf
    simp only [← hbackwards, ← htail]
    split
    case h_1 hnil => simp [hnil]
    case h_2 => rw [segments_eq_steps, String.toList_ofList]
  rw [hparent, hlast, hsteps]
  by_cases hempty : leaf = []
  · left
    have hnone : backwards = [] := takeWhile_ne_slash_eq_nil hempty
    have htailNil : tail = [] := by rw [htail, hnone]; rfl
    simp [hempty, htailNil]
  · right
    have hslash : '/' ∉ leaf.reverse := by
      intro hmem
      have := List.mem_takeWhile_imp (List.mem_reverse.mp hmem)
      simp at this
    rw [steps_of_slash_not_mem hslash (by simpa using hempty)]
    simpa using hempty

/-- A path without steps is taken apart like the root. -/
theorem parentAndLeaf_of_segments_eq_nil {path : String} (h : segments path = []) :
    parentAndLeaf path = (root, "") := by
  have hlast : (parentAndLeaf path).2 = "" := by
    rcases segments_parentAndLeaf path with ⟨hempty, _⟩ | ⟨_, hsteps⟩
    · exact hempty
    · simp [h] at hsteps
  rw [parentAndLeaf_snd] at hlast
  have hnone : path.toList.reverse.dropWhile (· == '/') = [] :=
    takeWhile_ne_slash_eq_nil (by simpa using congrArg String.toList hlast)
  simp [parentAndLeaf, hnone]

/-- The last step of a path that has steps, and the steps of its parent. -/
theorem parentAndLeaf_of_segments_eq_concat {path last : String} {front : List String}
    (h : segments path = front ++ [last]) :
    (parentAndLeaf path).2 = last ∧ segments (parentAndLeaf path).1 = front := by
  rcases segments_parentAndLeaf path with ⟨_, hnone⟩ | ⟨_, hsteps⟩
  · simp [hnone] at h
  · obtain ⟨hfront, hlast⟩ := List.append_inj' (hsteps.symm.trans h) rfl
    exact ⟨List.singleton_inj.mp hlast, hfront⟩

/-- Splitting off the last step, splitting into all steps and joining a child describe the same
address, however many slashes stand at the beginning, between the steps or at the end. -/
theorem splits_agree (path : String) :
    (segments path ≠ [] →
      PlainStep (parentAndLeaf path).2 ∧
        segments (parentAndLeaf path).1 ++ [(parentAndLeaf path).2] = segments path) ∧
    (segments path = [] → parentAndLeaf path = (root, "")) ∧
    ∀ child, PlainStep child →
      segments (join path child) = segments path ++ [child] ∧
        (parentAndLeaf (join path child)).2 = child ∧
        segments (parentAndLeaf (join path child)).1 = segments path := by
  refine ⟨?_, parentAndLeaf_of_segments_eq_nil, ?_⟩
  · intro hsome
    rcases segments_parentAndLeaf path with ⟨_, hnone⟩ | ⟨_, hsteps⟩
    · exact absurd hnone hsome
    · have hlast : (parentAndLeaf path).2 ∈ segments path := by
        rw [hsteps]
        exact List.mem_append_right _ List.mem_cons_self
      exact ⟨plainStep_of_mem_steps hlast, hsteps.symm⟩
  · intro child hchild
    have hjoin : segments (join path child) = segments path ++ [child] := by
      rw [segments_join, hchild.segments]
    exact ⟨hjoin, parentAndLeaf_of_segments_eq_concat hjoin⟩

/-- A path with slashes wherever they can stand, and one with slashes only. -/
theorem splits_agree_crowded :
    let path := "//network///interfaces/0//"
    (segments path ≠ [] ∧ PlainStep (parentAndLeaf path).2 ∧
      segments (parentAndLeaf path).1 ++ [(parentAndLeaf path).2] = segments path) ∧
    (segments "///" = [] ∧ parentAndLeaf "///" = (root, "")) ∧
    PlainStep "name" ∧ segments (join path "name") = segments path ++ ["name"] ∧
      (parentAndLeaf (join path "name")).2 = "name" ∧
      segments (parentAndLeaf (join path "name")).1 = segments path := by
  have hsome : segments "//network///interfaces/0//" ≠ [] := by decide +kernel
  have hnone : segments "///" = [] := by decide +kernel
  have hname : PlainStep "name" := ⟨by decide, by decide⟩
  exact ⟨⟨hsome, (splits_agree _).1 hsome⟩, ⟨hnone, (splits_agree _).2.1 hnone⟩, hname,
    (splits_agree _).2.2 _ hname⟩

end ContainerFeed.Path
