import ContainerFeed.Proofs.Document.Edits
import ContainerFeed.Proofs.Outcomes

/-!
# Writing and removing as edits

Writing at a path and removing at a path are edits at the place that the path names. A write
succeeds exactly where the place can be written, and the written node is found there afterwards.
-/

namespace ContainerFeed.Node

-- The steps of a path are only ever compared, never computed, in this file.
attribute [local irreducible] Path.segments Path.parentAndLeaf

/-- One step leads to a child. -/
@[simp]
theorem follow?_singleton (node : Node) (step : String) :
    node.follow? [step] = node.child? step := by
  simp only [follow?]
  cases node.child? step <;> rfl

/-- A node is found at a path when the steps of the path lead to it. -/
theorem seek_eq_ok_iff {document node : Node} {path : String} :
    document.seek path = .ok node ↔ document.follow? (Path.segments path) = some node := by
  unfold seek
  cases document.follow? (Path.segments path) <;> simp

/-- Where the steps of a path do not lead, the path is reported as not found. -/
theorem seek_of_follow?_eq_none {document : Node} {path : String}
    (h : document.follow? (Path.segments path) = none) :
    document.seek path = .error (.notFound path) := by
  simp [seek, h]

/-- A place below other steps can be written where these lead to a container with room. -/
theorem accepts_append_singleton {node : Node} {p : List String} {last : String} :
    node.Accepts (p ++ [last]) ↔ ∃ inner, node.follow? p = some inner ∧ inner.Takes last := by
  induction p generalizing node with
  | nil => simp [Accepts, follow?]
  | cons s p ih =>
    simp only [List.cons_append, Accepts, follow?]
    constructor
    · rintro ⟨_, hinner⟩
      obtain ⟨child, hchild, haccepts⟩ := hinner (by simp)
      simpa [hchild] using ih.mp haccepts
    · rintro ⟨inner, hfollow, htakes⟩
      cases hchild : node.child? s with
      | none => simp [hchild] at hfollow
      | some child =>
        refine ⟨takes_of_child? hchild, fun _ => ⟨child, rfl, ih.mpr ⟨inner, ?_, htakes⟩⟩⟩
        simpa [hchild] using hfollow

section

variable {α : Type} {edit : Node → Except PathError (α × Node)}

/-- An edit at the end of some steps succeeds where the steps lead to a node that allows it. -/
theorem exists_editAt_iff (missing : PathError) {node : Node} {p : List String} :
    (∃ result, node.editAt missing edit p = .ok result) ↔
      ∃ inner, node.follow? p = some inner ∧ ∃ result, edit inner = .ok result := by
  induction p generalizing node with
  | nil => simp [editAt, follow?]
  | cons s p ih =>
    cases hchild : node.child? s with
    | none => simp [editAt, follow?, hchild]
    | some child =>
      simp only [follow?, hchild, ← ih]
      cases hedit : child.editAt missing edit p <;> simp [editAt, hchild, hedit]

/-- If the edit changes one entry of its container, then so does the edit at the end of some
steps, and it is the edited container that stands there afterwards. -/
theorem editedAt_of_editAt {missing : PathError} (last : String)
    (hentry : ∀ {inner result edited}, edit inner = .ok (result, edited) →
      EditedAt [last] inner edited)
    {node : Node} {p : List String} {result : α} {new : Node}
    (h : node.editAt missing edit p = .ok (result, new)) :
    EditedAt (p ++ [last]) node new ∧
      ∃ inner edited, node.follow? p = some inner ∧ edit inner = .ok (result, edited) ∧
        new.follow? p = some edited := by
  induction p generalizing node new with
  | nil => exact ⟨hentry h, node, new, rfl, h, rfl⟩
  | cons s p ih =>
    cases hchild : node.child? s with
    | none => simp [editAt, hchild] at h
    | some child =>
      cases hedit : child.editAt missing edit p with
      | error e => simp [editAt, hchild, hedit] at h
      | ok pair =>
        obtain ⟨result', below⟩ := pair
        obtain ⟨rfl, rfl⟩ : result' = result ∧ node.putChild s below = new := by
          simpa [editAt, hchild, hedit] using h
        have hput := child?_putChild_self hchild below
        obtain ⟨hbelow, inner, edited, hinner, hok, hedited⟩ := ih hedit
        refine ⟨⟨sameShape_putChild node s below, ?_, fun _ => ?_⟩, inner, edited, ?_, hok, ?_⟩
        · exact fun t ht => child?_putChild_of_not_sameChild ht below
        · exact ⟨child, below, hchild, hput, hbelow⟩
        · simpa [follow?, hchild] using hinner
        · simpa [follow?, hput] using hedited

end

/-! ## Entering and withdrawing -/

private theorem editedAt_list_set {items : List Node} {last : String} {index : Nat}
    (h : indexWithin? items last = some index) (value : Node) :
    EditedAt [last] (.list items) (.list (items.set index value)) ∧
      (Node.list (items.set index value)).child? last = some value := by
  obtain ⟨hread, hlt⟩ := indexWithin?_eq_some_iff.mp h
  refine ⟨⟨by simp [SameShape], fun t ht => ?_, by simp⟩, by simp [child?, hread, hlt]⟩
  cases hother : Text.readIndex? t with
  | none => simp [child?, hother]
  | some j =>
    have hne : index ≠ j := by
      rintro rfl
      exact ht (by simp [SameChild, hread, hother])
    simp [child?, hother, hne]

/-- Entering a value succeeds where there is room, and changes only the entry of the value. -/
theorem enter_eq_ok {path parent last : String} {value inner edited : Node}
    (h : enter path parent last value inner = .ok ((), edited)) :
    EditedAt [last] inner edited ∧ edited.child? last = some value := by
  cases inner with
  | map fields =>
    obtain rfl : Node.map (Keyed.insert last value fields) = edited := by simpa [enter] using h
    refine ⟨⟨trivial, fun t ht => ?_, by simp⟩, by simp [child?]⟩
    have hne : t ≠ last := fun heq => ht heq.symm
    simp [child?, Keyed.get?_insert_of_ne value fields hne]
  | leaf scalar => simp [enter] at h
  | list items =>
    cases hindex : indexWithin? items last with
    | none => simp [enter, hindex] at h
    | some index =>
      obtain rfl : Node.list (items.set index value) = edited := by
        simpa [enter, hindex] using h
      exact editedAt_list_set hindex value

/-- Withdrawing an entry changes only that entry: it is gone from a map, and null in a list. -/
theorem withdraw_eq_ok {path parent last : String} {inner edited : Node} {old : Option Node}
    (h : withdraw path parent last inner = .ok (old, edited)) :
    EditedAt [last] inner edited ∧
      edited.child? last = if inner.isMap then none else some (.leaf .null) := by
  cases inner with
  | map fields =>
    obtain ⟨_, rfl⟩ : Keyed.get? last fields = old ∧
        Node.map (Keyed.erase last fields) = edited := by simpa [withdraw] using h
    refine ⟨⟨trivial, fun t ht => ?_, by simp⟩, by simp [child?, isMap]⟩
    have hne : t ≠ last := fun heq => ht heq.symm
    simp [child?, Keyed.get?_erase_of_ne fields hne]
  | leaf scalar => simp [withdraw] at h
  | list items =>
    cases hindex : indexWithin? items last with
    | none => simp [withdraw, hindex] at h
    | some index =>
      obtain ⟨_, rfl⟩ : items[index]? = old ∧
          Node.list (items.set index (.leaf .null)) = edited := by
        simpa [withdraw, hindex] using h
      simpa [isMap] using editedAt_list_set hindex (.leaf .null)

/-! ## Writing -/

/-- The document itself is replaced at a path without steps. -/
theorem set_of_segments_eq_nil {path : String} (h : Path.segments path = []) (old value : Node) :
    old.set path value = .ok value := by
  rcases Path.segments_parentAndLeaf path with ⟨hlast, _⟩ | ⟨_, hsegments⟩
  · simp [set, hlast]
  · simp [h] at hsegments

/-- Below the root a write enters its value where the steps to the parent lead. -/
theorem set_eq_of_last {path : String} (h : (Path.parentAndLeaf path).2 ≠ "")
    (old value : Node) :
    old.set path value =
      (old.editAt (.notFound (Path.parentAndLeaf path).1)
        (enter path (Path.parentAndLeaf path).1 (Path.parentAndLeaf path).2 value)
        (Path.segments (Path.parentAndLeaf path).1)).map Prod.snd := by
  simp only [set, if_neg h]

private theorem exists_enter_iff (path parent last : String) (value : Node) {inner : Node} :
    (∃ result, enter path parent last value inner = .ok result) ↔ inner.Takes last := by
  cases inner with
  | map fields => simp [enter, Takes]
  | leaf scalar => simp [enter, Takes]
  | list items => cases hindex : indexWithin? items last <;> simp [enter, Takes, hindex]

/-- A write succeeds exactly where the place can be written. -/
theorem exists_set_iff {old value : Node} {path : String} :
    (∃ new, old.set path value = .ok new) ↔ old.Accepts (Path.segments path) := by
  rcases Path.segments_parentAndLeaf path with ⟨hlast, hnil⟩ | ⟨hlast, hsegments⟩
  · simp [set_of_segments_eq_nil hnil, hnil, Accepts]
  · rw [hsegments, accepts_append_singleton, set_eq_of_last hlast]
    simp only [← exists_enter_iff path (Path.parentAndLeaf path).1 _ value,
      ← exists_editAt_iff (.notFound (Path.parentAndLeaf path).1)]
    cases old.editAt (.notFound (Path.parentAndLeaf path).1) _ _ <;> simp [Except.map]

/-- A place that can be written is written. -/
theorem Accepts.exists_set {old : Node} {path : String} (h : old.Accepts (Path.segments path))
    (value : Node) : ∃ new, old.set path value = .ok new :=
  exists_set_iff.mpr h

/-- A write below the root is an edit at its place. -/
theorem editedAt_of_set {old value new : Node} {path : String}
    (h : old.set path value = .ok new) (hpath : Path.segments path ≠ []) :
    EditedAt (Path.segments path) old new ∧ new.follow? (Path.segments path) = some value := by
  rcases Path.segments_parentAndLeaf path with ⟨_, hnil⟩ | ⟨hlast, hsegments⟩
  · exact absurd hnil hpath
  · rw [set_eq_of_last hlast] at h
    cases hedit : old.editAt (.notFound (Path.parentAndLeaf path).1)
        (enter path (Path.parentAndLeaf path).1 (Path.parentAndLeaf path).2 value)
        (Path.segments (Path.parentAndLeaf path).1) with
    | error e => simp [hedit, Except.map] at h
    | ok pair =>
      obtain ⟨⟨⟩, new'⟩ := pair
      obtain rfl : new' = new := by simpa [hedit, Except.map] using h
      obtain ⟨hedited, inner, edited, _, hok, hfollow⟩ :=
        editedAt_of_editAt (Path.parentAndLeaf path).2 (fun hok => (enter_eq_ok hok).1) hedit
      rw [hsegments]
      refine ⟨hedited, ?_⟩
      rw [follow?_append, hfollow]
      simpa using (enter_eq_ok hok).2

/-- The written node stands at its place. -/
theorem follow?_of_set {old value new : Node} {path : String}
    (h : old.set path value = .ok new) : new.follow? (Path.segments path) = some value := by
  by_cases hpath : Path.segments path = []
  · rw [set_of_segments_eq_nil hpath] at h
    obtain rfl : value = new := by simpa using h
    rw [hpath]
    rfl
  · exact (editedAt_of_set h hpath).2

/-- Writing a leaf leaves a leaf at its place, and changes nothing else. -/
theorem leafEdit_of_set {old new : Node} {value : Scalar} {path : String}
    (h : old.set path (.leaf value) = .ok new) (hpath : Path.segments path ≠ []) :
    LeafEdit (Path.segments path) old new := by
  obtain ⟨hedited, hfollow⟩ := editedAt_of_set h hpath
  refine ⟨hedited, fun inner hinner => ⟨value, ?_⟩⟩
  exact (Option.some.inj (hfollow.symm.trans hinner)).symm

/-- A write keeps the way to every place that it does not lie above. -/
theorem sameWay_of_set {old value new : Node} {path : String} {p : List String}
    (h : old.set path value = .ok new) (haccepts : old.Accepts p)
    (hnot : ¬ old.Above (Path.segments path) p) : SameWay p old new := by
  by_cases hpath : Path.segments path = []
  · obtain rfl : p = [] := by simpa [hpath, Above] using hnot
    trivial
  · exact (editedAt_of_set h hpath).1.sameWay haccepts hnot

/-- A place that can be written after a leaf has been written could be written before, and the
way there is the same. -/
theorem sameWay_of_set_leaf {old new : Node} {value : Scalar} {path : String} {p : List String}
    (h : old.set path (.leaf value) = .ok new) (haccepts : new.Accepts p) :
    SameWay p old new := by
  by_cases hpath : Path.segments path = []
  · rw [set_of_segments_eq_nil hpath] at h
    obtain rfl : Node.leaf value = new := by simpa using h
    cases p with
    | nil => trivial
    | cons => exact haccepts.1.elim
  · exact (leafEdit_of_set h hpath).sameWay_of_accepts haccepts

/-- After a leaf has been written, exactly those places can be written that could be written
before and that the leaf does not lie above. -/
theorem accepts_iff_of_set_leaf {old new : Node} {value : Scalar} {path : String}
    {p : List String} (h : old.set path (.leaf value) = .ok new) :
    new.Accepts p ↔ old.Accepts p ∧ ¬ old.Above (Path.segments path) p := by
  constructor
  · intro haccepts
    have hway := sameWay_of_set_leaf h haccepts
    exact ⟨hway.symm.accepts haccepts, fun habove =>
      (hway.above habove).follow?_ne_leaf haccepts (follow?_of_set h)⟩
  · rintro ⟨haccepts, hnot⟩
    exact (sameWay_of_set h haccepts hnot).accepts haccepts

/-- What a node has been replaced with stands in its place. -/
theorem follow?_of_replace {document value old new : Node} {path : String}
    (h : document.replace path value = .ok (old, new)) :
    new.follow? (Path.segments path) = some value := by
  unfold replace at h
  generalize Path.segments path = p at h ⊢
  induction p generalizing document new with
  | nil =>
    obtain ⟨_, rfl⟩ : document = old ∧ value = new := by simpa [editAt] using h
    rfl
  | cons s p ih =>
    cases hchild : document.child? s with
    | none => simp [editAt, hchild] at h
    | some child =>
      cases hedit : child.editAt (.notFound path) (fun old => .ok (old, value)) p with
      | error e => simp [editAt, hchild, hedit] at h
      | ok pair =>
        obtain ⟨found, edited⟩ := pair
        obtain ⟨rfl, rfl⟩ : found = old ∧ document.putChild s edited = new := by
          simpa [editAt, hchild, hedit] using h
        rw [follow?, child?_putChild_self hchild edited]
        exact ih hedit

/-- Where there is a child, a value is entered in its place. -/
theorem enter_of_child? {node child : Node} {last : String} (h : node.child? last = some child)
    (path parent : String) (value : Node) :
    enter path parent last value node = .ok ((), node.putChild last value) := by
  cases node with
  | map fields => rfl
  | leaf scalar => simp [child?] at h
  | list items =>
    obtain ⟨index, hread, hitem⟩ := Option.bind_eq_some_iff.mp h
    have hindex : indexWithin? items last = some index :=
      indexWithin?_eq_some_iff.mpr ⟨hread, (List.getElem?_eq_some_iff.mp hitem).1⟩
    simp [enter, putChild, hindex, hread]

/-- A node that is overwritten was there, and then a value is entered in its place. -/
theorem editAt_replace_eq_ok_iff {missing other : PathError} {path parent last : String}
    {value node old new : Node} {p : List String} :
    node.editAt missing (fun old => .ok (old, value)) (p ++ [last]) = .ok (old, new) ↔
      node.follow? (p ++ [last]) = some old ∧
        node.editAt other (enter path parent last value) p = .ok ((), new) := by
  induction p generalizing node old new with
  | nil =>
    rw [List.nil_append, follow?_singleton]
    cases hchild : node.child? last with
    | none => simp [editAt, hchild]
    | some child => simp [editAt, hchild, enter_of_child? hchild]
  | cons s p ih =>
    cases hchild : node.child? s with
    | none => simp [editAt, follow?, hchild]
    | some child =>
      cases hreplace : child.editAt missing (fun old => .ok (old, value)) (p ++ [last]) with
      | ok pair =>
        obtain ⟨found, edited⟩ := pair
        obtain ⟨hfollow, henter⟩ := ih.mp hreplace
        simp [editAt, follow?, hchild, hreplace, hfollow, henter]
      | error e =>
        cases henter : child.editAt other (enter path parent last value) p with
        | error e' => simp [editAt, hchild, hreplace, henter]
        | ok pair =>
          obtain ⟨⟨⟩, edited⟩ := pair
          have hnot (old : Node) : child.follow? (p ++ [last]) ≠ some old := fun hfollow => by
            simpa [hreplace] using ih.mpr ⟨hfollow, henter⟩
          simp [editAt, follow?, hchild, hreplace, hnot]

/-- A node is overwritten where it is found and where a value can be written. -/
theorem replace_eq_ok_iff {document value old new : Node} {path : String} :
    document.replace path value = .ok (old, new) ↔
      document.seek path = .ok old ∧ document.set path value = .ok new := by
  rw [seek_eq_ok_iff, replace]
  rcases Path.segments_parentAndLeaf path with ⟨_, hnil⟩ | ⟨hlast, hsegments⟩
  · simp [hnil, set_of_segments_eq_nil hnil, editAt, follow?]
  · rw [set_eq_of_last hlast, hsegments, Outcome.map_eq_ok_iff, editAt_replace_eq_ok_iff]
    refine and_congr_right fun _ => ⟨fun hok => ⟨_, hok, rfl⟩, ?_⟩
    rintro ⟨⟨⟨⟩, edited⟩, hok, rfl⟩
    exact hok

/-! ## Removing -/

/-- Where an entry has been removed, one can be written. -/
theorem accepts_of_remove {old new : Node} {removed : Option Node} {path : String}
    (h : old.remove path = .ok (removed, new)) : old.Accepts (Path.segments path) := by
  rcases Path.segments_parentAndLeaf path with ⟨_, hnil⟩ | ⟨_, hsegments⟩
  · rw [hnil]
    trivial
  · obtain ⟨inner, hinner, ⟨taken, edited⟩, hwithdraw⟩ :=
      (exists_editAt_iff (.notFound (Path.parentAndLeaf path).1)).mp ⟨_, h⟩
    rw [hsegments, accepts_append_singleton]
    refine ⟨inner, hinner, ?_⟩
    cases inner with
    | map fields => trivial
    | leaf scalar => simp [withdraw] at hwithdraw
    | list items =>
      cases hindex : indexWithin? items (Path.parentAndLeaf path).2 with
      | none => simp [withdraw, hindex] at hwithdraw
      | some index => simp [Takes, hindex]

/-- A removal below the root is an edit that leaves at most null at its place. -/
theorem leafEdit_of_remove {old new : Node} {removed : Option Node} {path : String}
    (h : old.remove path = .ok (removed, new)) (hpath : Path.segments path ≠ []) :
    LeafEdit (Path.segments path) old new ∧
      ∃ parent, old.follow? (Path.segments path).dropLast = some parent ∧
        new.follow? (Path.segments path) =
          if parent.isMap then none else some (.leaf .null) := by
  rcases Path.segments_parentAndLeaf path with ⟨_, hnil⟩ | ⟨_, hsegments⟩
  · exact absurd hnil hpath
  · have hedit : old.editAt (.notFound (Path.parentAndLeaf path).1)
        (withdraw path (Path.parentAndLeaf path).1 (Path.parentAndLeaf path).2)
        (Path.segments (Path.parentAndLeaf path).1) = .ok (removed, new) := h
    obtain ⟨hedited, inner, edited, hinner, hok, hfollow⟩ :=
      editedAt_of_editAt (Path.parentAndLeaf path).2 (fun hok => (withdraw_eq_ok hok).1) hedit
    have hplace : new.follow? (Path.segments path) =
        if inner.isMap then none else some (.leaf .null) := by
      rw [hsegments, follow?_append, hfollow]
      simpa using (withdraw_eq_ok hok).2
    rw [← hsegments] at hedited
    refine ⟨⟨hedited, fun found hfound => ?_⟩, inner, ?_, hplace⟩
    · rw [hplace] at hfound
      split at hfound
      · simp at hfound
      · exact ⟨.null, (Option.some.inj hfound).symm⟩
    · rw [hsegments, List.dropLast_concat]
      exact hinner

end ContainerFeed.Node
