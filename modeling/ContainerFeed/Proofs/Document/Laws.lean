import ContainerFeed.Proofs.Document.InPlace

/-!
# The laws of writing and removing

Writing and removing go to a container and change the one entry that a path names there. A value
that has been written is found again, an entry that has been removed is gone or null, and every path
that parts from the one given keeps what it leads to. A write or removal that fails changes nothing.
-/

namespace ContainerFeed.Node

-- The steps of a path are only ever compared, never computed, in this file.
attribute [local irreducible] Path.segments Path.parentAndLeaf

/-! ## The container of an entry -/

/-- A path names an entry of a container, which is found at the steps before the last one. -/
def NamesEntry (document : Node) (path : String) (container : Node) (last : String) : Prop :=
  ∃ parent, Path.segments path = Path.segments parent ++ [last] ∧
    document.seek parent = .ok container

/-- There is room for a value at a path: the path has no step, or it names an entry of a map, or an
item that a list has. -/
def HasRoom (document : Node) (path : String) : Prop :=
  Path.segments path = [] ∨ ∃ last,
    (∃ fields, document.NamesEntry path (.map fields) last) ∨
    ∃ items index, document.NamesEntry path (.list items) last ∧
      Text.readIndex? last = some index ∧ index < items.length

variable {document container : Node} {path last : String}

/-- A path names an entry of the container that is found at its parent. -/
theorem namesEntry_iff (hlast : (Path.parentAndLeaf path).2 ≠ "") :
    document.NamesEntry path container last ↔
      document.seek (Path.parentAndLeaf path).1 = .ok container ∧
        last = (Path.parentAndLeaf path).2 := by
  have hsegments : Path.segments path =
      Path.segments (Path.parentAndLeaf path).1 ++ [(Path.parentAndLeaf path).2] :=
    ((Path.segments_parentAndLeaf path).resolve_left fun h => hlast h.1).2
  constructor
  · rintro ⟨parent, hparent, hseek⟩
    obtain ⟨hsame, hstep⟩ := List.append_inj' (hparent.symm.trans hsegments) rfl
    rw [seek_eq_ok_iff, hsame] at hseek
    exact ⟨seek_eq_ok_iff.mpr hseek, List.singleton_inj.mp hstep⟩
  · rintro ⟨hseek, rfl⟩
    exact ⟨_, hsegments, hseek⟩

/-- A place can be written where there is room. -/
theorem accepts_iff_hasRoom : document.Accepts (Path.segments path) ↔ document.HasRoom path := by
  rcases Path.segments_parentAndLeaf path with ⟨_, hnil⟩ | ⟨hlast, hsegments⟩
  · simp [HasRoom, hnil, Accepts]
  · have hne : Path.segments path ≠ [] := by simp [hsegments]
    simp only [HasRoom, hne, false_or, namesEntry_iff hlast, seek_eq_ok_iff]
    rw [hsegments, accepts_append_singleton]
    constructor
    · rintro ⟨inner, hinner, htakes⟩
      cases inner with
      | map fields => exact ⟨_, .inl ⟨fields, hinner, rfl⟩⟩
      | leaf value => exact htakes.elim
      | list items =>
        obtain ⟨index, hindex⟩ := Option.isSome_iff_exists.mp htakes
        exact ⟨_, .inr ⟨items, index, ⟨hinner, rfl⟩, indexWithin?_eq_some_iff.mp hindex⟩⟩
    · rintro ⟨_, ⟨fields, hinner, _⟩ | ⟨items, index, ⟨hinner, rfl⟩, hindex⟩⟩
      · exact ⟨_, hinner, trivial⟩
      · exact ⟨_, hinner, by simp [Takes, indexWithin?_eq_some_iff.mpr hindex]⟩

/-- The container of an entry stands where the steps before the last one lead. -/
theorem NamesEntry.follow?_dropLast (h : document.NamesEntry path container last) :
    document.follow? (Path.segments path).dropLast = some container := by
  obtain ⟨parent, hparent, hseek⟩ := h
  rw [hparent, List.dropLast_concat]
  exact seek_eq_ok_iff.mp hseek

/-- A path names one entry of one container, however the path of the container is spelt. -/
theorem NamesEntry.unique {other : Node} {step : String}
    (h : document.NamesEntry path container last) (h' : document.NamesEntry path other step) :
    container = other ∧ last = step := by
  refine ⟨Option.some.inj (h.follow?_dropLast.symm.trans h'.follow?_dropLast), ?_⟩
  obtain ⟨parent, hparent, _⟩ := h
  obtain ⟨parent', hparent', _⟩ := h'
  exact List.singleton_inj.mp (List.append_inj' (hparent.symm.trans hparent') rfl).2

/-- What is found at a path depends on what its steps lead to. -/
theorem seek_congr {old new : Node} {path : String}
    (h : new.follow? (Path.segments path) = old.follow? (Path.segments path)) :
    new.seek path = old.seek path := by
  simp only [seek, h]

/-- An edit is not seen by paths that part from its place. -/
theorem EditedAt.seek_eq {old new : Node} {p : List String} (h : EditedAt p old new)
    {other : String} (hapart : old.Apart p (Path.segments other)) :
    new.seek other = old.seek other :=
  seek_congr (h.follow?_eq hapart)

/-- An edit keeps the shapes of the containers that it goes through. -/
theorem EditedAt.sameShape_of_above {old new inner : Node} {p q : List String}
    (h : EditedAt p old new) (habove : old.Above q p) (hinner : old.follow? q = some inner) :
    ∃ other, new.follow? q = some other ∧ inner.SameShape other := by
  induction q generalizing p old new with
  | nil =>
    cases p with
    | nil => exact h.elim
    | cons t p =>
      obtain rfl : old = inner := by simpa [follow?] using hinner
      exact ⟨new, rfl, h.1⟩
  | cons s q ih =>
    cases p with
    | nil => exact h.elim
    | cons t p =>
      obtain ⟨hshape, _, hbelow⟩ := h
      obtain ⟨hsame, child, hchild, habove⟩ := habove
      have hp : p ≠ [] := by
        rintro rfl
        cases q <;> simp [Above] at habove
      obtain ⟨c, d, hc, hd, hedited⟩ := hbelow hp
      obtain rfl : c = child := by simpa [hc] using hchild
      have hnew : new.child? s = some d := by
        rw [((hshape.sameChild_iff s t).mp hsame).child?_eq, hd]
      simp only [follow?, hsame.child?_eq, hchild] at hinner
      simpa only [follow?, hnew] using ih hedited habove hinner

/-! ## Writing -/

/-- A write that fails has not found a container, or the container has no such item, or there is a
leaf where the container should be. -/
theorem set_eq_error {value : Node} {e : PathError} (h : document.set path value = .error e) :
    (e = .notAContainer (Path.parentAndLeaf path).1 ∧
      ∃ scalar last, document.NamesEntry path (.leaf scalar) last) ∨
    ((e = .notFound (Path.parentAndLeaf path).1 ∨ e = .notFound path) ∧
      ∀ scalar last, ¬ document.NamesEntry path (.leaf scalar) last) := by
  have hlast : (Path.parentAndLeaf path).2 ≠ "" := by
    intro hempty
    simp [set, hempty] at h
  simp only [namesEntry_iff hlast, seek_eq_ok_iff]
  rw [set_eq_of_last hlast, Outcome.map_eq_error_iff, editAt_eq] at h
  cases hinner : document.follow? (Path.segments (Path.parentAndLeaf path).1) with
  | none =>
    simp only [hinner, Except.error.injEq] at h
    exact .inr ⟨.inl h.symm, by simp⟩
  | some inner =>
    simp only [hinner] at h
    cases inner with
    | map fields => simp [enter] at h
    | leaf scalar =>
      simp only [enter, Except.error.injEq] at h
      exact .inl ⟨h.symm, scalar, _, rfl, rfl⟩
    | list items =>
      refine .inr ⟨.inr ?_, by simp⟩
      cases hindex : indexWithin? items (Path.parentAndLeaf path).2 with
      | none =>
        simp only [enter, hindex, Except.error.injEq] at h
        exact h.symm
      | some index => simp [enter, hindex] at h

/-- A write succeeds exactly where there is room. It leaves the value at its path, where what was
there has been overwritten, and keeps what is found at all paths that part from this one. A write
that fails says why, and leaves the document as it was. -/
theorem set_obeys_laws (document value : Node) (path : String) :
    ((∃ new, document.set path value = .ok new) ↔ document.HasRoom path) ∧
    (∀ new, document.set path value = .ok new →
      (setInPlace path value).on document = (.ok (), new) ∧
      new.seek path = .ok value ∧
      ∀ other, document.Apart (Path.segments path) (Path.segments other) →
        new.seek other = document.seek other) ∧
    (∀ old, document.seek path = .ok old →
      ∃ new, document.set path value = .ok new ∧ document.replace path value = .ok (old, new)) ∧
    ∀ e, document.set path value = .error e →
      (setInPlace path value).on document = (.error e, document) ∧
      ((e = .notAContainer (Path.parentAndLeaf path).1 ∧
          ∃ scalar last, document.NamesEntry path (.leaf scalar) last) ∨
        ((e = .notFound (Path.parentAndLeaf path).1 ∨ e = .notFound path) ∧
          ∀ scalar last, ¬ document.NamesEntry path (.leaf scalar) last)) := by
  refine ⟨exists_set_iff.trans accepts_iff_hasRoom, fun new hnew => ?_, fun old hold => ?_,
    fun e he => ?_⟩
  · refine ⟨by rw [on_setInPlace, hnew]; rfl, seek_eq_ok_iff.mpr (follow?_of_set hnew), ?_⟩
    intro other hapart
    have hpath : Path.segments path ≠ [] := by
      intro hnil
      rw [hnil] at hapart
      exact hapart
    exact (editedAt_of_set hnew hpath).1.seek_eq hapart
  · obtain ⟨new, hnew⟩ := (accepts_of_follow? (seek_eq_ok_iff.mp hold)).exists_set value
    exact ⟨new, hnew, replace_eq_ok_iff.mpr ⟨hold, hnew⟩⟩
  · exact ⟨by rw [on_setInPlace, he]; rfl, set_eq_error he⟩

/-! ## Removing -/

/-- The way to the second place leads through the first one, or ends there. -/
def Through (node : Node) : List String → List String → Prop
  | [], _ => True
  | _ :: _, [] => False
  | s :: upper, t :: lower =>
      node.SameChild s t ∧ ∃ child, node.child? t = some child ∧ child.Through upper lower

/-- The way to a node leads through a place, or ends above it, or parts from it. -/
theorem through_or_above_or_apart {node inner : Node} {p q : List String}
    (hq : node.follow? q = some inner) :
    node.Through p q ∨ node.Above q p ∨ node.Apart p q := by
  induction p generalizing q node with
  | nil => exact .inl trivial
  | cons s p ih =>
    cases q with
    | nil => exact .inr (.inl (by simp [Above]))
    | cons t q =>
      by_cases hsame : node.SameChild s t
      · cases hchild : node.child? t with
        | none => simp [follow?, hchild] at hq
        | some child =>
          have hs : node.child? s = some child := hsame.child?_eq.trans hchild
          rcases ih (by simpa [follow?, hchild] using hq) with hthrough | habove | hapart
          · exact .inl ⟨hsame, child, hchild, hthrough⟩
          · exact .inr (.inl ⟨hsame.symm, child, hs, habove⟩)
          · exact .inr (.inr fun _ => ⟨child, hs, hapart⟩)
      · exact .inr (.inr fun h => absurd h hsame)

/-- What a removal leaves: the entry is gone from its map, or null in its list. -/
structure RemovedAt (path : String) (removed : Option Node) (old new : Node) : Prop where
  /-- What is returned is what was found at the path. -/
  returned : removed = (old.seek path).toOption
  /-- Nothing was found only in a map without the key. -/
  nothing_iff : removed = none ↔ ∃ fields last,
    old.NamesEntry path (.map fields) last ∧ Keyed.get? last fields = none
  cleared : (∃ fields last, old.NamesEntry path (.map fields) last ∧
      new.seek path = .error (.notFound path)) ∨
    ∃ items last, old.NamesEntry path (.list items) last ∧ new.seek path = .ok (.leaf .null)
  /-- Every list that is not taken out with the entry keeps its length. -/
  lengths : ∀ steps items, old.follow? steps = some (.list items) →
    old.Through (Path.segments path) steps ∨
      ∃ others, new.follow? steps = some (.list others) ∧ others.length = items.length
  /-- Every path that parts from this one keeps what it leads to. -/
  kept : ∀ other, old.Apart (Path.segments path) (Path.segments other) →
    new.seek other = old.seek other

/-- What a removal returns is the child that the last step selects. -/
theorem withdraw_returns {parent : String} {inner edited : Node} {removed : Option Node}
    (h : withdraw path parent last inner = .ok (removed, edited)) :
    removed = inner.child? last ∧
      ((∃ fields, inner = .map fields) ∨ ∃ items, inner = .list items ∧ removed ≠ none) := by
  cases inner with
  | map fields =>
    simp only [withdraw, Except.ok.injEq, Prod.mk.injEq] at h
    exact ⟨h.1.symm, .inl ⟨fields, rfl⟩⟩
  | leaf scalar => simp [withdraw] at h
  | list items =>
    cases hindex : indexWithin? items last with
    | none => simp [withdraw, hindex] at h
    | some index =>
      simp only [withdraw, hindex, Except.ok.injEq, Prod.mk.injEq] at h
      obtain ⟨hread, hlt⟩ := indexWithin?_eq_some_iff.mp hindex
      refine ⟨by simp [← h.1, child?, hread], .inr ⟨items, rfl, ?_⟩⟩
      rw [← h.1]
      simpa using hlt

/-- A removal below the root succeeds where there is room for a value. -/
theorem exists_remove_iff (hpath : Path.segments path ≠ []) :
    (∃ result, document.remove path = .ok result) ↔ document.HasRoom path := by
  rcases Path.segments_parentAndLeaf path with ⟨_, hnil⟩ | ⟨hlast, hsegments⟩
  · exact absurd hnil hpath
  refine ⟨fun ⟨⟨_, _⟩, h⟩ => accepts_iff_hasRoom.mp (accepts_of_remove h), fun hroom => ?_⟩
  rw [← accepts_iff_hasRoom, hsegments, accepts_append_singleton] at hroom
  obtain ⟨inner, hinner, htakes⟩ := hroom
  refine (exists_editAt_iff (.notFound (Path.parentAndLeaf path).1)).mpr ⟨inner, hinner, ?_⟩
  cases inner with
  | map fields => exact ⟨_, rfl⟩
  | leaf value => exact htakes.elim
  | list items =>
    obtain ⟨index, hindex⟩ := Option.isSome_iff_exists.mp htakes
    exact ⟨_, by rw [withdraw, hindex]⟩

/-- A removal finds a container at the parent and takes the entry out of it. -/
theorem remove_eq_ok {removed : Option Node} {new : Node}
    (h : document.remove path = .ok (removed, new)) (hpath : Path.segments path ≠ []) :
    removed = document.follow? (Path.segments path) ∧
      ((∃ fields last, document.NamesEntry path (.map fields) last ∧
          removed = Keyed.get? last fields) ∨
        ∃ items last, document.NamesEntry path (.list items) last ∧ removed ≠ none) := by
  rcases Path.segments_parentAndLeaf path with ⟨_, hnil⟩ | ⟨hlast, hsegments⟩
  · exact absurd hnil hpath
  simp only [namesEntry_iff hlast, seek_eq_ok_iff]
  rw [hsegments, follow?_append]
  have hedit : document.editAt (.notFound (Path.parentAndLeaf path).1)
      (withdraw path (Path.parentAndLeaf path).1 (Path.parentAndLeaf path).2)
      (Path.segments (Path.parentAndLeaf path).1) = .ok (removed, new) := h
  rw [editAt_eq] at hedit
  cases hinner : document.follow? (Path.segments (Path.parentAndLeaf path).1) with
  | none => simp [hinner] at hedit
  | some inner =>
    simp only [hinner] at hedit
    split at hedit
    · rename_i found edited hok
      obtain ⟨rfl, _⟩ : found = removed ∧ _ := by simpa using hedit
      obtain ⟨hchild, hkind⟩ := withdraw_returns hok
      refine ⟨by simpa using hchild, ?_⟩
      rcases hkind with ⟨fields, rfl⟩ | ⟨items, rfl, hfound⟩
      · exact .inl ⟨fields, _, ⟨rfl, rfl⟩, hchild⟩
      · exact .inr ⟨items, _, ⟨rfl, rfl⟩, hfound⟩
    · simp at hedit

/-- A removal below the root takes out the one entry that its path names and leaves every list at
its length, so that the siblings of the entry are found where they were. -/
theorem removedAt_of_remove {removed : Option Node} {new : Node}
    (h : document.remove path = .ok (removed, new)) (hpath : Path.segments path ≠ []) :
    RemovedAt path removed document new := by
  obtain ⟨hfound, hcontainer⟩ := remove_eq_ok h hpath
  obtain ⟨⟨hedited, _⟩, parent, hparent, hplace⟩ := leafEdit_of_remove h hpath
  refine ⟨?_, ?_, ?_, fun steps items hitems => ?_, fun other hapart => hedited.seek_eq hapart⟩
  · rw [hfound, seek]
    cases document.follow? (Path.segments path) <;> rfl
  · rcases hcontainer with ⟨fields, last, hnames, hget⟩ | ⟨items, last, hnames, hsome⟩
    · refine ⟨fun hnone => ⟨fields, last, hnames, hget.symm.trans hnone⟩, ?_⟩
      rintro ⟨others, step, hothers, hnone⟩
      obtain ⟨hsame, rfl⟩ := hnames.unique hothers
      obtain rfl := Node.map.inj hsame
      exact hget.trans hnone
    · refine ⟨fun hnone => absurd hnone hsome, ?_⟩
      rintro ⟨others, step, hothers, _⟩
      exact Node.noConfusion (hnames.unique hothers).1
  · rcases hcontainer with ⟨fields, last, hnames, _⟩ | ⟨items, last, hnames, _⟩
    · obtain rfl := Option.some.inj (hnames.follow?_dropLast.symm.trans hparent)
      exact .inl ⟨fields, last, hnames, seek_of_follow?_eq_none hplace⟩
    · obtain rfl := Option.some.inj (hnames.follow?_dropLast.symm.trans hparent)
      exact .inr ⟨items, last, hnames, seek_eq_ok_iff.mpr hplace⟩
  · rcases through_or_above_or_apart hitems with hthrough | habove | hapart
    · exact .inl hthrough
    · obtain ⟨other, hother, hshape⟩ := hedited.sameShape_of_above habove hitems
      cases other with
      | list others => exact .inr ⟨others, hother, hshape.symm⟩
      | map fields => exact hshape.elim
      | leaf value => exact hshape.elim
    · exact .inr ⟨items, (hedited.follow?_eq hapart).trans hitems, rfl⟩

/-- A removal at a path with steps succeeds where there is room for a value, and takes out one entry
alone. A removal that fails leaves the document as it was. -/
theorem remove_obeys_laws (document : Node) (path : String) :
    (Path.segments path ≠ [] →
      ((∃ result, document.remove path = .ok result) ↔ document.HasRoom path) ∧
      ∀ removed new, document.remove path = .ok (removed, new) →
        RemovedAt path removed document new) ∧
    (∀ removed new, document.remove path = .ok (removed, new) →
      (removeInPlace path).on document = (.ok removed, new)) ∧
    ∀ e, document.remove path = .error e →
      (removeInPlace path).on document = (.error e, document) := by
  refine ⟨fun hpath => ⟨exists_remove_iff hpath, fun _ _ h => removedAt_of_remove h hpath⟩,
    fun removed new h => ?_, fun e h => ?_⟩
  · rw [on_removeInPlace, h]
    rfl
  · rw [on_removeInPlace, h]
    rfl

/-- Indices are compared as numbers: the item that one spelling takes out is null under every other,
and the item after it stays where it was. -/
example :
    let document := Node.map [("list", .list [.leaf (.int 1), .leaf (.int 2)])]
    ((removeInPlace "/list/+0").on document).1.toOption.join.bind scalar? = some (.int 1) ∧
      ["list/00/", "/list//1"].map (fun path =>
        (((removeInPlace "/list/+0").on document).2.seek path).toOption.bind scalar?) =
          [some .null, some (.int 2)] := by
  decide +kernel

end ContainerFeed.Node
