import ContainerFeed.Proofs.Document.Standing
import ContainerFeed.Proofs.Outcomes
import ContainerFeed.Template.Region

/-!
# Where the specs of a region stand

The specs of a region are found by visiting its nodes. Each visited node has a position, the
steps that lead to it, and its path spells just these steps. Since nothing below a spec is
visited, the positions of two specs part somewhere on the way.
-/

namespace ContainerFeed

open Template (Spec)

namespace Node

mutual

/-- The visited nodes of a region with their positions, in the order of the visits. -/
def positions : Node → List (List String × Node)
  | .map fields => ([], .map fields) ::
      (if Spec.isFull (.map fields) then [] else positionsOfFields fields)
  | .list items => ([], .list items) :: positionsOfItems 0 items
  | .leaf value => [([], .leaf value)]

/-- The positions below the fields of a map. -/
def positionsOfFields : List (String × Node) → List (List String × Node)
  | [] => []
  | (key, value) :: rest =>
    value.positions.map (fun place => (key :: place.1, place.2)) ++ positionsOfFields rest

/-- The positions below the items of a list, from an index on. -/
def positionsOfItems (index : Nat) : List Node → List (List String × Node)
  | [] => []
  | item :: rest =>
    item.positions.map (fun place => (Text.indexStep index :: place.1, place.2)) ++
      positionsOfItems (index + 1) rest

end

/-! ## Paths spell positions -/

/-- What a visit says about a position below a path. -/
def visitAt (path : String) (place : List String × Node) : String × Node :=
  (place.1.foldl Path.join path, place.2)

mutual

/-- The visits are the positions, spelt as paths. -/
theorem visitsFrom_eq (path : String) : (node : Node) →
    node.visitsFrom (fun _ inner => Spec.isFull inner) path = node.positions.map (visitAt path)
  | .map fields => by
    rw [visitsFrom, positions, List.map_cons]
    congr 1
    split
    · rfl
    · exact visitsOfFields_eq path fields
  | .list items => by
    rw [visitsFrom, positions, List.map_cons]
    congr 1
    exact visitsOfItems_eq path 0 items
  | .leaf value => rfl

/-- The visits of some fields are their positions, spelt as paths. -/
theorem visitsOfFields_eq (path : String) : (fields : List (String × Node)) →
    visitsOfFields (fun _ inner => Spec.isFull inner) path fields =
      (positionsOfFields fields).map (visitAt path)
  | [] => rfl
  | (key, value) :: rest => by
    rw [visitsOfFields, positionsOfFields, List.map_append, List.map_map,
      visitsFrom_eq (Path.join path key) value, visitsOfFields_eq path rest]
    rfl

/-- The visits of some items are their positions, spelt as paths. -/
theorem visitsOfItems_eq (path : String) (index : Nat) : (items : List Node) →
    visitsOfItems (fun _ inner => Spec.isFull inner) path index items =
      (positionsOfItems index items).map (visitAt path)
  | [] => rfl
  | item :: rest => by
    rw [visitsOfItems, positionsOfItems, List.map_append, List.map_map, visitsFrom_eq _ item,
      visitsOfItems_eq path (index + 1) rest]
    rfl

end

/-! ## Positions lead to their nodes -/

/-- The positions of some fields are those of their values, below their keys. -/
theorem mem_positionsOfFields_iff {fields : List (String × Node)} {place : List String × Node} :
    place ∈ positionsOfFields fields ↔
      ∃ entry ∈ fields, ∃ inner ∈ entry.2.positions, place = (entry.1 :: inner.1, inner.2) := by
  induction fields with
  | nil => simp [positionsOfFields]
  | cons entry rest ih =>
    obtain ⟨key, value⟩ := entry
    simp only [positionsOfFields, List.mem_append, List.mem_map, ih, List.exists_mem_cons_iff,
      eq_comm]

/-- The positions of some items are those of each item, below their indices. -/
theorem mem_positionsOfItems_iff {index : Nat} {items : List Node}
    {place : List String × Node} :
    place ∈ positionsOfItems index items ↔
      ∃ i item, items[i]? = some item ∧
        ∃ inner ∈ item.positions, place = (Text.indexStep (index + i) :: inner.1, inner.2) := by
  induction items generalizing index with
  | nil => simp [positionsOfItems]
  | cons item rest ih =>
    simp only [positionsOfItems, List.mem_append, List.mem_map, ih]
    constructor
    · rintro (⟨inner, hinner, rfl⟩ | ⟨i, other, hother, inner, hinner, rfl⟩)
      · exact ⟨0, item, rfl, inner, hinner, rfl⟩
      · exact ⟨i + 1, other, by simpa using hother, inner, hinner, by
          rw [Nat.add_assoc, Nat.add_comm 1 i]⟩
    · rintro ⟨i, other, hother, inner, hinner, rfl⟩
      cases i with
      | zero =>
        obtain rfl : item = other := by simpa using hother
        exact .inl ⟨inner, hinner, rfl⟩
      | succ i =>
        refine .inr ⟨i, other, by simpa using hother, inner, hinner, ?_⟩
        rw [Nat.add_assoc, Nat.add_comm 1 i]

/-- No step leads to the node itself, and to it alone. -/
theorem eq_of_nil_mem_positions {node inner : Node} (h : ([], inner) ∈ node.positions) :
    inner = node := by
  cases node with
  | leaf value => simpa [positions] using h
  | map fields =>
    rw [positions] at h
    rcases List.mem_cons.mp h with heq | h
    · exact congrArg Prod.snd heq
    · split at h
      · simp at h
      · obtain ⟨_, _, _, _, heq⟩ := mem_positionsOfFields_iff.mp h
        simp at heq
  | list items =>
    rw [positions] at h
    rcases List.mem_cons.mp h with heq | h
    · exact congrArg Prod.snd heq
    · obtain ⟨_, _, _, _, _, heq⟩ := mem_positionsOfItems_iff.mp h
      simp at heq

/-- A position further down goes through a child, of a map that is no spec or of a list. -/
theorem cons_mem_positions {node inner : Node} {s : String} {p : List String}
    (h : (s :: p, inner) ∈ node.positions) :
    (∃ fields value, node = .map fields ∧ Spec.isFull node = false ∧ (s, value) ∈ fields ∧
      (p, inner) ∈ value.positions) ∨
    (∃ items i item, node = .list items ∧ items[i]? = some item ∧ s = Text.indexStep i ∧
      (p, inner) ∈ item.positions) := by
  cases node with
  | leaf value => simp [positions] at h
  | map fields =>
    rw [positions] at h
    rcases List.mem_cons.mp h with heq | h
    · simp at heq
    · split at h
      · simp at h
      · rename_i hfull
        obtain ⟨⟨key, value⟩, hentry, ⟨q, found⟩, hfound, heq⟩ := mem_positionsOfFields_iff.mp h
        obtain ⟨⟨rfl, rfl⟩, rfl⟩ : (s = key ∧ p = q) ∧ inner = found := by simpa using heq
        exact .inl ⟨fields, value, rfl, by simpa using hfull, hentry, hfound⟩
  | list items =>
    rw [positions] at h
    rcases List.mem_cons.mp h with heq | h
    · simp at heq
    · obtain ⟨i, item, hitem, ⟨q, found⟩, hfound, heq⟩ := mem_positionsOfItems_iff.mp h
      obtain ⟨⟨rfl, rfl⟩, rfl⟩ : (s = Text.indexStep i ∧ p = q) ∧ inner = found := by
        simpa using heq
      exact .inr ⟨items, i, item, rfl, hitem, rfl, hfound⟩

/-- The steps of a position lead to where its node stands. -/
theorem stands_of_mem_positions {node inner : Node} {p : List String}
    (h : (p, inner) ∈ node.positions) : node.Stands p inner := by
  induction p generalizing node with
  | nil =>
    rw [eq_of_nil_mem_positions h]
    exact .here
  | cons s p ih =>
    rcases cons_mem_positions h with
      ⟨fields, value, rfl, _, hentry, hbelow⟩ | ⟨items, i, item, rfl, hitem, rfl, hbelow⟩
    · exact .field hentry (ih hbelow)
    · exact .item hitem (ih hbelow)

/-- Where a position can be written, its steps lead to its node. -/
theorem follow?_of_mem_positions {node inner : Node} {p : List String} (h : node.Ordered)
    (hmem : (p, inner) ∈ node.positions) (haccepts : node.Accepts p) :
    node.follow? p = some inner :=
  (stands_of_mem_positions hmem).follow?_eq ((ordered_iff_everywhere node).mp h) haccepts

/-! ## Positions of specs part -/

/-- The position of a spec parts from a later position that can be written. -/
def PartsFrom (node : Node) (a b : List String × Node) : Prop :=
  Spec.isSpec a.2 = true → node.Accepts b.1 → node.Apart a.1 b.1

/-- What parts below a child parts as well when the step to the child comes first. -/
theorem PartsFrom.cons {node child : Node} {s : String} {a b : List String × Node}
    (h : child.PartsFrom a b) (hchild : node.Accepts (s :: b.1) → node.child? s = some child) :
    node.PartsFrom (s :: a.1, a.2) (s :: b.1, b.2) := by
  intro hspec haccepts _
  exact ⟨child, hchild haccepts, h hspec (haccepts.below (hchild haccepts))⟩

mutual

/-- In an ordered document the position of a spec parts from all later ones. -/
theorem pairwise_positions : (node : Node) → node.Everywhere Keyed.Ascending →
    node.positions.Pairwise node.PartsFrom
  | .leaf value, _ => by simp [positions]
  | .map fields, h => by
    rw [positions, List.pairwise_cons]
    split
    · simp
    · rename_i hfull
      refine ⟨fun place _ hspec => ?_, ?_⟩
      · exact absurd hspec (by simpa [Spec.isSpec] using hfull)
      · exact pairwise_positionsOfFields fields fields h.1 h.2
          fun entry hentry => Keyed.get?_of_mem h.1 hentry
  | .list items, h => by
    rw [positions, List.pairwise_cons]
    refine ⟨fun place _ hspec => by simp [Spec.isSpec, Spec.isFull] at hspec, ?_⟩
    exact pairwise_positionsOfItems items 0 items h fun i item hitem => by simpa using hitem

/-- The positions of specs in some fields part from all later ones. -/
theorem pairwise_positionsOfFields (whole : List (String × Node)) :
    (fields : List (String × Node)) → Keyed.Ascending fields →
    EverywhereFields Keyed.Ascending fields →
    (∀ entry ∈ fields, Keyed.get? entry.1 whole = some entry.2) →
    (positionsOfFields fields).Pairwise (Node.map whole).PartsFrom
  | [], _, _, _ => by simp [positionsOfFields]
  | (key, value) :: rest, hasc, h, hwhole => by
    obtain ⟨hfirst, hasc⟩ := List.pairwise_cons.mp hasc
    obtain ⟨hkey, hwhole⟩ := List.forall_mem_cons.mp hwhole
    rw [positionsOfFields, List.pairwise_append]
    refine ⟨?_, pairwise_positionsOfFields whole rest hasc h.2 hwhole, ?_⟩
    · exact (pairwise_positions value h.1).map _ fun a b hab => hab.cons fun _ => hkey
    · intro a ha b hb _ _
      obtain ⟨inner, _, rfl⟩ := List.mem_map.mp ha
      obtain ⟨entry, hentry, _, _, rfl⟩ := mem_positionsOfFields_iff.mp hb
      intro hsame
      have hlt := hfirst entry hentry
      exact absurd hlt (hsame ▸ String.lt_irrefl _)

/-- The positions of specs in some items part from all later ones. -/
theorem pairwise_positionsOfItems (whole : List Node) (index : Nat) :
    (items : List Node) → EverywhereItems Keyed.Ascending items →
    (∀ (i : Nat) item, items[i]? = some item → whole[index + i]? = some item) →
    (positionsOfItems index items).Pairwise (Node.list whole).PartsFrom
  | [], _, _ => by simp [positionsOfItems]
  | item :: rest, h, hwhole => by
    rw [positionsOfItems, List.pairwise_append]
    refine ⟨?_, pairwise_positionsOfItems whole (index + 1) rest h.2 fun i other hother => ?_, ?_⟩
    · refine (pairwise_positions item h.1).map _ fun a b hab => hab.cons fun haccepts => ?_
      simpa [child?, readIndex?_of_takes haccepts.1] using hwhole 0 item rfl
    · simpa [Nat.add_assoc, Nat.add_comm 1 i] using hwhole (i + 1) other (by simpa using hother)
    · intro a ha b hb _ haccepts
      obtain ⟨inner, _, rfl⟩ := List.mem_map.mp ha
      obtain ⟨i, _, _, _, _, rfl⟩ := mem_positionsOfItems_iff.mp hb
      intro hsame
      have hread : Text.readIndex? (Text.indexStep index) = some (index + 1 + i) :=
        Eq.trans hsame (readIndex?_of_takes haccepts.1)
      have heq := Text.eq_of_readIndex?_indexStep hread
      omega

end

end Node

end ContainerFeed
