import ContainerFeed.Proofs.Document.Places
import ContainerFeed.Proofs.Json.Reading

/-!
# What holds of all maps of a document

Some properties of a document are properties of the fields of all its maps: that the keys ascend,
or that each key is a step of a path. They pass to every node of the document, and to the
document with one of its nodes replaced. Every document that is read from text is ordered.
-/

namespace ContainerFeed

namespace Node

mutual

/-- The fields of every map of the tree have a property. -/
def Everywhere (P : List (String × Node) → Prop) : Node → Prop
  | .map fields => P fields ∧ EverywhereFields P fields
  | .list items => EverywhereItems P items
  | .leaf _ => True

/-- The property holds everywhere in the values of some fields. -/
def EverywhereFields (P : List (String × Node) → Prop) : List (String × Node) → Prop
  | [] => True
  | (_, value) :: rest => value.Everywhere P ∧ EverywhereFields P rest

/-- The property holds everywhere in some items. -/
def EverywhereItems (P : List (String × Node) → Prop) : List Node → Prop
  | [] => True
  | item :: rest => item.Everywhere P ∧ EverywhereItems P rest

end

section

variable (P : List (String × Node) → Prop) [DecidablePred P]

mutual

instance decidableEverywhere : (node : Node) → Decidable (node.Everywhere P)
  | .map fields =>
    have := decidableEverywhereFields fields
    inferInstanceAs (Decidable (P fields ∧ EverywhereFields P fields))
  | .list items =>
    have := decidableEverywhereItems items
    inferInstanceAs (Decidable (EverywhereItems P items))
  | .leaf _ => inferInstanceAs (Decidable True)

instance decidableEverywhereFields :
    (fields : List (String × Node)) → Decidable (EverywhereFields P fields)
  | [] => inferInstanceAs (Decidable True)
  | (_, value) :: rest =>
    have := decidableEverywhere value
    have := decidableEverywhereFields rest
    inferInstanceAs (Decidable (value.Everywhere P ∧ EverywhereFields P rest))

instance decidableEverywhereItems : (items : List Node) → Decidable (EverywhereItems P items)
  | [] => inferInstanceAs (Decidable True)
  | item :: rest =>
    have := decidableEverywhere item
    have := decidableEverywhereItems rest
    inferInstanceAs (Decidable (item.Everywhere P ∧ EverywhereItems P rest))

end

end

variable {P : List (String × Node) → Prop}

/-- The property holds everywhere in some fields when it does in each value. -/
theorem everywhereFields_iff {fields : List (String × Node)} :
    EverywhereFields P fields ↔ ∀ entry ∈ fields, entry.2.Everywhere P := by
  induction fields with
  | nil => simp [EverywhereFields]
  | cons entry rest ih => simp [EverywhereFields, ih]

/-- The property holds everywhere in some items when it does in each of them. -/
theorem everywhereItems_iff {items : List Node} :
    EverywhereItems P items ↔ ∀ item ∈ items, item.Everywhere P := by
  induction items with
  | nil => simp [EverywhereItems]
  | cons item rest ih => simp [EverywhereItems, ih]

/-- The property holds everywhere in a map when it holds of its fields and in each value. -/
theorem everywhere_map_iff {fields : List (String × Node)} :
    (Node.map fields).Everywhere P ↔ P fields ∧ ∀ entry ∈ fields, entry.2.Everywhere P := by
  rw [Everywhere, everywhereFields_iff]

/-- The property holds everywhere in a list when it does in each item. -/
theorem everywhere_list_iff {items : List Node} :
    (Node.list items).Everywhere P ↔ ∀ item ∈ items, item.Everywhere P := by
  rw [Everywhere, everywhereItems_iff]

mutual

/-- An ordered document is one whose keys ascend everywhere. -/
theorem ordered_iff_everywhere : (node : Node) → (node.Ordered ↔ node.Everywhere Keyed.Ascending)
  | .map fields => by rw [Ordered, Everywhere, orderedFields_iff_everywhere fields]
  | .list items => by rw [Ordered, Everywhere, orderedItems_iff_everywhere items]
  | .leaf _ => Iff.rfl

/-- Fields hold ordered values when the keys ascend everywhere in them. -/
theorem orderedFields_iff_everywhere : (fields : List (String × Node)) →
    (OrderedFields fields ↔ EverywhereFields Keyed.Ascending fields)
  | [] => Iff.rfl
  | (_, value) :: rest => by
    rw [OrderedFields, EverywhereFields, ordered_iff_everywhere value,
      orderedFields_iff_everywhere rest]

/-- Items are ordered when the keys ascend everywhere in them. -/
theorem orderedItems_iff_everywhere : (items : List Node) →
    (OrderedItems items ↔ EverywhereItems Keyed.Ascending items)
  | [] => Iff.rfl
  | item :: rest => by
    rw [OrderedItems, EverywhereItems, ordered_iff_everywhere item,
      orderedItems_iff_everywhere rest]

end

instance (node : Node) : Decidable node.Ordered :=
  decidable_of_iff _ (ordered_iff_everywhere node).symm

/-- Every key of the document is a step of a path. -/
def PlainKeys (node : Node) : Prop :=
  node.Everywhere fun fields => ∀ entry ∈ fields, Path.PlainStep entry.1

instance (node : Node) : Decidable node.PlainKeys :=
  have : DecidablePred Path.PlainStep := fun step =>
    inferInstanceAs (Decidable (step ≠ "" ∧ '/' ∉ step.toList))
  decidableEverywhere _ node

/-- What holds everywhere in a node holds everywhere in its children. -/
theorem Everywhere.child? {node child : Node} {step : String} (h : node.Everywhere P)
    (hchild : node.child? step = some child) : child.Everywhere P := by
  cases node with
  | map fields => exact (everywhere_map_iff.mp h).2 _ (Keyed.mem_of_get? hchild)
  | leaf value => simp [Node.child?] at hchild
  | list items =>
    obtain ⟨index, _, hitem⟩ := Option.bind_eq_some_iff.mp hchild
    exact everywhere_list_iff.mp h child (List.mem_of_getElem? hitem)

section

-- The property does not mind when the value of a field is replaced.
variable (hP : ∀ fields key value old, P fields → Keyed.get? key fields = some old →
  P (Keyed.insert key value fields))

include hP

/-- What holds everywhere in a node and in a new child holds when the child is put in. -/
theorem Everywhere.putChild {node old child : Node} {step : String} (h : node.Everywhere P)
    (hold : node.child? step = some old) (hchild : child.Everywhere P) :
    (node.putChild step child).Everywhere P := by
  cases node with
  | leaf value => trivial
  | map fields =>
    obtain ⟨hfields, hvalues⟩ := everywhere_map_iff.mp h
    refine everywhere_map_iff.mpr ⟨hP _ _ _ _ hfields hold, fun entry hentry => ?_⟩
    rcases Keyed.mem_of_mem_insert hentry with rfl | hentry
    · exact hchild
    · exact hvalues entry hentry
  | list items =>
    cases hread : Text.readIndex? step with
    | none => simpa only [Node.putChild, hread] using h
    | some index =>
      simp only [Node.putChild, hread]
      refine everywhere_list_iff.mpr fun item hitem => ?_
      rcases List.mem_or_eq_of_mem_set hitem with hitem | rfl
      · exact everywhere_list_iff.mp h item hitem
      · exact hchild

/-- Replacing a node keeps the property, which also holds of the node that was replaced. -/
theorem Everywhere.editAt_replace {missing : PathError} {value old new : Node}
    (hvalue : value.Everywhere P) {node : Node} {p : List String} (h : node.Everywhere P)
    (hedit : node.editAt missing (fun old => .ok (old, value)) p = .ok (old, new)) :
    old.Everywhere P ∧ new.Everywhere P := by
  induction p generalizing node new with
  | nil =>
    obtain ⟨rfl, rfl⟩ : node = old ∧ value = new := by simpa [editAt] using hedit
    exact ⟨h, hvalue⟩
  | cons s p ih =>
    cases hchild : node.child? s with
    | none => simp [editAt, hchild] at hedit
    | some child =>
      cases hbelow : child.editAt missing (fun old => .ok (old, value)) p with
      | error e => simp [editAt, hchild, hbelow] at hedit
      | ok pair =>
        obtain ⟨found, edited⟩ := pair
        obtain ⟨rfl, rfl⟩ : found = old ∧ node.putChild s edited = new := by
          simpa [editAt, hchild, hbelow] using hedit
        obtain ⟨hfound, hedited⟩ := ih (h.child? hchild) hbelow
        exact ⟨hfound, h.putChild hP hchild hedited⟩

end

/-! ## Documents from text -/

/-- The reader puts the fields of every map in order. -/
theorem builtUp_ordered : Json.BuiltUp fun _ node => node.Ordered where
  leaf _ _ := trivial
  list _ hitems := by
    rw [ordered_iff_everywhere, everywhere_list_iff]
    exact fun item hitem => (ordered_iff_everywhere item).mp (hitems item hitem)
  map _ hasc hvalues := by
    rw [ordered_iff_everywhere, everywhere_map_iff]
    exact ⟨hasc, fun entry hentry => (ordered_iff_everywhere entry.2).mp (hvalues entry hentry)⟩

/-- A document that is read from text is ordered. -/
theorem ordered_of_parse? {text : String} {document : Node}
    (h : Node.parse? text = some document) : document.Ordered :=
  holds_of_parse? builtUp_ordered h

end Node

end ContainerFeed
