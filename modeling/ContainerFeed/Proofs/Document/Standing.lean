import ContainerFeed.Proofs.Document.Size
import ContainerFeed.Proofs.Numerals

/-!
# Where nodes stand

A node of a document stands where the keys of maps and the indices of lists lead. Its steps are
steps of a path, and in an ordered document they are followed to the node again, as long as its
indices can be read. Of each place there is one node in such a document.
-/

namespace ContainerFeed.Node

/-- A node stands where steps lead, which are keys in maps and written indices in lists. -/
inductive Stands : Node → List String → Node → Prop
  | here {node : Node} : Stands node [] node
  | field {fields : List (String × Node)} {key : String} {value inner : Node}
      {steps : List String} (hentry : (key, value) ∈ fields) (hbelow : Stands value steps inner) :
      Stands (.map fields) (key :: steps) inner
  | item {items : List Node} {index : Nat} {item inner : Node} {steps : List String}
      (hitem : items[index]? = some item) (hbelow : Stands item steps inner) :
      Stands (.list items) (Text.indexStep index :: steps) inner

/-- No list has more items than a machine word can count. Lists in memory never have. -/
def ShortLists (node : Node) : Prop :=
  ∀ steps items, node.Stands steps (.list items) → items.length ≤ twoTo 64

variable {node inner : Node} {steps : List String}

/-- A document has at least the nodes of each of its parts. -/
theorem Stands.count_le (h : node.Stands steps inner) : inner.count ≤ node.count := by
  induction h with
  | here => exact le_refl _
  | field hentry _ ih => exact (ih.trans (count_le_countFields hentry)).trans (Nat.le_succ _)
  | item hitem _ ih =>
    exact (ih.trans (count_le_countItems (List.mem_of_getElem? hitem))).trans (Nat.le_succ _)

/-- A document of few enough nodes has no longer lists. -/
theorem shortLists_of_count (h : node.count ≤ twoTo 64) : node.ShortLists := by
  intro steps items hitems
  have hlength := length_le_countItems items
  have hcount := hitems.count_le
  rw [count] at hcount
  omega

/-! ## Steps below a child -/

/-- Below a key stands what stands in its value. -/
theorem stands_field_iff {fields : List (String × Node)} (hasc : Keyed.Ascending fields)
    {key : String} {value : Node} (hentry : (key, value) ∈ fields) :
    (Node.map fields).Stands (key :: steps) inner ↔ value.Stands steps inner := by
  refine ⟨fun h => ?_, .field hentry⟩
  cases h with
  | field hother hbelow =>
    obtain rfl := Keyed.eq_of_mem hasc hentry hother
    exact hbelow

/-- Below an index stands what stands in the item. -/
theorem stands_item_iff {items : List Node} {index : Nat} {item : Node}
    (hitem : items[index]? = some item) :
    (Node.list items).Stands (Text.indexStep index :: steps) inner ↔ item.Stands steps inner := by
  refine ⟨fun h => ?_, .item hitem⟩
  -- Different indices are written differently, but this is not seen by cases.
  generalize hstep : Text.indexStep index = step at h
  cases h with
  | item hother hbelow =>
    obtain rfl := Text.indexStep_injective hstep
    obtain rfl := Option.some.inj (hitem.symm.trans hother)
    exact hbelow

/-! ## Following the steps -/

/-- The steps that lead to a node are steps of paths. -/
theorem Stands.plainStep (h : node.Stands steps inner) (hkeys : node.PlainKeys) :
    ∀ step ∈ steps, Path.PlainStep step := by
  induction h with
  | here => simp
  | field hentry _ ih =>
    obtain ⟨hkey, hvalues⟩ := everywhere_map_iff.mp hkeys
    exact List.forall_mem_cons.mpr ⟨hkey _ hentry, ih (hvalues _ hentry)⟩
  | @item _ index _ _ _ hitem _ ih =>
    have hinner := everywhere_list_iff.mp hkeys _ (List.mem_of_getElem? hitem)
    exact List.forall_mem_cons.mpr ⟨Text.plainStep_indexStep index, ih hinner⟩

/-- A step into a list that has room for it is the index of an item. -/
theorem readIndex?_of_takes {items : List Node} {index : Nat}
    (h : (Node.list items).Takes (Text.indexStep index)) :
    Text.readIndex? (Text.indexStep index) = some index := by
  obtain ⟨found, hfound⟩ := Option.isSome_iff_exists.mp h
  obtain ⟨hread, _⟩ := indexWithin?_eq_some_iff.mp hfound
  rwa [Text.eq_of_readIndex?_indexStep hread] at hread

/-- Where a node stands it is found, if a value could be written there. -/
theorem Stands.follow?_eq (h : node.Stands steps inner)
    (hordered : node.Everywhere Keyed.Ascending) (haccepts : node.Accepts steps) :
    node.follow? steps = some inner := by
  induction h with
  | here => rfl
  | @field fields key value _ _ hentry _ ih =>
    obtain ⟨hasc, hvalues⟩ := everywhere_map_iff.mp hordered
    have hchild : (Node.map fields).child? key = some value := Keyed.get?_of_mem hasc hentry
    rw [follow?, hchild]
    exact ih (hvalues _ hentry) (haccepts.below hchild)
  | @item items index item _ _ hitem _ ih =>
    have hchild : (Node.list items).child? (Text.indexStep index) = some item := by
      simp [child?, readIndex?_of_takes haccepts.1, hitem]
    rw [follow?, hchild]
    exact ih (everywhere_list_iff.mp hordered _ (List.mem_of_getElem? hitem))
      (haccepts.below hchild)

/-- Where a node stands a value could be written, as no index is too large to be read. -/
theorem Stands.accepts (h : node.Stands steps inner) (hordered : node.Everywhere Keyed.Ascending)
    (hshort : node.ShortLists) : node.Accepts steps := by
  induction h with
  | here => trivial
  | @field fields key value _ _ hentry _ ih =>
    obtain ⟨hasc, hvalues⟩ := everywhere_map_iff.mp hordered
    have hbelow := ih (hvalues _ hentry) fun below items hitems =>
      hshort (key :: below) items (.field hentry hitems)
    exact ⟨trivial, fun _ => ⟨value, Keyed.get?_of_mem hasc hentry, hbelow⟩⟩
  | @item items index item _ _ hitem _ ih =>
    have hlt : index < twoTo 64 :=
      (List.getElem?_eq_some_iff.mp hitem).1.trans_le (hshort [] items .here)
    have hchild : (Node.list items).child? (Text.indexStep index) = some item := by
      simp [child?, Text.readIndex?_indexStep hlt, hitem]
    have hbelow := ih (everywhere_list_iff.mp hordered _ (List.mem_of_getElem? hitem))
      fun below others hothers =>
        hshort (Text.indexStep index :: below) others (.item hitem hothers)
    exact ⟨takes_of_child? hchild, fun _ => ⟨item, hchild, hbelow⟩⟩

end ContainerFeed.Node
