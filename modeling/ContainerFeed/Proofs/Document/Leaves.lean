import ContainerFeed.Proofs.Document.Size

/-!
# The leaves of a document, as they are served

Serving a document changes leaves only: its maps keep their keys, its lists their lengths, and no
container moves to another depth. So a document whose leaves are served as they are is served as it
is.
-/

namespace ContainerFeed.Node

mutual

/-- The values of the leaves, in their order. -/
def leaves : Node → List Scalar
  | .map fields => leavesOfFields fields
  | .list items => leavesOfItems items
  | .leaf value => [value]

/-- The leaves in the values of some fields. -/
def leavesOfFields : List (String × Node) → List Scalar
  | [] => []
  | (_, value) :: rest => value.leaves ++ leavesOfFields rest

/-- The leaves in some items. -/
def leavesOfItems : List Node → List Scalar
  | [] => []
  | item :: rest => item.leaves ++ leavesOfItems rest

end

/-- The leaves in some fields are those of their values. -/
theorem mem_leavesOfFields_iff {value : Scalar} {fields : List (String × Node)} :
    value ∈ leavesOfFields fields ↔ ∃ entry ∈ fields, value ∈ entry.2.leaves := by
  induction fields with
  | nil => simp [leavesOfFields]
  | cons entry rest ih => simp [leavesOfFields, ih]

/-- The leaves in some items are those of each item. -/
theorem mem_leavesOfItems_iff {value : Scalar} {items : List Node} :
    value ∈ leavesOfItems items ↔ ∃ item ∈ items, value ∈ item.leaves := by
  induction items with
  | nil => simp [leavesOfItems]
  | cons item rest ih => simp [leavesOfItems, ih]

/-! ## Properties of all leaves -/

/-- Every leaf has a property. -/
def AllLeaves (P : Scalar → Prop) (node : Node) : Prop :=
  ∀ value ∈ node.leaves, P value

instance (P : Scalar → Prop) [DecidablePred P] (node : Node) : Decidable (node.AllLeaves P) :=
  inferInstanceAs (Decidable (∀ value ∈ node.leaves, P value))

variable {P : Scalar → Prop}

/-- A leaf has one leaf, which is itself. -/
theorem allLeaves_leaf_iff {value : Scalar} : (Node.leaf value).AllLeaves P ↔ P value := by
  simp [AllLeaves, leaves]

/-- All leaves of a map have a property when all leaves of its values do. -/
theorem allLeaves_map_iff {fields : List (String × Node)} :
    (Node.map fields).AllLeaves P ↔ ∀ entry ∈ fields, entry.2.AllLeaves P := by
  simp only [AllLeaves, leaves, mem_leavesOfFields_iff]
  constructor
  · intro h entry hentry value hvalue
    exact h value ⟨entry, hentry, hvalue⟩
  · rintro h value ⟨entry, hentry, hvalue⟩
    exact h entry hentry value hvalue

/-- All leaves of a list have a property when all leaves of its items do. -/
theorem allLeaves_list_iff {items : List Node} :
    (Node.list items).AllLeaves P ↔ ∀ item ∈ items, item.AllLeaves P := by
  simp only [AllLeaves, leaves, mem_leavesOfItems_iff]
  constructor
  · intro h item hitem value hvalue
    exact h value ⟨item, hitem, hvalue⟩
  · rintro h value ⟨item, hitem, hvalue⟩
    exact h item hitem value hvalue

/-! ## Depth -/

/-- No value is deeper than all fields together. -/
theorem depth_le_depthFields {fields : List (String × Node)} {entry : String × Node}
    (h : entry ∈ fields) : entry.2.depth ≤ depthFields fields := by
  induction fields with
  | nil => simp at h
  | cons first rest ih =>
    rw [depthFields]
    rcases List.mem_cons.mp h with rfl | h
    · exact Nat.le_max_left _ _
    · exact (ih h).trans (Nat.le_max_right _ _)

/-- No item is deeper than all items together. -/
theorem depth_le_depthItems {items : List Node} {item : Node} (h : item ∈ items) :
    item.depth ≤ depthItems items := by
  induction items with
  | nil => simp at h
  | cons first rest ih =>
    rw [depthItems]
    rcases List.mem_cons.mp h with rfl | h
    · exact Nat.le_max_left _ _
    · exact (ih h).trans (Nat.le_max_right _ _)

/-- Fields are no deeper than any bound on their values. -/
theorem depthFields_le {fields : List (String × Node)} {bound : Nat}
    (h : ∀ entry ∈ fields, entry.2.depth ≤ bound) : depthFields fields ≤ bound := by
  induction fields with
  | nil => exact Nat.zero_le _
  | cons first rest ih =>
    obtain ⟨hfirst, hrest⟩ := List.forall_mem_cons.mp h
    exact Nat.max_le.mpr ⟨hfirst, ih hrest⟩

/-- Items are no deeper than any bound on them. -/
theorem depthItems_le {items : List Node} {bound : Nat} (h : ∀ item ∈ items, item.depth ≤ bound) :
    depthItems items ≤ bound := by
  induction items with
  | nil => exact Nat.zero_le _
  | cons first rest ih =>
    obtain ⟨hfirst, hrest⟩ := List.forall_mem_cons.mp h
    exact Nat.max_le.mpr ⟨hfirst, ih hrest⟩

/-! ## Serving -/

/-- Fields are served one by one, under their keys. -/
theorem servedFields_eq_map (fields : List (String × Node)) :
    servedFields fields = fields.map fun entry => (entry.1, entry.2.served) := by
  induction fields with
  | nil => rfl
  | cons entry rest ih => rw [servedFields, ih, List.map_cons]

/-- Items are served one by one. -/
theorem servedItems_eq_map (items : List Node) : servedItems items = items.map served := by
  induction items with
  | nil => rfl
  | cons item rest ih => rw [servedItems, ih, List.map_cons]

/-- A document whose leaves are served as they are is served as it is. -/
theorem served_eq_self {node : Node} (h : node.AllLeaves fun value => value.served = value) :
    node.served = node := by
  induction node using inductionOn with
  | leaf value => rw [served, allLeaves_leaf_iff.mp h]
  | map fields ih =>
    have hfields : ∀ entry ∈ fields, (entry.1, entry.2.served) = entry := by
      intro entry hentry
      have hvalue := allLeaves_map_iff.mp h entry hentry
      rw [ih entry hentry hvalue]
    rw [served, servedFields_eq_map, List.map_congr_left hfields, List.map_id']
  | list items ih =>
    have hitems : ∀ item ∈ items, item.served = item := by
      intro item hitem
      exact ih item hitem (allLeaves_list_iff.mp h item hitem)
    rw [served, servedItems_eq_map, List.map_congr_left hitems, List.map_id']

/-- Fields are served under their keys. -/
theorem keys_servedFields (fields : List (String × Node)) :
    Keyed.keys (servedFields fields) = Keyed.keys fields := by
  rw [servedFields_eq_map, Keyed.keys, Keyed.keys, List.map_map]
  rfl

/-- An ordered document is ordered as it is served. -/
theorem ordered_served {node : Node} (h : node.Ordered) : node.served.Ordered := by
  rw [ordered_iff_everywhere] at h ⊢
  induction node using inductionOn with
  | leaf value => trivial
  | map fields ih =>
    obtain ⟨hasc, hvalues⟩ := everywhere_map_iff.mp h
    rw [served, everywhere_map_iff]
    constructor
    · rwa [Keyed.ascending_iff_keys, keys_servedFields, ← Keyed.ascending_iff_keys]
    · rw [servedFields_eq_map, List.forall_mem_map]
      intro entry hentry
      exact ih entry hentry (hvalues entry hentry)
  | list items ih =>
    rw [served, everywhere_list_iff, servedItems_eq_map, List.forall_mem_map]
    intro item hitem
    exact ih item hitem (everywhere_list_iff.mp h item hitem)

/-- No document is served deeper than it is. -/
theorem depth_served_le (node : Node) : node.served.depth ≤ node.depth := by
  induction node using inductionOn with
  | leaf value => exact Nat.le_refl _
  | map fields ih =>
    rw [served, depth, depth, Nat.add_le_add_iff_right, servedFields_eq_map]
    apply depthFields_le
    rw [List.forall_mem_map]
    intro entry hentry
    exact (ih entry hentry).trans (depth_le_depthFields hentry)
  | list items ih =>
    rw [served, depth, depth, Nat.add_le_add_iff_right, servedItems_eq_map]
    apply depthItems_le
    rw [List.forall_mem_map]
    intro item hitem
    exact (ih item hitem).trans (depth_le_depthItems hitem)

end ContainerFeed.Node
