import ContainerFeed.Node.Visit
import ContainerFeed.Proofs.Document.Standing
import ContainerFeed.Proofs.Document.Writing
import ContainerFeed.Proofs.Text.OctetOrder

/-!
# What the visits of a document list

The visits of a document list every node that stands below no pruned one, once and with the path
that spells its steps, a node before what stands below it and the children of a node in their order.
Looking such a path up in the document finds the node that was visited with it.
-/

namespace ContainerFeed.Node

/-! ## The order of a walk, and what it leaves out -/

/-- The order of a walk: what stands above comes first, and below a node all that stands under its
earlier children. Fields go by the octets of their keys, items by their indices. -/
inductive Precedes : Node → List String → List String → Prop
  | above {node : Node} {step : String} {steps : List String} : Precedes node [] (step :: steps)
  | fields {fields : List (String × Node)} {s t : String} {p q : List String}
      (hlt : Text.toOctets s < Text.toOctets t) : Precedes (.map fields) (s :: p) (t :: q)
  | items {items : List Node} {i j : Nat} {p q : List String} (hlt : i < j) :
      Precedes (.list items) (Text.indexStep i :: p) (Text.indexStep j :: q)
  | field {fields : List (String × Node)} {key : String} {value : Node} {p q : List String}
      (hentry : (key, value) ∈ fields) (hbelow : Precedes value p q) :
      Precedes (.map fields) (key :: p) (key :: q)
  | item {items : List Node} {index : Nat} {item : Node} {p q : List String}
      (hitem : items[index]? = some item) (hbelow : Precedes item p q) :
      Precedes (.list items) (Text.indexStep index :: p) (Text.indexStep index :: q)

/-- No node above a place is pruned. The first node has a path of its own, and the paths of the
others begin with it. -/
def Unpruned (prune : String → Node → Bool) (path : String) (node : Node)
    (steps : List String) : Prop :=
  ∀ above step below inner, steps = above ++ step :: below → node.Stands above inner →
    prune (above.foldl Path.join path) inner = false

variable {node inner : Node} {prune : String → Node → Bool} {path : String}

/-- Nothing is above the node that the walk begins with. -/
theorem unpruned_nil : node.Unpruned prune path [] := by
  intro above step below inner hsteps
  simp at hsteps

/-- No node above a place below a child is pruned if the node itself is not, and none above the
place below the child. -/
theorem unpruned_cons_iff {child : Node} {step : String} {steps : List String}
    (hchild : ∀ above inner, node.Stands (step :: above) inner ↔ child.Stands above inner) :
    node.Unpruned prune path (step :: steps) ↔
      prune path node = false ∧ child.Unpruned prune (Path.join path step) steps := by
  constructor
  · intro h
    refine ⟨h [] step steps node rfl .here, fun above next below inner hsteps hinner => ?_⟩
    exact h (step :: above) next below inner (by rw [hsteps, List.cons_append])
      ((hchild above inner).mpr hinner)
  · rintro ⟨hnode, hbelow⟩ above next below inner hsteps hinner
    cases above with
    | nil =>
      cases hinner
      exact hnode
    | cons first above =>
      obtain ⟨rfl, hrest⟩ := List.cons.inj hsteps
      exact hbelow above next below inner hrest ((hchild above inner).mp hinner)

/-! ## The nodes that are visited -/

/-- The visits of some fields are those of their values, below the paths of their keys. -/
theorem mem_visitsOfFields_iff {fields : List (String × Node)} {visit : String × Node} :
    visit ∈ visitsOfFields prune path fields ↔
      ∃ entry ∈ fields, visit ∈ entry.2.visitsFrom prune (Path.join path entry.1) := by
  induction fields with
  | nil => simp [visitsOfFields]
  | cons entry rest ih => simp [visitsOfFields, ih]

/-- The visits of some items are those of each item, below the paths of their indices. -/
theorem mem_visitsOfItems_iff {start : Nat} {items : List Node} {visit : String × Node} :
    visit ∈ visitsOfItems prune path start items ↔
      ∃ (index : Nat) (item : Node), items[index]? = some item ∧
        visit ∈ item.visitsFrom prune (Path.join path (Text.indexStep (start + index))) := by
  induction items generalizing start with
  | nil => simp [visitsOfItems]
  | cons item rest ih =>
    rw [visitsOfItems, List.mem_append, ih]
    constructor
    · rintro (hfirst | ⟨index, other, hother, hvisit⟩)
      · exact ⟨0, item, rfl, hfirst⟩
      · refine ⟨index + 1, other, by simpa using hother, ?_⟩
        rwa [Nat.add_right_comm, Nat.add_assoc] at hvisit
    · rintro ⟨_ | index, other, hother, hvisit⟩
      · obtain rfl : item = other := by simpa using hother
        exact .inl hvisit
      · refine .inr ⟨index, other, by simpa using hother, ?_⟩
        rwa [Nat.add_right_comm, Nat.add_assoc]

/-- A map is visited, and then its values unless it is pruned. -/
theorem mem_visitsFrom_map_iff {fields : List (String × Node)} {visit : String × Node} :
    visit ∈ (Node.map fields).visitsFrom prune path ↔ visit = (path, .map fields) ∨
      prune path (.map fields) = false ∧
        ∃ entry ∈ fields, visit ∈ entry.2.visitsFrom prune (Path.join path entry.1) := by
  rw [visitsFrom, List.mem_cons]
  cases prune path (.map fields) <;> simp [mem_visitsOfFields_iff]

/-- A list is visited, and then its items unless it is pruned. -/
theorem mem_visitsFrom_list_iff {items : List Node} {visit : String × Node} :
    visit ∈ (Node.list items).visitsFrom prune path ↔ visit = (path, .list items) ∨
      prune path (.list items) = false ∧ ∃ (index : Nat) (item : Node),
        items[index]? = some item ∧
        visit ∈ item.visitsFrom prune (Path.join path (Text.indexStep index)) := by
  rw [visitsFrom, List.mem_cons]
  cases prune path (.list items) <;> simp [mem_visitsOfItems_iff]

/-- The nodes that are visited are those that no pruned node stands above. -/
theorem mem_visitsFrom_iff (h : node.Everywhere Keyed.Ascending) {place : String} :
    (place, inner) ∈ node.visitsFrom prune path ↔ ∃ steps, place = steps.foldl Path.join path ∧
      node.Stands steps inner ∧ node.Unpruned prune path steps := by
  -- The path is general, as each child is visited from a path of its own.
  induction node using inductionOn generalizing path with
  | leaf value =>
    rw [visitsFrom, List.mem_singleton]
    constructor
    · rintro ⟨⟩
      exact ⟨[], rfl, .here, unpruned_nil⟩
    · rintro ⟨steps, rfl, ⟨⟩, _⟩
      rfl
  | map fields ih =>
    obtain ⟨hasc, hvalues⟩ := everywhere_map_iff.mp h
    rw [mem_visitsFrom_map_iff]
    constructor
    · rintro (⟨⟨⟩⟩ | ⟨hprune, ⟨key, value⟩, hentry, hvisit⟩)
      · exact ⟨[], rfl, .here, unpruned_nil⟩
      · obtain ⟨steps, hplace, hinner, hfree⟩ := (ih _ hentry (hvalues _ hentry)).mp hvisit
        exact ⟨key :: steps, hplace, .field hentry hinner,
          (unpruned_cons_iff fun _ _ => stands_field_iff hasc hentry).mpr ⟨hprune, hfree⟩⟩
    · rintro ⟨steps, rfl, hinner, hfree⟩
      cases hinner with
      | here => exact .inl rfl
      | field hentry hbelow =>
        obtain ⟨hprune, hfree⟩ :=
          (unpruned_cons_iff fun _ _ => stands_field_iff hasc hentry).mp hfree
        exact .inr ⟨hprune, _, hentry,
          (ih _ hentry (hvalues _ hentry)).mpr ⟨_, rfl, hbelow, hfree⟩⟩
  | list items ih =>
    have hitems := everywhere_list_iff.mp h
    rw [mem_visitsFrom_list_iff]
    constructor
    · rintro (⟨⟨⟩⟩ | ⟨hprune, index, item, hitem, hvisit⟩)
      · exact ⟨[], rfl, .here, unpruned_nil⟩
      · have hmem := List.mem_of_getElem? hitem
        obtain ⟨steps, hplace, hinner, hfree⟩ := (ih _ hmem (hitems _ hmem)).mp hvisit
        exact ⟨Text.indexStep index :: steps, hplace, .item hitem hinner,
          (unpruned_cons_iff fun _ _ => stands_item_iff hitem).mpr ⟨hprune, hfree⟩⟩
    · rintro ⟨steps, rfl, hinner, hfree⟩
      cases hinner with
      | here => exact .inl rfl
      | item hitem hbelow =>
        have hmem := List.mem_of_getElem? hitem
        obtain ⟨hprune, hfree⟩ := (unpruned_cons_iff fun _ _ => stands_item_iff hitem).mp hfree
        exact .inr ⟨hprune, _, _, hitem,
          (ih _ hmem (hitems _ hmem)).mpr ⟨_, rfl, hbelow, hfree⟩⟩

/-! ## The order of the visits -/

/-- In a map the octets of the keys decide, and under one key its value does. -/
theorem precedes_map_iff {fields : List (String × Node)} {s t : String} {p q : List String} :
    (Node.map fields).Precedes (s :: p) (t :: q) ↔ Text.toOctets s < Text.toOctets t ∨
      s = t ∧ ∃ value, (s, value) ∈ fields ∧ value.Precedes p q := by
  constructor
  · intro h
    cases h with
    | fields hlt => exact .inl hlt
    | field hentry hbelow => exact .inr ⟨rfl, _, hentry, hbelow⟩
  · rintro (hlt | ⟨rfl, value, hentry, hbelow⟩)
    · exact .fields hlt
    · exact .field hentry hbelow

/-- In a list the indices decide, and at one index its item does. -/
theorem precedes_list_iff {items : List Node} {i j : Nat} {p q : List String} :
    (Node.list items).Precedes (Text.indexStep i :: p) (Text.indexStep j :: q) ↔
      i < j ∨ i = j ∧ ∃ item, items[i]? = some item ∧ item.Precedes p q := by
  constructor
  · intro h
    -- A written index is no pattern, so both steps get names before the cases are taken.
    generalize hs : Text.indexStep i = s at h
    generalize ht : Text.indexStep j = t at h
    cases h with
    | items hlt =>
      obtain rfl := Text.indexStep_injective hs
      obtain rfl := Text.indexStep_injective ht
      exact .inl hlt
    | item hitem hbelow =>
      obtain rfl := Text.indexStep_injective hs
      obtain rfl := Text.indexStep_injective ht
      exact .inr ⟨rfl, _, hitem, hbelow⟩
  · rintro (hlt | ⟨rfl, item, hitem, hbelow⟩)
    · exact .items hlt
    · exact .item hitem hbelow

/-- In an ordered document no two places precede each other. -/
theorem Precedes.asymm {p q : List String} (h : node.Precedes p q)
    (hordered : node.Everywhere Keyed.Ascending) : ¬ node.Precedes q p := by
  induction h with
  | above => exact nofun
  | fields hlt =>
    rw [precedes_map_iff]
    rintro (hback | ⟨rfl, _⟩)
    · exact List.lt_asymm hlt hback
    · exact List.lt_irrefl _ hlt
  | items hlt =>
    rw [precedes_list_iff]
    rintro (hback | ⟨rfl, _⟩) <;> omega
  | field hentry _ ih =>
    obtain ⟨hasc, hvalues⟩ := everywhere_map_iff.mp hordered
    rw [precedes_map_iff]
    rintro (hback | ⟨_, other, hother, hback⟩)
    · exact List.lt_irrefl _ hback
    · obtain rfl := Keyed.eq_of_mem hasc hentry hother
      exact ih (hvalues _ hentry) hback
  | item hitem _ ih =>
    rw [precedes_list_iff]
    rintro (hback | ⟨_, other, hother, hback⟩)
    · omega
    · obtain rfl := Option.some.inj (hitem.symm.trans hother)
      exact ih (everywhere_list_iff.mp hordered _ (List.mem_of_getElem? hitem)) hback

/-- A visit shows the node that stands where the steps lead, under the path that spells them. -/
def Shows (node : Node) (path : String) (steps : List String) (visit : String × Node) : Prop :=
  visit.1 = steps.foldl Path.join path ∧ node.Stands steps visit.2

/-- What one visit shows precedes what another one shows. -/
def Before (node : Node) (path : String) (a b : String × Node) : Prop :=
  ∃ p q, node.Shows path p a ∧ node.Shows path q b ∧ node.Precedes p q

/-- What a visit of a value shows stands below the key in the map. -/
theorem Shows.field {fields : List (String × Node)} {key : String} {value : Node}
    (hentry : (key, value) ∈ fields) {steps : List String} {visit : String × Node}
    (h : value.Shows (Path.join path key) steps visit) :
    (Node.map fields).Shows path (key :: steps) visit :=
  ⟨h.1, .field hentry h.2⟩

/-- What a visit of an item shows stands below the index in the list. -/
theorem Shows.item {items : List Node} {index : Nat} {item : Node}
    (hitem : items[index]? = some item) {steps : List String} {visit : String × Node}
    (h : item.Shows (Path.join path (Text.indexStep index)) steps visit) :
    (Node.list items).Shows path (Text.indexStep index :: steps) visit :=
  ⟨h.1, .item hitem h.2⟩

/-- Visits of a value keep their order in the map. -/
theorem Before.field {fields : List (String × Node)} {key : String} {value : Node}
    (hentry : (key, value) ∈ fields) {a b : String × Node}
    (h : value.Before (Path.join path key) a b) : (Node.map fields).Before path a b := by
  obtain ⟨p, q, ha, hb, hlt⟩ := h
  exact ⟨key :: p, key :: q, ha.field hentry, hb.field hentry, .field hentry hlt⟩

/-- Visits of an item keep their order in the list. -/
theorem Before.item {items : List Node} {index : Nat} {item : Node}
    (hitem : items[index]? = some item) {a b : String × Node}
    (h : item.Before (Path.join path (Text.indexStep index)) a b) :
    (Node.list items).Before path a b := by
  obtain ⟨p, q, ha, hb, hlt⟩ := h
  exact ⟨_, _, ha.item hitem, hb.item hitem, .item hitem hlt⟩

/-- A node is visited before all that stands below it. -/
theorem before_of_shows {visit : String × Node} {step : String} {steps : List String}
    (h : node.Shows path (step :: steps) visit) : node.Before path (path, node) visit :=
  ⟨[], step :: steps, ⟨rfl, .here⟩, h, .above⟩

/-- Every visit shows a node that stands somewhere. -/
theorem exists_shows_of_mem_visitsFrom (h : node.Everywhere Keyed.Ascending)
    {visit : String × Node} (hvisit : visit ∈ node.visitsFrom prune path) :
    ∃ steps, node.Shows path steps visit := by
  obtain ⟨steps, hplace, hinner, _⟩ := (mem_visitsFrom_iff h).mp hvisit
  exact ⟨steps, hplace, hinner⟩

/-- The visits of some fields of a map come in the order of the walk. -/
theorem pairwise_visitsOfFields {whole fields : List (String × Node)}
    (hvalues : ∀ entry ∈ fields, entry.2.Everywhere Keyed.Ascending)
    (hasc : Keyed.Ascending fields) (hsub : fields ⊆ whole)
    (h : ∀ entry ∈ fields, ∀ path, (entry.2.visitsFrom prune path).Pairwise
      (entry.2.Before path)) :
    (visitsOfFields prune path fields).Pairwise ((Node.map whole).Before path) := by
  induction fields with
  | nil => simp [visitsOfFields]
  | cons entry rest ih =>
    obtain ⟨hfirst, hasc⟩ := List.pairwise_cons.mp hasc
    obtain ⟨hentry, hsub⟩ := List.cons_subset.mp hsub
    obtain ⟨hvalue, hvalues⟩ := List.forall_mem_cons.mp hvalues
    obtain ⟨hbelow, h⟩ := List.forall_mem_cons.mp h
    rw [visitsOfFields, List.pairwise_append]
    refine ⟨(hbelow _).imp (Before.field hentry), ih hvalues hasc hsub h, fun a ha b hb => ?_⟩
    obtain ⟨other, hother, hb⟩ := mem_visitsOfFields_iff.mp hb
    obtain ⟨p, ha⟩ := exists_shows_of_mem_visitsFrom hvalue ha
    obtain ⟨q, hb⟩ := exists_shows_of_mem_visitsFrom (hvalues _ hother) hb
    exact ⟨_, _, ha.field hentry, hb.field (hsub hother),
      .fields (Text.toOctets_lt (hfirst _ hother))⟩

/-- The visits of some items of a list come in the order of the walk. -/
theorem pairwise_visitsOfItems {whole items : List Node} {start : Nat}
    (hitems : ∀ item ∈ items, item.Everywhere Keyed.Ascending)
    (hwhole : ∀ (index : Nat) item, items[index]? = some item →
      whole[start + index]? = some item)
    (h : ∀ item ∈ items, ∀ path, (item.visitsFrom prune path).Pairwise (item.Before path)) :
    (visitsOfItems prune path start items).Pairwise ((Node.list whole).Before path) := by
  induction items generalizing start with
  | nil => simp [visitsOfItems]
  | cons item rest ih =>
    have hfirst : whole[start]? = some item := hwhole 0 item rfl
    have hrest (index : Nat) (other : Node) (hother : rest[index]? = some other) :
        whole[start + 1 + index]? = some other := by
      rw [Nat.add_right_comm, Nat.add_assoc]
      exact hwhole (index + 1) other (by simpa using hother)
    obtain ⟨hitem, hitems⟩ := List.forall_mem_cons.mp hitems
    obtain ⟨hbelow, h⟩ := List.forall_mem_cons.mp h
    rw [visitsOfItems, List.pairwise_append]
    refine ⟨(hbelow _).imp (Before.item hfirst), ih hitems hrest h, fun a ha b hb => ?_⟩
    obtain ⟨index, other, hother, hb⟩ := mem_visitsOfItems_iff.mp hb
    obtain ⟨p, ha⟩ := exists_shows_of_mem_visitsFrom hitem ha
    obtain ⟨q, hb⟩ := exists_shows_of_mem_visitsFrom (hitems _ (List.mem_of_getElem? hother)) hb
    exact ⟨_, _, ha.item hfirst, hb.item (hrest _ _ hother), .items (by omega)⟩

/-- The visits come in the order of the walk. -/
theorem pairwise_visitsFrom (h : node.Everywhere Keyed.Ascending) :
    (node.visitsFrom prune path).Pairwise (node.Before path) := by
  induction node using inductionOn generalizing path with
  | leaf value => simp [visitsFrom]
  | map fields ih =>
    obtain ⟨hasc, hvalues⟩ := everywhere_map_iff.mp h
    have hbelow : (visitsOfFields prune path fields).Pairwise ((Node.map fields).Before path) :=
      pairwise_visitsOfFields hvalues hasc (List.Subset.refl fields) fun entry hentry _ =>
        ih entry hentry (hvalues _ hentry)
    rw [visitsFrom, List.pairwise_cons]
    split
    · simp
    · refine ⟨fun visit hvisit => ?_, hbelow⟩
      obtain ⟨entry, hentry, hvisit⟩ := mem_visitsOfFields_iff.mp hvisit
      obtain ⟨steps, hshows⟩ := exists_shows_of_mem_visitsFrom (hvalues _ hentry) hvisit
      exact before_of_shows (hshows.field hentry)
  | list items ih =>
    have hitems := everywhere_list_iff.mp h
    have hbelow : (visitsOfItems prune path 0 items).Pairwise ((Node.list items).Before path) :=
      pairwise_visitsOfItems hitems (fun index item hitem => by rwa [Nat.zero_add])
        fun item hmem _ => ih item hmem (hitems _ hmem)
    rw [visitsFrom, List.pairwise_cons]
    split
    · simp
    · refine ⟨fun visit hvisit => ?_, hbelow⟩
      obtain ⟨index, item, hitem, hvisit⟩ := mem_visitsOfItems_iff.mp hvisit
      rw [Nat.zero_add] at hvisit
      obtain ⟨steps, hshows⟩ :=
        exists_shows_of_mem_visitsFrom (hitems _ (List.mem_of_getElem? hitem)) hvisit
      exact before_of_shows (hshows.item hitem)

/-! ## Visited paths lead to the nodes -/

/-- A path that shows a node spells the steps that lead to it. -/
theorem Shows.segments_eq {steps : List String} {visit : String × Node}
    (h : node.Shows Path.root steps visit) (hkeys : node.PlainKeys) :
    Path.segments visit.1 = steps := by
  rw [h.1, Path.segments_foldl_join (h.2.plainStep hkeys), Path.segments_root, List.nil_append]

/-- The visits of a document list the nodes that no pruned node stands above, each once and in the
order of the walk. The path of a visit leads to the node that was visited with it. -/
theorem visits_enumerate (prune : String → Node → Bool) {document : Node}
    (hordered : document.Ordered) (hkeys : document.PlainKeys) (hshort : document.ShortLists) :
    (∀ place inner, (place, inner) ∈ document.visits prune ↔
      ∃ steps, place = steps.foldl Path.join Path.root ∧ document.Stands steps inner ∧
        document.Unpruned prune Path.root steps) ∧
    (document.visits prune).Pairwise (fun a b =>
      document.Precedes (Path.segments a.1) (Path.segments b.1)) ∧
    ((document.visits prune).map Prod.fst).Nodup ∧
    ∀ place inner, (place, inner) ∈ document.visits prune →
      document.seek place = .ok inner := by
  have hascending := (ordered_iff_everywhere document).mp hordered
  have hpairwise : (document.visits prune).Pairwise fun a b =>
      document.Precedes (Path.segments a.1) (Path.segments b.1) := by
    refine (pairwise_visitsFrom hascending).imp ?_
    rintro a b ⟨p, q, ha, hb, hlt⟩
    rwa [ha.segments_eq hkeys, hb.segments_eq hkeys]
  refine ⟨fun place inner => mem_visitsFrom_iff hascending, hpairwise, ?_, fun place inner h => ?_⟩
  · refine List.pairwise_map.mpr (hpairwise.imp fun {a b} hlt heq => ?_)
    rw [heq] at hlt
    exact hlt.asymm hascending hlt
  · obtain ⟨steps, hshows⟩ := exists_shows_of_mem_visitsFrom hascending h
    rw [seek_eq_ok_iff, hshows.segments_eq hkeys]
    exact hshows.2.follow?_eq hascending (hshows.2.accepts hascending hshort)

/-- A walk goes on after a pruned field, and what stands below that field is in the document, but
not among the visits. -/
theorem visits_enumerate_pruned :
    let prune (place : String) (_ : Node) : Bool := place == "/kept/1"
    let document := Node.map [("kept", .list [.leaf .null, .map [("a", .leaf .null)]]),
      ("last", .map [("b", .leaf .null)])]
    document.Ordered ∧ document.PlainKeys ∧ document.ShortLists ∧
      (document.visits prune).map Prod.fst =
        ["/", "/kept", "/kept/0", "/kept/1", "/last", "/last/b"] ∧
      (∀ place inner, (place, inner) ∈ document.visits prune →
        document.seek place = .ok inner) ∧
      document.Stands ["kept", "1", "a"] (.leaf .null) ∧
      ¬ document.Unpruned prune Path.root ["kept", "1", "a"] := by
  intro prune document
  have hordered : document.Ordered := by decide +kernel
  have hkeys : document.PlainKeys := by decide +kernel
  have hshort : document.ShortLists := shortLists_of_count (by decide +kernel)
  have hpaths : (document.visits prune).map Prod.fst =
      ["/", "/kept", "/kept/0", "/kept/1", "/last", "/last/b"] := by decide +kernel
  have hitem : [Node.leaf .null, .map [("a", .leaf .null)]][1]? =
      some (.map [("a", .leaf .null)]) := rfl
  have hstands : document.Stands ["kept", "1", "a"] (.leaf .null) :=
    .field (List.mem_cons_self ..) (.item hitem (.field (List.mem_cons_self ..) .here))
  obtain ⟨hmem, _, _, hseek⟩ := visits_enumerate prune hordered hkeys hshort
  refine ⟨hordered, hkeys, hshort, hpaths, hseek, hstands, fun hfree => ?_⟩
  have hvisit := (hmem _ _).mpr ⟨_, rfl, hstands, hfree⟩
  have hplace := List.mem_map_of_mem (f := Prod.fst) hvisit
  rw [hpaths] at hplace
  exact absurd hplace (by decide +kernel)

end ContainerFeed.Node
