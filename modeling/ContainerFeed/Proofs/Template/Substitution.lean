import ContainerFeed.Proofs.Template.Regions

/-!
# Substituting defaults for specs

A tree can be stripped of its specs without paths and without an order: each of them gives way to
its default where it stands. When only the specs of some places are chosen to do so, an edit at
the place of one more spec leaves the tree in which that one has given way as well.
-/

namespace ContainerFeed

open Template (Spec)

namespace Node

/-! ## Substituting defaults for specs -/

/-- A choice among the places below a node. -/
abbrev Choice := List String → Bool

/-- The choice among the places below a child. -/
def Choice.below (chosen : Choice) (step : String) : Choice :=
  fun p => chosen (step :: p)

/-- The choice of one more place. -/
def Choice.add (chosen : Choice) (place : List String) : Choice :=
  fun p => p == place || chosen p

/-- The default that a spec states. It is the same wherever the spec stands. -/
def default? (spec : Node) : Option Scalar :=
  (Template.specAt? (Path.root, spec)).bind Spec.default

/-- What is left of a spec: its default, if it has one, or else nothing. A spec that is not chosen
stays. -/
def remnant? (chosen : Bool) (spec : Node) : Option Node :=
  if chosen then spec.default?.map .leaf else some spec

mutual

/-- What is left of a tree when the chosen ones of its specs give way to their defaults. Without a
default a field goes, and an item becomes null. All other nodes stay as they are, and below a full
spec nothing counts. -/
def substitute (chosen : Choice) : Node → Option Node
  | .map fields =>
    if Spec.isFull (.map fields) then remnant? (chosen []) (.map fields)
    else some (.map (substituteFields chosen fields))
  | .list items => some (.list (substituteItems chosen 0 items))
  | .leaf value =>
    if Spec.isSpec (.leaf value) then remnant? (chosen []) (.leaf value) else some (.leaf value)

/-- What is left of some fields. -/
def substituteFields (chosen : Choice) : List (String × Node) → List (String × Node)
  | [] => []
  | (key, value) :: rest =>
    match value.substitute (chosen.below key) with
    | some left => (key, left) :: substituteFields chosen rest
    | none => substituteFields chosen rest

/-- What is left of some items, from an index on. -/
def substituteItems (chosen : Choice) (index : Nat) : List Node → List Node
  | [] => []
  | item :: rest =>
    (item.substitute (chosen.below (Text.indexStep index))).getD (.leaf .null) ::
      substituteItems chosen (index + 1) rest

end

/-- The tree with all its specs replaced by their defaults. -/
def withDefaults (node : Node) : Option Node :=
  node.substitute fun _ => true

/-- Choosing a place chooses it below the child that it lies in. -/
theorem Choice.below_add_self (chosen : Choice) (s : String) (p : List String) :
    (chosen.add (s :: p)).below s = (chosen.below s).add p := by
  funext q
  simp [below, add]

/-- Choosing a place chooses nothing below other children. -/
theorem Choice.below_add_of_ne {s t : String} (h : t ≠ s) (chosen : Choice) (p : List String) :
    (chosen.add (s :: p)).below t = chosen.below t := by
  funext q
  simp [below, add, h]

/-- A spec leaves its remnant. -/
theorem substitute_of_isSpec {node : Node} (h : Spec.isSpec node = true) (chosen : Choice) :
    node.substitute chosen = remnant? (chosen []) node := by
  cases node with
  | map fields =>
    have hfull : Spec.isFull (.map fields) = true := h
    rw [substitute, if_pos hfull]
  | list items => simp [Spec.isSpec, Spec.isFull] at h
  | leaf value => rw [substitute, if_pos h]

/-- A map that is no full spec leaves a map of what its fields leave. -/
theorem substitute_map {fields : List (String × Node)} (h : Spec.isFull (.map fields) = false)
    (chosen : Choice) :
    (Node.map fields).substitute chosen = some (.map (substituteFields chosen fields)) := by
  rw [substitute, if_neg (by simp [h])]

/-- A list leaves a list of what its items leave. -/
theorem substitute_list (items : List Node) (chosen : Choice) :
    (Node.list items).substitute chosen = some (.list (substituteItems chosen 0 items)) := by
  rw [substitute]

/-- Only a spec can leave nothing. -/
theorem exists_substitute {node : Node} (h : Spec.isSpec node = false) (chosen : Choice) :
    ∃ left, node.substitute chosen = some left := by
  cases node with
  | map fields => exact ⟨_, substitute_map h chosen⟩
  | list items => exact ⟨_, substitute_list items chosen⟩
  | leaf value => exact ⟨.leaf value, by rw [substitute, if_neg (by simp [h])]⟩

/-! ## What is left of fields and items -/

/-- The first field leaves what its value leaves, or nothing. -/
theorem substituteFields_cons (chosen : Choice) (key : String) (value : Node)
    (rest : List (String × Node)) :
    substituteFields chosen ((key, value) :: rest) =
      ((value.substitute (chosen.below key)).map fun left => (key, left)).toList ++
        substituteFields chosen rest := by
  rw [substituteFields]
  cases value.substitute (chosen.below key) <;> rfl

/-- A field is left with what is left of its value. -/
theorem get?_substituteFields {fields : List (String × Node)} (h : Keyed.Ascending fields)
    (chosen : Choice) (key : String) :
    Keyed.get? key (substituteFields chosen fields) =
      (Keyed.get? key fields).bind fun value => value.substitute (chosen.below key) := by
  induction fields with
  | nil => rfl
  | cons entry rest ih =>
    obtain ⟨k, value⟩ := entry
    obtain ⟨hfirst, hrest⟩ := List.pairwise_cons.mp h
    rw [substituteFields_cons]
    by_cases hkey : k = key
    · subst hkey
      have hnone : Keyed.get? k rest = none :=
        Keyed.get?_eq_none_iff.mpr fun other hother heq =>
          String.lt_irrefl _ (heq ▸ hfirst other hother)
      cases hvalue : value.substitute (chosen.below k) with
      | some left => simp [Keyed.get?, hvalue]
      | none => simp [Keyed.get?, hvalue, ih hrest, hnone]
    · cases hvalue : value.substitute (chosen.below k) with
      | some left => simp [Keyed.get?, hkey, ih hrest]
      | none => simp [Keyed.get?, hkey, ih hrest]

/-- The fields that are left have keys of the fields before. -/
theorem mem_of_mem_substituteFields {chosen : Choice} {fields : List (String × Node)}
    {entry : String × Node} (h : entry ∈ substituteFields chosen fields) :
    ∃ old ∈ fields, old.1 = entry.1 := by
  induction fields with
  | nil => simp [substituteFields] at h
  | cons first rest ih =>
    obtain ⟨key, value⟩ := first
    rw [substituteFields_cons, List.mem_append, Option.mem_toList, Option.map_eq_some_iff] at h
    rcases h with ⟨left, _, rfl⟩ | h
    · exact ⟨(key, value), by simp, rfl⟩
    · obtain ⟨old, hold, hkey⟩ := ih h
      exact ⟨old, by simp [hold], hkey⟩

/-- The fields that are left have their keys in order. -/
theorem ascending_substituteFields {fields : List (String × Node)} (h : Keyed.Ascending fields)
    (chosen : Choice) : Keyed.Ascending (substituteFields chosen fields) := by
  induction fields with
  | nil => exact Keyed.ascending_nil
  | cons first rest ih =>
    obtain ⟨key, value⟩ := first
    obtain ⟨hfirst, hrest⟩ := List.pairwise_cons.mp h
    have hlater (left : Node) :
        ∀ entry ∈ substituteFields chosen rest, (key, left).1 < entry.1 := by
      intro entry hentry
      obtain ⟨old, hold, hkey⟩ := mem_of_mem_substituteFields hentry
      exact hkey ▸ hfirst old hold
    rw [substituteFields_cons]
    cases value.substitute (chosen.below key) with
    | some left => exact List.pairwise_cons.mpr ⟨hlater left, ih hrest⟩
    | none => exact ih hrest

/-- An item is left with what is left of it, and with null if that is nothing. -/
theorem getElem?_substituteItems (chosen : Choice) (index : Nat) (items : List Node) (i : Nat) :
    (substituteItems chosen index items)[i]? = items[i]?.map fun item =>
      (item.substitute (chosen.below (Text.indexStep (index + i)))).getD (.leaf .null) := by
  induction items generalizing index i with
  | nil => simp [substituteItems]
  | cons item rest ih =>
    rw [substituteItems]
    cases i with
    | zero => rfl
    | succ i =>
      rw [List.getElem?_cons_succ, List.getElem?_cons_succ, ih, Nat.add_assoc, Nat.add_comm 1 i]

/-- As many items are left as there were. -/
theorem length_substituteItems (chosen : Choice) (index : Nat) (items : List Node) :
    (substituteItems chosen index items).length = items.length := by
  induction items generalizing index with
  | nil => rfl
  | cons item rest ih => rw [substituteItems, List.length_cons, List.length_cons, ih]

/-! ## One more place -/

end Node

/-- The entries with a value put under a key, or with the key taken out. -/
def Keyed.settle {α : Type} (key : String) (value : Option α) (entries : List (String × α)) :
    List (String × α) :=
  match value with
  | some value => insert key value entries
  | none => erase key entries

/-- A settled entry is found under its key, and the others as before. -/
theorem Keyed.get?_settle {α : Type} (key : String) (value : Option α)
    (entries : List (String × α)) (other : String) :
    get? other (settle key value entries) = if other = key then value else get? other entries := by
  split
  · rename_i hsame
    subst hsame
    cases value with
    | some value => exact get?_insert_self other value entries
    | none => exact get?_erase_self other entries
  · rename_i hne
    cases value with
    | some value => exact get?_insert_of_ne value entries hne
    | none => exact get?_erase_of_ne entries hne

/-- Settling an entry keeps the keys in order. -/
theorem Keyed.ascending_settle {α : Type} {entries : List (String × α)} (h : Ascending entries)
    (key : String) (value : Option α) : Ascending (settle key value entries) := by
  cases value with
  | some value => exact ascending_insert key value h
  | none => exact ascending_erase key h

namespace Node

/-- Choosing a place below a field changes what is left of this field alone. -/
theorem settle_substituteFields {fields : List (String × Node)} (hasc : Keyed.Ascending fields)
    {key : String} {value : Node} (hvalue : Keyed.get? key fields = some value) (chosen : Choice)
    (p : List String) :
    Keyed.settle key (value.substitute ((chosen.below key).add p))
        (substituteFields chosen fields) =
      substituteFields (chosen.add (key :: p)) fields := by
  refine Keyed.ext_get? (Keyed.ascending_settle (ascending_substituteFields hasc _) _ _)
    (ascending_substituteFields hasc _) fun other => ?_
  rw [Keyed.get?_settle, get?_substituteFields hasc, get?_substituteFields hasc]
  split
  · rename_i hsame
    subst hsame
    rw [hvalue, Choice.below_add_self, Option.bind_some]
  · rename_i hne
    rw [Choice.below_add_of_ne hne]

/-- Choosing a place below an item changes what is left of this item alone. -/
theorem set_substituteItems {items : List Node} {i : Nat} {item : Node}
    (hitem : items[i]? = some item) (chosen : Choice) (p : List String) :
    (substituteItems chosen 0 items).set i
        ((item.substitute ((chosen.below (Text.indexStep i)).add p)).getD (.leaf .null)) =
      substituteItems (chosen.add (Text.indexStep i :: p)) 0 items := by
  have hlt : i < items.length := (List.getElem?_eq_some_iff.mp hitem).1
  refine List.ext_getElem? fun j => ?_
  rw [getElem?_substituteItems, Nat.zero_add]
  by_cases hsame : i = j
  · subst hsame
    rw [List.getElem?_set_self (by rwa [length_substituteItems]), hitem, Choice.below_add_self,
      Option.map_some]
  · have hstep : Text.indexStep j ≠ Text.indexStep i :=
      fun heq => hsame (Text.indexStep_injective heq).symm
    rw [List.getElem?_set_ne hsame, getElem?_substituteItems, Nat.zero_add,
      Choice.below_add_of_ne hstep]

/-! ## Lists and their indices -/

/-- Every item of a list in the tree can be named by an index, which is a 64-bit number. Lists in
memory are never longer. -/
def Indexable (node : Node) : Prop :=
  ∀ place ∈ node.positions, ∀ items ∈ place.2.items?, items.length ≤ twoTo 64

instance (node : Node) : Decidable node.Indexable :=
  inferInstanceAs (Decidable
    (∀ place ∈ node.positions, ∀ items ∈ place.2.items?, items.length ≤ twoTo 64))

/-- The values of a map have no longer lists than the map. -/
theorem Indexable.field {fields : List (String × Node)} (h : (Node.map fields).Indexable)
    (hfull : Spec.isFull (.map fields) = false) {entry : String × Node} (hentry : entry ∈ fields) :
    entry.2.Indexable := by
  intro place hplace
  refine h (entry.1 :: place.1, place.2) ?_
  rw [positions, if_neg (by simp [hfull])]
  exact List.mem_cons_of_mem _
    (mem_positionsOfFields_iff.mpr ⟨entry, hentry, place, hplace, rfl⟩)

/-- The items of a list have no longer lists than the list. -/
theorem Indexable.item {items : List Node} (h : (Node.list items).Indexable) {i : Nat}
    {item : Node} (hitem : items[i]? = some item) : item.Indexable := by
  intro place hplace
  refine h (Text.indexStep (0 + i) :: place.1, place.2) ?_
  rw [positions]
  exact List.mem_cons_of_mem _
    (mem_positionsOfItems_iff.mpr ⟨i, item, hitem, place, hplace, rfl⟩)

/-- The index of an item is read back. -/
theorem Indexable.readIndex? {items : List Node} (h : (Node.list items).Indexable) {i : Nat}
    (hi : i < items.length) : Text.readIndex? (Text.indexStep i) = some i := by
  have hlength : items.length ≤ twoTo 64 := h ([], .list items) (by simp [positions]) items rfl
  exact Text.readIndex?_indexStep (Nat.lt_of_lt_of_le hi hlength)

/-- Where all items can be named, every position can be written. -/
theorem Indexable.accepts {node inner : Node} {p : List String} (h : node.Indexable)
    (hordered : node.Everywhere Keyed.Ascending) (hmem : (p, inner) ∈ node.positions) :
    node.Accepts p := by
  induction p generalizing node with
  | nil => trivial
  | cons s p ih =>
    rcases cons_mem_positions hmem with
      ⟨fields, value, rfl, hfull, hentry, hplace⟩ | ⟨items, i, item, rfl, hitem, rfl, hplace⟩
    · obtain ⟨hasc, hvalues⟩ := everywhere_map_iff.mp hordered
      have hchild : (Node.map fields).child? s = some value := Keyed.get?_of_mem hasc hentry
      exact ⟨trivial, fun _ => ⟨value, hchild, ih (h.field hfull hentry) (hvalues _ hentry) hplace⟩⟩
    · have hitems := everywhere_list_iff.mp hordered item (List.mem_of_getElem? hitem)
      have hread := h.readIndex? (List.getElem?_eq_some_iff.mp hitem).1
      have hchild : (Node.list items).child? (Text.indexStep i) = some item := by
        simp [child?, hread, hitem]
      exact ⟨takes_of_child? hchild, fun _ => ⟨item, hchild, ih (h.item hitem) hitems hplace⟩⟩

/-- In a tree with few enough nodes every item can be named. -/
theorem indexable_of_count_le {node : Node} (h : node.count ≤ twoTo 64) : node.Indexable := by
  rintro ⟨p, inner⟩ hplace items hitems
  cases inner with
  | map fields => simp [items?] at hitems
  | leaf value => simp [items?] at hitems
  | list found =>
    obtain rfl : found = items := by simpa [items?] using hitems
    have hlength := length_le_countItems found
    have hcount := (stands_of_mem_positions hplace).count_le
    rw [count] at hcount
    omega

/-! ## Edits at the places of specs -/

/-- An edit settles the entry under a step: a field gets the value or goes, and an item gets the
value or becomes null. -/
structure Settles {α : Type} (edit : Node → Except PathError (α × Node)) (last : String)
    (value : Option Node) : Prop where
  map : ∀ fields, ∃ result,
    edit (.map fields) = .ok (result, .map (Keyed.settle last value fields))
  list : ∀ items index, indexWithin? items last = some index → ∃ result,
    edit (.list items) = .ok (result, .list (items.set index (value.getD (.leaf .null))))

/-- Putting a value under a step settles its entry with the value. -/
theorem settles_enter (path parent last : String) (value : Node) :
    Settles (enter path parent last value) last (some value) where
  map _ := ⟨(), rfl⟩
  list items index hindex := ⟨(), by simp only [enter, hindex, Option.getD_some]⟩

/-- Taking out what stands under a step settles its entry with nothing. -/
theorem settles_withdraw (path parent last : String) :
    Settles (withdraw path parent last) last none where
  map fields := ⟨Keyed.get? last fields, rfl⟩
  list items index hindex := ⟨items[index]?, by simp only [withdraw, hindex, Option.getD_none]⟩

/-- What is above the place of a node is no spec. -/
theorem isSpec_of_mem_positions {node inner : Node} {p : List String}
    (h : (p, inner) ∈ node.positions) (hp : p ≠ []) : Spec.isSpec node = false := by
  cases p with
  | nil => exact absurd rfl hp
  | cons s p =>
    rcases cons_mem_positions h with ⟨fields, value, rfl, hfull, _⟩ | ⟨items, i, item, rfl, _⟩
    · exact hfull
    · rfl

section

variable {α : Type} {edit : Node → Except PathError (α × Node)} {last : String}
  {node inner old : Node} {chosen : Choice}

/-- Settling the entry of a spec with its default carries out the choice of the spec. -/
theorem Settles.exists_substitute (hsettles : Settles edit last (inner.default?.map .leaf))
    (hspec : Spec.isSpec inner = true) (hordered : node.Everywhere Keyed.Ascending)
    (haccepts : node.Accepts [last]) (hplace : ([last], inner) ∈ node.positions)
    (hold : node.substitute chosen = some old) :
    ∃ result new, edit old = .ok (result, new) ∧
      node.substitute (chosen.add [last]) = some new := by
  have hleft (chosen : Choice) : inner.substitute (chosen.add []) = inner.default?.map .leaf := by
    rw [substitute_of_isSpec hspec]
    simp [remnant?, Choice.add]
  rcases cons_mem_positions hplace with
    ⟨fields, value, rfl, hfull, hentry, hbelow⟩ | ⟨items, i, item, rfl, hitem, rfl, hbelow⟩ <;>
    obtain rfl := eq_of_nil_mem_positions hbelow
  · obtain ⟨hasc, _⟩ := everywhere_map_iff.mp hordered
    obtain rfl := Option.some.inj ((substitute_map hfull chosen).symm.trans hold)
    obtain ⟨result, hok⟩ := hsettles.map (substituteFields chosen fields)
    refine ⟨result, _, hok, ?_⟩
    rw [substitute_map hfull, ← settle_substituteFields hasc (Keyed.get?_of_mem hasc hentry),
      hleft]
  · have hlt := (List.getElem?_eq_some_iff.mp hitem).1
    have hindex : indexWithin? (substituteItems chosen 0 items) (Text.indexStep i) = some i := by
      rw [indexWithin?_eq_some_iff, length_substituteItems]
      exact ⟨readIndex?_of_takes haccepts.1, hlt⟩
    obtain rfl := Option.some.inj ((substitute_list items chosen).symm.trans hold)
    obtain ⟨result, hok⟩ := hsettles.list _ i hindex
    refine ⟨result, _, hok, ?_⟩
    rw [substitute_list, ← set_substituteItems hitem, hleft]

/-- So does settling it at the end of the steps that lead there. -/
theorem Settles.exists_editAt_substitute (hsettles : Settles edit last (inner.default?.map .leaf))
    (hspec : Spec.isSpec inner = true) (missing : PathError)
    (hordered : node.Everywhere Keyed.Ascending) {p : List String}
    (haccepts : node.Accepts (p ++ [last])) (hplace : (p ++ [last], inner) ∈ node.positions)
    (hold : node.substitute chosen = some old) :
    ∃ result new, old.editAt missing edit p = .ok (result, new) ∧
      node.substitute (chosen.add (p ++ [last])) = some new := by
  induction p generalizing node chosen old with
  | nil => exact hsettles.exists_substitute hspec hordered haccepts hplace hold
  | cons s p ih =>
    -- The edited child lies above the place and is no spec, so something is left of it.
    have hstays {child : Node} (hbelow : (p ++ [last], inner) ∈ child.positions) :
        ∃ left, child.substitute (chosen.below s) = some left :=
      Node.exists_substitute (isSpec_of_mem_positions hbelow (by simp)) _
    rcases cons_mem_positions hplace with
      ⟨fields, value, rfl, hfull, hentry, hbelow⟩ | ⟨items, i, item, rfl, hitem, rfl, hbelow⟩
    · obtain ⟨hasc, hvalues⟩ := everywhere_map_iff.mp hordered
      have hvalue : Keyed.get? s fields = some value := Keyed.get?_of_mem hasc hentry
      obtain rfl := Option.some.inj ((substitute_map hfull chosen).symm.trans hold)
      obtain ⟨left, hleft⟩ := hstays hbelow
      obtain ⟨result, new, hok, hnew⟩ :=
        ih (hvalues _ hentry) (haccepts.below hvalue) hbelow hleft
      have hchild : (Node.map (substituteFields chosen fields)).child? s = some left := by
        rw [child?, get?_substituteFields hasc, hvalue, Option.bind_some, hleft]
      refine ⟨result, .map (Keyed.insert s new (substituteFields chosen fields)), ?_, ?_⟩
      · simp only [editAt, hchild, hok, putChild]
      · rw [substitute_map hfull, List.cons_append, ← settle_substituteFields hasc hvalue, hnew]
        rfl
    · have hread : Text.readIndex? (Text.indexStep i) = some i :=
        readIndex?_of_takes haccepts.1
      have hitemchild : (Node.list items).child? (Text.indexStep i) = some item := by
        simp [child?, hread, hitem]
      obtain rfl := Option.some.inj ((substitute_list items chosen).symm.trans hold)
      obtain ⟨left, hleft⟩ := hstays hbelow
      obtain ⟨result, new, hok, hnew⟩ :=
        ih (everywhere_list_iff.mp hordered item (List.mem_of_getElem? hitem))
          (haccepts.below hitemchild) hbelow hleft
      have hchild : (Node.list (substituteItems chosen 0 items)).child? (Text.indexStep i) =
          some left := by
        simp only [child?, hread, Option.bind_some, getElem?_substituteItems, hitem, Nat.zero_add,
          Option.map_some, hleft, Option.getD_some]
      refine ⟨result, .list ((substituteItems chosen 0 items).set i new), ?_, ?_⟩
      · simp only [editAt, hchild, hok, putChild, hread]
      · rw [substitute_list, List.cons_append, ← set_substituteItems hitem, hnew,
          Option.getD_some]

end

mutual

/-- What is left of a tree depends only on the choice among its specs. -/
theorem substitute_congr {chosen other : Choice} : (node : Node) →
    (∀ place ∈ node.positions, Spec.isSpec place.2 = true → chosen place.1 = other place.1) →
    node.substitute chosen = node.substitute other
  | .map fields, h => by
    by_cases hfull : Spec.isFull (.map fields) = true
    · have hspec : Spec.isSpec (.map fields) = true := hfull
      rw [substitute_of_isSpec hspec, substitute_of_isSpec hspec,
        h ([], .map fields) (by simp [positions]) hspec]
    · have hnot : Spec.isFull (.map fields) = false := by simpa using hfull
      rw [substitute_map hnot, substitute_map hnot, substituteFields_congr fields]
      intro place hplace
      exact h place (by rw [positions, if_neg hfull]; exact List.mem_cons_of_mem _ hplace)
  | .list items, h => by
    rw [substitute_list, substitute_list, substituteItems_congr 0 items]
    intro place hplace
    exact h place (by rw [positions]; exact List.mem_cons_of_mem _ hplace)
  | .leaf value, h => by
    by_cases hspec : Spec.isSpec (.leaf value) = true
    · rw [substitute_of_isSpec hspec, substitute_of_isSpec hspec,
        h ([], .leaf value) (by simp [positions]) hspec]
    · rw [substitute, substitute, if_neg hspec, if_neg hspec]

/-- What some fields leave depends on the choice among their specs only. -/
theorem substituteFields_congr {chosen other : Choice} : (fields : List (String × Node)) →
    (∀ place ∈ positionsOfFields fields,
      Spec.isSpec place.2 = true → chosen place.1 = other place.1) →
    substituteFields chosen fields = substituteFields other fields
  | [], _ => rfl
  | (key, value) :: rest, h => by
    rw [positionsOfFields, List.forall_mem_append, List.forall_mem_map] at h
    have hvalue : value.substitute (chosen.below key) = value.substitute (other.below key) :=
      substitute_congr value h.1
    rw [substituteFields_cons, substituteFields_cons, hvalue, substituteFields_congr rest h.2]

/-- What some items leave depends on the choice among their specs only. -/
theorem substituteItems_congr {chosen other : Choice} (index : Nat) : (items : List Node) →
    (∀ place ∈ positionsOfItems index items,
      Spec.isSpec place.2 = true → chosen place.1 = other place.1) →
    substituteItems chosen index items = substituteItems other index items
  | [], _ => rfl
  | item :: rest, h => by
    rw [positionsOfItems, List.forall_mem_append, List.forall_mem_map] at h
    have hitem : item.substitute (chosen.below (Text.indexStep index)) =
        item.substitute (other.below (Text.indexStep index)) := substitute_congr item h.1
    rw [substituteItems, substituteItems, hitem, substituteItems_congr (index + 1) rest h.2]

end

mutual

/-- When no spec is chosen, the whole tree is left. -/
theorem substitute_none : (node : Node) → node.substitute (fun _ => false) = some node
  | .map fields => by
    rw [substitute, substituteFields_none fields]
    simp [remnant?]
  | .list items => by rw [substitute, substituteItems_none 0 items]
  | .leaf value => by
    rw [substitute]
    simp [remnant?]

/-- Fields stay as they are when no spec is chosen. -/
theorem substituteFields_none : (fields : List (String × Node)) →
    substituteFields (fun _ => false) fields = fields
  | [] => rfl
  | (key, value) :: rest => by
    have hvalue : value.substitute (Choice.below (fun _ => false) key) = some value :=
      substitute_none value
    rw [substituteFields_cons, hvalue, substituteFields_none rest]
    rfl

/-- Items stay as they are when no spec is chosen. -/
theorem substituteItems_none (index : Nat) : (items : List Node) →
    substituteItems (fun _ => false) index items = items
  | [] => rfl
  | item :: rest => by
    have hitem : item.substitute (Choice.below (fun _ => false) (Text.indexStep index)) =
        some item := substitute_none item
    rw [substituteItems, hitem, substituteItems_none (index + 1) rest]
    rfl

end

end Node

end ContainerFeed
