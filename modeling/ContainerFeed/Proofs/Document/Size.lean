import ContainerFeed.Json.Writer
import ContainerFeed.Proofs.Document.Fields

/-!
# How large a document can be

Every node of a document that is read from text takes at least one character of it. A node that is
replaced takes its own nodes away, and nothing beside them.
-/

namespace ContainerFeed

namespace Node

mutual

/-- How many nodes a tree has. -/
def count : Node → Nat
  | .map fields => countFields fields + 1
  | .list items => countItems items + 1
  | .leaf _ => 1

/-- How many nodes there are in the values of some fields. -/
def countFields : List (String × Node) → Nat
  | [] => 0
  | (_, value) :: rest => value.count + countFields rest

/-- How many nodes there are in some items. -/
def countItems : List Node → Nat
  | [] => 0
  | item :: rest => item.count + countItems rest

end

/-- A tree has a node at least. -/
theorem count_pos (node : Node) : 0 < node.count := by
  cases node <;> simp [count]

/-- The nodes of two lists of items add up. -/
theorem countItems_append (front back : List Node) :
    countItems (front ++ back) = countItems front + countItems back := by
  induction front with
  | nil => simp [countItems]
  | cons item rest ih =>
    simp only [List.cons_append, countItems, ih]
    omega

/-- The order of items does not change the number of their nodes. -/
theorem countItems_reverse (items : List Node) : countItems items.reverse = countItems items := by
  induction items with
  | nil => rfl
  | cons item rest ih =>
    simp only [List.reverse_cons, countItems_append, countItems, ih]
    omega

/-- There are no more items than nodes in them. -/
theorem length_le_countItems (items : List Node) : items.length ≤ countItems items := by
  induction items with
  | nil => exact Nat.zero_le _
  | cons item rest ih =>
    have hpos := item.count_pos
    rw [countItems, List.length_cons]
    omega

/-- An item has no more nodes than all items. -/
theorem count_le_countItems {items : List Node} {item : Node} (h : item ∈ items) :
    item.count ≤ countItems items := by
  induction items with
  | nil => simp at h
  | cons first rest ih =>
    rw [countItems]
    rcases List.mem_cons.mp h with rfl | h
    · exact Nat.le_add_right _ _
    · exact (ih h).trans (Nat.le_add_left _ _)

/-- A value has no more nodes than all fields. -/
theorem count_le_countFields {fields : List (String × Node)} {entry : String × Node}
    (h : entry ∈ fields) : entry.2.count ≤ countFields fields := by
  induction fields with
  | nil => simp at h
  | cons first rest ih =>
    obtain ⟨key, value⟩ := first
    rw [countFields]
    rcases List.mem_cons.mp h with rfl | h
    · exact Nat.le_add_right _ _
    · exact (ih h).trans (Nat.le_add_left _ _)

/-- What holds of a map when it holds of its values, and of a list when it holds of its items, holds
of every document. -/
@[elab_as_elim]
theorem inductionOn {motive : Node → Prop} (leaf : ∀ value, motive (.leaf value))
    (map : ∀ fields, (∀ entry ∈ fields, motive entry.2) → motive (.map fields))
    (list : ∀ items, (∀ item ∈ items, motive item) → motive (.list items)) :
    (node : Node) → motive node
  | .leaf value => leaf value
  | .map fields => map fields fun entry _ => inductionOn leaf map list entry.2
  | .list items => list items fun item _ => inductionOn leaf map list item
termination_by node => node.count
decreasing_by
  · exact Nat.lt_succ_of_le (count_le_countFields ‹_›)
  · exact Nat.lt_succ_of_le (count_le_countItems ‹_›)

/-- A new field brings no more nodes than its value has. -/
theorem countFields_insert_le (key : String) (value : Node) (fields : List (String × Node)) :
    countFields (Keyed.insert key value fields) ≤ countFields fields + value.count := by
  induction fields with
  | nil => simp [Keyed.insert, countFields]
  | cons entry rest ih =>
    obtain ⟨k, old⟩ := entry
    unfold Keyed.insert
    split
    · simp only [countFields]
      omega
    · split
      · simp only [countFields]
        omega
      · simp only [countFields]
        omega

/-- A value in place of another one changes the count by the difference of the two. -/
theorem countFields_insert {fields : List (String × Node)} (hasc : Keyed.Ascending fields)
    {key : String} {old : Node} (h : Keyed.get? key fields = some old) (value : Node) :
    countFields (Keyed.insert key value fields) + old.count =
      countFields fields + value.count := by
  induction fields with
  | nil => simp [Keyed.get?] at h
  | cons entry rest ih =>
    obtain ⟨k, first⟩ := entry
    obtain ⟨hfirst, hasc⟩ := List.pairwise_cons.mp hasc
    by_cases hk : k = key
    · obtain rfl : first = old := by simpa [Keyed.get?, hk] using h
      simp only [Keyed.insert, hk, if_true, countFields]
      omega
    · have hrest : Keyed.get? key rest = some old := by simpa [Keyed.get?, hk] using h
      have hlt : ¬ key < k := String.lt_asymm (hfirst _ (Keyed.mem_of_get? hrest))
      rw [Keyed.insert, if_neg hk, if_neg hlt, countFields, countFields]
      have := ih hasc hrest
      omega

/-- Replacing an item exchanges its nodes for those of the new one. -/
theorem countItems_set {items : List Node} {i : Nat} {old : Node} (h : items[i]? = some old)
    (item : Node) : countItems (items.set i item) + old.count = countItems items + item.count := by
  induction items generalizing i with
  | nil => simp at h
  | cons first rest ih =>
    cases i with
    | zero =>
      obtain rfl : first = old := by simpa using h
      simp only [List.set_cons_zero, countItems]
      omega
    | succ i =>
      have := ih (i := i) (by simpa using h)
      simp only [List.set_cons_succ, countItems]
      omega

/-- Replacing a child exchanges its nodes for those of the new one. -/
theorem count_putChild {node old : Node} {step : String}
    (hordered : node.Everywhere Keyed.Ascending) (h : node.child? step = some old)
    (child : Node) : (node.putChild step child).count + old.count = node.count + child.count := by
  cases node with
  | leaf value => simp [child?] at h
  | map fields =>
    have := countFields_insert (everywhere_map_iff.mp hordered).1 h child
    simp only [putChild, count]
    omega
  | list items =>
    obtain ⟨index, hread, hitem⟩ := Option.bind_eq_some_iff.mp h
    have := countItems_set hitem child
    simp only [putChild, hread, count]
    omega

/-- A node that is replaced takes its nodes away, and its successor brings its own. -/
theorem count_editAt_replace {missing : PathError} {value old new node : Node} {p : List String}
    (hordered : node.Everywhere Keyed.Ascending)
    (h : node.editAt missing (fun old => .ok (old, value)) p = .ok (old, new)) :
    new.count + old.count = node.count + value.count := by
  induction p generalizing node new with
  | nil =>
    obtain ⟨rfl, rfl⟩ : node = old ∧ value = new := by simpa [editAt] using h
    exact Nat.add_comm _ _
  | cons s p ih =>
    cases hchild : node.child? s with
    | none => simp [editAt, hchild] at h
    | some child =>
      cases hbelow : child.editAt missing (fun old => .ok (old, value)) p with
      | error e => simp [editAt, hchild, hbelow] at h
      | ok pair =>
        obtain ⟨found, edited⟩ := pair
        obtain ⟨rfl, rfl⟩ : found = old ∧ node.putChild s edited = new := by
          simpa [editAt, hchild, hbelow] using h
        have hput := count_putChild hordered hchild edited
        have hedited := ih (hordered.child? hchild) hbelow
        omega

end Node

/-! ## Documents from text -/

namespace Json

/-- How many nodes an open container has so far. -/
def Frame.count : Frame → Nat
  | .list items => Node.countItems items + 1
  | .map fields _ => Node.countFields fields + 1

/-- How many nodes all open containers have so far. -/
def countOpen : List Frame → Nat
  | [] => 0
  | frame :: outer => frame.count + countOpen outer

/-- How many nodes have been begun so far. -/
def Expecting.count : Expecting → Nat
  | .value outer => countOpen outer
  | .firstItem outer => countOpen outer + 1
  | .firstKey outer => countOpen outer + 1
  | .key fields outer => Node.countFields fields + 1 + countOpen outer
  | .colon fields _ outer => Node.countFields fields + 1 + countOpen outer
  | .endOfItem items outer => Node.countItems items + 1 + countOpen outer
  | .endOfField fields outer => Node.countFields fields + 1 + countOpen outer
  | .nothing document => document.count

/-- Handing a finished node to its container makes no new nodes. -/
theorem count_complete (node : Node) (outer : List Frame) :
    (complete node outer).count ≤ node.count + countOpen outer := by
  cases outer with
  | nil => simp [complete, Expecting.count]
  | cons frame outer =>
    rw [countOpen]
    cases frame with
    | list items =>
      simp only [complete, Expecting.count, Frame.count, Node.countItems]
      omega
    | map fields key =>
      have := Node.countFields_insert_le key node fields
      simp only [complete, Expecting.count, Frame.count]
      omega

/-- The first token of a value begins one node at most. -/
theorem count_stepValue {outer : List Frame} {token : Token} {next : Expecting}
    (h : stepValue outer token = some next) : next.count ≤ countOpen outer + 1 := by
  rcases stepValue_cases h with ⟨value, _, rfl⟩ | ⟨_, rfl | rfl⟩
  · have := count_complete (.leaf value) outer
    rw [Node.count] at this
    omega
  · exact le_refl _
  · exact le_refl _

/-- Every token begins at most one node. -/
theorem count_step {expecting next : Expecting} {token : Token}
    (h : step expecting token = some next) : next.count ≤ expecting.count + 1 := by
  unfold step at h
  split at h
  case h_1 => exact count_stepValue h
  case h_3 =>
    have := count_stepValue h
    simp only [countOpen, Frame.count, Node.countItems, Expecting.count] at this ⊢
    omega
  -- A container ends.
  case h_2 outer =>
    obtain rfl := Option.some.inj h
    have := count_complete (.list []) outer
    simp only [Node.count, Node.countItems, Expecting.count] at this ⊢
    omega
  case h_4 outer =>
    obtain rfl := Option.some.inj h
    have := count_complete (.map []) outer
    simp only [Node.count, Node.countFields, Expecting.count] at this ⊢
    omega
  case h_9 items outer =>
    obtain rfl := Option.some.inj h
    have := count_complete (.list items.reverse) outer
    simp only [Node.count, Node.countItems_reverse, Expecting.count] at this ⊢
    omega
  case h_11 fields outer =>
    obtain rfl := Option.some.inj h
    have := count_complete (.map fields) outer
    simp only [Node.count, Expecting.count] at this ⊢
    omega
  -- A value of a container comes next.
  case h_7 | h_8 =>
    obtain rfl := Option.some.inj h
    simp only [Expecting.count, countOpen, Frame.count]
    omega
  case h_5 =>
    obtain rfl := Option.some.inj h
    simp only [Expecting.count, Node.countFields]
    omega
  case h_6 | h_10 =>
    obtain rfl := Option.some.inj h
    exact Nat.le_succ _
  case h_12 => cases h

/-- A run over tokens begins no more nodes than there are tokens. -/
theorem count_run {expecting final : Expecting} {tokens : List Token}
    (h : run expecting tokens = some final) : final.count ≤ expecting.count + tokens.length := by
  induction tokens generalizing expecting with
  | nil =>
    obtain rfl : expecting = final := by simpa [run] using h
    exact le_refl _
  | cons token rest ih =>
    obtain ⟨next, hnext, hrest⟩ := Option.bind_eq_some_iff.mp h
    have hstep := count_step hnext
    have hrun := ih hrest
    rw [List.length_cons]
    omega

/-- Every token takes at least one character. -/
theorem length_of_lex {text : List Char} {tokens : List Token} (h : lex text = some tokens) :
    tokens.length ≤ text.length := by
  fun_induction lex text generalizing tokens with
  | case1 =>
    obtain rfl : [] = tokens := by simpa using h
    exact le_refl _
  | case2 c rest _ ih => exact (ih h).trans (Nat.le_succ _)
  | case3 => simp at h
  | case4 => simp at h
  | case5 c rest _ token after hscan tokens' _ ih =>
    obtain rfl : token :: tokens' = tokens := by simpa using h
    have hshorter := length_of_scanToken? hscan
    have hafter := ih ‹_›
    rw [List.length_cons]
    omega

end Json

/-- A document that is read from text has no more nodes than the text has characters. -/
theorem Node.count_of_parse? {text : String} {document : Node}
    (h : Node.parse? text = some document) : document.count ≤ text.length := by
  obtain ⟨tokens, hlex, htokens⟩ := Option.bind_eq_some_iff.mp h
  have hlength := Json.length_of_lex hlex
  rw [String.length_toList] at hlength
  have hcount : document.count ≤ 0 + tokens.length :=
    Json.count_run (Json.run_of_ofTokens? htokens)
  omega

/-- What is read from a written document is read from the characters of its tokens, without the text
that they make up. -/
theorem Node.parse?_render (document : Node) :
    Node.parse? document.render =
      (Json.lex (document.tokens.flatMap Json.Token.spell)).bind Json.ofTokens? := by
  rw [Node.parse?, Node.render, String.toList_ofList]

/-- The text of a document is as long as the spellings of its tokens together. -/
theorem Node.length_render (document : Node) :
    document.render.length = (document.tokens.flatMap Json.Token.spell).length := by
  rw [Node.render, String.length_ofList]

end ContainerFeed
