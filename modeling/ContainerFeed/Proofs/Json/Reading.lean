import ContainerFeed.Json.Reader
import ContainerFeed.Proofs.KeyedLookup

/-!
# What holds of every document that is read

The reader makes leaves of the scalars in a text, and lists and maps of the nodes that it has made
before. What holds of such leaves, and of a container whenever it holds of the nodes inside, holds
of every document that is read. The property may depend on how many containers a node stands in,
since no more than 127 are ever open.
-/

namespace ContainerFeed

namespace Json

/-! ## Steps and runs -/

/-- The first token of a value is the whole value, or opens one more container. -/
theorem stepValue_cases {outer : List Frame} {token : Token} {next : Expecting}
    (h : stepValue outer token = some next) :
    (∃ value, token = .scalar value ∧ next = complete (.leaf value) outer) ∨
      outer.length < maxOpen ∧ (next = .firstKey outer ∨ next = .firstItem outer) := by
  cases token with
  | scalar value =>
    obtain rfl : complete (.leaf value) outer = next := by simpa [stepValue] using h
    exact .inl ⟨value, rfl, rfl⟩
  | openMap =>
    obtain ⟨hlevel, rfl⟩ : outer.length < maxOpen ∧ .firstKey outer = next := by
      simpa [stepValue] using h
    exact .inr ⟨hlevel, .inl rfl⟩
  | openList =>
    obtain ⟨hlevel, rfl⟩ : outer.length < maxOpen ∧ .firstItem outer = next := by
      simpa [stepValue] using h
    exact .inr ⟨hlevel, .inr rfl⟩
  | closeMap | closeList | comma | colon => cases h

/-- What every step on some tokens keeps, a run over them keeps. -/
theorem run_keeps {Holds : Expecting → Prop} {expecting last : Expecting} {tokens : List Token}
    (hstep : ∀ token ∈ tokens, ∀ {now next}, Holds now → step now token = some next → Holds next)
    (hnow : Holds expecting) (h : run expecting tokens = some last) : Holds last := by
  induction tokens generalizing expecting with
  | nil =>
    obtain rfl : expecting = last := by simpa [run] using h
    exact hnow
  | cons token rest ih =>
    obtain ⟨hfirst, hlater⟩ := List.forall_mem_cons.mp hstep
    obtain ⟨next, hnext, hrest⟩ := Option.bind_eq_some_iff.mp h
    exact ih hlater (hfirst hnow hnext) hrest

/-- Tokens spell the document that a run over them ends with. -/
theorem run_of_ofTokens? {tokens : List Token} {document : Node}
    (h : ofTokens? tokens = some document) : run (.value []) tokens = some (.nothing document) := by
  unfold ofTokens? at h
  split at h
  · rename_i found hrun
    rw [hrun, Option.some.inj h]
  · cases h

/-! ## What is built up -/

/-- The scalar can be read: it is the value of a token of some text. -/
def Readable (value : Scalar) : Prop :=
  ∃ text rest, scanToken? text = some (.scalar value, rest)

/-- A property of nodes, and of the number of containers around them, that the reader builds up. -/
structure BuiltUp (P : Nat → Node → Prop) : Prop where
  leaf : ∀ {level value}, level ≤ maxOpen → Readable value → P level (.leaf value)
  list : ∀ {level items}, level < maxOpen → (∀ item ∈ items, P (level + 1) item) →
    P level (.list items)
  map : ∀ {level fields}, level < maxOpen → Keyed.Ascending fields →
    (∀ entry ∈ fields, P (level + 1) entry.2) → P level (.map fields)

section

variable (P : Nat → Node → Prop)

/-- The property holds of what has been read of an open container. -/
def Frame.Holds (level : Nat) : Frame → Prop
  | .list items => ∀ item ∈ items, P (level + 1) item
  | .map fields _ => Keyed.Ascending fields ∧ ∀ entry ∈ fields, P (level + 1) entry.2

/-- The property holds of what has been read of all open containers, which are not too many. -/
def OpenHold : List Frame → Prop
  | [] => True
  | frame :: outer => outer.length < maxOpen ∧ frame.Holds P outer.length ∧ OpenHold outer

/-- The property holds of all that has been read so far. -/
def Expecting.Holds : Expecting → Prop
  | .value outer => OpenHold P outer
  | .firstItem outer => OpenHold P (.list [] :: outer)
  | .firstKey outer => OpenHold P (.map [] "" :: outer)
  | .key fields outer => OpenHold P (.map fields "" :: outer)
  | .colon fields name outer => OpenHold P (.map fields name :: outer)
  | .endOfItem items outer => OpenHold P (.list items :: outer)
  | .endOfField fields outer => OpenHold P (.map fields "" :: outer)
  | .nothing document => P 0 document

end

variable {P : Nat → Node → Prop}

/-- No more containers are open than can be. -/
theorem OpenHold.length_le {outer : List Frame} (h : OpenHold P outer) :
    outer.length ≤ maxOpen := by
  cases outer with
  | nil => exact Nat.zero_le _
  | cons frame outer => exact h.1

/-- A finished node takes its property into the container that waits for it. -/
theorem holds_complete {node : Node} {outer : List Frame} (hnode : P outer.length node)
    (houter : OpenHold P outer) : (complete node outer).Holds P := by
  cases outer with
  | nil => exact hnode
  | cons frame outer =>
    obtain ⟨hlevel, hframe, hrest⟩ := houter
    cases frame with
    | list items => exact ⟨hlevel, List.forall_mem_cons.mpr ⟨hnode, hframe⟩, hrest⟩
    | map fields key =>
      obtain ⟨hasc, hvalues⟩ := hframe
      refine ⟨hlevel, ⟨Keyed.ascending_insert key node hasc, fun entry hentry => ?_⟩, hrest⟩
      rcases Keyed.mem_of_mem_insert hentry with rfl | hentry
      · exact hnode
      · exact hvalues entry hentry

section

variable (hP : BuiltUp P)

include hP

/-- The first token of a value keeps the property of all that has been read. -/
theorem holds_stepValue {outer : List Frame} {token : Token} {next : Expecting}
    (houter : OpenHold P outer) (htoken : ∀ value, token = .scalar value → Readable value)
    (h : stepValue outer token = some next) : next.Holds P := by
  rcases stepValue_cases h with ⟨value, rfl, rfl⟩ | ⟨hlevel, rfl | rfl⟩
  · exact holds_complete (hP.leaf houter.length_le (htoken value rfl)) houter
  · exact ⟨hlevel, ⟨Keyed.ascending_nil, by simp⟩, houter⟩
  · exact ⟨hlevel, by simp [Frame.Holds], houter⟩

/-- Every token keeps the property of all that has been read. -/
theorem holds_step {expecting next : Expecting} {token : Token} (hnow : expecting.Holds P)
    (htoken : ∀ value, token = .scalar value → Readable value)
    (h : step expecting token = some next) : next.Holds P := by
  unfold step at h
  split at h
  case h_1 | h_3 => exact holds_stepValue hP hnow htoken h
  -- A list ends, before an item or behind one.
  case h_2 =>
    obtain rfl := Option.some.inj h
    obtain ⟨hlevel, _, houter⟩ := hnow
    exact holds_complete (hP.list hlevel (by simp)) houter
  case h_9 =>
    obtain rfl := Option.some.inj h
    obtain ⟨hlevel, hitems, houter⟩ := hnow
    exact holds_complete
      (hP.list hlevel fun item hitem => hitems item (List.mem_reverse.mp hitem)) houter
  -- A map ends.
  case h_4 | h_11 =>
    obtain rfl := Option.some.inj h
    obtain ⟨hlevel, ⟨hasc, hvalues⟩, houter⟩ := hnow
    exact holds_complete (hP.map hlevel hasc hvalues) houter
  -- Keys and separators add nothing to what has been read.
  case h_5 | h_6 | h_7 | h_8 | h_10 =>
    obtain rfl := Option.some.inj h
    exact hnow
  case h_12 => cases h

/-- A run over tokens keeps the property of all that has been read. -/
theorem holds_run {expecting last : Expecting} {tokens : List Token} (hnow : expecting.Holds P)
    (htokens : ∀ value, .scalar value ∈ tokens → Readable value)
    (h : run expecting tokens = some last) : last.Holds P := by
  refine run_keeps ?_ hnow h
  intro token hmem now next hnow hnext
  refine holds_step hP hnow ?_ hnext
  rintro value rfl
  exact htokens value hmem

end

/-- The scalars among the tokens of a text can be read. -/
theorem readable_of_mem_lex {text : List Char} {tokens : List Token} (h : lex text = some tokens)
    {value : Scalar} (hvalue : .scalar value ∈ tokens) : Readable value := by
  fun_induction lex text generalizing tokens with
  | case1 =>
    obtain rfl : [] = tokens := by simpa using h
    simp at hvalue
  | case2 c rest _ ih => exact ih h hvalue
  | case3 => simp at h
  | case4 => simp at h
  | case5 c rest _ token after hscan tokens' hafter ih =>
    obtain rfl : token :: tokens' = tokens := by simpa using h
    rcases List.mem_cons.mp hvalue with rfl | hvalue
    · exact ⟨_, _, hscan⟩
    · exact ih hafter hvalue

end Json

/-- A property that the reader builds up holds of every document that is read. -/
theorem Node.holds_of_parse? {P : Nat → Node → Prop} (hP : Json.BuiltUp P) {text : String}
    {document : Node} (h : Node.parse? text = some document) : P 0 document := by
  obtain ⟨tokens, hlex, htokens⟩ := Option.bind_eq_some_iff.mp h
  have hstart : (Json.Expecting.value []).Holds P := trivial
  exact Json.holds_run hP hstart (fun _ => Json.readable_of_mem_lex hlex)
    (Json.run_of_ofTokens? htokens)

end ContainerFeed
