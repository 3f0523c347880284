import ContainerFeed.Proofs.Json.Literals
import ContainerFeed.Proofs.KeyedLookup
import ContainerFeed.Proofs.Outcomes
import ContainerFeed.Template.Spec

/-!
# Two encodings of a spec

A spec can be written as a map or as one text. The text is put together from pieces here, with white
space wherever it does not count, and is read back piece by piece. With a type, or without a
default, both encodings of one spec are read alike, faults included. Without a type the default of
the text is read as bare text, which comes to the same for null, truth values and whole numbers.
-/

namespace ContainerFeed.Template.Spec

/-! ## Compact texts -/

/-- A text that can stand between two semicolons, without white space around it. -/
structure IsWord (text : String) : Prop where
  no_semicolon : ';' ∉ text.toList
  trimmed : Text.trim text.toList = text.toList

instance (text : String) : Decidable (IsWord text) :=
  decidable_of_iff (';' ∉ text.toList ∧ Text.trim text.toList = text.toList)
    ⟨fun h => ⟨h.1, h.2⟩, fun h => ⟨h.no_semicolon, h.trimmed⟩⟩

/-- White space on either side of a text. -/
structure Margins where
  before : List Char
  after : List Char
  before_blank : ∀ c ∈ before, Text.isBlank c = true
  after_blank : ∀ c ∈ after, Text.isBlank c = true

/-- A text between its margins. -/
def Margins.around (margins : Margins) (text : String) : List Char :=
  margins.before ++ text.toList ++ margins.after

/-- A field of a compact spec: a key and a value, with the white space around both. -/
structure Assignment where
  key : String
  value : String
  keyMargins : Margins
  valueMargins : Margins
  key_word : IsWord key
  key_no_sign : '=' ∉ key.toList
  value_word : IsWord value

/-- The text of a field. -/
def Assignment.chars (field : Assignment) : List Char :=
  field.keyMargins.around field.key ++ '=' :: field.valueMargins.around field.value

/-- What stands between two semicolons: nothing but white space, or a field. -/
inductive Piece where
  | empty (gap : List Char) (blank : ∀ c ∈ gap, Text.isBlank c = true)
  | assign (field : Assignment)

namespace Piece

/-- The text of a piece. -/
def chars : Piece → List Char
  | .empty gap _ => gap
  | .assign field => field.chars

/-- The value that a piece has for a key. -/
def value? (key : String) : Piece → Option String
  | .empty _ _ => none
  | .assign field => if field.key = key then some field.value else none

end Piece

/-- The values that pieces have for a key, in order. -/
def valuesFor (key : String) (pieces : List Piece) : List String :=
  pieces.filterMap (Piece.value? key)

/-- The compact spec that is made of some pieces. -/
def compactText (pieces : List Piece) : String :=
  String.ofList (compactLead ++ [';'].intercalate (pieces.map Piece.chars))

/-- Pieces with one source, and at most one type and one default. Their order and all other keys do
not matter. -/
structure Spells (pieces : List Piece) (source : String) (kind default : Option String) :
    Prop where
  source : valuesFor "src" pieces = [source]
  kind : valuesFor "type" pieces = kind.toList
  default : valuesFor "default" pieces = default.toList

/-- The fields of a full spec with a source, and with a type and a default if these are given. Other
keys do not matter. -/
structure States (fields : List (String × Node)) (source : String) (kind : Option String)
    (default : Option Node) : Prop where
  marked : Keyed.contains marker fields = true
  source : Keyed.get? "src" fields = some (.text source)
  kind : Keyed.get? "type" fields = kind.map .text
  default : Keyed.get? "default" fields = default

/-! ## Reading the pieces of a compact text -/

/-- The sign between key and value is not blank. -/
theorem isBlank_sign : Text.isBlank '=' = false := by
  decide

/-- Margins are trimmed away. -/
theorem Margins.trim_around (margins : Margins) (text : String) :
    Text.trim (margins.around text) = Text.trim text.toList := by
  rw [around, Text.trim_append_blank _ margins.after_blank,
    Text.trim_blank_append margins.before_blank]

/-- Margins hold nothing but blanks. -/
theorem Margins.not_mem_around (margins : Margins) {text : String} {c : Char}
    (hblank : Text.isBlank c = false) (hc : c ∉ text.toList) : c ∉ margins.around text := by
  have hout {gap : List Char} (hgap : ∀ c ∈ gap, Text.isBlank c = true) : c ∉ gap := by
    intro hmem
    rw [hgap c hmem] at hblank
    cases hblank
  simp [around, hc, hout margins.before_blank, hout margins.after_blank]

/-- No semicolon stands within a piece. -/
theorem Piece.semicolon_not_mem_chars (piece : Piece) : ';' ∉ piece.chars := by
  have hblank : Text.isBlank ';' = false := by decide
  cases piece with
  | empty gap blank =>
    intro hmem
    rw [blank _ hmem] at hblank
    cases hblank
  | assign field =>
    have hkey := field.keyMargins.not_mem_around hblank
      field.key_word.no_semicolon
    have hvalue := field.valueMargins.not_mem_around hblank
      field.value_word.no_semicolon
    simp [Piece.chars, Assignment.chars, hkey, hvalue]

/-- The white space around a field counts neither for its key nor for its value. -/
theorem assignment?_trim {front : List Char} (hfront : '=' ∉ front) (back : List Char) :
    assignment? (Text.trim (front ++ '=' :: back)) =
      some (String.ofList (Text.trim front), String.ofList (Text.trim back)) := by
  have hkey : ∀ c ∈ Text.trimStart front, (c != '=') = true := by
    intro c hc
    have hmem : c ∈ front := List.dropWhile_subset _ hc
    simpa using fun heq : c = '=' => hfront (heq ▸ hmem)
  have hdrop : (Text.trimStart front ++ '=' :: Text.trimEnd back).dropWhile (· != '=') =
      '=' :: Text.trimEnd back := by
    rw [List.dropWhile_append_of_pos hkey]
    simp
  have htake : (Text.trimStart front ++ '=' :: Text.trimEnd back).takeWhile (· != '=') =
      Text.trimStart front := by
    rw [List.takeWhile_append_of_pos hkey]
    simp
  rw [Text.trim_append_cons isBlank_sign, assignment?, hdrop, htake]
  simp only [Text.trim_trimStart, Text.trim_trimEnd]

/-- A field is taken apart into its key and its value. -/
theorem Assignment.assignment?_chars (field : Assignment) :
    assignment? (Text.trim field.chars) = some (field.key, field.value) := by
  have hsign := field.keyMargins.not_mem_around isBlank_sign field.key_no_sign
  rw [chars, assignment?_trim hsign, Margins.trim_around, Margins.trim_around,
    field.key_word.trimmed, field.value_word.trimmed, String.ofList_toList, String.ofList_toList]

/-- What takes up a field: its value counts for its key, if the key has a meaning. -/
theorem takeUp_trim_chars (fields : CompactFields) (field : Assignment) :
    takeUp fields (Text.trim field.chars) = .ok
      ⟨((Piece.assign field).value? "src").or fields.source,
        ((Piece.assign field).value? "default").or fields.default,
        ((Piece.assign field).value? "type").or fields.kind⟩ := by
  unfold takeUp
  rw [field.assignment?_chars]
  split
  · simp_all
  · rename_i value hfound
    obtain ⟨hkey, rfl⟩ : field.key = "src" ∧ field.value = value := by simpa using hfound
    simp [Piece.value?, hkey]
  · rename_i value hfound
    obtain ⟨hkey, rfl⟩ : field.key = "default" ∧ field.value = value := by simpa using hfound
    simp [Piece.value?, hkey]
  · rename_i value hfound
    obtain ⟨hkey, rfl⟩ : field.key = "type" ∧ field.value = value := by simpa using hfound
    simp [Piece.value?, hkey]
  · rename_i value hsource hdefault hkind hfound
    obtain rfl := Option.some.inj hfound
    have hsource' : field.key ≠ "src" := fun h => hsource field.value (by rw [h])
    have hdefault' : field.key ≠ "default" := fun h => hdefault field.value (by rw [h])
    have hkind' : field.key ≠ "type" := fun h => hkind field.value (by rw [h])
    simp [Piece.value?, hsource', hdefault', hkind']

/-- The pieces of a compact text are found again, without those that are empty. -/
theorem compactPieces_intercalate {pieces : List Piece} (hne : pieces ≠ []) :
    compactPieces ([';'].intercalate (pieces.map Piece.chars)) =
      (pieces.map fun piece => Text.trim piece.chars).filter (fun piece => piece ≠ []) := by
  have hsplit : ([';'].intercalate (pieces.map Piece.chars)).splitOn ';' =
      pieces.map Piece.chars := by
    refine List.splitOn_intercalate ';' ?_ (by simpa using hne)
    rintro _ hmem
    obtain ⟨piece, _, rfl⟩ := List.mem_map.mp hmem
    exact piece.semicolon_not_mem_chars
  rw [compactPieces, hsplit, List.map_map]
  rfl

/-- The last value for a key is that of the later pieces, or else that of the first one. -/
theorem getLast?_valuesFor_cons (key : String) (piece : Piece) (rest : List Piece)
    (earlier : Option String) :
    (valuesFor key (piece :: rest)).getLast?.or earlier =
      (valuesFor key rest).getLast?.or ((piece.value? key).or earlier) := by
  unfold valuesFor
  rw [List.filterMap_cons]
  cases piece.value? key with
  | none => rfl
  | some value =>
    rw [List.getLast?_cons]
    cases (rest.filterMap (Piece.value? key)).getLast? <;> rfl

/-- Of each key the last value counts. -/
theorem foldlM_takeUp (pieces : List Piece) (fields : CompactFields) :
    ((pieces.map fun piece => Text.trim piece.chars).filter (fun piece => piece ≠ [])).foldlM
      takeUp fields = .ok
        ⟨(valuesFor "src" pieces).getLast?.or fields.source,
          (valuesFor "default" pieces).getLast?.or fields.default,
          (valuesFor "type" pieces).getLast?.or fields.kind⟩ := by
  induction pieces generalizing fields with
  | nil => rfl
  | cons piece rest ih =>
    rw [List.map_cons, getLast?_valuesFor_cons, getLast?_valuesFor_cons, getLast?_valuesFor_cons]
    cases piece with
    | empty gap blank =>
      have hnone : Text.trim (Piece.empty gap blank).chars = [] := Text.trim_of_blank blank
      rw [List.filter_cons_of_neg (by simp [hnone]), ih]
      rfl
    | assign field =>
      have hsome : Text.trim (Piece.assign field).chars ≠ [] := by
        intro hnil
        have hread := field.assignment?_chars
        rw [show Text.trim field.chars = [] from hnil] at hread
        cases hread
      rw [List.filter_cons_of_pos (by simpa using hsome), Outcome.foldlM_cons_eq_ok_iff]
      exact ⟨_, takeUp_trim_chars fields field, ih _⟩

/-! ## Reading both encodings -/

section

variable {pieces : List Piece} {fields : List (String × Node)} {source : String}
  {kind : Option String} {path : String}

/-- A compact spec is its lead and its pieces, with semicolons between them. -/
theorem packedText?_compactText (pieces : List Piece) :
    packedText? (compactText pieces) = some ([';'].intercalate (pieces.map Piece.chars)) := by
  have hlead : compactLead.isPrefixOf (compactText pieces).toList = true := by
    rw [compactText, String.toList_ofList, List.isPrefixOf_iff_prefix]
    exact List.prefix_append _ _
  rw [packedText?, if_pos hlead, compactText, String.toList_ofList, List.drop_left]

/-- A compact text is read by its source, its type and its default. -/
theorem ofNode_compactText {default : Option String} (h : Spells pieces source kind default)
    (path : String) :
    ofNode path (.text (compactText pieces)) =
      ((compactDefault ⟨some source, default, kind⟩).bind (make path source)).map some := by
  have hne : pieces ≠ [] := by
    rintro rfl
    cases h.source
  have htaken : (compactPieces ([';'].intercalate (pieces.map Piece.chars))).foldlM takeUp
      ⟨none, none, none⟩ = .ok ⟨some source, default, kind⟩ := by
    rw [compactPieces_intercalate hne, foldlM_takeUp, h.source, h.kind, h.default]
    cases kind <;> cases default <;> rfl
  have hread : ofCompact path ([';'].intercalate (pieces.map Piece.chars)) =
      (compactDefault ⟨some source, default, kind⟩).bind (make path source) := by
    rw [ofCompact, htaken]
    rfl
  rw [Node.text, ofNode, packedText?_compactText, ← hread]

/-- A full spec is read by its source, its type and its default. -/
theorem ofNode_map {default : Option Node} (h : States fields source kind default)
    (path : String) :
    ofNode path (.map fields) = ((fullDefault fields kind).bind (make path source)).map some := by
  have hkind : fullType fields = .ok kind := by
    rw [fullType, h.kind]
    cases kind <;> rfl
  have hread : ofFields path fields = (fullDefault fields kind).bind (make path source) := by
    rw [ofFields, h.source, Option.bind_some, hkind]
    rfl
  rw [ofNode, if_pos h.marked, hread]

/-- A default in words is read alike where a type is given, and no default is none. -/
theorem fullDefault_text {default : Option String}
    (h : States fields source kind (default.map .text)) (htyped : kind.isSome ∨ default = none) :
    fullDefault fields kind = compactDefault ⟨some source, default, kind⟩ := by
  unfold fullDefault
  rw [h.default]
  cases default with
  | none => rfl
  | some raw =>
    obtain ⟨type, rfl⟩ := Option.isSome_iff_exists.mp (htyped.resolve_right (by simp))
    rfl

/-- Without a type, a literal that is given as such is the one that is inferred from its text. -/
theorem fullDefault_literal {raw : String} {value : Scalar} (hword : IsWord raw)
    (hparsed : Node.parse? raw = some (.leaf value)) (hliteral : value.IsLiteral)
    (h : States fields source none (some (.leaf value))) :
    fullDefault fields none = compactDefault ⟨some source, some raw, none⟩ := by
  have hcompact : compactDefault ⟨some source, some raw, none⟩ = .ok (some value) := by
    rw [← Scalar.infer_of_parse? hword.trimmed hparsed hliteral]
    rfl
  rw [hcompact]
  unfold fullDefault
  rw [h.default]
  cases value <;> rfl

end

/-- A value that a field has is a word. -/
theorem isWord_of_mem_valuesFor {pieces : List Piece} {key value : String}
    (h : value ∈ valuesFor key pieces) : IsWord value := by
  obtain ⟨piece, _, hvalue⟩ := List.mem_filterMap.mp h
  cases piece with
  | empty => cases hvalue
  | assign field =>
    simp only [Piece.value?] at hvalue
    split at hvalue
    · obtain rfl := Option.some.inj hvalue
      exact field.value_word
    · cases hvalue

/-- With a type, or without a default, a compact text is read like a map with the same source, type
and default: as the same spec, or with the same fault at the same path. Without a type, a default
that is written as a literal is read like a map with that literal. -/
theorem encodings_agree (path source : String) (kind default : Option String)
    (pieces : List Piece) (h : Spells pieces source kind default) :
    ((kind.isSome ∨ default = none) →
      ∀ fields, States fields source kind (default.map .text) →
        ofNode path (.text (compactText pieces)) = ofNode path (.map fields)) ∧
    ∀ raw value, kind = none → default = some raw → Node.parse? raw = some (.leaf value) →
      value.IsLiteral → ∀ fields, States fields source none (some (.leaf value)) →
        ofNode path (.text (compactText pieces)) = ofNode path (.map fields) := by
  refine ⟨fun htyped fields hfields => ?_, ?_⟩
  · rw [ofNode_compactText h, ofNode_map hfields, fullDefault_text hfields htyped]
  · rintro raw value rfl rfl hparsed hliteral fields hfields
    have hmem : raw ∈ valuesFor "default" pieces := by
      rw [h.default]
      exact List.mem_singleton_self raw
    have hword : IsWord raw := isWord_of_mem_valuesFor hmem
    rw [ofNode_compactText h, ofNode_map hfields,
      fullDefault_literal hword hparsed hliteral hfields]

/-- A field with a tabulator before its key and its value, and a space after both. -/
def loose (key value : String) (h : IsWord key ∧ '=' ∉ key.toList ∧ IsWord value) : Piece :=
  let margins : Margins :=
    ⟨['\t'], [' '], List.forall_mem_singleton.mpr rfl, List.forall_mem_singleton.mpr rfl⟩
  .assign ⟨key, value, margins, margins, h.1, h.2.1, h.2.2⟩

/-- A source that holds an equals sign, after a field without a meaning and an empty one, and
before a default that its type does not allow. -/
def refused : List Piece :=
  [loose "unit" "a=b" (by decide +kernel), .empty [' '] (List.forall_mem_singleton.mpr rfl),
    loose "type" "uint" (by decide +kernel), loose "src" "/cpu=all" (by decide +kernel),
    loose "default" "-1" (by decide +kernel)]

/-- The greatest whole number as a default without a type. -/
def greatest : List Piece :=
  [loose "default" "18446744073709551615" (by decide +kernel),
    loose "src" "/cpu" (by decide +kernel)]

/-- Both encodings of a spec that is refused, and both of one with a literal. -/
theorem encodings_agree_refused_and_greatest :
    let refusedFull := [(marker, Node.leaf .null), ("default", .text "-1"),
      ("src", .text "/cpu=all"), ("type", .text "uint")]
    let greatestFull := [(marker, Node.leaf .null), ("default", .leaf (.uint 18446744073709551615)),
      ("src", .text "/cpu")]
    compactText refused =
      "__tmpl:\tunit =\ta=b ; ;\ttype =\tuint ;\tsrc =\t/cpu=all ;\tdefault =\t-1 " ∧
    Spells refused "/cpu=all" (some "uint") (some "-1") ∧
    States refusedFull "/cpu=all" (some "uint") (some (.text "-1")) ∧
    ofNode "/load" (.text (compactText refused)) = ofNode "/load" (.map refusedFull) ∧
    ofNode "/load" (.map refusedFull) = .error (.badDefault "-1" "uint") ∧
    Spells greatest "/cpu" none (some "18446744073709551615") ∧
    Node.parse? "18446744073709551615" = some (.leaf (.uint 18446744073709551615)) ∧
    States greatestFull "/cpu" none (some (.leaf (.uint 18446744073709551615))) ∧
    ofNode "/load" (.text (compactText greatest)) = ofNode "/load" (.map greatestFull) ∧
    ofNode "/load" (.map greatestFull) =
      .ok (some ⟨"/cpu", "/load", some (.uint 18446744073709551615), []⟩) := by
  intro refusedFull greatestFull
  have hrefused : Spells refused "/cpu=all" (some "uint") (some "-1") :=
    ⟨by decide +kernel, by decide +kernel, by decide +kernel⟩
  have hrefusedFull : States refusedFull "/cpu=all" (some "uint") (some (.text "-1")) :=
    ⟨rfl, rfl, rfl, rfl⟩
  have hgreatest : Spells greatest "/cpu" none (some "18446744073709551615") :=
    ⟨by decide +kernel, by decide +kernel, by decide +kernel⟩
  have hgreatestFull :
      States greatestFull "/cpu" none (some (.leaf (.uint 18446744073709551615))) :=
    ⟨rfl, rfl, rfl, rfl⟩
  have hparsed : Node.parse? "18446744073709551615" =
      some (.leaf (.uint 18446744073709551615)) := by
    have hscalar : (Node.parse? "18446744073709551615").bind Node.scalar? =
        some (.uint 18446744073709551615) := by
      decide +kernel
    obtain ⟨node, hnode, hvalue⟩ := Option.bind_eq_some_iff.mp hscalar
    cases node <;> simp_all [Node.scalar?]
  obtain ⟨htyped, _⟩ := encodings_agree "/load" _ _ _ refused hrefused
  obtain ⟨_, huntyped⟩ := encodings_agree "/load" _ _ _ greatest hgreatest
  exact ⟨by decide +kernel, hrefused, hrefusedFull, htyped (.inl rfl) _ hrefusedFull, rfl,
    hgreatest, hparsed, hgreatestFull, huntyped _ _ rfl rfl hparsed trivial _ hgreatestFull, rfl⟩

end ContainerFeed.Template.Spec
