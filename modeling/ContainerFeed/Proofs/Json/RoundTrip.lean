import ContainerFeed.Proofs.Document.Leaves
import ContainerFeed.Proofs.Json.Literals
import ContainerFeed.Proofs.Json.Spelling

/-!
# Served documents read back

The text of a document is taken apart into the tokens that it was written from, and the reader
makes the document of them again. Only unsigned numbers that fit signed ones come back as such, and
a document that has been read from text has none of these: it is read back as it is. Floats are left
out here, as the digits that a float is written in are a matter of their own.
-/

namespace ContainerFeed

open Json

namespace Node

/-- No leaf is a floating-point number. -/
def FloatFree (node : Node) : Prop :=
  node.AllLeaves fun value => ¬ value.IsFloat

instance (node : Node) : Decidable node.FloatFree :=
  inferInstanceAs (Decidable (node.AllLeaves _))

/-! ## From text to tokens -/

/-- The text of a node is taken apart into its tokens, wherever it stands. -/
def LexesBack (node : Node) : Prop :=
  ∀ rest tokens, EndsNumeral rest → lex rest = some tokens →
    lex (node.tokens.flatMap Token.spell ++ rest) = some (node.served.tokens ++ tokens)

/-- What stands behind a scalar in the text of a document ends a numeral. -/
theorem endsNumeral_mark {c : Char} (h : c ∈ [',', ':', ']', '\x7d']) (rest : List Char) :
    EndsNumeral (c :: rest) := by
  simp only [List.mem_cons, List.not_mem_nil, or_false] at h
  obtain rfl | rfl | rfl | rfl := h <;> exact ⟨rfl, by decide, by decide, by decide⟩

/-- A key and the colon behind it are taken apart into two tokens. -/
theorem lex_key (key : String) {rest : List Char} {tokens : List Token}
    (hrest : lex rest = some tokens) :
    lex (spellText key ++ ':' :: rest) = some (.scalar (.text key) :: .colon :: tokens) := by
  have hcolon : lex (':' :: rest) = some (.colon :: tokens) := lex_of_scanToken? rfl hrest
  have hends : EndsNumeral (':' :: rest) := endsNumeral_mark (by decide) rest
  exact lex_of_scanToken? (scanToken?_spellScalar (id : ¬ (Scalar.text key).IsFloat) hends) hcolon

/-- The text of some fields is taken apart into their tokens, up to the brace that ends the map. -/
theorem lex_fieldTokens {fields : List (String × Node)}
    (hvalues : ∀ entry ∈ fields, entry.2.LexesBack) {rest : List Char} {tokens : List Token}
    (hrest : lex ('\x7d' :: rest) = some tokens) :
    lex ((fieldTokens fields).flatMap Token.spell ++ '\x7d' :: rest) =
      some (fieldTokens (servedFields fields) ++ tokens) := by
  induction fields with
  | nil => exact hrest
  | cons field others ih =>
    obtain ⟨key, value⟩ := field
    obtain ⟨hvalue, hothers⟩ := List.forall_mem_cons.mp hvalues
    cases others with
    | nil =>
      have hall := lex_key key (hvalue _ _ (endsNumeral_mark (by decide) rest) hrest)
      simpa [fieldTokens, servedFields, Token.spell, spellScalar] using hall
    | cons next others =>
      have hcomma : lex (',' :: _) = some (.comma :: _) := lex_of_scanToken? rfl (ih hothers)
      have hall := lex_key key (hvalue _ _ (endsNumeral_mark (by decide) _) hcomma)
      simpa [fieldTokens, servedFields, Token.spell, spellScalar] using hall

/-- The text of some items is taken apart into their tokens, up to the bracket that ends the
list. -/
theorem lex_itemTokens {items : List Node} (hitems : ∀ item ∈ items, item.LexesBack)
    {rest : List Char} {tokens : List Token} (hrest : lex (']' :: rest) = some tokens) :
    lex ((itemTokens items).flatMap Token.spell ++ ']' :: rest) =
      some (itemTokens (servedItems items) ++ tokens) := by
  induction items with
  | nil => exact hrest
  | cons item others ih =>
    obtain ⟨hitem, hothers⟩ := List.forall_mem_cons.mp hitems
    cases others with
    | nil => exact hitem _ _ (endsNumeral_mark (by decide) rest) hrest
    | cons next others =>
      have hcomma : lex (',' :: _) = some (.comma :: _) := lex_of_scanToken? rfl (ih hothers)
      have hall := hitem _ _ (endsNumeral_mark (by decide) _) hcomma
      simpa [itemTokens, servedItems, Token.spell] using hall

/-- Without floats the text of a node is taken apart into the tokens that are served. -/
theorem FloatFree.lexesBack {node : Node} (h : node.FloatFree) : node.LexesBack := by
  induction node using inductionOn with
  | leaf value =>
    intro rest tokens hends hrest
    have hscalar := scanToken?_spellScalar (allLeaves_leaf_iff.mp h) hends
    have hall := lex_of_scanToken? hscalar hrest
    simpa [Node.tokens, served, Token.spell] using hall
  | map fields ih =>
    intro rest tokens _ hrest
    have hclose : lex ('\x7d' :: rest) = some (.closeMap :: tokens) := lex_of_scanToken? rfl hrest
    have hvalues : ∀ entry ∈ fields, entry.2.LexesBack := by
      intro entry hentry
      exact ih entry hentry (allLeaves_map_iff.mp h entry hentry)
    have hfields := lex_fieldTokens hvalues hclose
    have hall : lex ('\x7b' :: _) = some (.openMap :: _) := lex_of_scanToken? rfl hfields
    simpa [Node.tokens, served, Token.spell] using hall
  | list items ih =>
    intro rest tokens _ hrest
    have hclose : lex (']' :: rest) = some (.closeList :: tokens) := lex_of_scanToken? rfl hrest
    have hlexes : ∀ item ∈ items, item.LexesBack := by
      intro item hitem
      exact ih item hitem (allLeaves_list_iff.mp h item hitem)
    have hitems := lex_itemTokens hlexes hclose
    have hall : lex ('[' :: _) = some (.openList :: _) := lex_of_scanToken? rfl hitems
    simpa [Node.tokens, served, Token.spell] using hall

/-- The text of a document is taken apart into the tokens of the document as it is served. -/
theorem lex_tokens {document : Node} (h : document.FloatFree) :
    lex (document.tokens.flatMap Token.spell) = some document.served.tokens := by
  have hnil : lex [] = some [] := by rw [lex]
  simpa using h.lexesBack [] [] trivial hnil

/-! ## From tokens to documents -/

/-- The reader makes a node of its tokens, and hands it to the container around. -/
def ReadsBack (node : Node) : Prop :=
  ∀ outer rest, outer.length + node.depth ≤ maxOpen →
    run (.value outer) (node.tokens ++ rest) = run (complete node outer) rest

/-- The first token of an item does not end the list. -/
theorem run_firstItem (item : Node) (others : List Node) (outer : List Frame)
    (rest : List Token) :
    run (.firstItem outer) (itemTokens (item :: others) ++ rest) =
      run (.value (.list [] :: outer)) (itemTokens (item :: others) ++ rest) := by
  cases others <;> cases item <;> rfl

/-- The first token of a field does not end the map. -/
theorem run_firstKey (field : String × Node) (others : List (String × Node)) (outer : List Frame)
    (rest : List Token) :
    run (.firstKey outer) (fieldTokens (field :: others) ++ rest) =
      run (.key [] outer) (fieldTokens (field :: others) ++ rest) := by
  cases others <;> rfl

/-- Items are read one after another, behind those that are done. -/
theorem run_itemTokens {items : List Node} (hne : items ≠ [])
    (hitems : ∀ item ∈ items, item.ReadsBack) (done : List Node) {outer : List Frame}
    (hdepth : ∀ item ∈ items, outer.length + 1 + item.depth ≤ maxOpen) (rest : List Token) :
    run (.value (.list done :: outer)) (itemTokens items ++ .closeList :: rest) =
      run (complete (.list (done.reverse ++ items)) outer) rest := by
  induction items generalizing done with
  | nil => exact absurd rfl hne
  | cons item others ih =>
    obtain ⟨hitem, hothers⟩ := List.forall_mem_cons.mp hitems
    obtain ⟨hlevel, hlevels⟩ := List.forall_mem_cons.mp hdepth
    have hread := hitem (.list done :: outer)
    cases others with
    | nil =>
      rw [itemTokens, hread _ hlevel]
      simp [complete, run, step]
    | cons next others =>
      have hnext := ih (List.cons_ne_nil _ _) hothers (item :: done) hlevels
      rw [itemTokens, List.append_assoc, hread _ hlevel, List.cons_append]
      simpa [complete, run, step] using hnext

/-- Fields are read one after another, behind those that are done and whose keys come before. -/
theorem run_fieldTokens {fields : List (String × Node)} (hne : fields ≠ [])
    (hvalues : ∀ entry ∈ fields, entry.2.ReadsBack) (done : List (String × Node))
    (hasc : Keyed.Ascending (done ++ fields)) {outer : List Frame}
    (hdepth : ∀ entry ∈ fields, outer.length + 1 + entry.2.depth ≤ maxOpen) (rest : List Token) :
    run (.key done outer) (fieldTokens fields ++ .closeMap :: rest) =
      run (complete (.map (done ++ fields)) outer) rest := by
  induction fields generalizing done with
  | nil => exact absurd rfl hne
  | cons field others ih =>
    obtain ⟨key, value⟩ := field
    obtain ⟨hvalue, hothers⟩ := List.forall_mem_cons.mp hvalues
    obtain ⟨hlevel, hlevels⟩ := List.forall_mem_cons.mp hdepth
    have hbefore : ∀ entry ∈ done, entry.1 < key := by
      intro entry hentry
      exact (List.pairwise_append.mp hasc).2.2 entry hentry (key, value) List.mem_cons_self
    -- The key and the colon lead to the value, and the value to the fields with it at their end.
    have hread (after : List Token) :
        run (.key done outer) (.scalar (.text key) :: .colon :: (value.tokens ++ after)) =
          run (.endOfField (done ++ [(key, value)]) outer) after := by
      rw [← Keyed.insert_of_forall_lt hbefore value]
      exact hvalue (.map done key :: outer) after hlevel
    cases others with
    | nil => exact hread (.closeMap :: rest)
    | cons next others =>
      have htokens : fieldTokens ((key, value) :: next :: others) ++ .closeMap :: rest =
          .scalar (.text key) :: .colon ::
            (value.tokens ++ .comma :: (fieldTokens (next :: others) ++ .closeMap :: rest)) := by
        simp [fieldTokens]
      rw [List.append_cons] at hasc
      have hnext := ih (List.cons_ne_nil _ _) hothers (done ++ [(key, value)]) hasc hlevels
      rw [htokens, hread]
      exact hnext.trans (by rw [List.append_assoc, List.singleton_append])

/-- A node whose maps are in order is made of its tokens again. -/
theorem Everywhere.readsBack {node : Node} (h : node.Everywhere Keyed.Ascending) :
    node.ReadsBack := by
  induction node using inductionOn with
  | leaf value => exact fun outer rest _ => rfl
  | map fields ih =>
    intro outer rest hdepth
    rw [depth] at hdepth
    have hopen : outer.length < maxOpen := by omega
    have hdepths : ∀ entry ∈ fields, outer.length + 1 + entry.2.depth ≤ maxOpen := by
      intro entry hentry
      have := depth_le_depthFields hentry
      omega
    obtain ⟨hasc, hvalues⟩ := everywhere_map_iff.mp h
    have hreads : ∀ entry ∈ fields, entry.2.ReadsBack := by
      intro entry hentry
      exact ih entry hentry (hvalues entry hentry)
    rw [Node.tokens, List.cons_append, List.append_assoc, List.singleton_append, run, step,
      stepValue, if_pos hopen, Option.bind_some]
    cases fields with
    | nil => rfl
    | cons field others =>
      rw [run_firstKey, run_fieldTokens (List.cons_ne_nil _ _) hreads [] hasc hdepths]
      rfl
  | list items ih =>
    intro outer rest hdepth
    rw [depth] at hdepth
    have hopen : outer.length < maxOpen := by omega
    have hdepths : ∀ item ∈ items, outer.length + 1 + item.depth ≤ maxOpen := by
      intro item hitem
      have := depth_le_depthItems hitem
      omega
    have hreads : ∀ item ∈ items, item.ReadsBack := by
      intro item hitem
      exact ih item hitem (everywhere_list_iff.mp h item hitem)
    rw [Node.tokens, List.cons_append, List.append_assoc, List.singleton_append, run, step,
      stepValue, if_pos hopen, Option.bind_some]
    cases items with
    | nil => rfl
    | cons item others =>
      rw [run_firstItem, run_itemTokens (List.cons_ne_nil _ _) hreads [] hdepths]
      rfl

/-- The tokens of an ordered document that is not too deep are read as the document. -/
theorem ofTokens?_tokens {document : Node} (hordered : document.Ordered)
    (hdepth : document.depth ≤ maxOpen) : ofTokens? document.tokens = some document := by
  have hreads := ((ordered_iff_everywhere document).mp hordered).readsBack
  have hread := hreads [] [] (by simpa using hdepth)
  rw [List.append_nil] at hread
  rw [ofTokens?, hread]
  rfl

/-- The text of a document without floats is read as the document that is served. -/
theorem parse?_render_of_floatFree {document : Node} (hordered : document.Ordered)
    (hfloats : document.FloatFree) (hdepth : document.depth ≤ maxOpen) :
    Node.parse? document.render = some document.served := by
  rw [parse?_render, lex_tokens hfloats, Option.bind_some]
  exact ofTokens?_tokens (ordered_served hordered) ((depth_served_le document).trans hdepth)

end Node

/-! ## Documents that have been read -/

namespace Json

/-- Only a numeral is read as an unsigned number. -/
theorem exists_of_scanToken?_uint {text rest : List Char} {u : UInt64}
    (h : scanToken? text = some (.scalar (.uint u), rest)) :
    ∃ numeral : Numeral, numeral.value? = some (.uint u) := by
  unfold scanToken? at h
  split at h
  case h_7 => simp at h
  case h_11 =>
    obtain ⟨found, hnumber, h⟩ := Option.map_eq_some_iff.mp h
    obtain ⟨hvalue, _⟩ : found.1 = .uint u ∧ found.2 = rest := by simpa using h
    obtain ⟨⟨numeral, after⟩, _, hscan⟩ := Option.bind_eq_some_iff.mp hnumber
    obtain ⟨value, hread, hfound⟩ := Option.map_eq_some_iff.mp hscan
    obtain rfl : value = .uint u := by rw [← hvalue, ← hfound]
    exact ⟨numeral, hread⟩
  all_goals simp at h

/-- A number is read as unsigned only when it fits no signed one. -/
theorem served_of_readable {value : Scalar} (h : Readable value) (hfloat : ¬ value.IsFloat) :
    value.served = value := by
  obtain ⟨text, rest, hscan⟩ := h
  cases value with
  | uint u =>
    obtain ⟨numeral, hvalue⟩ := exists_of_scanToken?_uint hscan
    obtain ⟨_, _, hwhole⟩ := whole_of_value? hvalue trivial
    split at hwhole
    · obtain ⟨_, _, hint⟩ := hwhole
      cases hint
    · rcases hwhole with ⟨_, _, hint⟩ | ⟨hsigned, v, hunsigned, huint⟩
      · cases hint
      · obtain rfl : u = v := Scalar.uint.inj huint
        rw [← Text.toNat_of_uint64OfNat? hunsigned] at hsigned
        rw [Scalar.served, hsigned]
        rfl
  | float x => exact absurd trivial hfloat
  | null => rfl
  | bool truth => rfl
  | int i => rfl
  | text text => rfl

end Json

namespace Node

/-- The reader nests no more containers than can be open. -/
theorem builtUp_depth : BuiltUp fun level node => level + node.depth ≤ maxOpen where
  leaf hlevel _ := hlevel
  list := by
    intro level items hlevel hitems
    have hdepth : depthItems items ≤ maxOpen - (level + 1) :=
      depthItems_le fun item hitem => Nat.le_sub_of_add_le' (hitems item hitem)
    rw [depth]
    omega
  map := by
    intro level fields hlevel _ hvalues
    have hdepth : depthFields fields ≤ maxOpen - (level + 1) :=
      depthFields_le fun entry hentry => Nat.le_sub_of_add_le' (hvalues entry hentry)
    rw [depth]
    omega

/-- The reader makes leaves that are served as they are, floats apart. -/
theorem builtUp_served :
    BuiltUp fun _ node => node.AllLeaves fun value => value.IsFloat ∨ value.served = value where
  leaf _ hreadable := allLeaves_leaf_iff.mpr
    (Decidable.or_iff_not_imp_left.mpr (served_of_readable hreadable))
  list _ hitems := allLeaves_list_iff.mpr hitems
  map _ _ hvalues := allLeaves_map_iff.mpr hvalues

/-- A document without floats that has been read from text is served as it is. -/
theorem served_of_parse? {text : String} {document : Node}
    (h : Node.parse? text = some document) (hfloats : document.FloatFree) :
    document.served = document :=
  served_eq_self fun value hvalue =>
    (holds_of_parse? builtUp_served h value hvalue).resolve_left (hfloats value hvalue)

/-- The text of a document without floats is read back as the same document, where only the unsigned
numbers that fit signed ones have become signed. A document that has been read from text has none of
these, so it is read back as it is. -/
theorem served_text_reads_back :
    (∀ document : Node, document.Ordered → document.FloatFree → document.depth ≤ 127 →
      Node.parse? document.render = some document.served) ∧
    ∀ text document, Node.parse? text = some document → document.FloatFree →
      Node.parse? document.render = some document := by
  constructor
  · intro document hordered hfloats hdepth
    exact parse?_render_of_floatFree hordered hfloats hdepth
  · intro text document hparse hfloats
    have hordered : document.Ordered := ordered_of_parse? hparse
    have hdepth : document.depth ≤ maxOpen := by
      simpa using holds_of_parse? builtUp_depth hparse
    rw [parse?_render_of_floatFree hordered hfloats hdepth, served_of_parse? hparse hfloats]

/-- A document with escaped and unescaped characters and numbers at the limits of both kinds, and
the document that is read back from its text. -/
theorem served_text_reads_back_limits :
    let document : Node := .map [("a\"\\\x07", .list [.leaf (.uint 7),
      .leaf (.uint 18446744073709551615), .leaf (.int (-9223372036854775808)), .emptyMap]),
      ("é", .text "\t/😀")]
    let found : Node := .map [("a\"\\\x07", .list [.leaf (.int 7),
      .leaf (.uint 18446744073709551615), .leaf (.int (-9223372036854775808)), .emptyMap]),
      ("é", .text "\t/😀")]
    document.render = "\x7b\"a\\\"\\\\\\u0007\":[7,18446744073709551615,-9223372036854775808," ++
      "\x7b\x7d],\"é\":\"\\t/😀\"\x7d" ∧
    document.Ordered ∧ document.FloatFree ∧ document.depth ≤ 127 ∧
    Node.parse? document.render = some document.served ∧ document.served = found ∧
    Node.parse? document.render = some found ∧ found.FloatFree ∧
    Node.parse? found.render = some found := by
  intro document found
  have hordered : document.Ordered := by decide +kernel
  have hfloats : document.FloatFree := by decide +kernel
  have hdepth : document.depth ≤ 127 := by decide +kernel
  have hread := served_text_reads_back.1 document hordered hfloats hdepth
  have hseven : (Scalar.uint 7).served = .int 7 := by decide +kernel
  have hgreatest :
      (Scalar.uint 18446744073709551615).served = .uint 18446744073709551615 := by decide +kernel
  have hserved : document.served = found := by
    simp only [document, found, served, servedFields, servedItems, hseven, hgreatest]
    rfl
  have hfound : found.FloatFree := by decide +kernel
  exact ⟨by decide +kernel, hordered, hfloats, hdepth, hread, hserved, hserved ▸ hread, hfound,
    served_text_reads_back.2 document.render found (hserved ▸ hread) hfound⟩

end Node

end ContainerFeed
