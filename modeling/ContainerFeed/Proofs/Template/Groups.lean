import ContainerFeed.Proofs.Template.Compiling

/-!
# Groups of specs with one source

The specs of a region stand in its table in groups: the first one with a source, and those that it
remembers under alias keys. While the table is filled, each group grows at its end and no other one
changes, so in the end it lists the specs with its source in the order of the document. A namespace
finds a whole group, in whatever order the table yields its entries.
-/

namespace ContainerFeed.Template

namespace Table

variable {table : Table} {spec : Spec} {source namespaceText : String}

/-- The specs with a source: the one entered under it, and those under the aliases it remembers. -/
def group (table : Table) (source : String) : List Spec :=
  match table.get? source with
  | some first => first :: first.aliases.filterMap table.get?
  | none => []

/-- A group begins with the spec that stands under its source. -/
theorem group_of_get? {first : Spec} (h : table.get? source = some first) :
    table.group source = first :: first.aliases.filterMap table.get? := by
  rw [group, h]

/-- A group is empty exactly when no spec stands under its source. -/
theorem group_eq_nil_iff : table.group source = [] ↔ table.get? source = none := by
  rw [group]
  cases table.get? source <;> simp

/-! ## Filling a table -/

/-- What has been entered before stays under its key, up to the aliases it remembers. -/
theorem Sound.bare_get?_register (h : table.Sound) (added : Spec) {key : String} {old : Spec}
    (hold : table.get? key = some old) :
    ((table.register added).get? key).map Spec.bare = some old.bare := by
  have hkey : key ≠ table.slot added := fun heq => by simp [heq, h.get?_slot] at hold
  rw [Table.bare_get?_register, if_neg hkey, hold, Option.map_some]

/-- The aliases of a group are not lost when one more spec is entered. -/
theorem Sound.bare_aliases_register (h : table.Sound) (added : Spec) {first : Spec}
    (hfirst : table.get? first.source = some first) :
    (first.aliases.filterMap (table.register added).get?).map Spec.bare =
      (first.aliases.filterMap table.get?).map Spec.bare := by
  rw [List.map_filterMap, List.map_filterMap]
  refine List.filterMap_congr fun key hkey => ?_
  obtain ⟨old, hold, _⟩ := h.remembered _ first hfirst rfl key hkey
  rw [h.bare_get?_register added hold, hold, Option.map_some]

/-- Under every alias that a spec remembers stands a spec. -/
theorem Sound.map_aliases (h : table.Sound) {first : Spec}
    (hfirst : table.get? first.source = some first) :
    first.aliases.map table.get? = (first.aliases.filterMap table.get?).map some := by
  rw [List.map_filterMap, ← List.filterMap_eq_map]
  refine List.filterMap_congr fun key hkey => ?_
  obtain ⟨member, hmember, _⟩ := h.remembered _ first hfirst rfl key hkey
  rw [Function.comp_apply, hmember, Option.map_some]

/-- A spec that is entered joins the group of its source at the end, and no other group. -/
theorem Sound.group_register (h : table.Sound) (hplain : ¬ LooksAlias spec.source)
    (haliases : spec.aliases = []) (hsource : ¬ LooksAlias source) :
    ((table.register spec).group source).map Spec.bare =
      (table.group source).map Spec.bare ++ if spec.source = source then [spec.bare] else [] := by
  by_cases hsame : spec.source = source
  · subst hsame
    rw [if_pos rfl]
    cases hget : table.get? spec.source with
    | none =>
      -- The first spec with its source opens a group.
      have hnew : (table.register spec).get? spec.source = some spec := by
        rw [get?_register_of_none hget, if_pos rfl]
      rw [group_of_get? hnew, group_eq_nil_iff.mpr hget, haliases]
      rfl
    | some first =>
      have hfirst : first.source = spec.source := h.source_of_get? hplain hget
      have hne : spec.source ≠ aliasKey (table.aliasCount + 1) :=
        fun heq => hplain (heq ▸ looksAlias_aliasKey _)
      have hroot : (table.register spec).get? spec.source =
          some (addAlias first (aliasKey (table.aliasCount + 1))) := by
        rw [get?_register_of_some hget, if_neg hne, if_pos rfl]
      have hlast : (table.register spec).get? (aliasKey (table.aliasCount + 1)) = some spec := by
        rw [get?_register_of_some hget, if_pos rfl]
      have hothers := h.bare_aliases_register spec (hfirst ▸ hget)
      rw [group_of_get? hroot, group_of_get? hget, addAlias, List.filterMap_append,
        List.filterMap_cons_some hlast]
      simp [hothers, Spec.bare]
  · rw [if_neg hsame, List.append_nil]
    have hkept : (table.register spec).get? source = table.get? source := by
      cases hget : table.get? spec.source with
      | none => rw [get?_register_of_none hget, if_neg (Ne.symm hsame)]
      | some first =>
        have hne : source ≠ aliasKey (table.aliasCount + 1) :=
          fun heq => hsource (heq ▸ looksAlias_aliasKey _)
        rw [get?_register_of_some hget, if_neg hne, if_neg (Ne.symm hsame)]
    cases hget : table.get? source with
    | none => rw [group_eq_nil_iff.mpr hget, group_eq_nil_iff.mpr (hkept.trans hget)]
    | some first =>
      have hfirst : first.source = source := h.source_of_get? hsource hget
      rw [group_of_get? hget, group_of_get? (hkept.trans hget), List.map_cons, List.map_cons,
        h.bare_aliases_register spec (hfirst ▸ hget)]

private theorem group_foldl {specs : List Spec} (htable : table.Sound)
    (h : ∀ spec ∈ specs, ¬ LooksAlias spec.source ∧ spec.aliases = [])
    (hsource : ¬ LooksAlias source) :
    ((specs.foldl register table).group source).map Spec.bare =
      (table.group source).map Spec.bare ++ specs.filter fun spec => spec.source == source := by
  induction specs generalizing table with
  | nil => simp
  | cons spec rest ih =>
    obtain ⟨⟨hplain, haliases⟩, hrest⟩ := List.forall_mem_cons.mp h
    have hbare : spec.bare = spec := by
      rw [Spec.bare, ← haliases]
    rw [List.foldl_cons, ih (htable.register hplain haliases) hrest,
      htable.group_register hplain haliases hsource, List.append_assoc, hbare]
    by_cases hsame : spec.source = source <;> simp [hsame]

/-- In the table of some specs each group lists the specs with its source, in their order. -/
theorem group_ofSpecs {specs : List Spec}
    (h : ∀ spec ∈ specs, ¬ LooksAlias spec.source ∧ spec.aliases = [])
    (hsource : ¬ LooksAlias source) :
    ((ofSpecs specs).group source).map Spec.bare =
      specs.filter fun spec => spec.source == source :=
  group_foldl sound_empty h hsource

/-! ## Looking up a namespace -/

/-- The table with its entries in another order. -/
def inOrder (table : Table) (order : List (String × Spec)) : Table :=
  { table with entries := order }

variable {order : List (String × Spec)}

/-- The order of the entries does not matter to a look-up. -/
theorem Sound.get?_inOrder (h : table.Sound) (horder : order.Perm table.entries) (key : String) :
    (table.inOrder order).get? key = table.get? key :=
  Keyed.get?_perm (Keyed.nodup_keys h.ascending) horder key

/-- Every spec of a table belongs to the group of its source. -/
theorem Sound.exists_first (h : table.Sound) (hspec : spec ∈ table.specs) :
    ¬ LooksAlias spec.source ∧
      ∃ first, table.get? spec.source = some first ∧ first.source = spec.source := by
  obtain ⟨⟨key, spec⟩, hentry, rfl⟩ := List.mem_map.mp hspec
  have hget : table.get? key = some spec := Keyed.get?_of_mem h.ascending hentry
  have hplain := h.plain key spec hget
  obtain ⟨first, hfirst⟩ : ∃ first, table.get? spec.source = some first := by
    rcases h.known key spec hget with rfl | ⟨_, _, _, first, hfirst, _⟩
    · exact ⟨spec, hget⟩
    · exact ⟨first, hfirst⟩
  exact ⟨hplain, first, hfirst, h.source_of_get? hplain hfirst⟩

/-- A namespace finds nothing exactly if no spec applies to it. -/
theorem Sound.resolve?_inOrder_eq_none_iff (h : table.Sound) (horder : order.Perm table.entries) :
    (table.inOrder order).resolve? namespaceText = none ↔
      ∀ spec ∈ table.specs, ¬ spec.appliesTo namespaceText := by
  rw [resolve?, Option.map_eq_none_iff, List.find?_eq_none]
  constructor
  · intro hnone spec hspec happlies
    obtain ⟨_, first, hfirst, hsource⟩ := h.exists_first hspec
    refine hnone (spec.source, first) (horder.mem_iff.mpr (Keyed.mem_of_get? hfirst)) ?_
    simpa [matchesNamespace, hsource, Spec.appliesTo] using happlies
  · intro hnone entry hentry hmatches
    obtain ⟨hsource, hsuffix⟩ : entry.1 = entry.2.source ∧
        entry.1.toList.isSuffixOf namespaceText.toList = true := by
      simpa [matchesNamespace] using hmatches
    have hspec : entry.2 ∈ table.specs := List.mem_map_of_mem (horder.mem_iff.mp hentry)
    exact hnone _ hspec (by rwa [Spec.appliesTo, ← hsource])

/-- What a namespace finds is a group, whose source it ends with. -/
theorem Sound.exists_group_of_resolve?_inOrder (h : table.Sound)
    (horder : order.Perm table.entries) {found : List Spec}
    (hfound : (table.inOrder order).resolve? namespaceText = some found) :
    ∃ first, table.get? first.source = some first ∧ first.appliesTo namespaceText ∧
      found = table.group first.source := by
  obtain ⟨entry, hfind, rfl⟩ := Option.map_eq_some_iff.mp hfound
  obtain ⟨hsource, hsuffix⟩ : entry.1 = entry.2.source ∧
      entry.1.toList.isSuffixOf namespaceText.toList = true := by
    simpa [matchesNamespace] using List.find?_some hfind
  have hentry := horder.mem_iff.mp (List.mem_of_find?_eq_some hfind)
  have hget : table.get? entry.2.source = some entry.2 :=
    hsource ▸ Keyed.get?_of_mem h.ascending hentry
  refine ⟨entry.2, hget, by rwa [Spec.appliesTo, ← hsource], ?_⟩
  rw [group_of_get? hget, funext (h.get?_inOrder horder)]

end Table

/-! ## The table of a document -/

/-- The specs of a region that no full spec lies above, with their positions, in the order of the
visits. -/
def outermost (document : Node) : List (List String × Node) :=
  document.positions.filter fun place => Spec.isSpec place.2

private theorem forall₂_filter_filterMap {α β : Type} {p : α → Bool} {f : α → Option β}
    {items : List α} (hsome : ∀ a ∈ items, p a = true → ∃ b, f a = some b)
    (hnone : ∀ a ∈ items, p a = false → f a = none) :
    List.Forall₂ (fun a b => f a = some b) (items.filter p) (items.filterMap f) := by
  induction items with
  | nil => exact .nil
  | cons a rest ih =>
    obtain ⟨hsome, hrestsome⟩ := List.forall_mem_cons.mp hsome
    obtain ⟨hnone, hrestnone⟩ := List.forall_mem_cons.mp hnone
    cases hp : p a with
    | true =>
      obtain ⟨b, hb⟩ := hsome hp
      rw [List.filter_cons_of_pos hp, List.filterMap_cons_some hb]
      exact .cons hb (ih hrestsome hrestnone)
    | false =>
      rw [List.filter_cons_of_neg (by simp [hp]), List.filterMap_cons_none (hnone hp)]
      exact ih hrestsome hrestnone

/-- The specs that are found are those read from the outermost spec nodes, one from each. -/
theorem forall₂_outermost {document : Node} {specs : List Spec}
    (hreadable : SpecsReadable document) (hspecs : specsOf document = .ok specs) :
    List.Forall₂ (fun place spec =>
      Spec.ofNode (place.1.foldl Path.join Path.root) place.2 = .ok (some spec))
      (outermost document) specs := by
  have hsome : ∀ place ∈ document.positions, Spec.isSpec place.2 = true →
      ∃ spec, specAt? (Node.visitAt Path.root place) = some spec := by
    intro place hplace hnode
    obtain ⟨spec, hread, _⟩ := hreadable place hplace hnode
    exact ⟨_, specAt?_of_root hread _⟩
  have hnone : ∀ place ∈ document.positions, Spec.isSpec place.2 = false →
      specAt? (Node.visitAt Path.root place) = none := by
    intro place _ hnode
    have hof : Spec.ofNode (Node.visitAt Path.root place).1 (Node.visitAt Path.root place).2 = _ :=
      Spec.ofNode_of_not_isSpec hnode _
    simp only [specAt?, hof]
  rw [specsOf_eq_positions hspecs]
  exact (forall₂_filter_filterMap hsome hnone).imp fun _ _ hat => specAt?_eq_some_iff.mp hat

/-- The sources of the specs that are found do not look like alias keys, and nothing is remembered
yet. -/
theorem plain_of_mem_specsOf {document : Node} {specs : List Spec}
    (hreadable : SpecsReadable document) (hspecs : specsOf document = .ok specs) :
    ∀ spec ∈ specs, ¬ Table.LooksAlias spec.source ∧ spec.aliases = [] := by
  intro spec hspec
  rw [specsOf_eq_positions hspecs] at hspec
  obtain ⟨place, hplace, hfound⟩ := List.mem_filterMap.mp hspec
  obtain ⟨_, haliases, hnode⟩ := Spec.ofNode_eq_some (specAt?_eq_some_iff.mp hfound)
  obtain ⟨read, hread, hplain⟩ := hreadable place hplace hnode
  obtain rfl := Option.some.inj ((specAt?_of_root hread _).symm.trans hfound)
  exact ⟨hplain, haliases⟩

/-- The table of a region has one entry for each of the outermost specs of its document. In
whatever order it yields its entries, a namespace finds nothing exactly if no source is its end,
and where one source is its end, it finds the specs with this source, each once and in the order
of the document, the first of them under the source and the others under its aliases. -/
theorem table_lists_document {document : Node} (hreadable : SpecsReadable document) :
    ∃ specs, specsOf document = .ok specs ∧
      List.Forall₂ (fun place spec =>
        Spec.ofNode (place.1.foldl Path.join Path.root) place.2 = .ok (some spec))
        (outermost document) specs ∧
      (Table.ofSpecs specs).size = (outermost document).length ∧
      ((Table.ofSpecs specs).specs.map Spec.bare).Perm specs ∧
      ∀ order, order.Perm (Table.ofSpecs specs).entries → ∀ namespaceText,
        (((Table.ofSpecs specs).inOrder order).resolve? namespaceText = none ↔
          ∀ spec ∈ specs, ¬ spec.appliesTo namespaceText) ∧
        ∀ source, (∃ spec ∈ specs, spec.source = source ∧ spec.appliesTo namespaceText) →
          (∀ spec ∈ specs, spec.appliesTo namespaceText → spec.source = source) →
          ∃ first others,
            ((Table.ofSpecs specs).inOrder order).resolve? namespaceText =
              some (first :: others) ∧
            (first :: others).map Spec.bare = specs.filter (fun spec => spec.source == source) ∧
            (Table.ofSpecs specs).get? source = some first ∧
            first.aliases.map (Table.ofSpecs specs).get? = others.map some := by
  obtain ⟨specs, hspecs⟩ := exists_specsOf hreadable
  have hplain := plain_of_mem_specsOf hreadable hspecs
  obtain ⟨hsound, hperm⟩ := Table.sound_ofSpecs hplain
  have hread := forall₂_outermost hreadable hspecs
  have hsize : (Table.ofSpecs specs).size = specs.length := by
    rw [← hperm.length_eq, List.length_map, Table.specs, Keyed.values, List.length_map, Table.size]
  refine ⟨specs, hspecs, hread, hsize.trans hread.length_eq.symm, hperm, ?_⟩
  intro order horder namespaceText
  have hnone : ((Table.ofSpecs specs).inOrder order).resolve? namespaceText = none ↔ _ :=
    hsound.resolve?_inOrder_eq_none_iff horder
  have happly : (∀ spec ∈ (Table.ofSpecs specs).specs, ¬ spec.appliesTo namespaceText) ↔
      ∀ spec ∈ specs, ¬ spec.appliesTo namespaceText := by
    refine ⟨fun hall spec hspec => ?_, fun hall spec hspec => ?_⟩
    · obtain ⟨entered, hentered, rfl⟩ := List.mem_map.mp (hperm.mem_iff.mpr hspec)
      exact hall entered hentered
    · exact hall spec.bare (hperm.mem_iff.mp (List.mem_map_of_mem hspec))
  rw [happly] at hnone
  refine ⟨hnone, fun source hsome hone => ?_⟩
  obtain ⟨spec, hspec, hsource, happlies⟩ := hsome
  cases hfound : ((Table.ofSpecs specs).inOrder order).resolve? namespaceText with
  | none => exact absurd happlies (hnone.mp hfound spec hspec)
  | some found =>
    obtain ⟨first, hfirst, hfirstapplies, rfl⟩ :=
      hsound.exists_group_of_resolve?_inOrder horder hfound
    have hmem : first.bare ∈ specs :=
      hperm.mem_iff.mp (List.mem_map_of_mem (List.mem_map_of_mem (Keyed.mem_of_get? hfirst)))
    obtain rfl : first.source = source := hone first.bare hmem hfirstapplies
    have hgroup : ((Table.ofSpecs specs).group first.source).map Spec.bare = _ :=
      Table.group_ofSpecs hplain (hplain _ hmem).1
    rw [Table.group_of_get? hfirst] at hgroup ⊢
    exact ⟨first, _, rfl, hgroup, hfirst, hsound.map_aliases hfirst⟩

/-- A region in which the specs of two sources take turns, among them one at the root path, one in a
list, and a full one with a further spec inside. -/
def interleavedRegion : Node :=
  .map [("", .text "__tmpl:src=/rx"), ("a/b", .text "__tmpl:src=/tx"),
    ("list", .list [.text "__tmpl:src=/rx;default=0", .text "__tmpl:src=/tx"]),
    ("nested", .map [("__tmpl", .leaf (.bool true)), ("inner", .text "__tmpl:src=/rx"),
      ("src", .text "/rx")])]

/-- However the table is ordered, the one source finds its three specs from first to last, without
the one inside another, and a source of no spec finds nothing. -/
theorem table_lists_document_interleaved :
    ∃ specs, specsOf interleavedRegion = .ok specs ∧ (Table.ofSpecs specs).size = 5 ∧
      ∀ order, order.Perm (Table.ofSpecs specs).entries →
        (((Table.ofSpecs specs).inOrder order).resolve? "/docker/web/rx").map
            (List.map fun spec => spec.bare.target) = some ["/", "/list/0", "/nested"] ∧
        ((Table.ofSpecs specs).inOrder order).resolve? "/docker/web/size" = none := by
  have hreadable : SpecsReadable interleavedRegion := by decide +kernel
  have hchecked : (specsOf interleavedRegion).toOption.any (fun specs => decide
      ((Table.ofSpecs specs).size = 5 ∧
        (∃ spec ∈ specs, spec.source = "/rx" ∧ spec.appliesTo "/docker/web/rx") ∧
        (∀ spec ∈ specs, spec.appliesTo "/docker/web/rx" → spec.source = "/rx") ∧
        (specs.filter fun spec => spec.source == "/rx").map Spec.target =
          ["/", "/list/0", "/nested"] ∧
        ∀ spec ∈ specs, ¬ spec.appliesTo "/docker/web/size")) = true := by
    decide +kernel
  obtain ⟨specs, hspecs, _, _, _, hfinds⟩ := table_lists_document hreadable
  simp only [hspecs, Except.toOption, Option.any_some, decide_eq_true_eq] at hchecked
  obtain ⟨hsize, hsome, hone, htargets, hnone⟩ := hchecked
  refine ⟨specs, hspecs, hsize, fun order horder => ⟨?_, ?_⟩⟩
  · obtain ⟨first, others, hfound, hgroup, _⟩ := (hfinds order horder _).2 "/rx" hsome hone
    rw [hfound, Option.map_some, ← htargets, ← hgroup, List.map_map]
    rfl
  · exact (hfinds order horder _).1.mpr hnone

end ContainerFeed.Template
