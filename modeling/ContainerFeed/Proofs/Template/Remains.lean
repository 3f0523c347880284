import ContainerFeed.Proofs.Template.Acceptance
import ContainerFeed.Proofs.Template.Registration

/-!
# Specs that remain in a skeleton

A skeleton should hold no spec any more, at any depth. A spec remains where it has been lost from
the table of its region, and where the region is itself a spec without a default, since removing a
whole document removes nothing.
-/

namespace ContainerFeed

open Template (Spec)

namespace Node

/-! ## Trees without specs -/

/-- A node of a tree, at any depth. -/
inductive Inside : Node → Node → Prop
  | self (node : Node) : Inside node node
  | field {inner value : Node} {key : String} {fields : List (String × Node)} :
      (key, value) ∈ fields → Inside inner value → Inside inner (.map fields)
  | item {inner item : Node} {items : List Node} :
      item ∈ items → Inside inner item → Inside inner (.list items)

/-- No node of the tree is read as a spec, whatever its path. -/
def SpecFree (node : Node) : Prop :=
  ∀ inner, inner.Inside node → ∀ path, Spec.ofNode path inner = .ok none

/-- A node that is never read as a spec is one that does not look like one. -/
theorem isSpec_eq_false_iff {node : Node} :
    (∀ path, Spec.ofNode path node = .ok none) ↔ Spec.isSpec node = false := by
  refine ⟨fun h => ?_, Spec.ofNode_of_not_isSpec⟩
  by_contra hspec
  exact Spec.ofNode_ne_none (by simpa using hspec) Path.root (h _)

/-- A tree without specs is none itself. -/
theorem SpecFree.not_isSpec {node : Node} (h : node.SpecFree) : Spec.isSpec node = false :=
  isSpec_eq_false_iff.mp (h node (.self node))

/-- A map has no specs when it is none itself and its values have none. -/
theorem specFree_map_iff {fields : List (String × Node)} :
    (Node.map fields).SpecFree ↔
      Spec.isSpec (.map fields) = false ∧ ∀ entry ∈ fields, entry.2.SpecFree := by
  constructor
  · intro h
    refine ⟨h.not_isSpec, ?_⟩
    rintro ⟨key, value⟩ hentry inner hinner
    exact h inner (.field hentry hinner)
  · rintro ⟨hroot, hfields⟩ inner hinner
    cases hinner with
    | self => exact isSpec_eq_false_iff.mpr hroot
    | field hentry hbelow => exact hfields _ hentry inner hbelow

/-- A list has no specs when its items have none. -/
theorem specFree_list_iff {items : List Node} :
    (Node.list items).SpecFree ↔ ∀ item ∈ items, item.SpecFree := by
  constructor
  · exact fun h item hitem inner hinner => h inner (.item hitem hinner)
  · intro hitems inner hinner
    cases hinner with
    | self => exact fun _ => rfl
    | item hitem hbelow => exact hitems _ hitem inner hbelow

/-- A leaf has no specs when it is none itself. -/
theorem specFree_leaf_iff {value : Scalar} :
    (Node.leaf value).SpecFree ↔ Spec.isSpec (.leaf value) = false := by
  refine ⟨SpecFree.not_isSpec, fun h inner hinner => ?_⟩
  cases hinner
  exact isSpec_eq_false_iff.mpr h

/-- What steps lead to is a node of the tree. -/
theorem inside_of_follow? {node inner : Node} {p : List String} (h : node.follow? p = some inner) :
    inner.Inside node := by
  induction p generalizing node with
  | nil =>
    obtain rfl : node = inner := by simpa [follow?] using h
    exact .self node
  | cons s p ih =>
    cases hchild : node.child? s with
    | none => simp [follow?, hchild] at h
    | some child =>
      have hbelow : inner.Inside child := ih (by simpa [follow?, hchild] using h)
      cases node with
      | map fields => exact .field (Keyed.mem_of_get? hchild) hbelow
      | leaf value => simp [child?] at hchild
      | list items =>
        obtain ⟨index, _, hitem⟩ := Option.bind_eq_some_iff.mp hchild
        exact .item (List.mem_of_getElem? hitem) hbelow

/-! ## Which choice leaves no spec -/

/-- The spec at a place is chosen, and its default is no spec. -/
def GivesWay (chosen : Choice) (place : List String × Node) : Prop :=
  Spec.isSpec place.2 = true →
    chosen place.1 = true ∧ ∀ value ∈ place.2.default?, Spec.isSpec (.leaf value) = false

/-- Nothing like a spec is left of a spec exactly when it gives way. -/
theorem specFree_substitute_of_isSpec {node : Node} (h : Spec.isSpec node = true)
    (chosen : Choice) :
    (∀ left ∈ node.substitute chosen, left.SpecFree) ↔ GivesWay chosen ([], node) := by
  rw [substitute_of_isSpec h, remnant?, GivesWay]
  cases hchosen : chosen [] with
  | false =>
    have hnot : ¬ node.SpecFree := fun hfree => by simpa [h] using hfree.not_isSpec
    simp [h, hnot]
  | true => simp [h, specFree_leaf_iff]

/-- A map that is no full spec becomes none when its values give way. -/
theorem isSpec_substituteFields {fields : List (String × Node)}
    (h : Spec.isFull (.map fields) = false) (chosen : Choice) :
    Spec.isSpec (.map (substituteFields chosen fields)) = false := by
  have hkeys : Keyed.get? Spec.marker fields = none := by
    simpa [Spec.isFull, Keyed.contains] using h
  have hnone : Keyed.get? Spec.marker (substituteFields chosen fields) = none := by
    rw [Keyed.get?_eq_none_iff] at hkeys ⊢
    intro entry hentry
    obtain ⟨old, hold, hkey⟩ := mem_of_mem_substituteFields hentry
    exact hkey ▸ hkeys old hold
  simp [Spec.isSpec, Spec.isFull, Keyed.contains, hnone]

mutual

/-- What is left of a tree holds no spec exactly if every spec of the tree gives way to what is
none. -/
theorem specFree_substitute (chosen : Choice) : (node : Node) →
    ((∀ left ∈ node.substitute chosen, left.SpecFree) ↔
      ∀ place ∈ node.positions, GivesWay chosen place)
  | .map fields => by
    by_cases hfull : Spec.isFull (.map fields) = true
    · have hspec : Spec.isSpec (.map fields) = true := hfull
      rw [specFree_substitute_of_isSpec hspec, positions, if_pos hfull, List.forall_mem_singleton]
    · have hnot : Spec.isFull (.map fields) = false := by simpa using hfull
      have hroot : GivesWay chosen ([], .map fields) := fun hspec => absurd hspec hfull
      rw [substitute_map hnot, positions, if_neg hfull, List.forall_mem_cons,
        ← specFree_substituteFields chosen fields]
      simp [specFree_map_iff, isSpec_substituteFields hnot, hroot]
  | .list items => by
    have hroot : GivesWay chosen ([], .list items) := fun hspec => by
      simp [Spec.isSpec, Spec.isFull] at hspec
    rw [substitute_list, positions, List.forall_mem_cons, ← specFree_substituteItems chosen 0 items]
    simp [specFree_list_iff, hroot]
  | .leaf value => by
    rw [positions, List.forall_mem_singleton]
    by_cases hspec : Spec.isSpec (.leaf value) = true
    · exact specFree_substitute_of_isSpec hspec chosen
    · rw [substitute, if_neg hspec]
      simp [specFree_leaf_iff, GivesWay, hspec]

/-- No spec is left in some fields exactly when all of theirs give way. -/
theorem specFree_substituteFields (chosen : Choice) : (fields : List (String × Node)) →
    ((∀ entry ∈ substituteFields chosen fields, entry.2.SpecFree) ↔
      ∀ place ∈ positionsOfFields fields, GivesWay chosen place)
  | [] => by simp [substituteFields, positionsOfFields]
  | (key, value) :: rest => by
    have hvalue := specFree_substitute (chosen.below key) value
    rw [substituteFields_cons, positionsOfFields, List.forall_mem_append, List.forall_mem_append,
      specFree_substituteFields chosen rest, List.forall_mem_map]
    refine and_congr_left fun _ => Iff.trans ?_ hvalue
    simp

/-- No spec is left in some items exactly when all of theirs give way. -/
theorem specFree_substituteItems (chosen : Choice) (index : Nat) : (items : List Node) →
    ((∀ item ∈ substituteItems chosen index items, item.SpecFree) ↔
      ∀ place ∈ positionsOfItems index items, GivesWay chosen place)
  | [] => by simp [substituteItems, positionsOfItems]
  | item :: rest => by
    have hitem := specFree_substitute (chosen.below (Text.indexStep index)) item
    have hnull : (Node.leaf .null).SpecFree := specFree_leaf_iff.mpr rfl
    rw [substituteItems, positionsOfItems, List.forall_mem_cons, List.forall_mem_append,
      specFree_substituteItems chosen (index + 1) rest, List.forall_mem_map]
    refine and_congr_left fun _ => Iff.trans ?_ hitem
    cases item.substitute (chosen.below (Text.indexStep index)) <;> simp [hnull]

end

end Node

namespace Template

-- The steps of a path are only ever compared, never computed, in this file.
attribute [local irreducible] Path.segments Path.parentAndLeaf

variable {document : Node} {specs : List Spec} {region : Region}

/-! ## Specs and their places -/

/-- Where all specs have been read, nothing is wrong with them. -/
theorem findSome?_of_specsOf (h : specsOf document = .ok specs) :
    (specNodes document).findSome? faultAt? = none := by
  rw [specsOf_eq_specNodes] at h
  cases hfind : (specNodes document).findSome? faultAt? with
  | none => rfl
  | some fault => simp [hfind] at h

/-- A spec is found at every place of a spec node, with the default of this node. -/
theorem exists_spec_of_place (hdocument : Tidy document) (hspecs : specsOf document = .ok specs)
    {place : List String × Node} (hplace : place ∈ document.positions)
    (hspec : Spec.isSpec place.2 = true) :
    ∃ spec ∈ specs, Path.segments spec.target = place.1 ∧ place.2.default? = spec.default := by
  have hmem : Node.visitAt Path.root place ∈ specNodes document :=
    List.mem_map_of_mem (List.mem_filter.mpr ⟨hplace, hspec⟩)
  obtain ⟨spec, hread⟩ := (findSome?_faultAt?_eq_none_iff fun _ => isSpec_of_mem_specNodes).mp
    (findSome?_of_specsOf hspecs) _ hmem
  have hat : specAt? (Node.visitAt Path.root place) = some spec := specAt?_eq_some_iff.mpr hread
  obtain ⟨_, htarget, _, _⟩ :=
    specAt?_visitAt ((Node.stands_of_mem_positions hplace).plainStep hdocument.keys) hat
  exact ⟨spec, (mem_specsOf_iff hdocument hspecs).mpr ⟨place, hplace, hspec, hat⟩, htarget,
    default?_of_specAt? hat⟩

/-- Where the places of a table can be written, no spec is lost exactly if the table has one at
every place. -/
theorem keysApart_iff_places (hdocument : Tidy document) (hspecs : specsOf document = .ok specs)
    (haccepts : ∀ entered ∈ (Table.ofSpecs specs).specs,
      document.Accepts (Path.segments entered.target)) :
    Table.KeysApart specs ↔ ∀ spec ∈ specs, ∃ entered ∈ (Table.ofSpecs specs).specs,
      Path.segments entered.target = Path.segments spec.target := by
  constructor
  · intro hapart spec hspec
    have hperm := (Table.slotsFree_iff.mpr hapart).perm
    obtain ⟨entered, hentered, hbare⟩ :=
      List.mem_map.mp (hperm.symm.subset (List.mem_map_of_mem hspec))
    have htarget : entered.bare.target = spec.bare.target := congrArg Spec.target hbare
    exact ⟨entered, hentered, congrArg Path.segments htarget⟩
  · intro hall
    -- No two specs stand at one place, so the table has as many places as there are specs.
    have hnodup : (specs.map fun spec => Path.segments spec.target).Nodup := by
      refine List.pairwise_map.mpr
        ((pairwise_specsOf hdocument.ordered hdocument.keys hspecs).imp_of_mem ?_)
      intro a b _ hb hapart hsame
      obtain ⟨entered, hentered, hplace⟩ := hall b hb
      have hboth := hapart (hplace ▸ haccepts entered hentered)
      rw [hsame] at hboth
      exact Node.not_apart_self _ _ hboth
    have hsubset : (specs.map fun spec => Path.segments spec.target) ⊆
        (Table.ofSpecs specs).specs.map fun spec => Path.segments spec.target := by
      intro p hp
      obtain ⟨spec, hspec, rfl⟩ := List.mem_map.mp hp
      obtain ⟨entered, hentered, hplace⟩ := hall spec hspec
      exact List.mem_map.mpr ⟨entered, hentered, hplace⟩
    have hlength := (List.subperm_of_subset hnodup hsubset).length_le
    simp only [List.length_map, Table.specs, Keyed.values] at hlength
    exact Table.keysApart_iff_size.mpr (Nat.le_antisymm (Table.size_ofSpecs specs).1 hlength)

/-! ## Skeletons -/

/-- No text default of a region begins like a compact spec. -/
def PlainDefaults (document : Node) : Prop :=
  ∀ spec ∈ found document, ∀ text, spec.default = some (.text text) →
    ¬ Spec.compactLead <+: text.toList

/-- No spec of a region is lost from its table, and the region is not itself a spec without a
default. -/
def LosesNoSpec (document : Node) : Prop :=
  Table.KeysApart (found document) ∧ (Spec.isSpec document = true → document.default? ≠ none)

/-- A leaf that does not begin like a compact spec is none. -/
theorem isSpec_leaf_eq_false {value : Scalar}
    (h : ∀ text, value = .text text → ¬ Spec.compactLead <+: text.toList) :
    Spec.isSpec (.leaf value) = false := by
  cases value with
  | text text =>
    have hnot : Spec.compactLead.isPrefixOf text.toList = false := by
      rw [← Bool.not_eq_true, List.isPrefixOf_iff_prefix]
      exact h text rfl
    simp [Spec.isSpec, Spec.packedText?, hnot]
  | _ => rfl

/-- The default of a found spec is no spec. -/
theorem PlainDefaults.isSpec_leaf (h : PlainDefaults document)
    (hspecs : specsOf document = .ok specs) {spec : Spec} (hspec : spec ∈ specs) {value : Scalar}
    (hvalue : spec.default = some value) : Spec.isSpec (.leaf value) = false := by
  have hfound : spec ∈ found document := by
    rw [found, hspecs]
    exact hspec
  exact isSpec_leaf_eq_false fun text htext => h spec hfound text (htext ▸ hvalue)

/-- No spec remains of a region that is itself a spec, unless it has no default. -/
theorem Region.specFree_of_isSpec (hdocument : Tidy document) (hdefaults : PlainDefaults document)
    (hroot : Spec.isSpec document = true) (h : Region.compile document = .ok region) :
    region.skeleton.SpecFree ↔ document.default? ≠ none := by
  obtain ⟨specs, hspecs, _⟩ := Outcome.bind_eq_ok_iff.mp h
  obtain ⟨spec, hread, hsingle, htable⟩ := specsOf_of_isSpec hroot (findSome?_of_specsOf hspecs)
  obtain ⟨htarget, _, _⟩ := Spec.ofNode_eq_some hread
  have hat : specAt? (Path.root, document) = some spec := specAt?_eq_some_iff.mpr hread
  rw [compile_of_specsOf hsingle, htable, Outcome.map_eq_ok_iff] at h
  obtain ⟨skeleton, hskeleton, rfl⟩ := h
  rw [Outcome.mapError_eq_ok_iff] at hskeleton
  obtain ⟨left, happly, hnil⟩ := applyDefaults_cons_eq_ok_iff.mp hskeleton
  obtain rfl := Outcome.foldlM_nil_eq_ok_iff.mp hnil
  rw [default?_of_specAt? hat]
  cases hvalue : spec.default with
  | some value =>
    rw [applyDefault_of_root htarget hvalue] at happly
    obtain rfl := Except.ok.inj happly
    have hplain := hdefaults.isSpec_leaf hsingle (List.mem_singleton_self spec) hvalue
    simp [Node.specFree_leaf_iff, hplain]
  | none =>
    suffices hsame : left = document by
      have hremains : ¬ left.SpecFree := fun hfree => by
        simpa [hsame, hroot] using hfree.not_isSpec
      simp [hremains]
    cases document with
    | list items => simp [Spec.isSpec, Spec.isFull] at hroot
    | leaf scalar =>
      simp [applyDefault, hvalue, htarget, Node.remove, Node.editAt, Node.withdraw,
        Except.map] at happly
    | map fields =>
      -- No key is empty, so there is nothing to remove.
      have herase : Keyed.erase "" fields = fields :=
        List.filter_eq_self.mpr fun entry hentry => by
          simpa using ((Node.everywhere_map_iff.mp hdocument.keys).1 entry hentry).1
      rw [applyDefault_map_of_root htarget hvalue, herase] at happly
      exact (Except.ok.inj happly).symm

/-- No spec remains of a region that is no spec itself exactly if none is lost from its table. -/
theorem Region.specFree_of_not_isSpec (hdocument : Tidy document)
    (hdefaults : PlainDefaults document) (hroot : Spec.isSpec document = false)
    (hspecs : specsOf document = .ok specs) {skeleton : Node}
    (happly : applyDefaults document (Table.ofSpecs specs).specs = .ok skeleton) :
    skeleton.SpecFree ↔ Table.KeysApart specs := by
  have hbare : ∀ entered ∈ (Table.ofSpecs specs).specs, entered.bare ∈ specs :=
    fun _ => bare_mem_of_mem_ofSpecs hdocument.keys hspecs
  have haccepts := accepts_of_applyDefaults (fun entered hentered =>
    (Template.segments_target_ne_nil hdocument.keys hroot hspecs (hbare entered hentered) :))
    happly
  obtain ⟨left, final, hleft, hsubstitute, hfinal⟩ :=
    exists_applyDefaults_of_found hdocument hroot hspecs hbare haccepts
  obtain rfl := Except.ok.inj (hleft.symm.trans happly)
  have hgives : left.SpecFree ↔ ∀ place ∈ document.positions, Node.GivesWay final place := by
    simpa [hsubstitute] using Node.specFree_substitute final document
  rw [keysApart_iff_places hdocument hspecs haccepts, hgives]
  constructor
  · intro hall spec hspec
    obtain ⟨_, _, node, hplace, hnode⟩ := position_of_mem_specsOf hdocument.keys hspecs hspec
    exact (hfinal _).mp (hall _ hplace hnode).1
  · intro hall place hplace hnode
    obtain ⟨spec, hspec, htarget, hdefault⟩ :=
      exists_spec_of_place hdocument hspecs hplace hnode
    refine ⟨(hfinal _).mpr (htarget ▸ hall spec hspec), fun value hvalue => ?_⟩
    exact hdefaults.isSpec_leaf hspecs hspec (hdefault ▸ hvalue)

/-- A skeleton holds no spec exactly if no spec of its region is lost. -/
theorem Region.specFree_iff (hdocument : Tidy document) (hdefaults : PlainDefaults document)
    (h : Region.compile document = .ok region) :
    region.skeleton.SpecFree ↔ LosesNoSpec document := by
  obtain ⟨specs, hspecs, _⟩ := Outcome.bind_eq_ok_iff.mp h
  have hfound : found document = specs := by
    rw [found, hspecs]
    rfl
  rw [LosesNoSpec, hfound]
  cases hroot : Spec.isSpec document with
  | true =>
    obtain ⟨spec, _, hsingle, _⟩ := specsOf_of_isSpec hroot (findSome?_of_specsOf hspecs)
    obtain rfl := Except.ok.inj (hspecs.symm.trans hsingle)
    have hapart : Table.KeysApart [spec] := Table.keysApart_iff_size.mpr rfl
    simp [specFree_of_isSpec hdocument hdefaults hroot h, hapart]
  | false =>
    rw [compile_of_specsOf hspecs, Outcome.map_eq_ok_iff] at h
    obtain ⟨skeleton, hskeleton, rfl⟩ := h
    rw [Outcome.mapError_eq_ok_iff] at hskeleton
    simp [specFree_of_not_isSpec hdocument hdefaults hroot hspecs hskeleton]

/-- The skeleton of each region of a template with plain keys holds no spec, at any depth, exactly
if no spec of the region is lost. -/
theorem skeletons_specFree_iff {source : String} {document container sample interface : Node}
    {template : Template} (hparse : Node.parse? source = some document)
    (hkeys : document.PlainKeys) (hcuts : CutsInto document container sample interface)
    (hdefaults : ∀ region ∈ [container, sample, interface], PlainDefaults region)
    (hcompile : compile source = .ok template) :
    (template.container.skeleton.SpecFree ↔ LosesNoSpec container) ∧
      (template.sample.skeleton.SpecFree ↔ LosesNoSpec sample) ∧
      (template.interface.skeleton.SpecFree ↔ LosesNoSpec interface) := by
  obtain ⟨hc, hs, hi, _⟩ := cutRegions_eq_ok ⟨Node.ordered_of_parse? hparse, hkeys⟩ hcuts.cutRegions
  obtain ⟨hcontainer, hsample, hinterface⟩ := regions_of_compile hparse hcuts.cutRegions hcompile
  exact ⟨Region.specFree_iff hc (hdefaults container (by simp)) hcontainer,
    Region.specFree_iff hs (hdefaults sample (by simp)) hsample,
    Region.specFree_iff hi (hdefaults interface (by simp)) hinterface⟩

/-- A template with a spec in the container whose source is an alias key, before two with one
source, with two of one source in the sample, and with an interface that is itself a spec. -/
def maskedSpec : Node :=
  .map [
    ("a", .text "__tmpl:src=alias#1"),
    ("b", .text "__tmpl:src=/rx"),
    ("c", .text "__tmpl:src=/rx"),
    ("id", .text ""),
    ("name", .text ""),
    ("stats", .list [.map [
      ("load", .text "__tmpl:src=/load;default=0"),
      ("network", .map [("interfaces", .list [.map [
        (Spec.marker, .leaf (.bool true)),
        ("default", .leaf (.int 0)),
        ("src", .text "/rx")]])]),
      ("reload", .list [.text "__tmpl:src=/load"]),
      ("timestamp", .text "")]])]

/-- It is accepted and has no text defaults. Its container loses a spec, the others lose none. -/
theorem exists_maskedSpec : ∃ document container sample interface template,
    Node.parse? maskedSpec.render = some document ∧ document.PlainKeys ∧
    CutsInto document container sample interface ∧ compile maskedSpec.render = .ok template ∧
    (∀ region ∈ [container, sample, interface], PlainDefaults region) ∧
    (Table.ofSpecs (found container)).size ≠ (found container).length ∧
    (Table.ofSpecs (found sample)).size = (found sample).length ∧
    Spec.isSpec sample = false ∧
    (Table.ofSpecs (found interface)).size = (found interface).length ∧
    interface.default? ≠ none ∧
    (template.container.skeleton.follow? ["a"]).bind Node.text? = some "__tmpl:src=alias#1" := by
  have hread : (Node.parse? maskedSpec.render).any (fun document =>
      decide document.PlainKeys &&
      (cutRegions document).toOption.any (fun (regions : Node × Node × Node) => decide (
        (∀ region ∈ [regions.1, regions.2.1, regions.2.2], ∀ spec ∈ found region,
          spec.default = none ∨ spec.default = some (.int 0)) ∧
        (Table.ofSpecs (found regions.1)).size ≠ (found regions.1).length ∧
        (Table.ofSpecs (found regions.2.1)).size = (found regions.2.1).length ∧
        Spec.isSpec regions.2.1 = false ∧
        (Table.ofSpecs (found regions.2.2)).size = (found regions.2.2).length ∧
        regions.2.2.default? ≠ none)) &&
      (ofDocument document).toOption.any fun (template : Template) => decide (
        (template.container.skeleton.follow? ["a"]).bind Node.text? =
          some "__tmpl:src=alias#1")) = true := by
    rw [Node.parse?_render]
    decide +kernel
  obtain ⟨document, hparse, hdocument⟩ := (Option.any_eq_true _ _).mp hread
  simp only [Bool.and_eq_true, decide_eq_true_eq, Option.any_eq_true] at hdocument
  obtain ⟨⟨hplain, ⟨container, sample, interface⟩, hcut, hdefaults, hsizes⟩, template, htemplate,
    hremains⟩ := hdocument
  rw [Outcome.toOption_eq_some_iff] at hcut htemplate
  obtain ⟨hcsize, hssize, hsroot, hisize, hidefault⟩ := hsizes
  refine ⟨document, container, sample, interface, template, hparse, hplain,
    cutsInto_of_cutRegions hcut, ?_, fun region hregion spec hspec text htext => ?_, hcsize, hssize,
    hsroot, hisize, hidefault, hremains⟩
  · rw [compile, hparse]
    exact htemplate
  · rcases hdefaults region hregion spec hspec with hnone | hzero <;> simp_all

/-- The lost spec remains in the skeleton of the container. -/
theorem maskedSpec_remains : ∃ document container sample interface template,
    Node.parse? maskedSpec.render = some document ∧
    CutsInto document container sample interface ∧
    (∀ region ∈ [container, sample, interface], PlainDefaults region) ∧
    compile maskedSpec.render = .ok template ∧
    (template.container.skeleton.follow? ["a"]).bind Node.text? = some "__tmpl:src=alias#1" ∧
    ¬ template.container.skeleton.SpecFree := by
  obtain ⟨document, container, sample, interface, template, hparse, _, hcuts, hcompile, hdefaults,
    _, _, _, _, _, hremains⟩ := exists_maskedSpec
  refine ⟨document, container, sample, interface, template, hparse, hcuts, hdefaults, hcompile,
    hremains, fun hfree => ?_⟩
  obtain ⟨inner, hinner, htext⟩ := Option.bind_eq_some_iff.mp hremains
  have hnone := hfree inner (Node.inside_of_follow? hinner)
  cases inner with
  | map fields => simp [Node.text?] at htext
  | list items => simp [Node.text?] at htext
  | leaf value =>
    cases value with
    | text text =>
      obtain rfl : text = "__tmpl:src=alias#1" := by simpa [Node.text?] using htext
      have hspec : Spec.isSpec (.text "__tmpl:src=alias#1") = true := by decide +kernel
      exact Spec.ofNode_ne_none hspec Path.root (hnone _)
    | _ => simp [Node.text?] at htext

/-- The other two skeletons hold no spec. -/
theorem skeletons_specFree_iff_maskedSpec :
    ∃ template, compile maskedSpec.render = .ok template ∧
      ¬ template.container.skeleton.SpecFree ∧ template.sample.skeleton.SpecFree ∧
      template.interface.skeleton.SpecFree := by
  obtain ⟨document, container, sample, interface, template, hparse, hkeys, hcuts, hcompile,
    hdefaults, hcontainer, hsample, hroot, hinterface, hdefault, _⟩ := exists_maskedSpec
  obtain ⟨hc, hs, hi⟩ := skeletons_specFree_iff hparse hkeys hcuts hdefaults hcompile
  refine ⟨template, hcompile, fun hfree => ?_, hs.mpr ⟨Table.keysApart_iff_size.mpr hsample, ?_⟩,
    hi.mpr ⟨Table.keysApart_iff_size.mpr hinterface, fun _ => hdefault⟩⟩
  · exact hcontainer (Table.keysApart_iff_size.mp (hc.mp hfree).1)
  · simp [hroot]

end Template

end ContainerFeed
