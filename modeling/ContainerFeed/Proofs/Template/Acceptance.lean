import ContainerFeed.Proofs.Template.Groups
import ContainerFeed.Proofs.Template.Roots

/-!
# Which templates are accepted

A template is accepted when it follows the schema: its text is a document, the samples and the
interfaces are lists of one element each, and all value specs can be read. Otherwise it is refused
for the first fault in this order. Putting the defaults in place never fails.
-/

namespace ContainerFeed.Template

private theorem segments_samplesPath_ne_nil : Path.segments samplesPath ≠ [] := by
  decide +kernel

private theorem segments_interfacesPath_ne_nil : Path.segments interfacesPath ≠ [] := by
  decide +kernel

-- The steps of a path are only ever compared, never computed, in this file.
attribute [local irreducible] Path.segments Path.parentAndLeaf

/-! ## Cutting -/

/-- What is wrong with a list that should hold exactly one element. -/
inductive ListFault (document : Node) (path : String) : ShapeFault → Prop
  | noList {error : PathError} : document.seek path = .error error →
      ListFault document path (.noList path)
  | notAList {node : Node} : document.seek path = .ok node → node.items? = none →
      ListFault document path (.notAList path)
  | notOneElement {items : List Node} : document.seek path = .ok (.list items) →
      items.length ≠ 1 → ListFault document path (.notOneElement path items.length)

section

variable {document : Node} {path : String}

/-- There is one element at a path, or something is wrong there. -/
theorem oneElement_or_listFault (document : Node) (path : String) :
    (∃ element, document.seek path = .ok (.list [element])) ∨
      ∃ fault, ListFault document path fault := by
  cases hseek : document.seek path with
  | error e => exact .inr ⟨_, .noList hseek⟩
  | ok node =>
    cases node with
    | map fields => exact .inr ⟨_, .notAList hseek rfl⟩
    | leaf value => exact .inr ⟨_, .notAList hseek rfl⟩
    | list items =>
      by_cases hone : items.length = 1
      · obtain ⟨element, rfl⟩ := List.length_eq_one_iff.mp hone
        exact .inl ⟨element, rfl⟩
      · exact .inr ⟨_, .notOneElement hseek hone⟩

/-- A node that is found can be overwritten. -/
theorem exists_replace {node : Node} (h : document.seek path = .ok node) (replacement : Node) :
    ∃ rest, document.replace path replacement = .ok (node, rest) := by
  obtain ⟨⟨old, rest⟩, hreplace⟩ : ∃ result, document.replace path replacement = .ok result :=
    (Node.exists_editAt_iff _).mpr ⟨node, Node.seek_eq_ok_iff.mp h, _, rfl⟩
  obtain rfl : old = node :=
    Except.ok.inj ((Node.replace_eq_ok_iff.mp hreplace).1.symm.trans h)
  exact ⟨rest, hreplace⟩

/-- One element is cut out, and its list is overwritten. -/
theorem exists_cutElement {element : Node} (h : document.seek path = .ok (.list [element]))
    (replacement : Node) :
    ∃ rest, document.set path replacement = .ok rest ∧
      cutElement document path replacement = .ok (element, rest) := by
  obtain ⟨rest, hreplace⟩ := exists_replace h replacement
  exact ⟨rest, (Node.replace_eq_ok_iff.mp hreplace).2, by simp only [cutElement, hreplace]⟩

/-- What is wrong with a list is reported. -/
theorem ListFault.cutElement {fault : ShapeFault} (h : ListFault document path fault)
    (replacement : Node) : cutElement document path replacement = .error fault := by
  cases h with
  | noList hseek =>
    cases hreplace : document.replace path replacement with
    | error e => simp only [Template.cutElement, hreplace]
    | ok pair => simp [(Node.replace_eq_ok_iff.mp hreplace).1] at hseek
  | @notAList node hseek hitems =>
    obtain ⟨rest, hreplace⟩ := exists_replace hseek replacement
    cases node with
    | list items => simp [Node.items?] at hitems
    | map fields => simp only [Template.cutElement, hreplace]
    | leaf value => simp only [Template.cutElement, hreplace]
  | @notOneElement items hseek hlength =>
    obtain ⟨rest, hreplace⟩ := exists_replace hseek replacement
    rcases items with _ | ⟨first, _ | ⟨second, others⟩⟩
    · simp only [Template.cutElement, hreplace]
    · simp at hlength
    · simp only [Template.cutElement, hreplace]

end

/-- A document and the regions it is cut into. The samples of the document and the interfaces of the
sample are lists of one element each; the sample and the interface are these elements, and an empty
list and an empty map are left in the places of the lists. -/
structure CutsInto (document container sample interface : Node) : Prop where
  root : document.isMap = true
  elements : ∃ whole, document.seek samplesPath = .ok (.list [whole]) ∧
    whole.seek interfacesPath = .ok (.list [interface]) ∧
    document.set samplesPath (.list []) = .ok container ∧
    whole.set interfacesPath .emptyMap = .ok sample

section

variable {document container sample interface : Node}

/-- Both elements are cut out. -/
theorem CutsInto.cuts (h : CutsInto document container sample interface) :
    ∃ whole, cutElement document samplesPath (.list []) = .ok (whole, container) ∧
      cutElement whole interfacesPath .emptyMap = .ok (interface, sample) := by
  obtain ⟨_, whole, hsamples, hinterfaces, hcontainer, hsample⟩ := h
  obtain ⟨rest, hrest, houter⟩ := exists_cutElement hsamples (.list [])
  obtain ⟨remaining, hremaining, hinner⟩ := exists_cutElement hinterfaces .emptyMap
  obtain rfl := Except.ok.inj (hrest.symm.trans hcontainer)
  obtain rfl := Except.ok.inj (hremaining.symm.trans hsample)
  exact ⟨whole, houter, hinner⟩

/-- A map is cut at its samples, and the sample at its interfaces. -/
theorem cutRegions_of_isMap (h : document.isMap = true) :
    cutRegions document = (cutElement document samplesPath (.list [])).bind fun outer =>
      (cutElement outer.1 interfacesPath .emptyMap).bind fun inner =>
        .ok (outer.2, inner.2, inner.1) := by
  simp only [cutRegions, h, Bool.not_true, Bool.false_eq_true, if_false]
  rfl

/-- A document with one element in each list is cut. -/
theorem CutsInto.cutRegions (h : CutsInto document container sample interface) :
    cutRegions document = .ok (container, sample, interface) := by
  obtain ⟨whole, houter, hinner⟩ := h.cuts
  rw [cutRegions_of_isMap h.root, houter, Except.bind, hinner, Except.bind]

/-- A document that is cut has one element in each list. -/
theorem cutsInto_of_cutRegions
    (h : Template.cutRegions document = .ok (container, sample, interface)) :
    CutsInto document container sample interface := by
  cases hroot : document.isMap with
  | false => simp [Template.cutRegions, hroot, Outcome.bind_eq_ok_iff] at h
  | true =>
    rw [cutRegions_of_isMap hroot] at h
    obtain ⟨⟨whole, rest⟩, houter, h⟩ := Outcome.bind_eq_ok_iff.mp h
    obtain ⟨⟨element, remaining⟩, hinner, h⟩ := Outcome.bind_eq_ok_iff.mp h
    obtain ⟨rfl, rfl, rfl⟩ : rest = container ∧ remaining = sample ∧ element = interface := by
      simpa using h
    obtain ⟨hsamples, hcontainer⟩ := Node.replace_eq_ok_iff.mp (cutElement_eq_ok houter)
    obtain ⟨hinterfaces, hsample⟩ := Node.replace_eq_ok_iff.mp (cutElement_eq_ok hinner)
    exact ⟨hroot, whole, hsamples, hinterfaces, hcontainer, hsample⟩

/-- Cutting out an element shares the nodes of a document among the element and the rest. -/
theorem count_cutElement {replacement element rest : Node} {path : String}
    (hordered : document.Ordered) (hreplacement : replacement.count = 1)
    (h : cutElement document path replacement = .ok (element, rest)) :
    rest.count + element.count = document.count := by
  have hcount := Node.count_editAt_replace
    ((Node.ordered_iff_everywhere document).mp hordered) (cutElement_eq_ok h)
  simp only [hreplacement, Node.count, Node.countItems] at hcount
  omega

/-- The regions have no more nodes than the document. -/
theorem CutsInto.count_le (h : CutsInto document container sample interface)
    (hdocument : Tidy document) :
    container.count ≤ document.count ∧ sample.count ≤ document.count ∧
      interface.count ≤ document.count := by
  have hlist : Tidy (.list []) := ⟨trivial, trivial⟩
  obtain ⟨whole, houter, hinner⟩ := h.cuts
  obtain ⟨hwhole, _⟩ := tidy_cutElement hdocument hlist houter
  have hsplit := count_cutElement hdocument.ordered rfl houter
  have hsplit' := count_cutElement hwhole.ordered rfl hinner
  omega

end

/-! ## Reading the specs -/

/-- The nodes of a region that are specs, valid or not, with their paths: none of them within a full
spec, and in the order of the document. -/
def specNodes (document : Node) : List (String × Node) :=
  (outermost document).map (Node.visitAt Path.root)

/-- The node at a path is a valid spec. -/
def Spec.ReadableAt (visit : String × Node) : Prop :=
  ∃ spec, ofNode visit.1 visit.2 = .ok (some spec)

/-- What looks like a spec is read as one, or refused. -/
theorem Spec.ofNode_ne_none {node : Node} (h : isSpec node = true) (path : String) :
    ofNode path node ≠ .ok none := by
  cases node with
  | map fields =>
    have hfull : Keyed.contains marker fields = true := h
    rw [ofNode, if_pos hfull]
    cases ofFields path fields <;> simp [Except.map]
  | list items => simp [isSpec, isFull] at h
  | leaf value =>
    cases value with
    | text text =>
      obtain ⟨packed, hpacked⟩ := Option.isSome_iff_exists.mp h
      simp only [ofNode, hpacked]
      cases ofCompact path packed <;> simp [Except.map]
    | _ => simp [isSpec, isFull] at h

section

variable {document : Node} {specs : List Spec}

/-- The nodes that are read look like specs. -/
theorem isSpec_of_mem_specNodes {visit : String × Node} (h : visit ∈ specNodes document) :
    Spec.isSpec visit.2 = true := by
  obtain ⟨place, hplace, rfl⟩ := List.mem_map.mp h
  exact (List.mem_filter.mp hplace).2

/-- Where only spec nodes count, the other nodes of a region can be left out. -/
theorem filterMap_visits {β : Type} {f : String × Node → Option β}
    (hf : ∀ visit, Spec.isSpec visit.2 = false → f visit = none) (document : Node) :
    (document.visits fun _ node => Spec.isFull node).filterMap f =
      (specNodes document).filterMap f := by
  rw [Node.visits, Node.visitsFrom_eq, specNodes, outermost, List.filterMap_map,
    List.filterMap_map, List.filterMap_filter]
  refine List.filterMap_congr fun place _ => ?_
  cases hspec : Spec.isSpec place.2 with
  | true => simp
  | false => simpa using hf (Node.visitAt Path.root place) hspec

/-- The specs of a region are read from its spec nodes, unless one of them cannot be read; then it
is the first such one that is reported. -/
theorem specsOf_eq_specNodes (document : Node) :
    specsOf document = match (specNodes document).findSome? faultAt? with
      | some fault => .error fault
      | none => .ok ((specNodes document).filterMap specAt?) := by
  have hfault (visit : String × Node) (h : Spec.isSpec visit.2 = false) :
      faultAt? visit = none := by simp only [faultAt?, Spec.ofNode_of_not_isSpec h]
  have hspec (visit : String × Node) (h : Spec.isSpec visit.2 = false) :
      specAt? visit = none := by simp only [specAt?, Spec.ofNode_of_not_isSpec h]
  have hread := specsOf_eq document
  rw [← List.head?_filterMap, filterMap_visits hfault, List.head?_filterMap,
    filterMap_visits hspec] at hread
  exact hread

/-- A region that is itself a spec has no further ones. -/
theorem specNodes_of_isSpec (h : Spec.isSpec document = true) :
    specNodes document = [(Path.root, document)] := by
  have hpositions : document.positions = [([], document)] := by
    cases document with
    | map fields =>
      have hfull : Spec.isFull (.map fields) = true := h
      rw [Node.positions, if_pos hfull]
    | list items => simp [Spec.isSpec, Spec.isFull] at h
    | leaf value => rw [Node.positions]
  simp [specNodes, outermost, hpositions, h, Node.visitAt]

/-- Nothing is wrong with a spec exactly when it can be read. -/
theorem faultAt?_eq_none_iff {visit : String × Node} (h : Spec.isSpec visit.2 = true) :
    faultAt? visit = none ↔ Spec.ReadableAt visit := by
  unfold faultAt? Spec.ReadableAt
  cases hread : Spec.ofNode visit.1 visit.2 with
  | error fault => simp
  | ok spec? =>
    cases spec? with
    | none => exact absurd hread (Spec.ofNode_ne_none h _)
    | some spec => simp

/-- What is wrong with a spec is what reading it reports. -/
theorem faultAt?_eq_some_iff {visit : String × Node} {fault : Fault} :
    faultAt? visit = some fault ↔
      ∃ cause, Spec.ofNode visit.1 visit.2 = .error cause ∧ .spec visit.1 cause = fault := by
  unfold faultAt?
  cases Spec.ofNode visit.1 visit.2 <;> simp

section

variable {visits : List (String × Node)} (hspecs : ∀ visit ∈ visits, Spec.isSpec visit.2 = true)

include hspecs

/-- Nothing is wrong with some specs exactly when all of them can be read. -/
theorem findSome?_faultAt?_eq_none_iff :
    visits.findSome? faultAt? = none ↔ ∀ visit ∈ visits, Spec.ReadableAt visit := by
  rw [List.findSome?_eq_none_iff]
  exact forall₂_congr fun visit hvisit => faultAt?_eq_none_iff (hspecs visit hvisit)

/-- The first fault among some spec nodes is that of the first one that cannot be read. -/
theorem findSome?_faultAt?_eq_some_iff {fault : Fault} :
    visits.findSome? faultAt? = some fault ↔ ∃ before path node after cause,
      visits = before ++ (path, node) :: after ∧ (∀ visit ∈ before, Spec.ReadableAt visit) ∧
        Spec.ofNode path node = .error cause ∧ .spec path cause = fault := by
  rw [List.findSome?_eq_some_iff]
  constructor
  · rintro ⟨before, ⟨path, node⟩, after, rfl, hfault, hbefore⟩
    obtain ⟨cause, hread, hcause⟩ := faultAt?_eq_some_iff.mp hfault
    refine ⟨before, path, node, after, cause, rfl, fun visit hvisit => ?_, hread, hcause⟩
    exact (faultAt?_eq_none_iff (hspecs visit (by simp [hvisit]))).mp (hbefore visit hvisit)
  · rintro ⟨before, path, node, after, cause, rfl, hbefore, hread, hcause⟩
    refine ⟨before, (path, node), after, rfl, faultAt?_eq_some_iff.mpr ⟨cause, hread, hcause⟩, ?_⟩
    intro visit hvisit
    exact (faultAt?_eq_none_iff (hspecs visit (by simp [hvisit]))).mpr (hbefore visit hvisit)

end

end

/-! ## Compiling the regions -/

/-- A compact spec without a default. -/
def CompactWithoutDefault (node : Node) : Prop :=
  node.isMap = false ∧ ∃ spec, Spec.ofNode Path.root node = .ok (some spec) ∧ spec.default = none

/-- The document of a region into which defaults can be put. -/
structure Compilable (document : Node) : Prop where
  tidy : Tidy document
  lists : document.Indexable
  default : ¬ CompactWithoutDefault document

namespace Region

variable {document : Node} {specs : List Spec} {fault : Fault}

/-- The specs in the table of a region have been found in its document. -/
theorem bare_mem_of_mem_ofSpecs (hkeys : document.PlainKeys) (hspecs : specsOf document = .ok specs)
    {spec : Spec} (h : spec ∈ (Table.ofSpecs specs).specs) : spec.bare ∈ specs := by
  obtain ⟨first, hfirst, hbare⟩ := Table.bare_of_mem_ofSpecs h
  have haliases := (position_of_mem_specsOf hkeys hspecs hfirst).2.1
  have hfirstbare : first.bare = first := by rw [Spec.bare, ← haliases]
  rwa [hbare, hfirstbare]

/-- A region is refused for the first of its specs that cannot be read. -/
theorem compile_of_fault (h : (specNodes document).findSome? faultAt? = some fault) :
    compile document = .error fault := by
  rw [compile, specsOf_eq_specNodes, h]
  rfl

/-- A default is put in place of the whole region. -/
theorem applyDefault_of_root {spec : Spec} {value : Scalar} (htarget : spec.target = Path.root)
    (hvalue : spec.default = some value) : applyDefault document spec = .ok (.leaf value) := by
  simp only [applyDefault, hvalue, htarget]
  exact Node.set_of_segments_eq_nil Path.segments_root _ _

/-- Removing a whole map removes the empty key from it. -/
theorem applyDefault_map_of_root {spec : Spec} {fields : List (String × Node)}
    (htarget : spec.target = Path.root) (hvalue : spec.default = none) :
    applyDefault (.map fields) spec = .ok (.map (Keyed.erase "" fields)) := by
  simp only [applyDefault, hvalue, htarget, Node.remove, Path.parentAndLeaf_root,
    Path.segments_root, Node.editAt, Node.withdraw, Except.map]

/-- A region is compiled by putting the defaults of its specs in place. -/
theorem compile_of_specsOf (h : specsOf document = .ok specs) :
    compile document = ((applyDefaults document (Table.ofSpecs specs).specs).mapError
      Fault.path).map fun skeleton => ⟨skeleton, Table.ofSpecs specs⟩ := by
  rw [compile, h]
  rfl

/-- A region that is itself a spec has this one in its table. -/
theorem specsOf_of_isSpec (hroot : Spec.isSpec document = true)
    (h : (specNodes document).findSome? faultAt? = none) :
    ∃ spec, Spec.ofNode Path.root document = .ok (some spec) ∧ specsOf document = .ok [spec] ∧
      (Table.ofSpecs [spec]).specs = [spec] := by
  have hsingle := specNodes_of_isSpec hroot
  rw [findSome?_faultAt?_eq_none_iff fun _ => isSpec_of_mem_specNodes, hsingle,
    List.forall_mem_singleton] at h
  obtain ⟨spec, hread⟩ := h
  refine ⟨spec, hread, ?_, rfl⟩
  rw [specsOf_eq_specNodes, hsingle]
  simp [faultAt?, specAt?, hread]

/-- A region is compiled when its specs can be read: putting their defaults in place does not
fail. -/
theorem exists_compile (hdocument : Compilable document)
    (h : (specNodes document).findSome? faultAt? = none) :
    ∃ region, compile document = .ok region := by
  obtain ⟨htidy, hlists, hdefault⟩ := hdocument
  suffices hall : ∃ specs skeleton, specsOf document = .ok specs ∧
      applyDefaults document (Table.ofSpecs specs).specs = .ok skeleton by
    obtain ⟨specs, skeleton, hspecs, happly⟩ := hall
    exact ⟨_, by rw [compile_of_specsOf hspecs, happly]; rfl⟩
  cases hroot : Spec.isSpec document with
  | false =>
    obtain ⟨specs, hspecs⟩ : ∃ specs, specsOf document = .ok specs := by
      rw [specsOf_eq_specNodes, h]
      exact ⟨_, rfl⟩
    have hbare : ∀ spec ∈ (Table.ofSpecs specs).specs, spec.bare ∈ specs :=
      fun _ => bare_mem_of_mem_ofSpecs htidy.keys hspecs
    obtain ⟨skeleton, _, happly, _⟩ := exists_applyDefaults_of_found htidy hroot hspecs hbare
      fun spec hspec => (accepts_of_found htidy hlists hspecs (hbare spec hspec) :)
    exact ⟨specs, skeleton, hspecs, happly⟩
  | true =>
    obtain ⟨spec, hread, hspecs, htable⟩ := specsOf_of_isSpec hroot h
    obtain ⟨skeleton, hskeleton⟩ : ∃ skeleton, applyDefault document spec = .ok skeleton := by
      obtain ⟨htarget, _, _⟩ := Spec.ofNode_eq_some hread
      cases hvalue : spec.default with
      | some value => exact ⟨_, applyDefault_of_root htarget hvalue⟩
      | none =>
        cases document with
        | map fields => exact ⟨_, applyDefault_map_of_root htarget hvalue⟩
        | list items => simp [Spec.isSpec, Spec.isFull] at hroot
        | leaf value => exact absurd ⟨rfl, spec, hread, hvalue⟩ hdefault
    refine ⟨[spec], skeleton, hspecs, ?_⟩
    rw [htable]
    exact applyDefaults_cons_eq_ok_iff.mpr ⟨skeleton, hskeleton, rfl⟩

end Region

/-! ## Compiling the template -/

section

variable {document container sample interface : Node} {fault : Fault}

/-- The node above a place is no compact spec. -/
theorem not_compactWithoutDefault {node inner : Node} {p : List String} (hp : p ≠ [])
    (h : node.follow? p = some inner) : ¬ CompactWithoutDefault node := by
  rintro ⟨hmap, spec, hread, _⟩
  cases node with
  | map fields => simp [Node.isMap] at hmap
  | list items => simp [Spec.ofNode] at hread
  | leaf value =>
    cases p with
    | nil => exact hp rfl
    | cons step rest => simp [Node.follow?, Node.child?] at h

/-- The regions of a template can be compiled, unless the interface is a compact spec without a
default. -/
theorem CutsInto.compilable (h : CutsInto document container sample interface)
    (hdocument : Tidy document) (hsize : document.count ≤ twoTo 64)
    (hinterface : ¬ CompactWithoutDefault interface) :
    Compilable container ∧ Compilable sample ∧ Compilable interface := by
  obtain ⟨hc, hs, hi, hsamples, hinterfaces⟩ := cutRegions_eq_ok hdocument h.cutRegions
  obtain ⟨hcount, hcount', hcount''⟩ := h.count_le hdocument
  refine ⟨⟨hc, Node.indexable_of_count_le (hcount.trans hsize), ?_⟩,
    ⟨hs, Node.indexable_of_count_le (hcount'.trans hsize), ?_⟩,
    ⟨hi, Node.indexable_of_count_le (hcount''.trans hsize), hinterface⟩⟩
  · exact not_compactWithoutDefault segments_samplesPath_ne_nil hsamples
  · exact not_compactWithoutDefault segments_interfacesPath_ne_nil hinterfaces

/-- A template is refused for the first spec that cannot be read. -/
theorem ofDocument_of_fault (hcut : cutRegions document = .ok (container, sample, interface))
    (hcontainer : Compilable container) (hsample : Compilable sample)
    (h : (specNodes container ++ specNodes sample ++ specNodes interface).findSome? faultAt? =
      some fault) : ofDocument document = .error fault := by
  rw [List.findSome?_append, Option.or_eq_some_iff, List.findSome?_append, Option.or_eq_some_iff,
    Option.or_eq_none_iff] at h
  refine Outcome.bind_eq_error_iff.mpr (.inr ⟨_, Outcome.mapError_eq_ok_iff.mpr hcut, ?_⟩)
  rcases h with (hc | ⟨hc, hs⟩) | ⟨⟨hc, hs⟩, hi⟩
  · exact Outcome.bind_eq_error_iff.mpr (.inl (Region.compile_of_fault hc))
  · obtain ⟨first, hfirst⟩ := Region.exists_compile hcontainer hc
    refine Outcome.bind_eq_error_iff.mpr (.inr ⟨first, hfirst, ?_⟩)
    exact Outcome.bind_eq_error_iff.mpr (.inl (Region.compile_of_fault hs))
  · obtain ⟨first, hfirst⟩ := Region.exists_compile hcontainer hc
    obtain ⟨second, hsecond⟩ := Region.exists_compile hsample hs
    refine Outcome.bind_eq_error_iff.mpr (.inr ⟨first, hfirst, ?_⟩)
    refine Outcome.bind_eq_error_iff.mpr (.inr ⟨second, hsecond, ?_⟩)
    exact Outcome.bind_eq_error_iff.mpr (.inl (Region.compile_of_fault hi))

/-- A template is accepted when all its specs can be read. -/
theorem exists_ofDocument (hcut : cutRegions document = .ok (container, sample, interface))
    (hcontainer : Compilable container) (hsample : Compilable sample)
    (hinterface : Compilable interface)
    (h : (specNodes container ++ specNodes sample ++ specNodes interface).findSome? faultAt? =
      none) : ∃ template, ofDocument document = .ok template := by
  rw [List.findSome?_append, Option.or_eq_none_iff, List.findSome?_append,
    Option.or_eq_none_iff] at h
  obtain ⟨⟨hc, hs⟩, hi⟩ := h
  obtain ⟨first, hfirst⟩ := Region.exists_compile hcontainer hc
  obtain ⟨second, hsecond⟩ := Region.exists_compile hsample hs
  obtain ⟨third, hthird⟩ := Region.exists_compile hinterface hi
  refine ⟨⟨first, second, third⟩, ?_⟩
  simp only [ofDocument, Outcome.bind_eq_ok_iff, Outcome.mapError_eq_ok_iff]
  exact ⟨_, hcut, first, hfirst, second, hsecond, third, hthird, rfl⟩

end

/-- Why a template is refused: the first thing that is wrong with its text, its root, its samples,
its interfaces and its specs, in this order. -/
inductive FirstFault (source : String) : Fault → Prop
  | text : Node.parse? source = none → FirstFault source .notADocument
  | root {document : Node} : Node.parse? source = some document → document.isMap = false →
      FirstFault source (.shape .rootNotAMap)
  | samples {document : Node} {fault : ShapeFault} : Node.parse? source = some document →
      document.isMap = true → ListFault document samplesPath fault →
      FirstFault source (.shape fault)
  | interfaces {document whole : Node} {fault : ShapeFault} :
      Node.parse? source = some document → document.isMap = true →
      document.seek samplesPath = .ok (.list [whole]) → ListFault whole interfacesPath fault →
      FirstFault source (.shape fault)
  | spec {document container sample interface : Node} {before after : List (String × Node)}
      {path : String} {node : Node} {fault : SpecFault} : Node.parse? source = some document →
      CutsInto document container sample interface →
      specNodes container ++ specNodes sample ++ specNodes interface =
        before ++ (path, node) :: after →
      (∀ visit ∈ before, Spec.ReadableAt visit) → Spec.ofNode path node = .error fault →
      FirstFault source (.spec path fault)

/-- The text is a document with a map for its root, with one element each in the lists of samples
and interfaces, and with valid specs only. -/
def FollowsSchema (source : String) : Prop :=
  ∃ document container sample interface, Node.parse? source = some document ∧
    CutsInto document container sample interface ∧
    ∀ visit ∈ specNodes container ++ specNodes sample ++ specNodes interface,
      Spec.ReadableAt visit

/-- The nodes that are read in the three regions look like specs. -/
theorem isSpec_of_mem_regions (container sample interface : Node) :
    ∀ visit ∈ specNodes container ++ specNodes sample ++ specNodes interface,
      Spec.isSpec visit.2 = true := by
  intro visit hvisit
  rw [List.mem_append, List.mem_append] at hvisit
  rcases hvisit with (h | h) | h <;> exact isSpec_of_mem_specNodes h

/-- All specs of a template can be read, or the first one that cannot is what is wrong. -/
theorem readable_or_firstFault {source : String} {document container sample interface : Node}
    (hparse : Node.parse? source = some document)
    (hcuts : CutsInto document container sample interface) :
    (∀ visit ∈ specNodes container ++ specNodes sample ++ specNodes interface,
      Spec.ReadableAt visit) ∨ ∃ fault, FirstFault source fault := by
  have hspecs := isSpec_of_mem_regions container sample interface
  cases hfind : (specNodes container ++ specNodes sample ++ specNodes interface).findSome?
      faultAt? with
  | none => exact .inl ((findSome?_faultAt?_eq_none_iff hspecs).mp hfind)
  | some fault =>
    obtain ⟨before, path, node, after, cause, hsplit, hbefore, hread, -⟩ :=
      (findSome?_faultAt?_eq_some_iff hspecs).mp hfind
    exact .inr ⟨_, .spec hparse hcuts hsplit hbefore hread⟩

/-- A text follows the schema, or something is wrong with it. -/
theorem followsSchema_or_firstFault (source : String) :
    FollowsSchema source ∨ ∃ fault, FirstFault source fault := by
  cases hparse : Node.parse? source with
  | none => exact .inr ⟨_, .text hparse⟩
  | some document =>
    cases hroot : document.isMap with
    | false => exact .inr ⟨_, .root hparse hroot⟩
    | true =>
      rcases oneElement_or_listFault document samplesPath with ⟨whole, hsamples⟩ | ⟨fault, hfault⟩
      · rcases oneElement_or_listFault whole interfacesPath with
          ⟨interface, hinterfaces⟩ | ⟨fault, hfault⟩
        · obtain ⟨container, hcontainer, _⟩ := exists_cutElement hsamples (.list [])
          obtain ⟨sample, hsample, _⟩ := exists_cutElement hinterfaces .emptyMap
          have hcuts : CutsInto document container sample interface :=
            ⟨hroot, whole, hsamples, hinterfaces, hcontainer, hsample⟩
          exact (readable_or_firstFault hparse hcuts).imp_left fun hread =>
            ⟨document, container, sample, interface, hparse, hcuts, hread⟩
        · exact .inr ⟨_, .interfaces hparse hroot hsamples hfault⟩
      · exact .inr ⟨_, .samples hparse hroot hfault⟩

section

-- No text in memory is longer than `hsize` says. It is what keeps the numbers of the items of a
-- list within the machine words that the steps of a path are read into.
variable {source : String} (hsize : source.length ≤ twoTo 64)
  (hkeys : ∀ document, Node.parse? source = some document → document.PlainKeys)
  (hinterface : ∀ document container sample interface, Node.parse? source = some document →
    CutsInto document container sample interface → ¬ CompactWithoutDefault interface)

include hsize hkeys hinterface

/-- The regions of a document that has been read can be compiled. -/
theorem compilable_of_parse? {document container sample interface : Node}
    (hparse : Node.parse? source = some document)
    (hcuts : CutsInto document container sample interface) :
    Compilable container ∧ Compilable sample ∧ Compilable interface :=
  hcuts.compilable ⟨Node.ordered_of_parse? hparse, hkeys document hparse⟩
    ((Node.count_of_parse? hparse).trans hsize)
    (hinterface document container sample interface hparse hcuts)

/-- A text that follows the schema is accepted. -/
theorem FollowsSchema.exists_compile (h : FollowsSchema source) :
    ∃ template, compile source = .ok template := by
  obtain ⟨document, container, sample, interface, hparse, hcuts, hread⟩ := h
  obtain ⟨hc, hs, hi⟩ := compilable_of_parse? hsize hkeys hinterface hparse hcuts
  have hspecs := isSpec_of_mem_regions container sample interface
  obtain ⟨template, htemplate⟩ := exists_ofDocument hcuts.cutRegions hc hs hi
    ((findSome?_faultAt?_eq_none_iff hspecs).mpr hread)
  exact ⟨template, by rw [compile, hparse]; exact htemplate⟩

/-- Any other text is refused for the first thing that is wrong with it. -/
theorem FirstFault.compile {fault : Fault} (h : FirstFault source fault) :
    compile source = .error fault := by
  cases h with
  | text hparse => simp only [Template.compile, hparse]
  | @root document hparse hroot =>
    simp only [Template.compile, hparse]
    refine Outcome.bind_eq_error_iff.mpr (.inl ?_)
    simp [cutRegions, hroot, Bind.bind, Except.bind, Except.mapError]
  | @samples document fault hparse hroot hfault =>
    simp only [Template.compile, hparse]
    refine Outcome.bind_eq_error_iff.mpr (.inl ?_)
    rw [cutRegions_of_isMap hroot, hfault.cutElement]
    rfl
  | @interfaces document whole fault hparse hroot hsamples hfault =>
    obtain ⟨container, _, hcut⟩ := exists_cutElement hsamples (.list [])
    simp only [Template.compile, hparse]
    refine Outcome.bind_eq_error_iff.mpr (.inl ?_)
    rw [cutRegions_of_isMap hroot, hcut, Except.bind, hfault.cutElement]
    rfl
  | @spec document container sample interface before after path node fault hparse hcuts hsplit
      hbefore hread =>
    obtain ⟨hc, hs, _⟩ := compilable_of_parse? hsize hkeys hinterface hparse hcuts
    have hspecs := isSpec_of_mem_regions container sample interface
    have hfind := (findSome?_faultAt?_eq_some_iff hspecs).mpr
      ⟨before, path, node, after, fault, hsplit, hbefore, hread, rfl⟩
    simp only [Template.compile, hparse]
    exact ofDocument_of_fault hcuts.cutRegions hc hs hfind

/-- Exactly the texts that follow the schema are accepted. All others are refused for the first
thing that is wrong with them, and never because a default cannot be put in its place. -/
theorem compile_follows_schema :
    ((∃ template, compile source = .ok template) ↔ FollowsSchema source) ∧
    (∀ fault, compile source = .error fault ↔ FirstFault source fault) ∧
    ∀ error, compile source ≠ .error (.path error) := by
  have haccepted (h : FollowsSchema source) := h.exists_compile hsize hkeys hinterface
  have hrefused {fault : Fault} (h : FirstFault source fault) :=
    h.compile hsize hkeys hinterface
  have hfault (fault : Fault) : compile source = .error fault ↔ FirstFault source fault := by
    refine ⟨fun h => ?_, hrefused⟩
    rcases followsSchema_or_firstFault source with hfollows | ⟨first, hfirst⟩
    · obtain ⟨template, htemplate⟩ := haccepted hfollows
      simp [htemplate] at h
    · obtain rfl := Except.error.inj ((hrefused hfirst).symm.trans h)
      exact hfirst
  refine ⟨⟨?_, haccepted⟩, hfault, fun error h => ?_⟩
  · rintro ⟨template, htemplate⟩
    rcases followsSchema_or_firstFault source with hfollows | ⟨first, hfirst⟩
    · exact hfollows
    · simp [hrefused hfirst] at htemplate
  · cases (hfault _).mp h

end

/-- A template with valid specs in the container, one of them with an invalid one inside, and with
an invalid one each in the list of the sample, after it and in the interface. -/
def unreadableSample : Node :=
  .map [
    ("id", .text ""),
    ("image", .map [
      (Spec.marker, .leaf (.bool true)),
      ("inner", .text "__tmpl:"),
      ("src", .text "/image")]),
    ("name", .text "__tmpl:src=/name;default=none"),
    ("stats", .list [.map [
      ("load", .list [.leaf (.int 0), .text "__tmpl:src=/load;type=percent;default=5"]),
      ("memory", .text "__tmpl:default=0"),
      ("network", .map [("interfaces", .list [.text "__tmpl:"])]),
      ("timestamp", .text "")]])]

/-- It is refused for the spec in the list. -/
theorem compile_follows_schema_unreadableSample :
    compile unreadableSample.render = .error (.spec "/load/1" (.unknownType "percent")) ∧
      FirstFault unreadableSample.render (.spec "/load/1" (.unknownType "percent")) ∧
      ¬ FollowsSchema unreadableSample.render := by
  have hsize : unreadableSample.render.length ≤ twoTo 64 := by
    rw [Node.length_render]
    decide +kernel
  have hread : (Node.parse? unreadableSample.render).any (fun document =>
      decide document.PlainKeys && (cutRegions document).toOption.any (fun regions =>
          !(Spec.ofNode Path.root regions.2.2).isOk) &&
        decide ((ofDocument document).map (fun _ => ()) =
          .error (.spec "/load/1" (.unknownType "percent")))) = true := by
    rw [Node.parse?_render]
    decide +kernel
  obtain ⟨document, hparse, hdocument⟩ := (Option.any_eq_true _ _).mp hread
  simp only [Bool.and_eq_true, decide_eq_true_eq, Outcome.map_eq_error_iff] at hdocument
  obtain ⟨⟨hplain, hcut⟩, hfails⟩ := hdocument
  have hrefused : compile unreadableSample.render =
      .error (.spec "/load/1" (.unknownType "percent")) := by
    rw [compile, hparse]
    exact hfails
  have hkeys (other : Node) (hother : Node.parse? unreadableSample.render = some other) :
      other.PlainKeys := by
    obtain rfl := Option.some.inj (hparse.symm.trans hother)
    exact hplain
  have hinterface (other container sample interface : Node)
      (hother : Node.parse? unreadableSample.render = some other)
      (hcuts : CutsInto other container sample interface) :
      ¬ CompactWithoutDefault interface := by
    obtain rfl := Option.some.inj (hparse.symm.trans hother)
    rintro ⟨_, spec, hspec, _⟩
    simp [hcuts.cutRegions, Except.toOption, hspec, Except.isOk, Except.toBool] at hcut
  obtain ⟨haccepted, hfault, _⟩ := compile_follows_schema hsize hkeys hinterface
  refine ⟨hrefused, (hfault _).mp hrefused, fun hfollows => ?_⟩
  obtain ⟨template, htemplate⟩ := haccepted.mpr hfollows
  simp [hrefused] at htemplate

end ContainerFeed.Template
