import ContainerFeed.Proofs.Template.Substitution

/-!
# Skeletons by substitution

The skeleton of a region is made by edits at the paths of its specs, one after another, in the
order in which the table yields them. Whatever this order is, it comes to the document with all
specs replaced by their defaults: while the edits go on, the document is the tree in which the
specs of the places so far have given way.
-/

namespace ContainerFeed.Template

-- The steps of a path are only ever compared, never computed, in this file.
attribute [local irreducible] Path.segments Path.parentAndLeaf

/-! ## Reading a spec -/

namespace Spec

/-- What is read from a node, when it stands at another path. -/
def retarget (path : String) (spec : Spec) : Spec :=
  { spec with target := path }

/-- What a spec is made of does not depend on its path. -/
theorem make_retarget (path source : String) (default : Option Scalar) :
    make path source default = (make Path.root source default).map (Spec.retarget path) := by
  unfold make
  split <;> rfl

/-- How a full spec is read does not depend on its path. -/
theorem ofFields_retarget (path : String) (fields : List (String × Node)) :
    ofFields path fields = (ofFields Path.root fields).map (Spec.retarget path) := by
  unfold ofFields
  split
  · rfl
  · cases fullType fields with
    | error fault => rfl
    | ok kind =>
      cases hdefault : fullDefault fields kind with
      | error fault => simp only [Bind.bind, Except.bind, hdefault, Except.map]
      | ok default =>
        simpa only [Bind.bind, Except.bind, hdefault] using make_retarget path _ default

/-- How a compact spec is read does not depend on its path. -/
theorem ofCompact_retarget (path : String) (packed : List Char) :
    ofCompact path packed = (ofCompact Path.root packed).map (Spec.retarget path) := by
  unfold ofCompact
  cases (compactPieces packed).foldlM takeUp ⟨none, none, none⟩ with
  | error fault => rfl
  | ok fields =>
    simp only [Bind.bind, Except.bind]
    cases fields.source with
    | none => rfl
    | some source =>
      cases hdefault : compactDefault fields with
      | error fault => simp only [Except.map]
      | ok default => simpa only [hdefault] using make_retarget path source default

/-- The path of a node is the target of the spec that is read from it, and counts for nothing
else. -/
theorem ofNode_retarget (path : String) (node : Node) :
    ofNode path node = (ofNode Path.root node).map (Option.map (Spec.retarget path)) := by
  unfold ofNode
  split
  · split
    · rw [ofFields_retarget]
      cases ofFields Path.root _ <;> rfl
    · rfl
  · split
    · rw [ofCompact_retarget]
      cases ofCompact Path.root _ <;> rfl
    · rfl
  · rfl

/-- Other nodes are read as no spec. -/
theorem ofNode_of_not_isSpec {node : Node} (h : isSpec node = false) (path : String) :
    ofNode path node = .ok none := by
  unfold ofNode
  split
  · rename_i fields
    have hfull : Keyed.contains marker fields = false := h
    rw [if_neg (by simp [hfull])]
  · rename_i text
    split
    · rename_i packed hpacked
      simp [isSpec, hpacked] at h
    · rfl
  · rfl

end Spec

/-! ## Putting the defaults in place -/

/-- A spec stands in a document: it has been read at the place that its target names, which is not
the root. -/
def Spec.StandsIn (spec : Spec) (document : Node) : Prop :=
  Path.segments spec.target ≠ [] ∧
    ∃ node, (Path.segments spec.target, node) ∈ document.positions ∧ Spec.isSpec node = true ∧
      node.default? = spec.default

section

variable {document old : Node} {chosen : Node.Choice} {spec : Spec} {specs : List Spec}

/-- Putting the default of a spec in its place settles the entry at the end of its path. -/
theorem exists_settles_applyDefault (old : Node)
    (hlast : (Path.parentAndLeaf spec.target).2 ≠ "") :
    ∃ (α : Type) (edit : Node → Except PathError (α × Node)) (missing : PathError),
      Node.Settles edit (Path.parentAndLeaf spec.target).2 (spec.default.map .leaf) ∧
      applyDefault old spec =
        (old.editAt missing edit (Path.segments (Path.parentAndLeaf spec.target).1)).map
          Prod.snd := by
  unfold applyDefault
  cases spec.default with
  | some value =>
    exact ⟨_, _, _, Node.settles_enter _ _ _ _, Node.set_eq_of_last hlast old _⟩
  | none => exact ⟨_, _, _, Node.settles_withdraw _ _ _, rfl⟩

/-- Putting the default of a spec in its place carries out the choice of this place. -/
theorem exists_applyDefault (hordered : document.Ordered)
    (haccepts : document.Accepts (Path.segments spec.target)) (hstands : spec.StandsIn document)
    (hold : document.substitute chosen = some old) :
    ∃ new, applyDefault old spec = .ok new ∧
      document.substitute (chosen.add (Path.segments spec.target)) = some new := by
  obtain ⟨hroot, node, hplace, hspec, hdefault⟩ := hstands
  rw [Node.ordered_iff_everywhere] at hordered
  rcases Path.segments_parentAndLeaf spec.target with ⟨_, hnil⟩ | ⟨hlast, hsegments⟩
  · exact absurd hnil hroot
  rw [hsegments] at haccepts hplace ⊢
  obtain ⟨_, edit, missing, hsettles, happly⟩ := exists_settles_applyDefault old hlast
  rw [← hdefault] at hsettles
  obtain ⟨result, new, hok, hnew⟩ :=
    hsettles.exists_editAt_substitute hspec missing hordered haccepts hplace hold
  exact ⟨new, by rw [happly, hok]; rfl, hnew⟩

/-- Putting the defaults of some specs in their places carries out the choice of all of them. -/
theorem exists_applyDefaults (hordered : document.Ordered)
    (haccepts : ∀ spec ∈ specs, document.Accepts (Path.segments spec.target))
    (hstands : ∀ spec ∈ specs, spec.StandsIn document)
    (hold : document.substitute chosen = some old) :
    ∃ new final, applyDefaults old specs = .ok new ∧ document.substitute final = some new ∧
      ∀ p, final p = true ↔ chosen p = true ∨ ∃ spec ∈ specs, Path.segments spec.target = p := by
  induction specs generalizing old chosen with
  | nil => exact ⟨old, chosen, rfl, hold, by simp⟩
  | cons spec specs ih =>
    obtain ⟨hplace, haccepts⟩ := List.forall_mem_cons.mp haccepts
    obtain ⟨hspec, hstands⟩ := List.forall_mem_cons.mp hstands
    obtain ⟨first, hfirst, hchosen⟩ := exists_applyDefault hordered hplace hspec hold
    obtain ⟨new, final, hnew, hfinal, hall⟩ := ih haccepts hstands hchosen
    refine ⟨new, final, applyDefaults_cons_eq_ok_iff.mpr ⟨first, hfirst, hnew⟩, hfinal, ?_⟩
    intro p
    rw [hall, Node.Choice.add, Bool.or_eq_true, beq_iff_eq, List.exists_mem_cons_iff]
    tauto

/-! ## Finding the specs -/

/-- Every spec that no full spec lies above can be read, and its source does not look like an alias
key. -/
def SpecsReadable (document : Node) : Prop :=
  ∀ place ∈ document.positions, Spec.isSpec place.2 = true →
    ∃ spec ∈ specAt? (Path.root, place.2), ¬ Table.LooksAlias spec.source

instance (document : Node) : Decidable (SpecsReadable document) :=
  inferInstanceAs (Decidable (∀ place ∈ document.positions, Spec.isSpec place.2 = true →
    ∃ spec ∈ specAt? (Path.root, place.2), ¬ Table.LooksAlias spec.source))

/-- A visit finds the spec that is read from its node. -/
theorem specAt?_eq_some_iff {visit : String × Node} :
    specAt? visit = some spec ↔ Spec.ofNode visit.1 visit.2 = .ok (some spec) := by
  unfold specAt?
  cases Spec.ofNode visit.1 visit.2 <;> simp

/-- The spec of a node is found under every path, with the path as its target. -/
theorem specAt?_of_root {node : Node} (h : specAt? (Path.root, node) = some spec)
    (path : String) : specAt? (path, node) = some (spec.retarget path) := by
  rw [specAt?_eq_some_iff] at h ⊢
  rw [Spec.ofNode_retarget, h]
  rfl

/-- The specs of a region are found when each of them can be read. -/
theorem exists_specsOf (hreadable : SpecsReadable document) :
    ∃ specs, specsOf document = .ok specs := by
  have hnone : (document.visits fun _ node => Spec.isFull node).findSome? faultAt? = none := by
    refine List.findSome?_eq_none_iff.mpr fun visit hvisit => ?_
    rw [Node.visits, Node.visitsFrom_eq] at hvisit
    obtain ⟨place, hplace, rfl⟩ := List.mem_map.mp hvisit
    cases hspec : Spec.isSpec place.2 with
    | true =>
      obtain ⟨spec, hread, _⟩ := hreadable place hplace hspec
      simp only [faultAt?, specAt?_eq_some_iff.mp (specAt?_of_root hread _), Node.visitAt]
    | false => simp only [faultAt?, Spec.ofNode_of_not_isSpec hspec, Node.visitAt]
  rw [specsOf_eq, hnone]
  exact ⟨_, rfl⟩

/-- The specs that are found are those that stand at the positions of spec nodes. -/
theorem mem_specsOf_iff (hdocument : Tidy document) (hspecs : specsOf document = .ok specs) :
    spec ∈ specs ↔ ∃ place ∈ document.positions, Spec.isSpec place.2 = true ∧
      specAt? (Node.visitAt Path.root place) = some spec := by
  rw [specsOf_eq_positions hspecs, List.mem_filterMap]
  refine exists_congr fun place => and_congr_right fun hplace => (and_iff_right_of_imp ?_).symm
  intro hfound
  have hsteps := (Node.stands_of_mem_positions hplace).plainStep hdocument.keys
  exact (specAt?_visitAt hsteps hfound).2.2.2

/-- The default of a node is that of the spec which is found at it. -/
theorem default?_of_specAt? {path : String} {node : Node} (h : specAt? (path, node) = some spec) :
    node.default? = spec.default := by
  rw [specAt?_eq_some_iff, Spec.ofNode_retarget] at h
  obtain ⟨read?, hread, hretarget⟩ := Outcome.map_eq_ok_iff.mp h
  obtain ⟨read, rfl, rfl⟩ := Option.map_eq_some_iff.mp hretarget
  rw [Node.default?, specAt?_eq_some_iff.mpr hread]
  rfl

/-- A spec that is found stands in its document. -/
theorem standsIn_of_found (hdocument : Tidy document) (hroot : Spec.isSpec document = false)
    (hspecs : specsOf document = .ok specs) (hspec : spec ∈ specs) : spec.StandsIn document := by
  obtain ⟨⟨p, node⟩, hplace, hnode, hfound⟩ :=
    (mem_specsOf_iff hdocument hspecs).mp hspec
  obtain ⟨_, htarget, _, _⟩ :=
    specAt?_visitAt ((Node.stands_of_mem_positions hplace).plainStep hdocument.keys) hfound
  exact ⟨segments_target_ne_nil hdocument.keys hroot hspecs hspec, node, by rwa [htarget], hnode,
    default?_of_specAt? hfound⟩

/-- When all specs can be read, it has a plain source as well. -/
theorem standsIn_of_mem_specsOf (hdocument : Tidy document) (hroot : Spec.isSpec document = false)
    (hreadable : SpecsReadable document) (hspecs : specsOf document = .ok specs)
    (hspec : spec ∈ specs) :
    spec.StandsIn document ∧ ¬ Table.LooksAlias spec.source ∧ spec.aliases = [] := by
  obtain ⟨⟨p, node⟩, hplace, hnode, hfound⟩ :=
    (mem_specsOf_iff hdocument hspecs).mp hspec
  obtain ⟨_, _, haliases, _⟩ :=
    specAt?_visitAt ((Node.stands_of_mem_positions hplace).plainStep hdocument.keys) hfound
  obtain ⟨read, hread, hplain⟩ := hreadable (p, node) hplace hnode
  obtain rfl := Option.some.inj ((specAt?_of_root hread _).symm.trans hfound)
  exact ⟨standsIn_of_found hdocument hroot hspecs hspec, hplain, haliases⟩

/-- Where all items can be named, the places of all specs that are found can be written. -/
theorem accepts_of_found (hdocument : Tidy document) (hlists : document.Indexable)
    (hspecs : specsOf document = .ok specs) (hspec : spec ∈ specs) :
    document.Accepts (Path.segments spec.target) := by
  obtain ⟨_, _, node, hplace, _⟩ := position_of_mem_specsOf hdocument.keys hspecs hspec
  exact hlists.accepts ((Node.ordered_iff_everywhere document).mp hdocument.ordered) hplace

/-! ## Compiling a region -/

/-- Where the places of found specs can be written, their defaults can be put in place one after
another, and what they leave is the region in which these specs have given way. -/
theorem exists_applyDefaults_of_found (hdocument : Tidy document)
    (hroot : Spec.isSpec document = false) (hspecs : specsOf document = .ok specs)
    {order : List Spec} (hbare : ∀ spec ∈ order, spec.bare ∈ specs)
    (haccepts : ∀ spec ∈ order, document.Accepts (Path.segments spec.target)) :
    ∃ skeleton final, applyDefaults document order = .ok skeleton ∧
      document.substitute final = some skeleton ∧
      ∀ p, final p = true ↔ ∃ spec ∈ order, Path.segments spec.target = p := by
  have hstands : ∀ spec ∈ order, spec.StandsIn document :=
    fun spec hspec => (standsIn_of_found hdocument hroot hspecs (hbare spec hspec) :)
  obtain ⟨skeleton, final, happly, hfinal, hchosen⟩ :=
    exists_applyDefaults hdocument.ordered haccepts hstands (Node.substitute_none document)
  exact ⟨skeleton, final, happly, hfinal, fun p => by simpa using hchosen p⟩

/-- In whatever order the specs of a region are listed, their defaults can be put in place one after
another, and what they leave is the region with all its specs replaced by their defaults. -/
theorem exists_applyDefaults_withDefaults (hdocument : Tidy document)
    (hlists : document.Indexable) (hroot : Spec.isSpec document = false)
    (hreadable : SpecsReadable document) (hspecs : specsOf document = .ok specs)
    {order : List Spec} (horder : (order.map Spec.bare).Perm specs) :
    ∃ skeleton, applyDefaults document order = .ok skeleton ∧
      document.withDefaults = some skeleton := by
  have hbare : ∀ spec ∈ order, spec.bare ∈ specs :=
    fun spec hspec => horder.subset (List.mem_map.mpr ⟨spec, hspec, rfl⟩)
  obtain ⟨skeleton, final, happly, hfinal, hchosen⟩ :=
    exists_applyDefaults_of_found hdocument hroot hspecs hbare
      fun spec hspec => (accepts_of_found hdocument hlists hspecs (hbare spec hspec) :)
  refine ⟨skeleton, happly, ?_⟩
  rw [← hfinal, Node.withDefaults]
  refine Node.substitute_congr document fun place hplace hspec => ?_
  -- The spec at this place is one of the found ones, and so one of those that are put in place.
  obtain ⟨_, hread, _⟩ := hreadable place hplace hspec
  have hat := specAt?_of_root hread (place.1.foldl Path.join Path.root)
  have hfound := (mem_specsOf_iff hdocument hspecs).mpr ⟨place, hplace, hspec, hat⟩
  obtain ⟨listed, hlisted, hbare⟩ := List.mem_map.mp (horder.symm.subset hfound)
  have hsteps := (Node.stands_of_mem_positions hplace).plainStep hdocument.keys
  have htarget : Path.segments listed.bare.target = place.1 := by
    rw [hbare]
    exact (specAt?_visitAt hsteps hat).2.1
  exact ((hchosen place.1).mpr ⟨listed, hlisted, htarget⟩).symm

/-- A region with plain keys that is not itself a spec, and whose specs can be read, is compiled.
Its skeleton is the region with all its specs replaced by their defaults, in whatever order the
table yields them. -/
theorem compile_eq_withDefaults (hdocument : Tidy document) (hlists : document.Indexable)
    (hroot : Spec.isSpec document = false) (hreadable : SpecsReadable document) :
    ∃ region, Region.compile document = .ok region ∧
      document.withDefaults = some region.skeleton ∧
      ∀ order : List Spec, order.Perm region.mapping.specs →
        applyDefaults document order = .ok region.skeleton := by
  obtain ⟨specs, hspecs⟩ := exists_specsOf hreadable
  have hplain : ∀ spec ∈ specs, ¬ Table.LooksAlias spec.source ∧ spec.aliases = [] :=
    fun spec hspec => (standsIn_of_mem_specsOf hdocument hroot hreadable hspecs hspec).2
  obtain ⟨_, hperm⟩ := Table.sound_ofSpecs hplain
  obtain ⟨skeleton, happly, hskeleton⟩ :=
    exists_applyDefaults_withDefaults hdocument hlists hroot hreadable hspecs hperm
  refine ⟨⟨skeleton, Table.ofSpecs specs⟩, ?_, hskeleton, fun order horder => ?_⟩
  · refine Outcome.bind_eq_ok_iff.mpr ⟨specs, hspecs, ?_⟩
    exact Outcome.bind_eq_ok_iff.mpr ⟨skeleton, Outcome.mapError_eq_ok_iff.mpr happly, rfl⟩
  · obtain ⟨other, hother, hsame⟩ := exists_applyDefaults_withDefaults hdocument hlists hroot
      hreadable hspecs ((horder.map Spec.bare).trans hperm)
    obtain rfl : skeleton = other := Option.some.inj (hskeleton.symm.trans hsame)
    exact hother

end

/-- A region with a field and an item that have defaults, others that have none, two specs with one
source, and a full spec with a further spec inside. -/
def mixedRegion : Node :=
  .map [("again", .text "__tmpl:src=/load;default=0"), ("gone", .text "__tmpl:src=/load"),
    ("list", .list [.text "__tmpl:src=/size", .text "__tmpl:src=/rate;default=7"]),
    ("nested", .map [("__tmpl", .leaf (.bool true)), ("default", .text "none"),
      ("inner", .map [("deep", .text "__tmpl:src=/deep")]), ("src", .text "/image")]),
    ("plain", .leaf (.int 5))]

/-- Its skeleton has the defaults, null for the item without one, and no field for the other. -/
theorem compile_eq_withDefaults_mixedRegion :
    ∃ region, Region.compile mixedRegion = .ok region ∧
      mixedRegion.withDefaults = some region.skeleton ∧
      ["/again", "/gone", "/list/0", "/list/1", "/nested", "/plain"].map (fun path =>
        (region.skeleton.seek path).toOption.bind Node.scalar?) =
          [some (.int 0), none, some .null, some (.int 7), some (.text "none"), some (.int 5)] ∧
      ∀ order : List Spec, order.Perm region.mapping.specs →
        applyDefaults mixedRegion order = .ok region.skeleton := by
  have hdocument : Tidy mixedRegion := ⟨by decide +kernel, by decide +kernel⟩
  obtain ⟨hlists, hroot, hreadable⟩ : mixedRegion.Indexable ∧ Spec.isSpec mixedRegion = false ∧
      SpecsReadable mixedRegion := by decide +kernel
  obtain ⟨region, hcompile, hskeleton, horders⟩ :=
    compile_eq_withDefaults hdocument hlists hroot hreadable
  have hleaves : mixedRegion.withDefaults.map (fun skeleton =>
      ["/again", "/gone", "/list/0", "/list/1", "/nested", "/plain"].map fun path =>
        (skeleton.seek path).toOption.bind Node.scalar?) =
      some [some (.int 0), none, some .null, some (.int 7), some (.text "none"),
        some (.int 5)] := by decide +kernel
  rw [hskeleton, Option.map_some, Option.some.injEq] at hleaves
  exact ⟨region, hcompile, hskeleton, hleaves, horders⟩

end ContainerFeed.Template
