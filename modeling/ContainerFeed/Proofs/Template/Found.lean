import ContainerFeed.Proofs.Template.Positions

/-!
# The specs that are found in a region

Each spec that is found carries the path of the node it was read from, and no aliases yet. The
places that these paths name part from each other.
-/

namespace ContainerFeed.Template

namespace Spec

/-- A spec that is made has its source, its target and its default, and no aliases. -/
theorem make_eq_ok {target source : String} {default : Option Scalar} {spec : Spec}
    (h : make target source default = .ok spec) : spec = ⟨source, target, default, []⟩ := by
  unfold make at h
  split at h
  · simp at h
  · exact (Except.ok.inj h).symm

/-- A full spec has its own path for its target, and no aliases. -/
theorem ofFields_eq_ok {target : String} {fields : List (String × Node)} {spec : Spec}
    (h : ofFields target fields = .ok spec) : spec.target = target ∧ spec.aliases = [] := by
  unfold ofFields at h
  split at h
  · simp at h
  · obtain ⟨_, _, h⟩ := Outcome.bind_eq_ok_iff.mp h
    obtain ⟨_, _, h⟩ := Outcome.bind_eq_ok_iff.mp h
    rw [make_eq_ok h]
    exact ⟨rfl, rfl⟩

/-- A compact spec has its own path for its target, and no aliases. -/
theorem ofCompact_eq_ok {target : String} {packed : List Char} {spec : Spec}
    (h : ofCompact target packed = .ok spec) : spec.target = target ∧ spec.aliases = [] := by
  obtain ⟨fields, _, h⟩ := Outcome.bind_eq_ok_iff.mp h
  cases hsource : fields.source with
  | none => simp [hsource] at h
  | some source =>
    simp only [hsource] at h
    obtain ⟨_, _, h⟩ := Outcome.bind_eq_ok_iff.mp h
    rw [make_eq_ok h]
    exact ⟨rfl, rfl⟩

/-- A spec that has been read from a node has the path of the node as its target. -/
theorem ofNode_eq_some {path : String} {node : Node} {spec : Spec}
    (h : ofNode path node = .ok (some spec)) :
    spec.target = path ∧ spec.aliases = [] ∧ isSpec node = true := by
  unfold ofNode at h
  split at h
  · rename_i fields
    split at h
    · rename_i hfull
      obtain ⟨found, hfound, heq⟩ := Outcome.map_eq_ok_iff.mp h
      obtain rfl := Option.some.inj heq
      obtain ⟨htarget, haliases⟩ := ofFields_eq_ok hfound
      exact ⟨htarget, haliases, hfull⟩
    · simp at h
  · rename_i text
    split at h
    · rename_i packed hpacked
      obtain ⟨found, hfound, heq⟩ := Outcome.map_eq_ok_iff.mp h
      obtain rfl := Option.some.inj heq
      obtain ⟨htarget, haliases⟩ := ofCompact_eq_ok hfound
      exact ⟨htarget, haliases, by simp [isSpec, hpacked]⟩
    · simp at h
  · simp at h

end Spec

/-- The spec that a visit finds, if it finds one. -/
def specAt? (visit : String × Node) : Option Spec :=
  match Spec.ofNode visit.1 visit.2 with
  | .ok found => found
  | .error _ => none

/-- Adds what a visit finds to the specs found before. -/
def collect (found : List Spec) (visit : String × Node) : Except Fault (List Spec) :=
  match Spec.ofNode visit.1 visit.2 with
  | .ok (some spec) => .ok (found ++ [spec])
  | .ok none => .ok found
  | .error fault => .error (.spec visit.1 fault)

/-- What is wrong with the spec that a visit comes upon, if it cannot be read. -/
def faultAt? (visit : String × Node) : Option Fault :=
  match Spec.ofNode visit.1 visit.2 with
  | .ok _ => none
  | .error fault => some (.spec visit.1 fault)

private theorem foldlM_collect (visits : List (String × Node)) (found : List Spec) :
    visits.foldlM collect found = match visits.findSome? faultAt? with
      | some fault => .error fault
      | none => .ok (found ++ visits.filterMap specAt?) := by
  induction visits generalizing found with
  | nil => simp
  | cons visit rest ih =>
    rw [List.foldlM_cons]
    cases hread : Spec.ofNode visit.1 visit.2 with
    | error fault => simp [collect, faultAt?, hread, Bind.bind, Except.bind]
    | ok spec? =>
      cases spec? with
      | none => simp [collect, faultAt?, specAt?, hread, Bind.bind, Except.bind, ih]
      | some spec => simp [collect, faultAt?, specAt?, hread, Bind.bind, Except.bind, ih]

/-- The specs of a region are those that its visits find, unless one of them cannot be read; then it
is the first such one that is reported. -/
theorem specsOf_eq (document : Node) :
    specsOf document =
      match (document.visits fun _ node => Spec.isFull node).findSome? faultAt? with
      | some fault => .error fault
      | none => .ok ((document.visits fun _ node => Spec.isFull node).filterMap specAt?) :=
  foldlM_collect _ []

/-- The specs of a region are those that its visits find. -/
theorem specsOf_eq_ok {document : Node} {specs : List Spec} (h : specsOf document = .ok specs) :
    specs = (document.visits fun _ node => Spec.isFull node).filterMap specAt? := by
  rw [specsOf_eq] at h
  split at h
  · simp at h
  · exact (Except.ok.inj h).symm

variable {document : Node} {specs : List Spec}

/-- The specs that are found are those that stand somewhere, in the same order. -/
theorem specsOf_eq_positions (h : specsOf document = .ok specs) :
    specs = document.positions.filterMap fun place => specAt? (Node.visitAt Path.root place) := by
  rw [specsOf_eq_ok h, Node.visits, Node.visitsFrom_eq, List.filterMap_map]
  rfl

/-- The spec that is found at a position has these steps for its target. -/
theorem specAt?_visitAt {place : List String × Node} {spec : Spec}
    (hsteps : ∀ step ∈ place.1, Path.PlainStep step)
    (h : specAt? (Node.visitAt Path.root place) = some spec) :
    spec.target = place.1.foldl Path.join Path.root ∧ Path.segments spec.target = place.1 ∧
      spec.aliases = [] ∧ Spec.isSpec place.2 = true := by
  unfold specAt? at h
  split at h
  · rename_i found hread
    subst h
    obtain ⟨htarget, haliases, hspec⟩ := Spec.ofNode_eq_some hread
    refine ⟨htarget, ?_, haliases, hspec⟩
    rw [htarget, Node.visitAt, Path.segments_foldl_join hsteps, Path.segments_root,
      List.nil_append]
  · simp at h

/-- Each spec that is found stands at the position that its target names, and no steps are spelt
in two ways. -/
theorem position_of_mem_specsOf (hkeys : document.PlainKeys) (h : specsOf document = .ok specs)
    {spec : Spec} (hmem : spec ∈ specs) :
    spec.target = (Path.segments spec.target).foldl Path.join Path.root ∧ spec.aliases = [] ∧
      ∃ node, (Path.segments spec.target, node) ∈ document.positions ∧
        Spec.isSpec node = true := by
  rw [specsOf_eq_positions h] at hmem
  obtain ⟨⟨p, node⟩, hplace, hspec⟩ := List.mem_filterMap.mp hmem
  obtain ⟨hspelt, htarget, haliases, hnode⟩ :=
    specAt?_visitAt ((Node.stands_of_mem_positions hplace).plainStep hkeys) hspec
  exact ⟨by rwa [htarget], haliases, node, by rwa [htarget], hnode⟩

/-- Only a region that is itself a spec has a spec whose target is the root. -/
theorem segments_target_ne_nil (hkeys : document.PlainKeys) (hroot : Spec.isSpec document = false)
    (h : specsOf document = .ok specs) {spec : Spec} (hmem : spec ∈ specs) :
    Path.segments spec.target ≠ [] := by
  intro hnil
  obtain ⟨_, _, node, hplace, hnode⟩ := position_of_mem_specsOf hkeys h hmem
  rw [hnil] at hplace
  rw [Node.eq_of_nil_mem_positions hplace, hroot] at hnode
  exact Bool.false_ne_true hnode

/-- The places of the specs that are found part from each other, as far as they can be written. -/
theorem pairwise_specsOf (hordered : document.Ordered) (hkeys : document.PlainKeys)
    (h : specsOf document = .ok specs) :
    specs.Pairwise fun a b => document.Accepts (Path.segments b.target) →
      document.Apart (Path.segments a.target) (Path.segments b.target) := by
  rw [specsOf_eq_positions h, List.pairwise_filterMap]
  have hpositions :=
    Node.pairwise_positions document ((Node.ordered_iff_everywhere document).mp hordered)
  refine hpositions.imp_of_mem fun {a b} ha hb hparts spec hspec other hother haccepts => ?_
  obtain ⟨_, htarget, _, hnode⟩ :=
    specAt?_visitAt ((Node.stands_of_mem_positions ha).plainStep hkeys) hspec
  obtain ⟨_, hother, _, _⟩ :=
    specAt?_visitAt ((Node.stands_of_mem_positions hb).plainStep hkeys) hother
  rw [hother] at haccepts ⊢
  rw [htarget]
  exact hparts hnode haccepts

end ContainerFeed.Template
