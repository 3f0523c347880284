import ContainerFeed.Proofs.Ingest.WriteOnce
import ContainerFeed.Proofs.Template.Roots

/-!
# When all reads agree

The samples of a container are served inside its document, so the document has to be a map. It is
one when the container is discovered, and stays one unless a value is written over the document
itself. Such a write makes every later snapshot fail. As long as there is none, snapshots succeed,
and show the same as reads of single containers.
-/

namespace ContainerFeed

/-! ## The root of a document -/

namespace Node

/-- A step that is no index finds room in maps only. -/
theorem isMap_of_accepts_singleton {node : Node} {step : String}
    (hstep : Text.readIndex? step = none) (h : node.Accepts [step]) : node.isMap = true := by
  cases node with
  | map fields => rfl
  | list items => simp [Accepts, Takes, indexWithin?, hstep] at h
  | leaf value => exact h.1.elim

/-- A write below the root does not change whether the root is a map. -/
theorem isMap_of_set {old value new : Node} {path : String} (h : old.set path value = .ok new)
    (hpath : Path.segments path ≠ []) : new.isMap = old.isMap := by
  obtain ⟨hedited, _⟩ := editedAt_of_set h hpath
  cases hsteps : Path.segments path with
  | nil => exact absurd hsteps hpath
  | cons step rest =>
    rw [hsteps] at hedited
    exact hedited.1.isMap_eq.symm

/-- A leaf leaves a map at the root exactly if there was one and the leaf goes below it. -/
theorem isMap_of_set_leaf {old new : Node} {value : Scalar} {path : String}
    (h : old.set path (.leaf value) = .ok new) :
    new.isMap = true ↔ old.isMap = true ∧ Path.segments path ≠ [] := by
  by_cases hpath : Path.segments path = []
  · rw [set_of_segments_eq_nil hpath] at h
    obtain rfl := Except.ok.inj h
    simp [isMap, hpath]
  · rw [isMap_of_set h hpath]
    simp [hpath]

end Node

/-! ## Served documents -/

namespace Container

/-- The field of a served document that holds the samples. -/
def samplesField : String :=
  "stats"

/-- A document is what is served of a container: the container's own document, with the samples
from oldest to newest in their field. -/
def ServedAs (container : Container) (document : Node) : Prop :=
  ∃ fields, container.document = .map fields ∧
    document = .map (Keyed.insert samplesField
      (.list (container.history.map Sample.document)) fields)

/-- A container whose document is a map is served. -/
theorem render_of_isMap {container : Container} (h : container.document.isMap = true) :
    ∃ document, container.render = .ok document ∧ container.ServedAs document := by
  obtain ⟨key, id, document, history⟩ := container
  cases document with
  | map fields => exact ⟨_, rfl, fields, rfl, rfl⟩
  | list items => simp [Node.isMap] at h
  | leaf value => simp [Node.isMap] at h

/-- Only a container whose document is a map can be served. -/
theorem ServedAs.isMap {container : Container} {document : Node}
    (h : container.ServedAs document) : container.document.isMap = true := by
  obtain ⟨fields, hfields, _⟩ := h
  rw [hfields]
  rfl

/-- What a name has been filled in for a container is a map. -/
theorem isMap_of_named {identified fresh name : Node}
    (hname : identified.set namePath name = .ok fresh) : fresh.isMap = true := by
  have hsteps : Path.segments namePath = ["name"] := by decide +kernel
  have haccepts : identified.Accepts (Path.segments namePath) := Node.exists_set_iff.mp ⟨_, hname⟩
  rw [Node.isMap_of_set hname (by simp [hsteps])]
  rw [hsteps] at haccepts
  exact Node.isMap_of_accepts_singleton (by decide +kernel) haccepts

end Container

/-! ## Writes over a document -/

namespace Template

/-- A measurement goes over the whole document of a container. -/
def Overwrites (template : Template) (m : Measurement) : Prop :=
  ∃ specs, template.containerSpecs? m = some specs ∧
    ∃ spec ∈ specs, Path.segments spec.target = []

/-- Where specs keep off the root, no measurement goes over the whole document. -/
theorem KeepsRoot.not_overwrites {template : Template} (h : template.KeepsRoot)
    (m : Measurement) : ¬ template.Overwrites m := by
  rintro ⟨specs, hspecs, spec, hspec, hroot⟩
  have hresolve : template.container.mapping.resolve? m.ns.display = some specs := by
    unfold containerSpecs? at hspecs
    split at hspecs
    · exact hspecs
    · simp at hspecs
  exact h spec (Table.mem_specs_of_resolve? hresolve hspec) hroot

/-- A measurement leaves a map at the root of a container document exactly if there was one and the
measurement does not go over it. -/
theorem isMap_of_fillContainer {template : Template} {m : Measurement} {old new : Node}
    (h : template.fillContainer old m = .ok new) :
    new.isMap = true ↔ old.isMap = true ∧ ¬ template.Overwrites m := by
  unfold fillContainer at h
  cases hspecs : template.containerSpecs? m with
  | none =>
    simp only [hspecs, Except.ok.injEq] at h
    simp [Overwrites, hspecs, h]
  | some specs =>
    simp only [hspecs, Region.writeTargets] at h
    have hiff := Outcome.foldlM_holds_iff (P := fun node : Node => node.isMap = true)
      (Q := fun spec : Spec => Path.segments spec.target ≠ []) Node.isMap_of_set_leaf h
    simpa [Overwrites, hspecs] using hiff

end Template

/-- The document of a container that a delivery has discovered is a map unless one of the
measurements kept goes over it. -/
theorem Delivery.Discovered.isMap_iff {delivery : Delivery} {key : String} {new : Container}
    (h : delivery.Discovered key new) :
    new.document.isMap = true ↔
      ∀ m ∈ delivery.kept key, ¬ delivery.template.Overwrites m := by
  obtain ⟨identified, fresh, _, hname, hfill⟩ := h.document
  have hfresh : fresh.isMap = true := Container.isMap_of_named hname
  have hiff := Outcome.foldlM_holds_iff (P := fun node : Node => node.isMap = true)
    (Q := fun m => ¬ delivery.template.Overwrites m) Template.isMap_of_fillContainer hfill
  simpa only [hfresh, true_and] using hiff

namespace Store

variable {store : Store} {delivery : Delivery} {key : String}

/-- A delivery discovers a container and goes over its whole document. -/
def SpoiledBy (store : Store) (delivery : Delivery) : Prop :=
  ∃ key, store.get? key = none ∧ (store.receive delivery).get? key ≠ none ∧
    ∃ m ∈ delivery.kept key, delivery.template.Overwrites m

/-- Where specs keep off the root, no delivery spoils a container. -/
theorem not_spoiledBy_of_keepsRoot (store : Store) (h : delivery.template.KeepsRoot) :
    ¬ store.SpoiledBy delivery := by
  rintro ⟨_, _, _, m, _, hover⟩
  exact h.not_overwrites m hover

/-- Every container can be served, and no key stands twice. -/
structure Servable (store : Store) : Prop where
  ascending : Keyed.Ascending store.containers
  isMap : ∀ key container, store.get? key = some container → container.document.isMap = true

/-- An empty store has no container that cannot be served. -/
theorem servable_empty : Servable .empty where
  ascending := Keyed.ascending_nil
  isMap := by simp

/-- A delivery keeps the keys of the store in order. -/
theorem ascending_receive (h : Keyed.Ascending store.containers) (delivery : Delivery) :
    Keyed.Ascending (store.receive delivery).containers := by
  rcases store.receive_cases delivery with ⟨report, hreport⟩ | hsame
  · obtain ⟨rounds, containers, _, _, _, hafter⟩ :=
      ingest_eq_ok_iff.mp (on_change_eq_ok_iff.mp hreport)
    rw [hafter]
    exact Keyed.ascending_insertAll containers h
  · rwa [hsame]

/-- A run of deliveries keeps the keys of the store in order. -/
theorem ascending_receiveAll (h : Keyed.Ascending store.containers)
    (deliveries : List Delivery) : Keyed.Ascending (store.receiveAll deliveries).containers := by
  induction deliveries generalizing store with
  | nil => exact h
  | cons delivery rest ih => exact ih (ascending_receive h delivery)

/-- Containers can still be served after a delivery exactly if they could be before and the delivery
does not go over the document of a new one. -/
theorem servable_receive_iff (h : Keyed.Ascending store.containers) (delivery : Delivery) :
    (store.receive delivery).Servable ↔ store.Servable ∧ ¬ store.SpoiledBy delivery := by
  rcases store.receive_cases delivery with ⟨report, hreport⟩ | hsame
  · constructor
    · rintro ⟨_, hmaps⟩
      refine ⟨⟨h, fun key old hold => ?_⟩, ?_⟩
      · obtain ⟨new, hnew, hcontinued⟩ := continued_of_change hreport hold
        rw [← hcontinued.sameDocument]
        exact hmaps key new hnew
      · rintro ⟨key, hnone, hsome, m, hm, hover⟩
        obtain ⟨new, hnew⟩ := Option.ne_none_iff_exists'.mp hsome
        have hdiscovered := (discovered_of_change hreport hnone).2 new hnew
        exact hdiscovered.isMap_iff.mp (hmaps key new hnew) m hm hover
    · rintro ⟨⟨_, hmaps⟩, hunspoiled⟩
      refine ⟨ascending_receive h delivery, fun key new hnew => ?_⟩
      cases hold : store.get? key with
      | some old =>
        obtain ⟨found, hfound, hcontinued⟩ := continued_of_change hreport hold
        obtain rfl : found = new := Option.some.inj (hfound.symm.trans hnew)
        rw [hcontinued.sameDocument]
        exact hmaps key old hold
      | none =>
        refine ((discovered_of_change hreport hold).2 new hnew).isMap_iff.mpr fun m hm hover => ?_
        exact hunspoiled ⟨key, hold, by simp [hnew], m, hm, hover⟩
  · have hunspoiled : ¬ store.SpoiledBy delivery := by
      rintro ⟨key, hnone, hsome, _⟩
      rw [hsame] at hsome
      exact hsome hnone
    rw [hsame]
    exact (and_iff_left hunspoiled).symm

/-- Containers can be served after a run of deliveries exactly if they could be before and none of
the deliveries has gone over the document of a new one. -/
theorem servable_receiveAll_iff (h : Keyed.Ascending store.containers)
    (deliveries : List Delivery) :
    (store.receiveAll deliveries).Servable ↔ store.Servable ∧
      ∀ earlier delivery later, deliveries = earlier ++ delivery :: later →
        ¬ (store.receiveAll earlier).SpoiledBy delivery := by
  induction deliveries generalizing store with
  | nil => simp [receiveAll]
  | cons first rest ih =>
    have hcons (deliveries : List Delivery) :
        store.receiveAll (first :: deliveries) = (store.receive first).receiveAll deliveries := rfl
    rw [hcons, ih (ascending_receive h first), servable_receive_iff h, and_assoc]
    refine and_congr_right fun _ => ?_
    constructor
    · rintro ⟨hfirst, hrest⟩ earlier delivery later hsplit
      -- With nothing earlier it is the first delivery, else one of the rest.
      cases earlier with
      | nil =>
        obtain ⟨rfl, rfl⟩ := List.cons_eq_cons.mp hsplit
        exact hfirst
      | cons head earlier =>
        obtain ⟨rfl, hlater⟩ := List.cons_eq_cons.mp hsplit
        rw [hcons]
        exact hrest earlier delivery later hlater
    · intro hall
      refine ⟨hall [] first rest rfl, fun earlier delivery later hsplit => ?_⟩
      rw [← hcons]
      exact hall (first :: earlier) delivery later (by rw [hsplit]; rfl)

/-! ## Snapshots and single reads -/

/-- A snapshot succeeds and shows every tracked container under its key, the same that a read of
the single container shows, which is its own document with its samples. -/
def ReadsAgree (store : Store) : Prop :=
  ∃ documents, store.snapshot = .ok documents ∧ Keyed.keys documents = store.keys ∧
    Keyed.Ascending documents ∧
    ∀ key, store.document? key = .ok (Keyed.get? key documents) ∧
      ∀ container, store.get? key = some container →
        ∃ document, Keyed.get? key documents = some document ∧ container.ServedAs document

/-- Containers that can all be served are served together as they are one by one. -/
private theorem exists_documents {entries : List (String × Container)}
    (h : ∀ entry ∈ entries, entry.2.document.isMap = true) :
    ∃ documents,
      (entries.mapM fun (key, container) => do return (key, ← container.render) :
        Except PathError (List (String × Node))) = .ok documents ∧
      Keyed.keys documents = Keyed.keys entries ∧
      ∀ key, (Keyed.get? key documents).map .ok =
        (Keyed.get? key entries).map Container.render := by
  induction entries with
  | nil => exact ⟨[], rfl, rfl, fun _ => rfl⟩
  | cons entry rest ih =>
    obtain ⟨key, container⟩ := entry
    obtain ⟨hfirst, hrest⟩ := List.forall_mem_cons.mp h
    obtain ⟨document, hrender, _⟩ : ∃ document, container.render = .ok document ∧ _ :=
      Container.render_of_isMap hfirst
    obtain ⟨documents, hdocuments, hkeys, hget⟩ := ih hrest
    refine ⟨(key, document) :: documents, ?_, congrArg (key :: ·) hkeys, fun other => ?_⟩
    · simp only [List.mapM_cons, hrender, hdocuments]
      rfl
    · by_cases hother : key = other
      · simp [Keyed.get?, hother, hrender]
      · simpa [Keyed.get?, hother] using hget other

/-- Reads agree exactly when every container can be served. -/
theorem readsAgree_iff_servable (h : Keyed.Ascending store.containers) :
    store.ReadsAgree ↔ store.Servable := by
  constructor
  · rintro ⟨documents, _, _, _, hreads⟩
    refine ⟨h, fun key container hget => ?_⟩
    obtain ⟨document, _, hserved⟩ := (hreads key).2 container hget
    exact hserved.isMap
  · rintro ⟨_, hmaps⟩
    obtain ⟨documents, hsnapshot, hkeys, hget⟩ := exists_documents fun entry hentry =>
      hmaps entry.1 entry.2 (Keyed.get?_of_mem h hentry)
    refine ⟨documents, hsnapshot, hkeys, ?_, fun key => ?_⟩
    · rw [Keyed.ascending_iff_keys, hkeys, ← Keyed.ascending_iff_keys]
      exact h
    · have hfound := hget key
      unfold document?
      rw [get?]
      cases hcontainer : Keyed.get? key store.containers with
      | none =>
        rw [hcontainer, Option.map_none, Option.map_eq_none_iff] at hfound
        exact ⟨by rw [hfound], by simp⟩
      | some container =>
        obtain ⟨document, hrender, hserved⟩ := Container.render_of_isMap (hmaps key _ hcontainer)
        rw [hcontainer, Option.map_some, hrender] at hfound
        obtain ⟨served, hserves, hsame⟩ := Option.map_eq_some_iff.mp hfound
        obtain rfl : served = document := Except.ok.inj hsame
        refine ⟨by simp only [hserves, hrender, Except.map], fun other hother => ?_⟩
        obtain rfl := Option.some.inj hother
        exact ⟨served, hserves, hserved⟩

end Store

end ContainerFeed
