import ContainerFeed.Proofs.Ingest.LastWriter
import ContainerFeed.Proofs.Ingest.WriteOnce
import ContainerFeed.Proofs.Store.Retention
import ContainerFeed.Proofs.Text.OctetOrder

/-!
# The interfaces of a sample

A round keeps the documents of its interfaces under their names, and the finished sample lists them
in the order of these names. An interface is there when a measurement of it is kept, and its
document is filled by its own measurements only.
-/

namespace ContainerFeed

open Round (Part partOf?)
open Node (SameWays)

-- The steps of a path are only ever compared, never computed, in this file.
attribute [local irreducible] Path.segments

/-! ## Interfaces of a template -/

namespace Template

/-- A measurement feeds the interface with this name: the sample has no specs for it, but the
interfaces have, and the segment before the last is the name. Without such a segment the name is
empty. -/
def feeds (template : Template) (name : String) (m : Measurement) : Bool :=
  (template.sample.mapping.resolve? m.ns.display).isNone &&
    (template.interface.mapping.resolve? m.ns.display).isSome &&
    m.ns.interfaceName?.getD "" == name

/-- An interface document after its own measurements: it holds the name, at the target of every
spec the last value that the spec takes, or else what the skeleton has there, and nothing that other
measurements have written. -/
structure ShowsInterface (template : Template) (name : String) (own : List Measurement)
    (entry : Node) : Prop where
  named : entry.get? Round.nameField = some (.text name)
  shown : ∀ spec ∈ template.interface.mapping.specs, entry.seek spec.target =
    match spec.latest? own with
    | some m => .ok (.leaf m.value.scalar)
    | none => template.interface.skeleton.seek spec.target
  alone : own.foldlM template.interface.fill
    (Round.newInterface template.interface.skeleton name) = .ok entry

/-- The text of a template with plain keys. Its interfaces are maps, not specs themselves, without
sources that look like alias keys, and no spec lies at the name or below it. -/
structure InterfaceLayout (source : String) (document container sample interface : Node)
    (template : Template) : Prop where
  parsed : Node.parse? source = some document
  keys : document.PlainKeys
  cut : cutRegions document = .ok (container, sample, interface)
  compiled : compile source = .ok template
  root : Spec.isSpec interface = false
  sources : ∀ spec ∈ found interface, ¬ Table.LooksAlias spec.source
  unnamed : ∀ spec ∈ found interface, ¬ [Round.nameField] <+: Path.segments spec.target
  map : template.interface.skeleton.isMap = true

namespace InterfaceLayout

variable {source : String} {document container sample interface : Node} {template : Template}
  (h : InterfaceLayout source document container sample interface template)

include h

/-- The region of the interfaces fits in its document. -/
theorem fitsIn : template.interface.FitsIn interface := by
  obtain ⟨_, _, htidy, _, _⟩ := cutRegions_eq_ok ⟨Node.ordered_of_parse? h.parsed, h.keys⟩ h.cut
  obtain ⟨_, _, hcompiled⟩ := regions_of_compile h.parsed h.cut h.compiled
  exact Region.fitsIn_of_compile htidy h.root h.sources hcompiled

/-- The region of the interfaces is well laid out around the name. -/
theorem wellLaid : Region.WellLaid interface [Round.nameField] where
  root := h.root
  sources := h.sources
  below spec hspec field hfield hbelow := by
    obtain rfl := List.mem_singleton.mp hfield
    exact absurd hbelow (h.unnamed spec hspec)

/-- The skeleton of an interface keeps its targets when these and the name are written. -/
theorem keeps : template.interface.skeleton.Keeps
    ({[Round.nameField]} ∪ Region.places template.interface.mapping.specs)
    (Region.places template.interface.mapping.specs) := by
  refine (h.wellLaid.keeps h.fitsIn ?_).mono (Set.union_subset_union_left _ ?_) subset_rfl
  · decide +kernel
  · simp

/-- The name of an interface parts from the places of all specs. -/
theorem apart_name : ∀ spec ∈ template.interface.mapping.specs,
    template.interface.skeleton.Apart (Path.segments spec.target) [Round.nameField] := by
  intro spec hspec
  have hroot := (h.fitsIn.stands spec hspec).1
  have hunnamed : ¬ [Round.nameField] <+: Path.segments spec.bare.target :=
    h.unnamed _ (h.fitsIn.found spec hspec)
  have hsame : Path.segments spec.bare.target = Path.segments spec.target := rfl
  have hmap := h.map
  rw [hsame] at hunnamed
  cases hsegments : Path.segments spec.target with
  | nil => exact absurd hsegments hroot
  | cons step rest =>
    have hne : step ≠ Round.nameField := by
      rintro rfl
      exact hunnamed ⟨rest, hsegments.symm⟩
    cases hskeleton : template.interface.skeleton with
    | map fields => exact fun hchild => absurd hchild hne
    | list items => simp [hskeleton, Node.isMap] at hmap
    | leaf value => simp [hskeleton, Node.isMap] at hmap

/-- Once an interface has been filled by its own measurements, it shows them and its name. -/
theorem showsInterface {name : String} {own : List Measurement}
    (hone : template.interface.mapping.Unambiguous own) {entry : Node}
    (hfills : own.foldlM template.interface.fill
      (Round.newInterface template.interface.skeleton name) = .ok entry) :
    template.ShowsInterface name own entry := by
  obtain ⟨hedit, hname⟩ := Round.leafEdit_newInterface h.map name
  have hstart : SameWays (Region.places template.interface.mapping.specs)
      template.interface.skeleton (Round.newInterface template.interface.skeleton name) := by
    intro p hp
    obtain ⟨haccepts, hnot⟩ := h.keeps p hp
    exact hedit.edited.sameWay haccepts (hnot _ (.inl rfl))
  obtain ⟨_, hshown, hothers⟩ := h.fitsIn.follow?_of_fills
    (h.keeps.mono Set.subset_union_right subset_rfl) subset_rfl hone hstart hfills
  refine ⟨?_, fun spec hspec => ?_, hfills⟩
  · have hstill := (hothers [Round.nameField] h.apart_name).trans hname
    rw [Node.follow?_singleton] at hstill
    obtain ⟨fields, rfl⟩ := Node.exists_fields_of_child? (by decide +kernel) hstill
    exact hstill
  · have hplace := hshown spec hspec
    rw [hedit.edited.follow?_eq (h.apart_name spec hspec).symm] at hplace
    cases hlatest : spec.latest? own with
    | some m => exact Node.seek_eq_ok_iff.mpr (by simpa [hlatest] using hplace)
    | none =>
      simp only [hlatest, Option.map_none, Option.none_or] at hplace
      simp only [Node.seek, hplace]

end InterfaceLayout

end Template

/-! ## The interfaces of a round -/

namespace Round

variable {template : Template} {round next last : Round} {m : Measurement} {name : String}

/-- A measurement feeds an interface exactly when it belongs to it. -/
theorem feeds_iff : template.feeds name m = true ↔
    ∃ specs, partOf? template m = some (.interface name, specs) := by
  unfold Template.feeds partOf? placeOf
  cases template.sample.mapping.resolve? m.ns.display <;>
    cases template.interface.mapping.resolve? m.ns.display <;>
    cases template.container.mapping.resolve? m.ns.display <;> simp

/-- A measurement changes no interface but its own. -/
theorem get?_interfaces_put_of_ne {target : Part} (hne : target ≠ .interface name)
    (document : Node) :
    Keyed.get? name (round.put target document).interfaces = Keyed.get? name round.interfaces := by
  cases target with
  | sample => rfl
  | container => rfl
  | interface other =>
    exact Keyed.get?_insert_of_ne document round.interfaces fun heq => hne (heq ▸ rfl)

/-- A measurement fills the interface that it feeds, and leaves all others alone. -/
theorem interface_of_write (h : round.write template m = .ok next) (name : String) :
    if template.feeds name m then
      template.interface.fill (round.interface template name) m =
          .ok (next.interface template name) ∧
        (Keyed.get? name next.interfaces).isSome
    else Keyed.get? name next.interfaces = Keyed.get? name round.interfaces := by
  rcases write_cases h with ⟨rfl, hclosed⟩ | ⟨target, specs, document, hpart, _, hwrite, rfl⟩
  · have hfeeds : ¬ template.feeds name m = true := fun hfeeds => by
      obtain ⟨specs, hpart⟩ := feeds_iff.mp hfeeds
      exact hclosed _ specs hpart trivial
    rw [if_neg hfeeds]
  · by_cases hfeeds : template.feeds name m = true
    · obtain ⟨specs', hpart'⟩ := feeds_iff.mp hfeeds
      obtain ⟨rfl, rfl⟩ : target = .interface name ∧ specs = specs' := by
        simpa [hpart] using hpart'
      have hspecs : template.interface.mapping.resolve? m.ns.display = some specs :=
        resolve?_of_partOf? hpart
      have hput := round.part_put_self template (.interface name) document
      rw [if_pos hfeeds, Template.Region.fill, hspecs]
      exact ⟨hwrite.trans (congrArg Except.ok hput.symm), by simp [put]⟩
    · rw [if_neg hfeeds]
      refine get?_interfaces_put_of_ne ?_ document
      rintro rfl
      exact hfeeds (feeds_iff.mpr ⟨specs, hpart⟩)

/-- A measurement keeps the names of the interfaces in order. -/
theorem ascending_interfaces_of_write (hround : Keyed.Ascending round.interfaces)
    (h : round.write template m = .ok next) : Keyed.Ascending next.interfaces := by
  rcases write_cases h with ⟨rfl, _⟩ | ⟨target, _, document, _, _, _, rfl⟩
  · exact hround
  · cases target with
    | sample => exact hround
    | container => exact hround
    | interface name => exact Keyed.ascending_insert name document hround

/-- What all measurements of a round do to its interfaces: each is there when a measurement feeds
it, and is filled by the measurements that do. -/
theorem interface_of_writes {ms : List Measurement}
    (h : ms.foldlM (fun round m => round.write template m) round = .ok last) (name : String) :
    (ms.filter (template.feeds name)).foldlM template.interface.fill
        (round.interface template name) = .ok (last.interface template name) ∧
      ((Keyed.get? name last.interfaces).isSome ↔
        (Keyed.get? name round.interfaces).isSome ∨ ∃ m ∈ ms, template.feeds name m = true) := by
  induction ms generalizing round with
  | nil =>
    obtain rfl := Outcome.foldlM_nil_eq_ok_iff.mp h
    exact ⟨rfl, by simp⟩
  | cons m ms ih =>
    obtain ⟨next, hnext, hrest⟩ := Outcome.foldlM_cons_eq_ok_iff.mp h
    obtain ⟨hfills, hpresent⟩ := ih hrest
    have hstep := interface_of_write hnext name
    rw [hpresent, List.exists_mem_cons_iff]
    by_cases hfeeds : template.feeds name m = true
    · rw [if_pos hfeeds] at hstep
      obtain ⟨hfill, hsome⟩ := hstep
      rw [List.filter_cons_of_pos hfeeds, Outcome.foldlM_cons_eq_ok_iff]
      exact ⟨⟨_, hfill, hfills⟩, by simp [hsome, hfeeds]⟩
    · rw [if_neg hfeeds] at hstep
      have hsame : next.interface template name = round.interface template name := by
        rw [Round.interface, hstep, Round.interface]
      rw [List.filter_cons_of_neg hfeeds, ← hsame, hstep]
      exact ⟨hfills, by simp [hfeeds]⟩

end Round

/-! ## The interfaces of stored samples -/

/-- A sample has a list of interfaces. -/
def Sample.ListsInterfaces (sample : Sample) : Prop :=
  ∃ items, sample.document.seek Template.interfacesPath = .ok (.list items)

namespace Store

variable {before after store : Store} {delivery : Delivery} {report : IngestReport} {key : String}

/-- A container has the history it had, and a new one has none. -/
theorem history_of_containerFor {template : Template} {ref : ContainerRef}
    {tracked : Option Container} {container : Container}
    (h : Round.containerFor template ref tracked = .ok container) :
    container.history = (tracked.map Container.history).getD [] := by
  cases tracked with
  | some known =>
    obtain rfl : known = container := Except.ok.inj h
    rfl
  | none =>
    obtain ⟨_, _, _, _, rfl⟩ := Round.discover_eq_ok_iff.mp h
    rfl

/-- A delivery adds one sample to the history of a container that measurements are kept for: that of
a round that has started with a stamp and has taken in these measurements. -/
theorem sample_of_change (h : delivery.change.on before = (.ok report, after))
    (hkept : delivery.kept key ≠ []) :
    ∃ (ref : ContainerRef) (timestamp : Timestamp) (stamp : String) (started last : Round)
      (tracked : Container) (document : Node), timestamp.stamp? = some stamp ∧
      Round.startAt delivery.template ref (before.get? key) timestamp stamp = .ok started ∧
      (delivery.kept key).foldlM (fun round m => round.write delivery.template m) started =
        .ok last ∧
      last.document.set Template.interfacesPath (.list (Keyed.values last.interfaces)) =
        .ok document ∧
      after.get? key = some tracked ∧
      tracked.history = delivery.settings.retention.push ((before.history? key).getD [])
        ⟨last.timestamp, document⟩ := by
  rcases get?_of_change h key with
    ⟨hnone, _⟩ | ⟨first, rest, started, last, tracked, hfirst, hstarts, hwrites, hfinish, hget⟩
  · exact absurd hnone hkept
  have hsends : delivery.settings.sends key first = true :=
    Settings.sends_of_mem_kept (hfirst.symm ▸ List.mem_cons_self)
  obtain ⟨ref, timestamp, stamp, _, _, _, hstamp, hstart⟩ := startAt_of_starts hstarts hsends
  obtain ⟨document, hset, rfl⟩ := Round.finish_eq_ok_iff.mp hfinish
  refine ⟨ref, timestamp, stamp, started, last, _, document, hstamp, hstart, hfirst ▸ hwrites,
    hset, hget, ?_⟩
  obtain ⟨_, container, _, hcontainer, rfl⟩ := Round.startAt_eq_ok_iff.mp hstart
  obtain ⟨hframe, _, _⟩ := Round.container_of_writes hwrites
  have hold : last.container.history = container.history := by rw [hframe]
  exact congrArg (delivery.settings.retention.push · _)
    (hold.trans (history_of_containerFor hcontainer))

/-- The new sample lists the interfaces of the round that its measurements have been written to. -/
theorem latest_of_change (h : delivery.change.on before = (.ok report, after))
    (hkept : delivery.kept key ≠ []) :
    ∃ (started last : Round) (tracked : Container) (latest : Sample), started.interfaces = [] ∧
      (delivery.kept key).foldlM (fun round m => round.write delivery.template m) started =
        .ok last ∧
      after.get? key = some tracked ∧
      tracked.history =
        delivery.settings.retention.push ((before.history? key).getD []) latest ∧
      latest.document.seek Template.interfacesPath =
        .ok (.list (Keyed.values last.interfaces)) := by
  obtain ⟨ref, timestamp, stamp, started, last, tracked, document, _, hstart, hwrites, hset, hget,
    hhistory⟩ := sample_of_change h hkept
  obtain ⟨_, container, _, _, rfl⟩ := Round.startAt_eq_ok_iff.mp hstart
  exact ⟨_, last, tracked, _, rfl, hwrites, hget, hhistory,
    Node.seek_eq_ok_iff.mpr (Node.follow?_of_set hset)⟩

/-- What holds of all samples of a store, and of each one that a delivery adds, holds of all samples
afterwards. -/
theorem samples_receive {P : Sample → Prop}
    (hold : ∀ key tracked, store.get? key = some tracked → ∀ sample ∈ tracked.history, P sample)
    (hnew : ∀ report key,
      delivery.change.on store = (.ok report, store.receive delivery) → delivery.kept key ≠ [] →
      ∃ tracked latest, (store.receive delivery).get? key = some tracked ∧
        tracked.history =
          delivery.settings.retention.push ((store.history? key).getD []) latest ∧ P latest) :
    ∀ key tracked, (store.receive delivery).get? key = some tracked →
      ∀ sample ∈ tracked.history, P sample := by
  rcases store.receive_cases delivery with ⟨report, hreport⟩ | hsame
  · intro key tracked hget sample hsample
    by_cases hkept : delivery.kept key = []
    · rw [get?_of_change_of_kept_eq_nil hreport hkept] at hget
      exact hold key tracked hget sample hsample
    · obtain ⟨found, latest, hfound, hhistory, hlatest⟩ := hnew report key hreport hkept
      obtain rfl : found = tracked := Option.some.inj (hfound.symm.trans hget)
      rw [hhistory] at hsample
      rcases List.mem_append.mp ((Retention.push_suffix _ _ _).subset hsample) with hearlier | hlast
      · cases hbefore : store.get? key with
        | none => simp [history?, hbefore] at hearlier
        | some old =>
          have hsample : sample ∈ old.history := by simpa [history?, hbefore] using hearlier
          exact hold key old hbefore sample hsample
      · obtain rfl := List.mem_singleton.mp hlast
        exact hlatest
  · rwa [hsame]

/-- All samples have lists of interfaces. -/
def ListsInterfaces (store : Store) : Prop :=
  ∀ key tracked, store.get? key = some tracked → ∀ sample ∈ tracked.history,
    sample.ListsInterfaces

/-- A delivery keeps the lists of interfaces in all samples, and its own sample has one. -/
theorem listsInterfaces_receive (h : store.ListsInterfaces) (delivery : Delivery) :
    (store.receive delivery).ListsInterfaces := by
  refine samples_receive h fun report key hreport hkept => ?_
  obtain ⟨_, _, tracked, latest, _, _, hget, hhistory, hlatest⟩ := latest_of_change hreport hkept
  exact ⟨tracked, latest, hget, hhistory, _, hlatest⟩

/-- A run of deliveries keeps the lists of interfaces in all samples. -/
theorem listsInterfaces_receiveAll (h : store.ListsInterfaces) (deliveries : List Delivery) :
    (store.receiveAll deliveries).ListsInterfaces := by
  induction deliveries generalizing store with
  | nil => exact h
  | cons delivery rest ih => exact ih (listsInterfaces_receive h delivery)

/-- An empty store has no sample without a list. -/
theorem listsInterfaces_empty : empty.ListsInterfaces := by
  intro key tracked hget
  simp at hget

end Store

/-- A sample lists the interfaces that a delivery has measured for a container: one for each name
that a measurement kept for the container feeds, in the order of the octets of these names, and
each shows its own measurements. -/
structure Delivery.ListedIn (delivery : Delivery) (key : String) (sample : Sample)
    (interfaces : List (String × Node)) : Prop where
  listed : sample.document.seek Template.interfacesPath = .ok (.list (Keyed.values interfaces))
  ascending : ((Keyed.keys interfaces).map Text.toOctets).Pairwise (· < ·)
  names : ∀ name, name ∈ Keyed.keys interfaces ↔
    ∃ m ∈ delivery.kept key, delivery.template.feeds name m = true
  shown : ∀ name entry, (name, entry) ∈ interfaces → delivery.template.ShowsInterface name
    ((delivery.kept key).filter (delivery.template.feeds name)) entry

namespace Store

variable {before after : Store} {delivery : Delivery} {report : IngestReport} {key : String}

/-- With interfaces that are well laid out, a delivery leaves a sample that lists them. -/
theorem interfaces_of_change {source : String} {document container sample interface : Node}
    (hlaid : Template.InterfaceLayout source document container sample interface delivery.template)
    (hone : delivery.template.interface.mapping.Unambiguous delivery.batch)
    (h : delivery.change.on before = (.ok report, after)) (hkept : delivery.kept key ≠ []) :
    ∃ tracked latest interfaces, after.get? key = some tracked ∧
      tracked.history.getLast? = some latest ∧ delivery.ListedIn key latest interfaces := by
  obtain ⟨started, last, tracked, latest, hnone, hwrites, hget, hhistory, hlisted⟩ :=
    latest_of_change h hkept
  have hascending : Keyed.Ascending last.interfaces :=
    Outcome.foldlM_preserves (P := fun round => Keyed.Ascending round.interfaces)
      (fun _ _ _ _ hround hwrite => Round.ascending_interfaces_of_write hround hwrite)
      (hnone ▸ Keyed.ascending_nil) hwrites
  have hlatest : tracked.history.getLast? = some latest := by
    rw [hhistory]
    exact List.getLast?_concat
  refine ⟨tracked, latest, last.interfaces, hget, hlatest, hlisted,
    Keyed.pairwise_toOctets_keys hascending, fun name => ?_, fun name entry hentry => ?_⟩
  · obtain ⟨_, hpresent⟩ := Round.interface_of_writes hwrites name
    rw [Keyed.mem_keys_iff, hpresent]
    simp [hnone, Keyed.get?]
  · obtain ⟨hfills, _⟩ := Round.interface_of_writes hwrites name
    have hfound := Keyed.get?_of_mem hascending hentry
    refine hlaid.showsInterface (fun m hm => ?_) ?_
    · exact hone m (Settings.mem_of_mem_kept (List.mem_filter.mp hm).1)
    · simpa [Round.interface, hnone, hfound, Keyed.get?] using hfills

/-- After any run of deliveries all samples have lists of interfaces. With interfaces that are well
laid out and an unambiguous table, a delivery leaves a sample that lists exactly those that it has
measured for a container, each with the last of its own values. -/
theorem interfaces_listed :
    (∀ deliveries : List Delivery, (empty.receiveAll deliveries).ListsInterfaces) ∧
    ∀ (delivery : Delivery) (before after : Store) (report : IngestReport) (source : String)
      (document container sample interface : Node),
      Template.InterfaceLayout source document container sample interface delivery.template →
      delivery.template.interface.mapping.Unambiguous delivery.batch →
      delivery.change.on before = (.ok report, after) →
      ∀ key, delivery.kept key ≠ [] →
        ∃ tracked latest interfaces, after.get? key = some tracked ∧
          tracked.history.getLast? = some latest ∧ delivery.ListedIn key latest interfaces :=
  ⟨listsInterfaces_receiveAll listsInterfaces_empty,
    fun _ _ _ _ _ _ _ _ _ hlaid hone h _ hkept => interfaces_of_change hlaid hone h hkept⟩

/-- A template whose interfaces have two counters, one of them with a default. -/
def counterTemplate : Node :=
  .map [("stats", .list [.map [("network", .map [("interfaces", .list [.map [
    ("rx", .text "__tmpl:src=/rx"), ("tx", .text "__tmpl:src=/tx;default=0")]])])]])]

/-- Counters of two interfaces of one container in turn, and one of another container. -/
def countersInTurn (template : Template) : Delivery where
  template := template
  settings := ⟨8777, 10, .zero, .builtin, .zero, "/docker"⟩
  batch :=
    let measured (container interface counter : String) (value : Int64) : Measurement :=
      ⟨⟨["docker", container, interface, counter]⟩, .int value, .newYear2020⟩
    [measured "web" "eth1" "rx" 1, measured "web" "eth0" "rx" 2, measured "db" "eth0" "rx" 9,
      measured "web" "eth1" "rx" 3, measured "web" "eth0" "tx" 4]

/-- The container has both interfaces, with the last of their own counters. -/
theorem interfaces_listed_counters :
    ∃ document container sample interface template report after tracked latest interfaces,
      Template.InterfaceLayout counterTemplate.render document container sample interface
        template ∧
      template.interface.mapping.Unambiguous (countersInTurn template).batch ∧
      (countersInTurn template).change.on empty = (.ok report, after) ∧
      (countersInTurn template).kept "/web" ≠ [] ∧
      after.get? "/web" = some tracked ∧ tracked.history.getLast? = some latest ∧
      (countersInTurn template).ListedIn "/web" latest interfaces ∧
      "eth0" ∈ Keyed.keys interfaces ∧ "eth1" ∈ Keyed.keys interfaces ∧
      (empty.receiveAll [countersInTurn template]).ListsInterfaces := by
  have hchecked : (Node.parse? counterTemplate.render).any fun document =>
      (Template.cutRegions document).toOption.any fun (regions : Node × Node × Node) =>
      (Template.compile counterTemplate.render).toOption.any fun (template : Template) =>
      decide (document.PlainKeys ∧ Template.Spec.isSpec regions.2.2 = false ∧
        (∀ spec ∈ Template.found regions.2.2, ¬ Template.Table.LooksAlias spec.source) ∧
        (∀ spec ∈ Template.found regions.2.2,
          ¬ [Round.nameField] <+: Path.segments spec.target) ∧
        template.interface.skeleton.isMap = true ∧
        template.interface.mapping.Unambiguous (countersInTurn template).batch ∧
        ((countersInTurn template).change.on empty).1.toOption.isSome ∧
        ∀ name ∈ ["eth0", "eth1"], ∃ m ∈ (countersInTurn template).kept "/web",
          template.feeds name m = true) := by
    decide +kernel
  obtain ⟨document, hparsed, hchecked⟩ := (Option.any_eq_true _ _).mp hchecked
  obtain ⟨⟨container, sample, interface⟩, hcut, hchecked⟩ := (Option.any_eq_true _ _).mp hchecked
  obtain ⟨template, hcompiled, hchecked⟩ := (Option.any_eq_true _ _).mp hchecked
  obtain ⟨hkeys, hroot, hsources, hunnamed, hmap, hone, hok, hnames⟩ :=
    of_decide_eq_true hchecked
  have hlaid : Template.InterfaceLayout counterTemplate.render document container sample interface
      template :=
    ⟨hparsed, hkeys, Outcome.toOption_eq_some_iff.mp hcut,
      Outcome.toOption_eq_some_iff.mp hcompiled, hroot, hsources, hunnamed, hmap⟩
  have hkept : (countersInTurn template).kept "/web" ≠ [] := by
    obtain ⟨m, hm, _⟩ := hnames "eth0" (by simp)
    exact List.ne_nil_of_mem hm
  rcases hchange : (countersInTurn template).change.on empty with ⟨failure | report, after⟩
  · simp [hchange, Except.toOption] at hok
  · obtain ⟨hlists, hlisted⟩ := interfaces_listed
    obtain ⟨tracked, latest, interfaces, hget, hlast, hin⟩ :=
      hlisted _ empty after report _ _ _ _ _ hlaid hone hchange "/web" hkept
    exact ⟨document, container, sample, interface, template, report, after, tracked, latest,
      interfaces, hlaid, hone, hchange, hkept, hget, hlast, hin,
      (hin.names _).mpr (hnames "eth0" (by simp)), (hin.names _).mpr (hnames "eth1" (by simp)),
      hlists _⟩

end Store

end ContainerFeed
