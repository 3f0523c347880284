import ContainerFeed.Ingest.Container
import ContainerFeed.Measurement
import ContainerFeed.Proofs.Paths

/-!
# Containers told by segments

The metric prefix is cut off the text of a namespace, not off its segments. When the prefix ends
where a segment ends, the next segment names the container. The text also goes on after the prefix
when a segment merely begins like the last one of the prefix, and then the rest of that segment is
taken for the name.
-/

namespace ContainerFeed

/-! ## Texts spelt by segments -/

namespace Namespace

/-- The characters that some segments are displayed as. -/
def spell (segments : List String) : List Char :=
  segments.flatMap fun segment => '/' :: segment.toList

variable {segments lead : List String}

/-- Segments are displayed as they are spelt. -/
theorem toList_display (segments : List String) : (display ⟨segments⟩).toList = spell segments := by
  rw [display, String.toList_ofList, spell]

/-- Segments are spelt one after another. -/
theorem spell_append (lead segments : List String) :
    spell (lead ++ segments) = spell lead ++ spell segments :=
  List.flatMap_append

/-- The segments of a namespace that is read from text are steps of a path. -/
theorem plainStep_of_mem_parse {text segment : String} (h : segment ∈ (parse text).segments) :
    Path.PlainStep segment :=
  Path.plainStep_of_mem_steps h

/-- What follows a whole segment: nothing, or a slash. -/
def EndsSegment (chars : List Char) : Prop :=
  ∀ c ∈ chars.head?, c = '/'

/-- Further segments end a segment. -/
theorem endsSegment_spell (segments : List String) : EndsSegment (spell segments) := by
  cases segments with
  | nil => simp [EndsSegment, spell]
  | cons segment rest => simp [EndsSegment, spell]

/-- What is left from a slash on ends a segment. -/
theorem endsSegment_dropWhile (chars : List Char) :
    EndsSegment (chars.dropWhile (· != '/')) := by
  intro c hc
  have hhead := List.head?_dropWhile_not (· != '/') chars
  rw [Option.mem_def.mp hc] at hhead
  simpa using hhead

/-- A text without slashes ends where the first slash stands. -/
theorem takeWhile_append {name after : List Char} (hname : '/' ∉ name)
    (hafter : EndsSegment after) :
    (name ++ after).takeWhile (· != '/') = name ∧ (name ++ after).dropWhile (· != '/') = after := by
  have hkept : ∀ c ∈ name, (c != '/') = true := by
    intro c hc
    have hne : c ≠ '/' := fun heq => hname (heq ▸ hc)
    simpa using hne
  rw [List.takeWhile_append_of_pos hkept, List.dropWhile_append_of_pos hkept]
  cases after with
  | nil => simp
  | cons c after => simp [hafter c rfl]

/-- When the text of some segments goes on after a lead and a whole segment ends there, then the
segments go on after the segments of the lead. -/
theorem exists_of_spell_eq_append (hlead : ∀ segment ∈ lead, Path.PlainStep segment)
    (hsegments : ∀ segment ∈ segments, Path.PlainStep segment) {after : List Char}
    (hafter : EndsSegment after) (h : spell segments = spell lead ++ after) :
    ∃ rest, segments = lead ++ rest ∧ spell rest = after := by
  induction lead generalizing segments with
  | nil => exact ⟨segments, rfl, h⟩
  | cons first lead ih =>
    obtain ⟨hfirst, hlead⟩ := List.forall_mem_cons.mp hlead
    cases segments with
    | nil => simp [spell] at h
    | cons other segments =>
      obtain ⟨hother, hothers⟩ := List.forall_mem_cons.mp hsegments
      have hchars : other.toList ++ spell segments = first.toList ++ (spell lead ++ after) := by
        simpa [spell] using h
      have hmore : EndsSegment (spell lead ++ after) := by
        cases lead with
        | nil => exact hafter
        | cons next lead => simp [EndsSegment, spell]
      obtain ⟨hleft, hright⟩ := takeWhile_append hother.2 (endsSegment_spell segments)
      obtain ⟨hleft', hright'⟩ := takeWhile_append hfirst.2 hmore
      rw [hchars] at hleft hright
      obtain rfl : first = other := String.toList_inj.mp (hleft'.symm.trans hleft)
      obtain ⟨rest, rfl, hrest⟩ := ih hlead hothers (hright.symm.trans hright')
      exact ⟨rest, rfl, hrest⟩

end Namespace

namespace ContainerRef

open Namespace (spell EndsSegment)

/-! ## What follows the prefix -/

/-- A text goes on behind a lead exactly when it begins with it. -/
theorem after?_eq_some_iff {lead text tail : List Char} :
    after? lead text = some tail ↔ text = lead ++ tail := by
  unfold after?
  split
  · rename_i hinitial
    obtain ⟨rest, rfl⟩ := List.isPrefixOf_iff_prefix.mp hinitial
    simp
  · rename_i hinitial
    refine ⟨by simp, ?_⟩
    rintro rfl
    exact absurd (List.isPrefixOf_iff_prefix.mpr (List.prefix_append _ _)) hinitial

/-- A namespace text names a container when a step follows the prefix. -/
theorem classify?_eq_some_iff {namespaceText metricPrefix : String} {ref : ContainerRef} :
    classify? namespaceText metricPrefix = some ref ↔
      ∃ tail, namespaceText.toList = metricPrefix.toList ++ tail ∧ firstStep tail ≠ [] ∧
        ref = ofName (String.ofList (firstStep tail)) := by
  unfold classify?
  simp only [← after?_eq_some_iff]
  cases after? metricPrefix.toList namespaceText.toList with
  | none => simp
  | some tail =>
    by_cases hstep : firstStep tail = []
    · simp [hstep]
    · simp [hstep, eq_comm (b := ref)]

/-- The first step of a text stands behind its leading slashes. -/
theorem firstStep_eq {name after : List Char} (slashes : List Char)
    (hslashes : ∀ c ∈ slashes, c = '/') (hname : '/' ∉ name) (hne : name ≠ [])
    (hafter : EndsSegment after) :
    firstStep (slashes ++ (name ++ after)) = name := by
  have hdropped : (name ++ after).dropWhile (· == '/') = name ++ after := by
    cases name with
    | nil => exact absurd rfl hne
    | cons c name =>
      have hc : c ≠ '/' := fun heq => hname (heq ▸ List.mem_cons_self)
      simp [hc]
  rw [firstStep, List.dropWhile_append_of_pos (by simpa using hslashes), hdropped]
  exact (Namespace.takeWhile_append hname hafter).1

/-- Behind the slash of a segment, the first step is this segment. -/
theorem firstStep_spell {name : String} (h : Path.PlainStep name) (rest : List String) :
    firstStep (spell (name :: rest)) = name.toList :=
  firstStep_eq ['/'] (by simp) h.2 (fun heq => h.1 (by simpa using heq))
    (Namespace.endsSegment_spell rest)

/-- Within a segment, the first step is what is left of it. -/
theorem firstStep_append_spell {name : List Char} (hname : '/' ∉ name) (hne : name ≠ [])
    (rest : List String) : firstStep (name ++ spell rest) = name :=
  firstStep_eq [] (by simp) hname hne (Namespace.endsSegment_spell rest)

/-! ## The segment that names a container -/

/-- A container goes by a name: it has the name for its identifier and is stored under it, but for
the host itself, which has the root path for both. -/
def GoesBy (ref : ContainerRef) (name : String) : Prop :=
  if name = "root" then ref.id = "/" ∧ ref.key = "/" else ref.id = name ∧ ref.key = "/" ++ name

/-- A container that goes by a name is the one of that name. -/
theorem goesBy_iff {ref : ContainerRef} {name : String} : ref.GoesBy name ↔ ref = ofName name := by
  obtain ⟨id, key⟩ := ref
  unfold GoesBy ofName hostName
  split <;> simp [host, Path.root]

/-- The next segment after a lead names the container. -/
def NextIn (segments lead : List String) (ref : ContainerRef) : Prop :=
  ∃ name rest, segments = lead ++ name :: rest ∧ ref.GoesBy name

/-- The segments follow a lead up to a segment that goes on after the last one of the lead, and the
rest of this segment names the container. -/
def WithinLast (segments front : List String) (last : String) (ref : ContainerRef) : Prop :=
  ∃ name rest, name ≠ "" ∧ segments = front ++ (last ++ name) :: rest ∧ ref.GoesBy name

section

variable {segments front : List String} {last : String} {ref : ContainerRef}

/-- No segment is the last one of a lead and goes on after it. -/
theorem not_nextIn_of_withinLast {other : ContainerRef}
    (h : WithinLast segments front last ref) : ¬ NextIn segments (front ++ [last]) other := by
  obtain ⟨name, rest, hname, rfl, -⟩ := h
  rintro ⟨next, more, hsegments, -⟩
  rw [List.append_assoc, List.append_cancel_left_eq, List.singleton_append, List.cons.injEq]
    at hsegments
  exact hname (by simpa using hsegments.1)

section

variable (hsegments : ∀ segment ∈ segments, Path.PlainStep segment)
  (hlead : ∀ segment ∈ front ++ [last], Path.PlainStep segment)

include hsegments hlead

/-- The first step behind the text of a lead is the next segment, or what is left of a segment that
goes on after the last one of the lead. -/
theorem nextIn_or_withinLast {tail : List Char}
    (htext : spell segments = spell (front ++ [last]) ++ tail) (hstep : firstStep tail ≠ []) :
    NextIn segments (front ++ [last]) (ofName (String.ofList (firstStep tail))) ∨
      WithinLast segments front last (ofName (String.ofList (firstStep tail))) := by
  simp only [NextIn, WithinLast, goesBy_iff]
  -- The lead ends within a segment or not: `inner` is what it leaves of the segment.
  obtain ⟨inner, after, rfl, hinner, hafter⟩ : ∃ inner after, tail = inner ++ after ∧
      '/' ∉ inner ∧ EndsSegment after :=
    ⟨tail.takeWhile (· != '/'), tail.dropWhile (· != '/'), List.takeWhile_append_dropWhile.symm,
      fun hmem => by simpa using List.mem_takeWhile_imp hmem,
      Namespace.endsSegment_dropWhile tail⟩
  by_cases hempty : inner = []
  · subst hempty
    obtain ⟨rest, rfl, rfl⟩ :=
      Namespace.exists_of_spell_eq_append hlead hsegments hafter htext
    cases rest with
    | nil => exact absurd rfl hstep
    | cons name rest =>
      have hfirst := firstStep_spell (hsegments name (by simp)) rest
      exact .inl ⟨name, rest, rfl, by rw [List.nil_append, hfirst, String.ofList_toList]⟩
  · have hlonger : ∀ segment ∈ front ++ [last ++ String.ofList inner],
        Path.PlainStep segment := by
      rw [List.forall_mem_append] at hlead ⊢
      obtain ⟨hne, hslash⟩ := hlead.2 last (by simp)
      refine ⟨hlead.1, fun segment hsegment => ?_⟩
      obtain rfl := List.mem_singleton.mp hsegment
      exact ⟨by simp [hne], by simp [hslash, hinner]⟩
    have hspelt : spell segments = spell (front ++ [last ++ String.ofList inner]) ++ after := by
      rw [htext]
      simp [Namespace.spell]
    obtain ⟨rest, rfl, rfl⟩ :=
      Namespace.exists_of_spell_eq_append hlonger hsegments hafter hspelt
    have hfirst := firstStep_append_spell hinner hempty rest
    exact .inr ⟨String.ofList inner, rest, by simpa using hempty, by simp, by rw [hfirst]⟩

/-- The container that the text of some segments names after the text of others: the next segment,
or what is left of a segment that begins like the last one of the prefix. -/
theorem classify?_display_eq_some_iff :
    classify? (Namespace.display ⟨segments⟩) (Namespace.display ⟨front ++ [last]⟩) = some ref ↔
      NextIn segments (front ++ [last]) ref ∨ WithinLast segments front last ref := by
  simp only [classify?_eq_some_iff, Namespace.toList_display]
  constructor
  · rintro ⟨tail, htext, hstep, rfl⟩
    exact nextIn_or_withinLast hsegments hlead htext hstep
  · rintro (⟨name, rest, rfl, hname⟩ | ⟨name, rest, hne, rfl, hname⟩)
    · have hplain := hsegments name (by simp)
      refine ⟨spell (name :: rest), Namespace.spell_append _ _, ?_⟩
      rw [firstStep_spell hplain, String.ofList_toList]
      exact ⟨by simpa using hplain.1, goesBy_iff.mp hname⟩
    · have hslash : '/' ∉ name.toList := fun hmem =>
        (hsegments (last ++ name) (by simp)).2 (by simp [hmem])
      have hchars : name.toList ≠ [] := by simpa using hne
      refine ⟨name.toList ++ spell rest, by simp [Namespace.spell], ?_⟩
      rw [firstStep_append_spell hslash hchars, String.ofList_toList]
      exact ⟨hchars, goesBy_iff.mp hname⟩

end

/-- A namespace names the container of the next segment after the prefix, or the one that is left
of a segment which begins like the last one of the prefix. The containers are those of whole
segments exactly if no segment stands there that goes on after the last one of the prefix. -/
theorem names_next_segment_iff (text : String)
    (hlead : ∀ segment ∈ front ++ [last], Path.PlainStep segment) :
    (∀ ref, classify? (Namespace.parse text).display (Namespace.display ⟨front ++ [last]⟩) =
        some ref ↔ NextIn (Namespace.parse text).segments (front ++ [last]) ref ∨
          WithinLast (Namespace.parse text).segments front last ref) ∧
    ((∀ ref, classify? (Namespace.parse text).display (Namespace.display ⟨front ++ [last]⟩) =
        some ref ↔ NextIn (Namespace.parse text).segments (front ++ [last]) ref) ↔
      ∀ ref, ¬ WithinLast (Namespace.parse text).segments front last ref) := by
  have hnames (ref : ContainerRef) :
      classify? (Namespace.parse text).display (Namespace.display ⟨front ++ [last]⟩) =
        some ref ↔ _ :=
    classify?_display_eq_some_iff (fun _ => Namespace.plainStep_of_mem_parse) hlead
  refine ⟨hnames, fun hnext ref hwithin => ?_, fun hnone ref => ?_⟩
  · exact not_nextIn_of_withinLast hwithin ((hnext ref).mp ((hnames ref).mpr (.inr hwithin)))
  · rw [hnames]
    exact or_iff_left (hnone ref)

end

/-- Where the prefix ends with a segment, the next one names the container, however the slashes are
placed; and the host has a name of its own. -/
theorem names_next_segment_whole :
    classify? (Namespace.parse "intel//docker/abc/cpu/").display "/intel/docker" =
        some ⟨"abc", "/abc"⟩ ∧
      classify? (Namespace.parse "/intel/docker/root/cpu").display "/intel/docker" =
        some ⟨"/", "/"⟩ := by
  have hlead : ∀ segment ∈ ["intel"] ++ ["docker"], segment ≠ "" ∧ '/' ∉ segment.toList := by
    decide +kernel
  have hsegments : (Namespace.parse "intel//docker/abc/cpu/").segments =
      ["intel", "docker", "abc", "cpu"] ∧
      (Namespace.parse "/intel/docker/root/cpu").segments =
        ["intel", "docker", "root", "cpu"] := by decide +kernel
  have hlast : Namespace.display ⟨["intel"] ++ ["docker"]⟩ = "/intel/docker" := by decide +kernel
  rw [← hlast]
  refine ⟨((names_next_segment_iff _ hlead).1 _).mpr (.inl ?_),
    ((names_next_segment_iff _ hlead).1 _).mpr (.inl ?_)⟩
  · exact ⟨"abc", ["cpu"], hsegments.1, by simp [GoesBy]⟩
  · exact ⟨"root", ["cpu"], hsegments.2, by simp [GoesBy]⟩

/-- A namespace whose second segment merely begins like that of the prefix names a container,
although the prefix is not among its segments. -/
theorem longer_segment_names_rest :
    classify? (Namespace.parse "/intel/dockerabc/cpu").display
        (Namespace.display ⟨["intel", "docker"]⟩) = some ⟨"abc", "/abc"⟩ ∧
      ¬ ["intel", "docker"] <+: (Namespace.parse "/intel/dockerabc/cpu").segments := by
  decide +kernel

end ContainerRef

end ContainerFeed
