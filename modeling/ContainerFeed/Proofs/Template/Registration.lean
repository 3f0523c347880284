import ContainerFeed.Proofs.Template.Lookup
import Mathlib.Data.List.Induction

/-!
# Entering specs with any sources

Alias keys and sources share one key space. A spec is entered under its source or, when this is
taken, under the next alias key, whether that one is free or not. So a spec is lost where the alias
key that is given out is the source of a spec that has been entered before, and only there.
-/

namespace ContainerFeed

/-- A value under a key that was free makes one entry more. -/
theorem Keyed.length_insert {α : Type} {entries : List (String × α)} (hasc : Ascending entries)
    (key : String) (value : α) :
    (insert key value entries).length =
      if get? key entries = none then entries.length + 1 else entries.length := by
  cases hget : get? key entries with
  | none =>
    have hlength := (values_insert_of_none hget value).length_eq
    simpa [values] using hlength
  | some old =>
    have hsame : (values (insert key value entries)).map (fun _ => ()) =
        (values entries).map fun _ => () := map_values_insert_of_some hasc hget rfl
    have hlength := congrArg List.length hsame
    simpa [values] using hlength

namespace Template.Table

variable {table : Table} {spec : Spec} {specs : List Spec}

/-! ## One more spec -/

/-- A spec is given an alias key when its source is taken. -/
theorem aliasCount_register (table : Table) (spec : Spec) :
    (table.register spec).aliasCount =
      if (table.get? spec.source).isSome then table.aliasCount + 1 else table.aliasCount := by
  cases hget : table.get? spec.source with
  | none => simp [register_of_none hget]
  | some first => simp [register_of_some hget]

/-- Entering a spec fills its slot, and empties no other. -/
theorem isSome_get?_register {key : String} :
    ((table.register spec).get? key).isSome ↔ key = table.slot spec ∨ (table.get? key).isSome := by
  have hbare := congrArg Option.isSome (bare_get?_register table spec key)
  rw [Option.isSome_map] at hbare
  rw [hbare]
  split <;> simp [*]

/-- After a spec has been entered its source is taken. -/
theorem isSome_get?_source (table : Table) (spec : Spec) :
    ((table.register spec).get? spec.source).isSome := by
  rw [isSome_get?_register, slot]
  by_cases htaken : (table.get? spec.source).isSome <;> simp [htaken]

/-- The table gets as many entries more as its slot was free. -/
theorem size_register (hasc : Keyed.Ascending table.entries) (spec : Spec) :
    (table.register spec).size =
      if table.get? (table.slot spec) = none then table.size + 1 else table.size := by
  unfold slot size
  cases hget : table.get? spec.source with
  | none =>
    have hfree : Keyed.get? spec.source table.entries = none := hget
    simp [register_of_none hget, Keyed.length_insert hasc, hget, hfree]
  | some first =>
    have htaken : Keyed.get? spec.source table.entries = some first := hget
    have hnoted (noted : Spec) :
        (Keyed.insert spec.source noted table.entries).length = table.entries.length := by
      simp [Keyed.length_insert hasc, htaken]
    rw [register_of_some hget, Keyed.length_insert (Keyed.ascending_insert _ _ hasc), hnoted,
      Option.isSome_some, if_pos rfl]
    by_cases hsame : aliasKey (table.aliasCount + 1) = spec.source
    · simp [hsame, hget]
    · rw [Keyed.get?_insert_of_ne _ _ hsame]
      rfl

/-- Entering a spec adds exactly one entry, under a key that the table did not have, and every other
entry keeps its source, its target and its default. -/
def Gains (table : Table) (spec : Spec) : Prop :=
  (table.register spec).size = table.size + 1 ∧
    ∃ key, table.get? key = none ∧ ∀ other, ((table.register spec).get? other).map Spec.bare =
      if other = key then some spec.bare else (table.get? other).map Spec.bare

/-- An entry is gained exactly when the slot was free. -/
theorem gains_iff (hasc : Keyed.Ascending table.entries) :
    table.Gains spec ↔ table.get? (table.slot spec) = none := by
  unfold Gains
  rw [size_register hasc]
  constructor
  · rintro ⟨hsize, -⟩
    by_contra htaken
    rw [if_neg htaken] at hsize
    omega
  · intro hfree
    exact ⟨if_pos hfree, table.slot spec, hfree, bare_get?_register table spec⟩

/-! ## All specs -/

/-- The last spec is entered after the others. -/
theorem ofSpecs_concat (specs : List Spec) (spec : Spec) :
    ofSpecs (specs ++ [spec]) = (ofSpecs specs).register spec := by
  rw [ofSpecs, List.foldl_append, List.foldl_cons, List.foldl_nil, ofSpecs]

/-- A table of specs has its keys in order. -/
theorem ascending_ofSpecs (specs : List Spec) : Keyed.Ascending (ofSpecs specs).entries := by
  induction specs using List.reverseRecOn with
  | nil => exact Keyed.ascending_nil
  | append_singleton specs spec ih =>
    rw [ofSpecs_concat]
    exact ascending_register ih

/-- Every key that a table has is kept, and alias keys are only counted up. -/
theorem ofSpecs_mono {before : List Spec} (h : before <+: specs) :
    (ofSpecs before).aliasCount ≤ (ofSpecs specs).aliasCount ∧
      ∀ key, ((ofSpecs before).get? key).isSome → ((ofSpecs specs).get? key).isSome := by
  induction specs using List.reverseRecOn with
  | nil =>
    obtain rfl := List.prefix_nil.mp h
    exact ⟨le_refl _, fun _ => id⟩
  | append_singleton specs spec ih =>
    rcases List.prefix_concat_iff.mp h with rfl | h
    · exact ⟨le_refl _, fun _ => id⟩
    · obtain ⟨hcount, hkeys⟩ := ih h
      rw [ofSpecs_concat]
      refine ⟨hcount.trans (aliasCount_le_register _ spec), fun key hkey => ?_⟩
      exact isSome_get?_register.mpr (.inr (hkeys key hkey))

/-- An alias key in a table has been given out, or it is the source of a spec that has been entered
before it could be given out. -/
theorem origin_of_aliasKey {number : Nat}
    (h : ((ofSpecs specs).get? (aliasKey number)).isSome) :
    number ≤ (ofSpecs specs).aliasCount ∨ ∃ before spec, before ++ [spec] <+: specs ∧
      spec.source = aliasKey number ∧ (ofSpecs before).aliasCount < number := by
  induction specs using List.reverseRecOn with
  | nil => simp [ofSpecs, get?, empty, Keyed.get?] at h
  | append_singleton specs spec ih =>
    have hcount := aliasCount_le_register (ofSpecs specs) spec
    rw [ofSpecs_concat] at h ⊢
    rcases isSome_get?_register.mp h with hslot | hold
    · by_cases hnumber : number ≤ ((ofSpecs specs).register spec).aliasCount
      · exact .inl hnumber
      · unfold slot at hslot
        split at hslot
        · rename_i htaken
          rw [aliasCount_register, if_pos htaken, aliasKey_injective hslot] at hnumber
          exact absurd (le_refl _) hnumber
        · exact .inr ⟨specs, spec, List.prefix_refl _, hslot.symm, by omega⟩
    · rcases ih hold with hgiven | ⟨before, first, hinitial, hsource, hlt⟩
      · exact .inl (hgiven.trans hcount)
      · exact .inr ⟨before, first, hinitial.trans (List.prefix_append _ _), hsource, hlt⟩

/-- Every spec of a list finds its slot free when it is entered. -/
def SlotsFree (specs : List Spec) : Prop :=
  ∀ before spec, before ++ [spec] <+: specs →
    (ofSpecs before).get? ((ofSpecs before).slot spec) = none

/-- Slots are free when they are for the first specs and then for the last one. -/
theorem slotsFree_concat_iff :
    SlotsFree (specs ++ [spec]) ↔
      SlotsFree specs ∧ (ofSpecs specs).get? ((ofSpecs specs).slot spec) = none := by
  constructor
  · intro h
    exact ⟨fun before other hinitial => h before other (hinitial.trans (List.prefix_append _ _)),
      h specs spec (List.prefix_refl _)⟩
  · rintro ⟨hearlier, hlast⟩ before other hinitial
    rcases List.prefix_concat_iff.mp hinitial with heq | hinitial
    · obtain ⟨rfl, rfl⟩ := List.append_singleton_inj.mp heq
      exact hlast
    · exact hearlier before other hinitial

/-- A table has as many entries as specs have been entered exactly if every spec found its slot
free; otherwise it has fewer. -/
theorem size_ofSpecs (specs : List Spec) :
    (ofSpecs specs).size ≤ specs.length ∧
      ((ofSpecs specs).size = specs.length ↔ SlotsFree specs) := by
  induction specs using List.reverseRecOn with
  | nil => exact ⟨le_refl _, by simp [SlotsFree, ofSpecs, size, empty]⟩
  | append_singleton specs spec ih =>
    obtain ⟨hle, hiff⟩ := ih
    rw [slotsFree_concat_iff, ← hiff, ofSpecs_concat, size_register (ascending_ofSpecs specs),
      List.length_append, List.length_singleton]
    split
    · rename_i hfree
      simp [hfree, hle]
    · rename_i htaken
      simp only [htaken, and_false, iff_false]
      omega

/-- When every spec finds its slot free, the table holds them all, aliases apart. -/
theorem SlotsFree.perm (h : SlotsFree specs) :
    ((ofSpecs specs).specs.map Spec.bare).Perm (specs.map Spec.bare) := by
  induction specs using List.reverseRecOn with
  | nil => rfl
  | append_singleton specs spec ih =>
    obtain ⟨hearlier, hlast⟩ := slotsFree_concat_iff.mp h
    have hfree : (ofSpecs specs).get? spec.source = none ∨
        (ofSpecs specs).get? (aliasKey ((ofSpecs specs).aliasCount + 1)) = none := by
      unfold slot at hlast
      split at hlast
      · exact .inr hlast
      · exact .inl hlast
    rw [ofSpecs_concat, List.map_append]
    refine (bare_register (ascending_ofSpecs specs) hfree).trans ?_
    exact ((ih hearlier).cons spec.bare).trans (List.perm_append_singleton _ _).symm

/-! ## When nothing is lost -/

/-- No alias key is given out after a spec with just this source has been entered. -/
def KeysApart (specs : List Spec) : Prop :=
  ∀ before spec, before ++ [spec] <+: specs → ∀ number, spec.source = aliasKey number →
    number ≤ (ofSpecs before).aliasCount ∨ (ofSpecs specs).aliasCount < number

/-- An alias key that a table has, or that is the source of the spec that is entered, is not given
out to a spec that finds its slot free. -/
theorem aliasCount_register_lt {number : Nat} (hfree : table.get? (table.slot spec) = none)
    (hlt : table.aliasCount < number)
    (hheld : (table.get? (aliasKey number)).isSome ∨ spec.source = aliasKey number) :
    (table.register spec).aliasCount < number := by
  rw [aliasCount_register]
  split
  · rename_i htaken
    have htable : (table.get? (aliasKey number)).isSome := hheld.elim id fun heq => heq ▸ htaken
    have hne : table.aliasCount + 1 ≠ number := by
      rintro rfl
      rw [slot, if_pos htaken] at hfree
      simp [hfree] at htable
    omega
  · exact hlt

/-- When every spec finds its slot free, an alias key that is the source of an entered spec is not
given out any more. -/
theorem SlotsFree.aliasCount_lt {before : List Spec} {number : Nat} (h : SlotsFree specs)
    (hinitial : before ++ [spec] <+: specs) (hsource : spec.source = aliasKey number)
    (hlt : (ofSpecs before).aliasCount < number) : (ofSpecs specs).aliasCount < number := by
  induction specs using List.reverseRecOn with
  | nil => simp at hinitial
  | append_singleton specs last ih =>
    obtain ⟨hearlier, hlast⟩ := slotsFree_concat_iff.mp h
    rw [ofSpecs_concat]
    rcases List.prefix_concat_iff.mp hinitial with heq | hinitial
    · obtain ⟨rfl, rfl⟩ := List.append_singleton_inj.mp heq
      exact aliasCount_register_lt hlast hlt (.inr hsource)
    · have hentered : ((ofSpecs (before ++ [spec])).get? (aliasKey number)).isSome := by
        rw [ofSpecs_concat, ← hsource]
        exact isSome_get?_source (ofSpecs before) spec
      exact aliasCount_register_lt hlast (ih hearlier hinitial)
        (.inl ((ofSpecs_mono hinitial).2 _ hentered))

/-- Every spec finds its slot free exactly if no alias key is given out that is the source of a spec
entered before. -/
theorem slotsFree_iff : SlotsFree specs ↔ KeysApart specs := by
  constructor
  · intro h before spec hinitial number hsource
    by_cases hlt : (ofSpecs before).aliasCount < number
    · exact .inr (h.aliasCount_lt hinitial hsource hlt)
    · exact .inl (Nat.not_lt.mp hlt)
  · intro h before spec hinitial
    by_contra htaken
    have hslot := Option.ne_none_iff_isSome.mp htaken
    unfold slot at hslot
    split at hslot
    case isFalse hfree => exact hfree hslot
    case isTrue hsome =>
      have hcount : (ofSpecs (before ++ [spec])).aliasCount = (ofSpecs before).aliasCount + 1 := by
        rw [ofSpecs_concat, aliasCount_register, if_pos hsome]
      have hle := (ofSpecs_mono hinitial).1
      rcases origin_of_aliasKey hslot with hgiven | ⟨earlier, first, hfirst, hsource, hlt⟩
      · omega
      · have hmore := (ofSpecs_mono hfirst).1
        have hearlier : earlier ++ [first] <+: specs :=
          hfirst.trans ((List.prefix_append _ _).trans hinitial)
        rcases h earlier first hearlier _ hsource with hgiven | hnever <;> omega

/-- A table has as many entries as specs have been entered exactly if no alias key is given out
after a spec with just this source has been entered. -/
theorem keysApart_iff_size : KeysApart specs ↔ (ofSpecs specs).size = specs.length :=
  slotsFree_iff.symm.trans (size_ofSpecs specs).2.symm

/-- However sources and alias keys mix, each spec that is entered adds exactly one entry exactly if
no alias key is given out after a spec with just this source has been entered. That is also exactly
when the table has as many entries as specs have been entered, and then it holds them all. -/
theorem nothing_lost_iff (specs : List Spec) :
    ((∀ before spec, before ++ [spec] <+: specs → (ofSpecs before).Gains spec) ↔
      KeysApart specs) ∧
    ((ofSpecs specs).size = specs.length ↔ KeysApart specs) ∧
    (KeysApart specs → ((ofSpecs specs).specs.map Spec.bare).Perm (specs.map Spec.bare)) := by
  have hgains : (∀ before spec, before ++ [spec] <+: specs → (ofSpecs before).Gains spec) ↔
      SlotsFree specs :=
    forall_congr' fun before => forall_congr' fun spec => imp_congr_right fun _ =>
      gains_iff (ascending_ofSpecs before)
  rw [hgains, ← keysApart_iff_size, ← slotsFree_iff]
  exact ⟨Iff.rfl, Iff.rfl, SlotsFree.perm⟩

/-- A spec whose source is the first alias key, and two with one source. -/
def aliasNamed : List Spec :=
  [⟨"alias#1", "/a", none, []⟩, ⟨"/rx", "/b", none, []⟩, ⟨"/rx", "/c", none, []⟩]

/-- The last of them takes the place of the first. -/
theorem aliasNamed_lost :
    (ofSpecs aliasNamed).size = 2 ∧ (∀ spec ∈ (ofSpecs aliasNamed).specs, spec.target ≠ "/a") ∧
      ∃ before spec, before ++ [spec] <+: aliasNamed ∧ ¬ (ofSpecs before).Gains spec := by
  have hlost : (ofSpecs aliasNamed).size = 2 ∧
      ∀ spec ∈ (ofSpecs aliasNamed).specs, spec.target ≠ "/a" := by decide +kernel
  refine ⟨hlost.1, hlost.2, ?_⟩
  by_contra hall
  simp only [not_exists, not_and, not_not] at hall
  have hsize : (ofSpecs aliasNamed).size = aliasNamed.length :=
    (size_ofSpecs aliasNamed).2.mpr fun before spec hinitial =>
      (gains_iff (ascending_ofSpecs before)).mp (hall before spec hinitial)
  rw [hlost.1] at hsize
  exact absurd hsize (by decide)

end Template.Table

end ContainerFeed
