import ContainerFeed.Proofs.KeyedLookup
import ContainerFeed.Proofs.Numerals
import ContainerFeed.Template.Table
import Mathlib.Data.List.Perm.Basic

/-!
# What a mapping table finds

A table is filled spec by spec, and each spec after the first with its source goes under an alias
key that the first one remembers. As long as no source looks like an alias key, no spec gets lost,
and a namespace that one source matches finds all specs with this source.
-/

namespace ContainerFeed

namespace Keyed

variable {α β : Type}

/-- A value under a new key joins the others. -/
theorem values_insert_of_none {key : String} {entries : List (String × α)}
    (h : get? key entries = none) (value : α) :
    (values (insert key value entries)).Perm (value :: values entries) := by
  induction entries with
  | nil => rfl
  | cons entry rest ih =>
    obtain ⟨k, v⟩ := entry
    have hne : k ≠ key := fun heq => by simp [get?, heq] at h
    rw [insert, if_neg hne]
    split
    · rfl
    · have hrest := ih (by simpa [get?, hne] using h)
      exact (hrest.cons v).trans (.swap value v (values rest))

/-- A value in place of another one is not noticed where both look the same. -/
theorem map_values_insert_of_some {f : α → β} {key : String} {value old : α}
    {entries : List (String × α)} (hasc : Ascending entries) (h : get? key entries = some old)
    (hsame : f value = f old) :
    (values (insert key value entries)).map f = (values entries).map f := by
  induction entries with
  | nil => simp [get?] at h
  | cons entry rest ih =>
    obtain ⟨k, v⟩ := entry
    obtain ⟨hfirst, hasc⟩ := List.pairwise_cons.mp hasc
    by_cases hk : k = key
    · obtain rfl : v = old := by simpa [get?, hk] using h
      simp [insert, hk, values, hsame]
    · have hrest : get? key rest = some old := by simpa [get?, hk] using h
      have hlt : ¬ key < k := String.lt_asymm (hfirst _ (mem_of_get? hrest))
      rw [insert, if_neg hk, if_neg hlt]
      simpa [values] using ih hasc hrest

end Keyed

namespace Template

/-- The specs with their aliases left out. -/
def Spec.bare (spec : Spec) : Spec :=
  { spec with aliases := [] }

/-- A spec applies to the namespaces that end with its source. -/
def Spec.appliesTo (spec : Spec) (namespaceText : String) : Bool :=
  spec.source.toList.isSuffixOf namespaceText.toList

namespace Table

/-- A text that begins like an alias key. -/
def LooksAlias (text : String) : Prop :=
  "alias#".toList <+: text.toList

instance (text : String) : Decidable (LooksAlias text) :=
  inferInstanceAs (Decidable ("alias#".toList <+: text.toList))

/-- An alias key looks like one. -/
theorem looksAlias_aliasKey (number : Nat) : LooksAlias (aliasKey number) :=
  ⟨Text.natDigits number, by simp [aliasKey]⟩

/-- Different numbers make different alias keys. -/
theorem aliasKey_injective {m n : Nat} (h : aliasKey m = aliasKey n) : m = n := by
  have hdigits := congrArg String.toList h
  simp only [aliasKey, String.toList_append, String.toList_ofList, List.append_cancel_left_eq]
    at hdigits
  exact Text.natDigits_injective hdigits

/-- A new alias changes nothing but the aliases. -/
@[simp]
theorem bare_addAlias (spec : Spec) (key : String) : (addAlias spec key).bare = spec.bare :=
  rfl

/-- Every spec stands under its source, or under an alias key that the spec under its source
remembers; and what that one remembers are specs with its source. -/
structure Sound (table : Table) : Prop where
  ascending : Keyed.Ascending table.entries
  plain : ∀ key spec, table.get? key = some spec → ¬ LooksAlias spec.source
  known : ∀ key spec, table.get? key = some spec → key = spec.source ∨
    ∃ number ≤ table.aliasCount, key = aliasKey number ∧
      ∃ first, table.get? spec.source = some first ∧ key ∈ first.aliases
  remembered : ∀ key first, table.get? key = some first → key = first.source →
    ∀ other ∈ first.aliases, ∃ spec, table.get? other = some spec ∧ spec.source = first.source

variable {table : Table} {spec : Spec}

/-- An empty table is sound. -/
theorem sound_empty : Sound empty where
  ascending := Keyed.ascending_nil
  plain _ _ h := by simp [get?, empty, Keyed.get?] at h
  known _ _ h := by simp [get?, empty, Keyed.get?] at h
  remembered _ _ h := by simp [get?, empty, Keyed.get?] at h

/-- Under a key that is no alias stands a spec with this source. -/
theorem Sound.source_of_get? (h : table.Sound) {key : String} (hkey : ¬ LooksAlias key)
    (hget : table.get? key = some spec) : spec.source = key := by
  rcases h.known key spec hget with heq | ⟨number, _, rfl, _⟩
  · exact heq.symm
  · exact absurd (looksAlias_aliasKey number) hkey

/-- The next alias key is free. -/
theorem Sound.get?_next (h : table.Sound) :
    table.get? (aliasKey (table.aliasCount + 1)) = none := by
  cases hget : table.get? (aliasKey (table.aliasCount + 1)) with
  | none => rfl
  | some found =>
    rcases h.known _ found hget with heq | ⟨number, hle, heq, _⟩
    · exact absurd (heq ▸ looksAlias_aliasKey _) (h.plain _ found hget)
    · have hnumber := aliasKey_injective heq
      omega

/-- The first spec of a source is entered under it. -/
theorem register_of_none (h : table.get? spec.source = none) :
    table.register spec =
      { table with entries := Keyed.insert spec.source spec table.entries } := by
  simp only [register, h]

/-- A further spec of a source is entered under an alias key, which the first one remembers. -/
theorem register_of_some {first : Spec} (h : table.get? spec.source = some first) :
    table.register spec =
      ⟨Keyed.insert (aliasKey (table.aliasCount + 1)) spec (Keyed.insert spec.source
        (addAlias first (aliasKey (table.aliasCount + 1))) table.entries),
        table.aliasCount + 1⟩ := by
  simp only [register, h]

/-- Entering a spec keeps the keys of the table in order. -/
theorem ascending_register (h : Keyed.Ascending table.entries) :
    Keyed.Ascending (table.register spec).entries := by
  cases hget : table.get? spec.source with
  | none =>
    rw [register_of_none hget]
    exact Keyed.ascending_insert _ _ h
  | some first =>
    rw [register_of_some hget]
    exact Keyed.ascending_insert _ _ (Keyed.ascending_insert _ _ h)

/-- Entering a spec never lowers the number of aliases. -/
theorem aliasCount_le_register (table : Table) (spec : Spec) :
    table.aliasCount ≤ (table.register spec).aliasCount := by
  cases hget : table.get? spec.source with
  | none => simp [register_of_none hget]
  | some first => simp [register_of_some hget]

/-- The keys of a table after a spec has been entered under its own source. -/
theorem get?_register_of_none (hfree : table.get? spec.source = none) (key : String) :
    (table.register spec).get? key =
      if key = spec.source then some spec else table.get? key := by
  rw [register_of_none hfree]
  split
  · rename_i hkey
    rw [hkey]
    exact Keyed.get?_insert_self ..
  · rename_i hkey
    exact Keyed.get?_insert_of_ne _ _ hkey

/-- The keys of a table after a spec has been entered as an alias. -/
theorem get?_register_of_some {first : Spec} (htaken : table.get? spec.source = some first)
    (key : String) :
    (table.register spec).get? key =
      if key = aliasKey (table.aliasCount + 1) then some spec
      else if key = spec.source then some (addAlias first (aliasKey (table.aliasCount + 1)))
      else table.get? key := by
  rw [register_of_some htaken]
  split
  · rename_i hkey
    rw [hkey]
    exact Keyed.get?_insert_self ..
  · rename_i hnew
    refine (Keyed.get?_insert_of_ne _ _ hnew).trans ?_
    split
    · rename_i hkey
      rw [hkey]
      exact Keyed.get?_insert_self ..
    · rename_i hkey
      exact Keyed.get?_insert_of_ne _ _ hkey

/-- The key that a spec is entered under. -/
def slot (table : Table) (spec : Spec) : String :=
  if (table.get? spec.source).isSome then aliasKey (table.aliasCount + 1) else spec.source

/-- Aliases apart, a spec that is entered changes what stands under one key, its slot. -/
theorem bare_get?_register (table : Table) (spec : Spec) (key : String) :
    ((table.register spec).get? key).map Spec.bare =
      if key = table.slot spec then some spec.bare else (table.get? key).map Spec.bare := by
  unfold slot
  cases hget : table.get? spec.source with
  | none =>
    rw [get?_register_of_none hget]
    by_cases hkey : key = spec.source <;> simp [hkey]
  | some first =>
    rw [get?_register_of_some hget]
    by_cases hnew : key = aliasKey (table.aliasCount + 1)
    · simp [hnew]
    · rw [if_neg hnew, Option.isSome_some, if_pos rfl, if_neg hnew]
      by_cases hkey : key = spec.source
      · rw [if_pos hkey, hkey, hget, Option.map_some, Option.map_some, bare_addAlias]
      · rw [if_neg hkey]

/-- In a sound table every slot is free. -/
theorem Sound.get?_slot (h : table.Sound) (spec : Spec) : table.get? (table.slot spec) = none := by
  unfold slot
  split
  · exact h.get?_next
  · rename_i hfree
    simpa using hfree

/-- What has been entered before stays under its key, and remembers what it did. -/
theorem Sound.exists_get?_register (h : table.Sound) (added : Spec) {key : String}
    {old : Spec} (hold : table.get? key = some old) :
    ∃ kept, (table.register added).get? key = some kept ∧ kept.source = old.source ∧
      ∀ other ∈ old.aliases, other ∈ kept.aliases := by
  cases hget : table.get? added.source with
  | none =>
    have hkey : key ≠ added.source := fun heq => by simp [heq, hget] at hold
    exact ⟨old, by rw [get?_register_of_none hget, if_neg hkey, hold], rfl, fun _ => id⟩
  | some first =>
    have hnew : key ≠ aliasKey (table.aliasCount + 1) :=
      fun heq => by simp [heq, h.get?_next] at hold
    rw [get?_register_of_some hget, if_neg hnew]
    by_cases hkey : key = added.source
    · obtain rfl : first = old := by simpa [hkey, hget] using hold
      exact ⟨_, if_pos hkey, rfl, fun other hother => by simp [addAlias, hother]⟩
    · exact ⟨old, by rw [if_neg hkey, hold], rfl, fun _ => id⟩

/-- What stands in a table after a spec has been entered: this spec, under its source or under an
alias key that is remembered there; or what has stood there before, which may remember the new
alias if it has the same source. -/
theorem Sound.get?_register_cases (h : table.Sound) (hplain : ¬ LooksAlias spec.source)
    {key : String} {found : Spec} (hfound : (table.register spec).get? key = some found) :
    (found = spec ∧ (key = spec.source ∨ ∃ number ≤ (table.register spec).aliasCount,
      key = aliasKey number ∧ ∃ first, (table.register spec).get? spec.source = some first ∧
        key ∈ first.aliases)) ∨
    ∃ old, table.get? key = some old ∧ found.source = old.source ∧
      ∀ other ∈ found.aliases, other ∈ old.aliases ∨
        (table.register spec).get? other = some spec ∧ old.source = spec.source := by
  cases hget : table.get? spec.source with
  | none =>
    rw [get?_register_of_none hget] at hfound
    split at hfound
    · rename_i hkey
      exact .inl ⟨(Option.some.inj hfound).symm, .inl hkey⟩
    · exact .inr ⟨found, hfound, rfl, fun _ => .inl⟩
  | some first =>
    have hsource : first.source = spec.source := h.source_of_get? hplain hget
    have hne : spec.source ≠ aliasKey (table.aliasCount + 1) :=
      fun heq => hplain (heq ▸ looksAlias_aliasKey _)
    have hlookup := get?_register_of_some hget
    have hcount : (table.register spec).aliasCount = table.aliasCount + 1 := by
      rw [register_of_some hget]
    by_cases hnew : key = aliasKey (table.aliasCount + 1)
    · obtain rfl : spec = found := by simpa [hlookup, hnew] using hfound
      have hnoted : (table.register spec).get? spec.source =
          some (addAlias first (aliasKey (table.aliasCount + 1))) := by
        rw [hlookup, if_neg hne, if_pos rfl]
      exact .inl ⟨rfl, .inr ⟨_, hcount ▸ le_refl _, hnew, _, hnoted, by simp [addAlias, hnew]⟩⟩
    by_cases hkey : key = spec.source
    · obtain rfl : addAlias first (aliasKey (table.aliasCount + 1)) = found := by
        simpa [hlookup, hnew, hkey, hne] using hfound
      refine .inr ⟨first, hkey ▸ hget, rfl, fun other hother => ?_⟩
      rcases List.mem_append.mp hother with hother | hother
      · exact .inl hother
      · rw [List.mem_singleton.mp hother]
        exact .inr ⟨by rw [hlookup, if_pos rfl], hsource⟩
    · exact .inr ⟨found, by simpa [hlookup, hnew, hkey] using hfound, rfl, fun _ => .inl⟩

/-- Entering a spec keeps a table sound. -/
theorem Sound.register (h : table.Sound) (hplain : ¬ LooksAlias spec.source)
    (haliases : spec.aliases = []) : (table.register spec).Sound := by
  refine ⟨ascending_register h.ascending, fun key found hfound => ?_,
    fun key found hfound => ?_, fun key found hfound hkey other hother => ?_⟩ <;>
    obtain ⟨rfl, hplace⟩ | ⟨old, hold, hsource, hremembers⟩ := h.get?_register_cases hplain hfound
  · exact hplain
  · exact hsource ▸ h.plain key old hold
  · exact hplace
  · rw [hsource]
    refine (h.known key old hold).imp id ?_
    rintro ⟨number, hle, rfl, first, hfirst, hmem⟩
    obtain ⟨kept, hget, _, haliases⟩ := h.exists_get?_register spec hfirst
    exact ⟨number, hle.trans (aliasCount_le_register table spec), rfl, kept, hget, haliases _ hmem⟩
  · simp [haliases] at hother
  · rcases hremembers other hother with hother | ⟨hnew, hsame⟩
    · obtain ⟨member, hmember, heq⟩ := h.remembered key old hold (hkey.trans hsource) other hother
      obtain ⟨kept, hget, hkept, _⟩ := h.exists_get?_register spec hmember
      exact ⟨kept, hget, hkept.trans (heq.trans hsource.symm)⟩
    · exact ⟨spec, hnew, hsame.symm.trans hsource.symm⟩

/-- Entering a spec adds it to the others, whose aliases are all that may change, when the key that
it goes under is free. -/
theorem bare_register (hasc : Keyed.Ascending table.entries)
    (hfree : table.get? spec.source = none ∨
      table.get? (aliasKey (table.aliasCount + 1)) = none) :
    ((table.register spec).specs.map Spec.bare).Perm
      (spec.bare :: table.specs.map Spec.bare) := by
  cases hget : table.get? spec.source with
  | none =>
    rw [register_of_none hget]
    exact (Keyed.values_insert_of_none hget spec).map Spec.bare
  | some first =>
    rw [register_of_some hget]
    have hnext := hfree.resolve_left (by simp [hget])
    have hne : aliasKey (table.aliasCount + 1) ≠ spec.source := by
      intro heq
      rw [heq, hget] at hnext
      simp at hnext
    have hfree : Keyed.get? (aliasKey (table.aliasCount + 1)) (Keyed.insert spec.source
        (addAlias first (aliasKey (table.aliasCount + 1))) table.entries) = none :=
      (Keyed.get?_insert_of_ne _ _ hne).trans hnext
    have hnoted := Keyed.map_values_insert_of_some hasc hget
      (bare_addAlias first (aliasKey (table.aliasCount + 1)))
    have hadded := (Keyed.values_insert_of_none hfree spec).map Spec.bare
    rwa [List.map_cons, hnoted] at hadded

private theorem sound_foldl {specs : List Spec} (htable : table.Sound)
    (h : ∀ spec ∈ specs, ¬ LooksAlias spec.source ∧ spec.aliases = []) :
    (specs.foldl Table.register table).Sound ∧
      ((specs.foldl Table.register table).specs.map Spec.bare).Perm
        (table.specs.map Spec.bare ++ specs) := by
  induction specs generalizing table with
  | nil => exact ⟨htable, by simp⟩
  | cons spec rest ih =>
    obtain ⟨⟨hplain, haliases⟩, hrest⟩ := List.forall_mem_cons.mp h
    obtain ⟨hsound, hperm⟩ := ih (htable.register hplain haliases) hrest
    refine ⟨hsound, hperm.trans ?_⟩
    have hbare : spec.bare = spec := by
      rw [Spec.bare, ← haliases]
    have hspec : ((table.register spec).specs.map Spec.bare).Perm
        (spec :: table.specs.map Spec.bare) :=
      hbare ▸ bare_register htable.ascending (.inr htable.get?_next)
    exact (hspec.append_right rest).trans List.perm_middle.symm

/-- The table of some specs is sound, and has them all. -/
theorem sound_ofSpecs {specs : List Spec}
    (h : ∀ spec ∈ specs, ¬ LooksAlias spec.source ∧ spec.aliases = []) :
    (ofSpecs specs).Sound ∧ ((ofSpecs specs).specs.map Spec.bare).Perm specs :=
  sound_foldl sound_empty h

/-! ## What a namespace finds -/

variable {namespaceText : String} {group : List Spec}

/-- A namespace finds a spec under its own source, and what that spec remembers. -/
theorem resolve?_eq_some_iff (h : table.Sound) :
    table.resolve? namespaceText = some group ↔
      ∃ entry, table.entries.find? (matchesNamespace namespaceText) = some entry ∧
        table.get? entry.2.source = some entry.2 ∧ entry.2.appliesTo namespaceText ∧
        group = entry.2 :: entry.2.aliases.filterMap table.get? := by
  simp only [resolve?, Option.map_eq_some_iff]
  constructor
  · rintro ⟨entry, hfind, rfl⟩
    obtain ⟨hsource, hsuffix⟩ : entry.1 = entry.2.source ∧
        entry.1.toList.isSuffixOf namespaceText.toList = true := by
      simpa [matchesNamespace] using List.find?_some hfind
    have hget := Keyed.get?_of_mem h.ascending (List.mem_of_find?_eq_some hfind)
    exact ⟨entry, hfind, hsource ▸ hget, by rwa [hsource] at hsuffix, rfl⟩
  · rintro ⟨entry, hfind, _, _, rfl⟩
    exact ⟨entry, hfind, rfl⟩

/-- All that a namespace finds are specs of the table that apply to it. -/
theorem Sound.of_mem_resolve? (h : table.Sound)
    (hresolve : table.resolve? namespaceText = some group) {spec : Spec} (hspec : spec ∈ group) :
    spec ∈ table.specs ∧ spec.appliesTo namespaceText := by
  obtain ⟨entry, _, hget, happlies, rfl⟩ := (resolve?_eq_some_iff h).mp hresolve
  rcases List.mem_cons.mp hspec with rfl | hspec
  · exact ⟨List.mem_map.mpr ⟨_, Keyed.mem_of_get? hget, rfl⟩, happlies⟩
  · obtain ⟨other, hother, hspec⟩ := List.mem_filterMap.mp hspec
    obtain ⟨found, hfound, hsource⟩ := h.remembered _ _ hget rfl other hother
    obtain rfl : found = spec := Option.some.inj (hfound.symm.trans hspec)
    refine ⟨List.mem_map.mpr ⟨_, Keyed.mem_of_get? hfound, rfl⟩, ?_⟩
    rwa [Spec.appliesTo, hsource]

/-- Where the specs that apply to a namespace have one source, the namespace finds them all. -/
theorem Sound.mem_resolve? (h : table.Sound) {spec : Spec} (hspec : spec ∈ table.specs)
    (happlies : spec.appliesTo namespaceText)
    (hone : ∀ other ∈ table.specs, other.appliesTo namespaceText → other.source = spec.source) :
    ∃ group, table.resolve? namespaceText = some group ∧ spec ∈ group := by
  obtain ⟨⟨key, spec⟩, hentry, rfl⟩ := List.mem_map.mp hspec
  have hget : table.get? key = some spec := Keyed.get?_of_mem h.ascending hentry
  obtain ⟨first, hfirst, hmem⟩ : ∃ first, table.get? spec.source = some first ∧
      (first = spec ∨ key ∈ first.aliases) := by
    rcases h.known key spec hget with rfl | ⟨_, _, _, first, hfirst, hmem⟩
    · exact ⟨spec, hget, .inl rfl⟩
    · exact ⟨first, hfirst, .inr hmem⟩
  have hsource := h.source_of_get? (h.plain key spec hget) hfirst
  cases hfind : table.entries.find? (matchesNamespace namespaceText) with
  | none =>
    have hnone := List.find?_eq_none.mp hfind _ (Keyed.mem_of_get? hfirst)
    refine absurd ?_ hnone
    simpa [matchesNamespace, hsource, Spec.appliesTo] using happlies
  | some entry =>
    have hresolve : table.resolve? namespaceText =
        some (entry.2 :: entry.2.aliases.filterMap table.get?) := by
      simp only [resolve?, hfind, Option.map_some]
    refine ⟨_, hresolve, ?_⟩
    obtain ⟨found, hfound, hgetentry, hentryapplies, _⟩ := (resolve?_eq_some_iff h).mp hresolve
    obtain rfl : entry = found := Option.some.inj (hfind.symm.trans hfound)
    have hentrymem : entry.2 ∈ table.specs :=
      List.mem_map.mpr ⟨entry, List.mem_of_find?_eq_some hfind, rfl⟩
    have hsame : entry.2.source = spec.source := hone _ hentrymem hentryapplies
    obtain rfl : entry.2 = first := by
      rw [hsame, hfirst] at hgetentry
      exact (Option.some.inj hgetentry).symm
    rcases hmem with heq | hmem
    · exact heq ▸ List.mem_cons_self
    · exact List.mem_cons_of_mem _ (List.mem_filterMap.mpr ⟨key, hmem, hget⟩)

/-! ## Tables with any sources -/

/-- The specs that a table has for a namespace are among all its specs. -/
theorem mem_specs_of_resolve? {namespaceText : String} {group : List Spec}
    (h : table.resolve? namespaceText = some group) {spec : Spec} (hspec : spec ∈ group) :
    spec ∈ table.specs := by
  obtain ⟨entry, hentry, rfl⟩ := Option.map_eq_some_iff.mp h
  rcases List.mem_cons.mp hspec with rfl | halias
  · exact List.mem_map_of_mem (List.mem_of_find?_eq_some hentry)
  · obtain ⟨key, _, hkey⟩ := List.mem_filterMap.mp halias
    exact List.mem_map_of_mem (Keyed.mem_of_get? hkey)

/-- Aliases apart, a table holds what it held before a spec was entered, and that spec. -/
theorem bare_of_mem_register {added spec : Spec}
    (h : spec ∈ (table.register added).specs) :
    spec.bare = added.bare ∨ ∃ known ∈ table.specs, spec.bare = known.bare := by
  obtain ⟨⟨key, _⟩, hentry, rfl⟩ := List.mem_map.mp h
  have hknown {entry : String × Spec} (hentry : entry ∈ table.entries) :
      ∃ known ∈ table.specs, entry.2.bare = known.bare :=
    ⟨entry.2, List.mem_map_of_mem hentry, rfl⟩
  cases hfirst : table.get? added.source with
  | none =>
    rw [register_of_none hfirst] at hentry
    rcases Keyed.mem_of_mem_insert hentry with heq | hentry
    · exact .inl (congrArg (fun entry => entry.2.bare) heq)
    · exact .inr (hknown hentry)
  | some first =>
    rw [register_of_some hfirst] at hentry
    rcases Keyed.mem_of_mem_insert hentry with heq | hentry
    · exact .inl (congrArg (fun entry => entry.2.bare) heq)
    · rcases Keyed.mem_of_mem_insert hentry with heq | hentry
      · have hold := hknown (Keyed.mem_of_get? hfirst)
        rw [← bare_addAlias] at hold
        exact .inr ((congrArg (fun entry => entry.2.bare) heq) ▸ hold)
      · exact .inr (hknown hentry)

private theorem bare_of_mem_foldl {specs : List Spec} {spec : Spec}
    (h : spec ∈ (specs.foldl register table).specs) :
    (∃ entered ∈ specs, spec.bare = entered.bare) ∨
      ∃ known ∈ table.specs, spec.bare = known.bare := by
  induction specs generalizing table with
  | nil => exact .inr ⟨spec, h, rfl⟩
  | cons first rest ih =>
    rcases ih h with ⟨entered, hentered, heq⟩ | ⟨known, hknown, heq⟩
    · exact .inl ⟨entered, List.mem_cons_of_mem first hentered, heq⟩
    · rw [heq]
      rcases bare_of_mem_register hknown with hfirst | hknown
      · exact .inl ⟨first, List.mem_cons_self, hfirst⟩
      · exact .inr hknown

/-- Aliases apart, a table holds only the specs that have been entered. -/
theorem bare_of_mem_ofSpecs {specs : List Spec} {spec : Spec}
    (h : spec ∈ (Table.ofSpecs specs).specs) : ∃ entered ∈ specs, spec.bare = entered.bare := by
  rcases bare_of_mem_foldl h with hentered | ⟨known, hknown, _⟩
  · exact hentered
  · simp [Table.specs, Table.empty, Keyed.values] at hknown

end Table

end Template

end ContainerFeed
