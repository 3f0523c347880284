import ContainerFeed.Keyed
import Mathlib.Data.List.Basic

/-!
# Lookup determines a keyed list

A keyed list with ascending keys is determined by what it answers to look-ups, and look-ups do not
depend on the order of the entries. Putting a whole list of entries under their keys is seen
through look-ups as well: the new entries come first, and what they do not mention stays.
-/

namespace ContainerFeed.Keyed

variable {α β : Type}

/-- What a look-up finds is an entry. -/
theorem mem_of_get? {key : String} {value : α} {entries : List (String × α)}
    (h : get? key entries = some value) : (key, value) ∈ entries := by
  induction entries with
  | nil => simp [get?] at h
  | cons entry rest ih =>
    obtain ⟨k, v⟩ := entry
    by_cases hk : k = key
    · obtain rfl : v = value := by simpa [get?, hk] using h
      simp [hk]
    · exact List.mem_cons_of_mem _ (ih (by simpa [get?, hk] using h))

/-- A look-up finds nothing exactly when no entry has the key. -/
theorem get?_eq_none_iff {key : String} {entries : List (String × α)} :
    get? key entries = none ↔ ∀ entry ∈ entries, entry.1 ≠ key := by
  induction entries with
  | nil => simp [get?]
  | cons entry rest ih =>
    obtain ⟨k, v⟩ := entry
    by_cases hk : k = key <;> simp [get?, hk, ih]

/-- The keys are those that a look-up finds something under. -/
theorem mem_keys_iff {key : String} {entries : List (String × α)} :
    key ∈ keys entries ↔ (get? key entries).isSome := by
  rw [← Option.ne_none_iff_isSome, Ne, get?_eq_none_iff]
  simp [keys]

/-- Where no key occurs twice, a look-up finds every entry. -/
theorem get?_eq_some_iff {entries : List (String × α)} (h : (keys entries).Nodup) {key : String}
    {value : α} : get? key entries = some value ↔ (key, value) ∈ entries := by
  refine ⟨mem_of_get?, fun hmem => ?_⟩
  induction entries with
  | nil => simp at hmem
  | cons first rest ih =>
    obtain ⟨hfirst, hrest⟩ := List.nodup_cons.mp h
    rcases List.mem_cons.mp hmem with rfl | hmem
    · simp [get?]
    · have hne : first.1 ≠ key := fun heq => hfirst (heq ▸ List.mem_map_of_mem hmem)
      simpa [get?, hne] using ih hrest hmem

/-- Where no key occurs twice, look-ups do not depend on the order of the entries. -/
theorem get?_perm {entries order : List (String × α)} (h : (keys entries).Nodup)
    (hperm : order.Perm entries) (key : String) : get? key order = get? key entries := by
  have horder : (keys order).Nodup := (hperm.map Prod.fst).nodup_iff.mpr h
  ext value
  rw [get?_eq_some_iff horder, get?_eq_some_iff h, hperm.mem_iff]

/-- Whether keys ascend is told from the keys alone. -/
theorem ascending_iff_keys {entries : List (String × α)} :
    Ascending entries ↔ (keys entries).Pairwise (· < ·) := by
  rw [keys, List.pairwise_map]
  rfl

/-- Ascending keys occur once. -/
theorem nodup_keys {entries : List (String × α)} (h : Ascending entries) :
    (keys entries).Nodup := by
  refine (ascending_iff_keys.mp h).imp fun {a b} hlt heq => ?_
  exact String.lt_irrefl _ (heq ▸ hlt)

/-- Where no key occurs twice, a look-up among some of the entries finds what it would find among
all of them, unless that entry is left out. -/
theorem get?_filter {entries : List (String × α)} (h : (keys entries).Nodup)
    (kept : String × α → Bool) (key : String) :
    get? key (entries.filter kept) = (get? key entries).filter fun value => kept (key, value) := by
  have hkept : (keys (entries.filter kept)).Nodup :=
    h.sublist (List.filter_sublist.map Prod.fst)
  ext value
  rw [get?_eq_some_iff hkept, List.mem_filter, Option.filter_eq_some_iff, get?_eq_some_iff h]

/-- In a list with ascending keys every entry is found. -/
theorem get?_of_mem {entries : List (String × α)} (h : Ascending entries)
    {entry : String × α} (hmem : entry ∈ entries) : get? entry.1 entries = some entry.2 :=
  (get?_eq_some_iff (nodup_keys h)).mpr hmem

/-- In a list with ascending keys a key has one value. -/
theorem eq_of_mem {entries : List (String × α)} (h : Ascending entries) {key : String}
    {value other : α} (hvalue : (key, value) ∈ entries) (hother : (key, other) ∈ entries) :
    value = other :=
  Option.some.inj ((get?_of_mem h hvalue).symm.trans (get?_of_mem h hother))

/-- An empty list has ascending keys. -/
@[simp]
theorem ascending_nil : Ascending ([] : List (String × α)) :=
  List.Pairwise.nil

instance (entries : List (String × α)) : Decidable (Ascending entries) :=
  inferInstanceAs (Decidable (entries.Pairwise fun a b => a.1 < b.1))

private theorem head_key_le {first second : String × α} {xs ys : List (String × α)}
    (hx : Ascending (first :: xs))
    (hsame : ∀ key, get? key (first :: xs) = get? key (second :: ys)) : ¬ second.1 < first.1 := by
  intro hlt
  have hfound : get? second.1 (first :: xs) = some second.2 := by
    rw [hsame]
    simp [get?]
  rcases List.mem_cons.mp (mem_of_get? hfound) with heq | hmem
  · exact String.lt_irrefl _ (congrArg Prod.fst heq ▸ hlt)
  · exact String.lt_irrefl _ (String.lt_trans hlt ((List.pairwise_cons.mp hx).1 _ hmem))

/-- Lists with ascending keys that answer all look-ups alike are equal. -/
theorem ext_get? {xs ys : List (String × α)} (hx : Ascending xs) (hy : Ascending ys)
    (hsame : ∀ key, get? key xs = get? key ys) : xs = ys := by
  induction xs generalizing ys with
  | nil =>
    cases ys with
    | nil => rfl
    | cons second ys => simpa [get?] using hsame second.1
  | cons first xs ih =>
    cases ys with
    | nil => simpa [get?] using hsame first.1
    | cons second ys =>
      have hle := head_key_le hx hsame
      have hge := head_key_le hy fun key => (hsame key).symm
      have hkey : first.1 = second.1 :=
        String.le_antisymm (String.not_lt.mp hle) (String.not_lt.mp hge)
      have hvalue : first.2 = second.2 := by simpa [get?, hkey] using hsame first.1
      obtain rfl : first = second := Prod.ext hkey hvalue
      obtain ⟨hfirst, hxs⟩ := List.pairwise_cons.mp hx
      obtain ⟨hsecond, hys⟩ := List.pairwise_cons.mp hy
      congr 1
      refine ih hxs hys fun key => ?_
      by_cases hk : first.1 = key
      · have hnone {zs : List (String × α)} (hz : ∀ entry ∈ zs, first.1 < entry.1) :
            get? key zs = none := by
          refine get?_eq_none_iff.mpr fun entry hentry heq => ?_
          exact String.lt_irrefl _ (heq.trans hk.symm ▸ hz entry hentry)
        rw [hnone hfirst, hnone hsecond]
      · simpa [get?, hk] using hsame key

/-- A key that comes after all others goes to the end. -/
theorem insert_of_forall_lt {key : String} {entries : List (String × α)}
    (h : ∀ entry ∈ entries, entry.1 < key) (value : α) :
    insert key value entries = entries ++ [(key, value)] := by
  induction entries with
  | nil => rfl
  | cons first rest ih =>
    obtain ⟨hfirst, hrest⟩ := List.forall_mem_cons.mp h
    have hne : first.1 ≠ key := fun heq => String.lt_irrefl _ (heq ▸ hfirst)
    rw [insert, if_neg hne, if_neg (String.lt_asymm hfirst), ih hrest, List.cons_append]

/-! ## Many entries at once -/

/-- After entries with ascending keys have been put under their keys, a look-up finds the new
value, or else the known one. -/
theorem get?_insertAll {entries : List (String × α)} (h : Ascending entries) (key : String)
    (known : List (String × α)) :
    get? key (insertAll entries known) = (get? key entries).or (get? key known) := by
  induction entries generalizing known with
  | nil => rfl
  | cons entry rest ih =>
    obtain ⟨hfirst, hrest⟩ := List.pairwise_cons.mp h
    have hstep : insertAll (entry :: rest) known =
        insertAll rest (insert entry.1 entry.2 known) := rfl
    rw [hstep, ih hrest]
    by_cases hk : entry.1 = key
    · have hnone : get? key rest = none := by
        refine get?_eq_none_iff.mpr fun other hother heq => ?_
        exact String.lt_irrefl _ (heq.trans hk.symm ▸ hfirst other hother)
      rw [hnone, ← hk, get?_insert_self]
      simp [get?]
    · have hne : key ≠ entry.1 := fun heq => hk heq.symm
      simp [get?, hk, get?_insert_of_ne entry.2 known hne]

/-- Putting entries under their keys keeps the keys ascending. -/
theorem ascending_insertAll (entries : List (String × α)) {known : List (String × α)}
    (h : Ascending known) : Ascending (insertAll entries known) := by
  induction entries generalizing known with
  | nil => exact h
  | cons entry rest ih => exact ih (ascending_insert entry.1 entry.2 h)

end ContainerFeed.Keyed
