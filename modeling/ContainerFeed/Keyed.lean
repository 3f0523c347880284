/-!
# Entries under text keys

A keyed list holds values under text keys, smallest key first. Keys compare character by
character, which is also the order of their UTF-8 octets. Lookup after an insertion holds of
every list; that the keys ascend is a separate predicate, kept by every operation.
-/

namespace ContainerFeed

/-- Values under text keys. -/
abbrev Keyed (α : Type) := List (String × α)

namespace Keyed

variable {α : Type}

/-- The value under a key. -/
def get? (key : String) : List (String × α) → Option α
  | [] => none
  | (k, v) :: rest => if k = key then some v else get? key rest

/-- Whether a key has a value. -/
def contains (key : String) (entries : List (String × α)) : Bool :=
  (get? key entries).isSome

/-- Puts a value under a key, in place of the one it had. -/
def insert (key : String) (value : α) : List (String × α) → List (String × α)
  | [] => [(key, value)]
  | (k, v) :: rest =>
    if k = key then (key, value) :: rest
    else if key < k then (key, value) :: (k, v) :: rest
    else (k, v) :: insert key value rest

/-- Takes a key out. -/
def erase (key : String) (entries : List (String × α)) : List (String × α) :=
  entries.filter (fun entry => entry.1 ≠ key)

/-- The keys, in order. -/
def keys (entries : List (String × α)) : List String :=
  entries.map Prod.fst

/-- The values, in the order of their keys. -/
def values (entries : List (String × α)) : List α :=
  entries.map Prod.snd

/-- Puts all new entries under their keys, one after another; of two values for one key the later
stays. -/
def insertAll (entries known : List (String × α)) : List (String × α) :=
  entries.foldl (fun known entry => insert entry.1 entry.2 known) known

/-- Keyed values from entries in any order. -/
def ofList (entries : List (String × α)) : List (String × α) :=
  insertAll entries []

/-- The keys ascend, so no key occurs twice. -/
def Ascending (entries : List (String × α)) : Prop :=
  entries.Pairwise (fun a b => a.1 < b.1)

/-- A value is found under the key that it was put under. -/
@[simp]
theorem get?_insert_self (key : String) (value : α) (entries : List (String × α)) :
    get? key (insert key value entries) = some value := by
  induction entries with
  | nil => simp [insert, get?]
  | cons entry rest ih => grind [insert, get?]

/-- Under other keys a look-up finds what it found before. -/
theorem get?_insert_of_ne {key other : String} (value : α) (entries : List (String × α))
    (h : other ≠ key) : get? other (insert key value entries) = get? other entries := by
  induction entries with
  | nil => grind [insert, get?]
  | cons entry rest ih => grind [insert, get?]

/-- Nothing is found under a key that was taken out. -/
@[simp]
theorem get?_erase_self (key : String) (entries : List (String × α)) :
    get? key (erase key entries) = none := by
  induction entries with
  | nil => rfl
  | cons entry rest ih => grind [erase, get?]

/-- What stands under other keys stays when a key is taken out. -/
theorem get?_erase_of_ne {key other : String} (entries : List (String × α))
    (h : other ≠ key) : get? other (erase key entries) = get? other entries := by
  induction entries with
  | nil => rfl
  | cons entry rest ih => grind [erase, get?]

/-- The entries after a change are the new one and some of the old ones. -/
theorem mem_of_mem_insert {key : String} {value : α} {entries : List (String × α)}
    {entry : String × α} (h : entry ∈ insert key value entries) :
    entry = (key, value) ∨ entry ∈ entries := by
  induction entries with
  | nil => simpa [insert] using h
  | cons first rest ih => grind [insert]

/-- An insertion keeps the order of the keys. -/
theorem ascending_insert {entries : List (String × α)} (key : String) (value : α)
    (h : Ascending entries) : Ascending (insert key value entries) := by
  induction entries with
  | nil => simp [insert, Ascending]
  | cons first rest ih =>
    obtain ⟨hfirst, hrest⟩ := List.pairwise_cons.1 h
    unfold insert
    split
    · exact List.pairwise_cons.2 ⟨by grind, hrest⟩
    · rename_i hne
      split
      · rename_i hlt
        refine List.pairwise_cons.2 ⟨fun e he => ?_, h⟩
        rcases List.mem_cons.1 he with rfl | he
        · exact hlt
        · exact String.lt_trans hlt (hfirst e he)
      · rename_i hle
        refine List.pairwise_cons.2 ⟨fun e he => ?_, ih hrest⟩
        rcases mem_of_mem_insert he with rfl | he
        · by_cases hlt : first.1 < key
          · exact hlt
          · exact absurd (String.le_antisymm (String.not_lt.1 hle) (String.not_lt.1 hlt)) hne
        · exact hfirst e he

/-- A removal keeps the order of the keys. -/
theorem ascending_erase {entries : List (String × α)} (key : String) (h : Ascending entries) :
    Ascending (erase key entries) :=
  List.Pairwise.filter _ h

end Keyed

end ContainerFeed
