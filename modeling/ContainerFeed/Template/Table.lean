import ContainerFeed.Template.Spec

/-!
# Mapping tables

A mapping table finds the specs of a region by the end of a namespace. The first spec with a
source is entered under the source itself; every further one goes under a numbered alias key that
the first one remembers. Nothing depends on the order of the entries as long as at most one
source matches a namespace.
-/

namespace ContainerFeed.Template

/-- The specs of one region, by source or alias key. -/
structure Table where
  entries : List (String × Spec)
  /-- How many alias keys have been given out. -/
  aliasCount : Nat

namespace Table

/-- The table without specs. -/
def empty : Table :=
  ⟨[], 0⟩

/-- The key of the numbered alias. -/
def aliasKey (number : Nat) : String :=
  "alias#" ++ String.ofList (Text.natDigits number)

/-- The spec entered under a key. -/
def get? (table : Table) (key : String) : Option Spec :=
  Keyed.get? key table.entries

/-- How many specs the table has. -/
def size (table : Table) : Nat :=
  table.entries.length

/-- The specs of the table. -/
def specs (table : Table) : List Spec :=
  Keyed.values table.entries

/-- A spec that remembers one more alias. -/
def addAlias (spec : Spec) (key : String) : Spec :=
  { spec with aliases := spec.aliases ++ [key] }

/-- Enters a spec: under its source when that key is free, else under the next alias key. -/
def register (table : Table) (spec : Spec) : Table :=
  match table.get? spec.source with
  | none => { table with entries := Keyed.insert spec.source spec table.entries }
  | some first =>
    let key := aliasKey (table.aliasCount + 1)
    let noted := Keyed.insert spec.source (addAlias first key) table.entries
    ⟨Keyed.insert key spec noted, table.aliasCount + 1⟩

/-- The table of a list of specs, entered from first to last. -/
def ofSpecs (specs : List Spec) : Table :=
  specs.foldl register empty

/-- Whether an entry stands under its own source and the namespace ends with it. -/
def matchesNamespace (namespaceText : String) (entry : String × Spec) : Bool :=
  entry.1 == entry.2.source && entry.1.toList.isSuffixOf namespaceText.toList

/-- The specs for a namespace: the one whose source it ends with, and its aliases. -/
def resolve? (table : Table) (namespaceText : String) : Option (List Spec) :=
  (table.entries.find? (matchesNamespace namespaceText)).map fun entry =>
    entry.2 :: entry.2.aliases.filterMap table.get?

end Table

end ContainerFeed.Template
