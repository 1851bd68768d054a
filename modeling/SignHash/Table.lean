import SignHash.Descriptor

/-!
# Tables of components

A table holds components under identifiers, each at most once, in the order of the identifiers.
-/

namespace SignHash

/-- Components under identifiers. -/
structure Table where
  /-- The entries, in the order of their identifiers. -/
  entries : List (String × List Double)
  deriving DecidableEq

namespace Table

/-- The table without entries. -/
def empty : Table := ⟨[]⟩

/-- The entries with one put in place, instead of one with the same identifier. -/
def insertEntry (id : String) (components : List Double) :
    List (String × List Double) → List (String × List Double)
  | [] => [(id, components)]
  | (key, value) :: rest =>
    match idOrder id key with
    | .lt => (id, components) :: (key, value) :: rest
    | .eq => (id, components) :: rest
    | .gt => (key, value) :: insertEntry id components rest

/-- The table with a descriptor in it, instead of one with the same identifier. -/
def insert (t : Table) (d : Descriptor) : Table := ⟨insertEntry d.id d.components t.entries⟩

/-- The table of descriptors, the last one of each identifier. -/
def ofList (ds : List Descriptor) : Table := ds.foldl insert empty

/-- The identifiers, in their order. -/
def ids (t : Table) : List String := t.entries.map (·.1)

/-- The number of entries. -/
def size (t : Table) : Nat := t.entries.length

/-- The components under an identifier. -/
def get? (t : Table) (id : String) : Option (List Double) := t.entries.lookup id

end Table

end SignHash
