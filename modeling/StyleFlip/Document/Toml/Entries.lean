import StyleFlip.Document.Basic

/-!
Tables of a TOML text while they are being filled. A table remembers whether a header has named it yet and whether
dotted keys made it, because each table may be defined once only: a header may name a table that so far was only
passed through, and dotted keys may extend only tables that no header has named.
-/
namespace StyleFlip.Document.Toml

/-- What stands under a key. -/
inductive Entry where
  | value (document : Document)
  | table (implicit dotted : Bool) (members : List (Text × Entry))
  /-- An array of tables, of which the last one is being filled. -/
  | tables (earlier : List Document) (members : List (Text × Entry))

/-- The members of a table in the order in which they were written. -/
abbrev Members := List (Text × Entry)

mutual
def Entry.document : Entry → Document
  | .value document => document
  | .table _ _ members => .table (membersOf members)
  | .tables earlier members => .array (earlier ++ [.table (membersOf members)])

/-- The members of a table as a document has them. -/
def membersOf : Members → List (Option Text × Document)
  | [] => []
  | (key, entry) :: rest => (some key, entry.document) :: membersOf rest
end

/-- The members with the entry under `key` changed, or added if there is none. -/
def change (key : Text) (act : Option Entry → Option Entry) : Members → Option Members
  | [] => (act none).map fun entry => [(key, entry)]
  | (found, entry) :: rest =>
    if found = key then (act (some entry)).map fun entry => (found, entry) :: rest
    else (change key act rest).map ((found, entry) :: ·)

/-- The members after `act` at the end of a path of headers; tables on the way are made if they are missing. -/
def along (act : Members → Option Members) : List Text → Members → Option Members
  | [], members => act members
  | key :: path, members =>
    change key (fun entry => match entry with
      | none => (along act path []).map (.table true false)
      | some (.table implicit dotted inner) => (along act path inner).map (.table implicit dotted)
      | some (.tables earlier inner) => (along act path inner).map (.tables earlier)
      | some (.value _) => none) members

/-- A header that names a table: it must be new, or only passed through so far. -/
def defineTable (path : List Text) (key : Text) : Members → Option Members :=
  along (change key fun entry => match entry with
    | none => some (.table false false [])
    | some (.table true false members) => some (.table false false members)
    | some _ => none) path

/-- A header that adds a table to an array of tables. -/
def addTable (path : List Text) (key : Text) : Members → Option Members :=
  along (change key fun entry => match entry with
    | none => some (.tables [] [])
    | some (.tables earlier members) => some (.tables (earlier ++ [.table (membersOf members)]) [])
    | some _ => none) path

/-- A value under a key, which must be new; `allowed` says whether the table may be extended. -/
def define (allowed : Bool) (key : Text) (value : Document) : Members → Option Members :=
  change key fun entry => match entry with
    | none => if allowed then some (.value value) else none
    | some _ => none

/-- A value under the key at the end of a dotted path. The path may lead into the last table of an array, but may not
end there. -/
def defineDotted (allowed : Bool) (key : Text) (value : Document) : List Text → Members → Option Members
  | [], members => define allowed key value members
  | step :: path, members =>
    change step (fun entry => match entry with
      | none => (defineDotted true key value path []).map (.table true true)
      | some (.table true dotted inner) => (defineDotted true key value path inner).map (.table true dotted)
      | some (.tables earlier inner) => (defineDotted false key value path inner).map (.tables earlier)
      | some _ => none) members

end StyleFlip.Document.Toml
