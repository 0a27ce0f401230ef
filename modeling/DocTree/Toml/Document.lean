import DocTree.Keyed
import DocTree.Toml.Statement

/-!
# TOML documents

The statements of a text build up a table of tables. A table that a key only implies can be opened
once by its own head, and any other name is given a value only once.
-/

namespace DocTree.Toml

/-- What stands under a name. -/
inductive Item where
  /-- A value. -/
  | value (v : Value)
  /-- A table. -/
  | table (fields : List (List Char × Item))
  /-- A list of tables, the last one first. -/
  | tables (elements : List (List (List Char × Item)))
  deriving Inhabited

/-- The fields of a table. -/
abbrev Fields := List (List Char × Item)

/-- Sets a field, at its place or behind the others. -/
def setField (name : List Char) (item : Item) (fields : Fields) : Fields :=
  Keyed.put Prod.fst Keyed.replace (name, item) fields

/-- Changes the table at the end of a way down. In a list of tables the way leads through the last
one. Fails where there is no table on the way. -/
def modifyAt (f : Fields → Option Fields) : Key → Fields → Option Fields
  | [], fields => f fields
  | name :: rest, fields =>
    match fields.lookup name with
    | some (.table inner) =>
      (modifyAt f rest inner).map fun inner => setField name (.table inner) fields
    | some (.tables (last :: before)) =>
      (modifyAt f rest last).map fun last => setField name (.tables (last :: before)) fields
    | _ => none

/-- A document as far as its statements are taken in. -/
structure Document where
  /-- The outermost table. -/
  fields : Fields := []
  /-- The table that is open. -/
  current : Key := []
  /-- The tables that are only implied. -/
  implied : List Key := []

namespace Document

/-- Notes that a table is only implied. -/
def imply (d : Document) (key : Key) : Document := { d with implied := key :: d.implied }

/-- Is there nothing under a name in a table? -/
def isFree (d : Document) (context : Key) (name : List Char) : Bool :=
  (modifyAt (fun fields => if (fields.lookup name).isNone then some fields else none) context
    d.fields).isSome

/-- Puts an item under a name in a table. A table that is only implied stays, and is implied no
longer. With `replace` the item takes the place of what is there. -/
def put (d : Document) (replace : Bool) (context : Key) (name : List Char) (item : Item) :
    Option Document :=
  let key := context ++ [name]
  let isImplied := d.implied.contains key
  let step (fields : Fields) : Option Fields :=
    if (fields.lookup name).isNone || replace then some (setField name item fields)
    else if isImplied then some fields
    else none
  (modifyAt step context d.fields).map fun fields =>
    { d with
      fields := fields
      implied := if d.isFree context name then d.implied else d.implied.filter (· != key) }

/-- Makes the tables on the way down that are missing; they are only implied. -/
def reach : Document → (done rest : Key) → Option Document
  | d, _, [] => some d
  | d, done, name :: rest =>
    let d? :=
      if d.isFree done name then
        (modifyAt (fun fields => some (setField name (.table []) fields)) done d.fields).map
          fun fields => ({ d with fields := fields }).imply (done ++ [name])
      else some d
    d?.bind fun d => reach d (done ++ [name]) rest

/-- Opens a table. -/
def openTable (d : Document) (key : Key) : Option Document :=
  match key.getLast? with
  | none => none
  | some name =>
    (d.reach [] key.dropLast).bind fun d =>
      (d.put false key.dropLast name (.table [])).map ({ · with current := key })

/-- Opens a further table of a list of tables. -/
def openElement (d : Document) (key : Key) : Option Document :=
  match key.getLast? with
  | none => none
  | some name =>
    (d.reach [] key.dropLast).bind fun d =>
      (modifyAt
        (fun fields =>
          match fields.lookup name with
          | none => some (setField name (.tables [[]]) fields)
          | some (.tables elements) => some (setField name (.tables ([] :: elements)) fields)
          | some _ => none)
        key.dropLast d.fields).map fun fields => { d with fields := fields, current := key }

/-- Opens the tables that the names of a key imply inside the open one. -/
def openImplied : Document → Key → Option Document
  | d, [] => some d
  | d, name :: rest =>
    let key := d.current ++ [name]
    ((d.imply key).openTable key).bind fun d => d.openImplied rest

mutual

/-- Takes in the tables inside a value that stands under `name` in the open table. -/
def enter (d : Document) (name : List Char) (inList : Bool) : Value → Option Document
  | .list items => enterEach d name items
  | .table pairs =>
    let context := d.current
    let key := context ++ [name]
    let opened :=
      if inList then (d.imply key).openElement key else (d.imply key).openTable key
    opened.bind fun d =>
      (enterPairs d key pairs).map ({ · with current := context })
  | _ => some d

/-- Takes in the tables inside the items of a list. -/
def enterEach (d : Document) (name : List Char) : List Value → Option Document
  | [] => some d
  | v :: rest => (enter d name true v).bind fun d => enterEach d name rest

/-- Takes in the pairs of a table in braces, which is open as `context`. -/
def enterPairs (d : Document) (context : Key) : List (Key × Value) → Option Document
  | [] => some d
  | (key, v) :: rest =>
    match key.getLast? with
    | none => none
    | some name =>
      (({ d with current := context }).openImplied key.dropLast).bind fun d =>
        let isList := v matches .list _
        if isList && !d.isFree d.current name then none
        else
          (enter d name false v).bind fun d =>
            (d.put isList d.current name (.value v)).bind fun d => enterPairs d context rest

end

/-- Takes in a statement. -/
def take (d : Document) : Statement → Option Document
  | .table key => d.openTable key
  | .tables key => d.openElement key
  | .pair key v =>
    (enterPairs d d.current [(key, v)]).map ({ · with current := d.current })

end Document

/-- The fields of the outermost table of a text. -/
def fields? (s : List Char) : Option Fields :=
  (statements s).bind fun all =>
    (all.foldl (fun (d : Option Document) s => d.bind (·.take s)) (some {})).map Document.fields

end DocTree.Toml
