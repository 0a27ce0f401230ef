import DocTree.Yaml.Lexer

/-!
# YAML nodes

The content of a YAML text: scalars, sequences and mappings. A name given to a node stands for it
later in the text.
-/

namespace DocTree.Yaml

/-- A node of a YAML text. -/
inductive Node where
  /-- A scalar with its tag, plain or marked as text. -/
  | scalar (tag : List Char) (plain : Bool) (text : List Char)
  /-- A sequence. -/
  | sequence (items : List Node)
  /-- A mapping. -/
  | mapping (pairs : List (Node × Node))
  /-- A name, with the node that it stands for. -/
  | named (name : List Char) (target : Node)
  /-- The node that is being read: a name that stands for a node around it. -/
  | around
  deriving Inhabited

/-- The node that is left out. -/
def Node.empty (tag : List Char) : Node := .scalar tag true []

/-- A token sequence as far as it is read. -/
structure Reading where
  /-- The tokens that are left. -/
  tokens : List Token
  /-- The named nodes. -/
  names : List (List Char × Node) := []
  /-- The tag handles and what they stand for. -/
  handles : List (List Char × List Char) :=
    [(['!'], ['!']), (['!', '!'], "tag:yaml.org,2002:".toList)]

namespace Reading

/-- The token that comes. -/
def peek (r : Reading) : Option Token := r.tokens.head?

/-- The tokens behind the next one. -/
def next (r : Reading) : Reading := { r with tokens := r.tokens.tail }

/-- Names a node, if there is a name. -/
def bind (r : Reading) (name : Option (List Char)) (n : Node) : Reading :=
  match name with
  | some name => { r with names := (name, n) :: r.names }
  | none => r

/-- Reads an anchor. -/
def anchor (r : Reading) : Option (List Char) × Reading :=
  match r.peek with
  | some (.anchor name) => (some name, r.next)
  | _ => (none, r)

/-- Reads a tag. -/
def tag (r : Reading) : Option (List Char × List Char) × Reading :=
  match r.peek with
  | some (.tag handle suffix) => (some (handle, suffix), r.next)
  | _ => (none, r)

/-- The full text of a tag; fails for a handle that stands for nothing. -/
def tagText? (r : Reading) : Option (List Char × List Char) → Option (List Char)
  | none => some []
  | some ([], suffix) => some suffix
  | some (handle, suffix) => (r.handles.lookup handle).map (· ++ suffix)

/-- Reads an anchor and a tag, in any order. -/
def marks (r : Reading) : Option (Option (List Char) × List Char × Reading) :=
  let (name, r) := r.anchor
  let (tag, r) := r.tag
  let (name, r) := if name.isSome then (name, r) else r.anchor
  (r.tagText? tag).map (name, ·, r)

end Reading

mutual

/-- Reads a node. In a block, `block` is set; a sequence without an indentation of its own can stand
there if `flush` is set. -/
def readNode : Nat → (block flush : Bool) → Reading → Option (Node × Reading)
  | 0, _, _, _ => none
  | fuel + 1, block, flush, r =>
    match r.peek with
    | some (.alias name) => (r.names.lookup name).map (.named name ·, r.next)
    | _ =>
      match r.marks with
      | none => none
      | some (name, tag, r) =>
        let inner := r.bind name .around
        let whole (found : Option (Node × Reading)) : Option (Node × Reading) :=
          found.map fun (n, r) => (n, r.bind name n)
        match r.peek with
        | some .blockEntry =>
          if flush then whole (readFlush fuel inner [])
          else if name.isSome || !tag.isEmpty then whole (some (.empty tag, r))
          else none
        | some (.scalar plain text) => whole (some (.scalar tag plain text, r.next))
        | some .openBracket => whole (readFlowItems fuel inner.next [])
        | some .openBrace => whole (readFlowPairs fuel inner.next [])
        | some .blockSequence =>
          if block then whole (readItems fuel inner.next [])
          else if name.isSome || !tag.isEmpty then whole (some (.empty tag, r))
          else none
        | some .blockMapping =>
          if block then whole (readPairs fuel inner.next [])
          else if name.isSome || !tag.isEmpty then whole (some (.empty tag, r))
          else none
        | _ =>
          if name.isSome || !tag.isEmpty then whole (some (.empty tag, r)) else none

/-- Reads a node unless one of the tokens `stops` comes: then the node is left out. -/
def readUnless : Nat → (block flush : Bool) → List Token → Reading → Option (Node × Reading)
  | 0, _, _, _, _ => none
  | fuel + 1, block, flush, stops, r =>
    match r.peek with
    | none => none
    | some t => if stops.contains t then some (.empty [], r) else readNode fuel block flush r

/-- Reads the items of a block sequence; those read have the last one first. -/
def readItems : Nat → Reading → List Node → Option (Node × Reading)
  | 0, _, _ => none
  | fuel + 1, r, items =>
    match r.peek with
    | some .blockEntry =>
      match readUnless fuel true false [.blockEntry, .blockEnd] r.next with
      | some (n, r) => readItems fuel r (n :: items)
      | none => none
    | some .blockEnd => some (.sequence items.reverse, r.next)
    | _ => none

/-- Reads the items of a block sequence without an indentation of its own. -/
def readFlush : Nat → Reading → List Node → Option (Node × Reading)
  | 0, _, _ => none
  | fuel + 1, r, items =>
    match r.peek with
    | some .blockEntry =>
      match readUnless fuel true false [.blockEntry, .key, .value, .blockEnd] r.next with
      | some (n, r) => readFlush fuel r (n :: items)
      | none => none
    | some _ => some (.sequence items.reverse, r)
    | none => none

/-- Reads the pairs of a block mapping; those read have the last one first. -/
def readPairs : Nat → Reading → List (Node × Node) → Option (Node × Reading)
  | 0, _, _ => none
  | fuel + 1, r, pairs =>
    match r.peek with
    | some .key =>
      match readUnless fuel true true [.key, .value, .blockEnd] r.next with
      | none => none
      | some (k, r) =>
        match r.peek with
        | some .value =>
          match readUnless fuel true true [.key, .value, .blockEnd] r.next with
          | some (v, r) => readPairs fuel r ((k, v) :: pairs)
          | none => none
        | some _ => readPairs fuel r ((k, .empty []) :: pairs)
        | none => none
    | some .blockEnd => some (.mapping pairs.reverse, r.next)
    | _ => none

/-- Reads the items of a sequence in brackets; those read have the last one first. An item can be a
mapping of one pair. -/
def readFlowItems : Nat → Reading → List Node → Option (Node × Reading)
  | 0, _, _ => none
  | fuel + 1, r, items =>
    if r.peek == some .closeBracket then some (.sequence items.reverse, r.next)
    else if !items.isEmpty && r.peek != some .flowEntry then none
    else
      let r := if items.isEmpty then r else r.next
      match r.peek with
      | some .closeBracket => some (.sequence items.reverse, r.next)
      | some .key =>
        let r := r.next
        let stops : List Token := [.value, .flowEntry, .closeBracket]
        let key : Option (Node × Reading) :=
          match r.peek with
          | some t =>
            if stops.contains t then some (.empty [], r.next) else readNode fuel false false r
          | none => none
        match key with
        | none => none
        | some (k, r) =>
          match r.peek with
          | some .value =>
            match readUnless fuel false false [.flowEntry, .closeBracket] r.next with
            | some (v, r) => readFlowItems fuel r (.mapping [(k, v)] :: items)
            | none => none
          | some _ => readFlowItems fuel r (.mapping [(k, .empty [])] :: items)
          | none => none
      | _ =>
        match readNode fuel false false r with
        | some (n, r) => readFlowItems fuel r (n :: items)
        | none => none

/-- Reads the pairs of a mapping in braces; those read have the last one first. -/
def readFlowPairs : Nat → Reading → List (Node × Node) → Option (Node × Reading)
  | 0, _, _ => none
  | fuel + 1, r, pairs =>
    if r.peek == some .closeBrace then some (.mapping pairs.reverse, r.next)
    else if !pairs.isEmpty && r.peek != some .flowEntry then none
    else
      let r := if pairs.isEmpty then r else r.next
      match r.peek with
      | some .closeBrace => some (.mapping pairs.reverse, r.next)
      | some .key =>
        match readUnless fuel false false [.value, .flowEntry, .closeBrace] r.next with
        | none => none
        | some (k, r) =>
          match r.peek with
          | some .value =>
            match readUnless fuel false false [.flowEntry, .closeBrace] r.next with
            | some (v, r) => readFlowPairs fuel r ((k, v) :: pairs)
            | none => none
          | some _ => readFlowPairs fuel r ((k, .empty []) :: pairs)
          | none => none
      | _ =>
        match readNode fuel false false r with
        | some (k, r) => readFlowPairs fuel r ((k, .empty []) :: pairs)
        | none => none

end

/-- Reads the directives in front of a document. Only version 1.1 is known, and a directive stands
at most once. -/
def readDirectives : List Token → (version : Bool) → List (List Char × List Char) →
    Option (List Token × List (List Char × List Char))
  | .version major minor :: ts, seen, handles =>
    if seen || major != 1 || minor != 1 then none else readDirectives ts true handles
  | .tagHandle handle meaning :: ts, seen, handles =>
    if (handles.lookup handle).isSome then none
    else readDirectives ts seen (handles ++ [(handle, meaning)])
  | ts, _, handles => some (ts, handles)

/-- The number of tokens that are looked at before a document counts as complete: the one behind it
and two more. -/
def lookAhead : Nat := 3

/-- The first document of a text: nothing when there is none. -/
def document (text : List Char) : Option (Option Node) :=
  if !text.all isTextChar then none
  else
    let (ts, faulty) := tokens text
    let fuel := 3 * ts.length + 10
    let finish (found : Option (Node × Reading)) : Option (Option Node) :=
      found.bind fun (n, r) =>
        if faulty && r.tokens.length < lookAhead then none else some (some n)
    let start (rest : List Token) (handles : List (List Char × List Char)) : Reading :=
      let r : Reading := { tokens := rest }
      { r with handles := handles ++ r.handles }
    match readDirectives ts false [] with
    | none => none
    | some (rest, handles) =>
      match rest with
      | .documentStart :: rest =>
        let r := start rest handles
        match rest.head? with
        | some (.version ..) | some (.tagHandle ..) | some .documentStart | some .documentEnd
        | some .streamEnd => finish (some (.empty [], r))
        | _ => finish (readNode fuel true false r)
      | [.streamEnd] => if rest.length == ts.length then some none else none
      | _ =>
        if rest.length == ts.length then finish (readNode fuel true false (start rest handles))
        else none

end DocTree.Yaml
