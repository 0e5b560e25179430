import ShaderGraft.Yaml.Token

/-!
From tokens to the node of a document. Of a text with several documents the first one counts, and what
comes after it is not looked at.
-/

namespace ShaderGraft.Yaml

/-- What a document consists of. The tags of collections do not matter. -/
inductive Node where
  | scalar (tag : Option (List Char)) (style : Style) (text : List Char)
  | sequence (items : List Node)
  | mapping (entries : List (Node × Node))
  /-- A reference to a node with an anchor. -/
  | reference (name : List Char) (target : Node)
  /-- The target of a reference from inside of it. -/
  | incomplete
deriving Repr

def Node.empty (tag : Option (List Char)) : Node :=
  .scalar tag .plain []

/-- Where reading tokens has come to. -/
structure Reader where
  rest : List Token
  /-- The anchors so far, the last one first. -/
  anchors : List (List Char × Node) := []

abbrev Read := StateT Reader Option

namespace Read

def peek : Read Token := do
  match (← get).rest with
  | [] | .fault :: _ => failure
  | t :: _ => return t

def advance : Read Unit :=
  modify fun r => { r with rest := r.rest.tail }

def target (name : List Char) : Read Node := do
  match (← get).anchors.find? (·.1 == name) with
  | some (_, n) => return n
  | none => failure

/-- Reads a node that has an anchor. Inside of it the node is incomplete, and an anchor of the same
name there is the later one. -/
def anchored (anchor : Option (List Char)) (body : Read Node) : Read Node := do
  match anchor with
  | none => body
  | some name =>
    let before := (← get).anchors.length
    modify fun r => { r with anchors := (name, .incomplete) :: r.anchors }
    let n ← body
    modify fun r => { r with anchors := r.anchors.set (r.anchors.length - 1 - before) (name, n) }
    return n

/-- The full text of a tag. A tag without handle is complete already. -/
def fullTag (handles : List (List Char × List Char)) (handle suffix : List Char) :
    Read (List Char) := do
  if handle.isEmpty then return suffix
  match handles.find? (·.1 == handle) with
  | some (_, start) => return start ++ suffix
  | none => failure

def tag? (handles : List (List Char × List Char)) : Read (Option (List Char)) := do
  match ← peek with
  | .tag handle suffix => do
    advance
    return some (← fullTag handles handle suffix)
  | _ => return none

def anchor? : Read (Option (List Char)) := do
  match ← peek with
  | .anchor name => do
    advance
    return some name
  | _ => return none

/-- The anchor and the tag of a node, which come in any order. -/
def properties (handles : List (List Char × List Char)) :
    Read (Option (List Char) × Option (List Char)) := do
  match ← anchor? with
  | some name => return (some name, ← tag? handles)
  | none =>
    match ← tag? handles with
    | none => return (none, none)
    | some t => return (← anchor?, some t)

/-- Where a node stands. -/
inductive Place where
  /-- Between brackets. -/
  | flow
  | block
  /-- After a key or a colon, where a sequence needs no indentation. -/
  | entry
deriving DecidableEq, Repr

mutual

def node (handles : List (List Char × List Char)) (place : Place) : (fuel : Nat) → Read Node
  | 0 => failure
  | fuel + 1 => do
    match ← peek with
    | .reference name => do
      advance
      return .reference name (← target name)
    | _ => do
      let (anchor, tag) ← properties handles
      let collection := fun (start : Read Unit) (body : Read Node) => do
        start
        anchored anchor body
      match ← peek with
      | .scalar style text => collection advance (return .scalar tag style text)
      | .flowSequenceStart => collection advance (flowSequence handles true [] fuel)
      | .flowMappingStart => collection advance (flowMapping handles true [] fuel)
      | .blockEntry =>
        if place == .entry then collection (pure ()) (indentless handles [] fuel)
        else bare anchor tag
      | .blockSequenceStart =>
        if place == .flow then bare anchor tag
        else collection advance (blockSequence handles [] fuel)
      | .blockMappingStart =>
        if place == .flow then bare anchor tag
        else collection advance (blockMapping handles [] fuel)
      | _ => bare anchor tag
where
  /-- A node that consists of an anchor or a tag only. -/
  bare (anchor tag : Option (List Char)) : Read Node :=
    if anchor.isSome || tag.isSome then anchored anchor (return .empty tag) else failure

/-- Reads a node, unless a token follows that can only stand after it. -/
def nodeUnless (handles : List (List Char × List Char)) (place : Place) (ends : List Token) :
    (fuel : Nat) → Read Node
  | 0 => failure
  | fuel + 1 => do
    if ends.contains (← peek) then return .empty none else node handles place fuel

/-- Reads the value of a key, which may be left out. -/
def valueUnless (handles : List (List Char × List Char)) (place : Place) (ends : List Token) :
    (fuel : Nat) → Read Node
  | 0 => failure
  | fuel + 1 => do
    if (← peek) == .value then
      advance
      nodeUnless handles place ends fuel
    else return .empty none

/-- Reads the rest of a sequence in a block of its own. -/
def blockSequence (handles : List (List Char × List Char)) (done : List Node) :
    (fuel : Nat) → Read Node
  | 0 => failure
  | fuel + 1 => do
    match ← peek with
    | .blockEntry => do
      advance
      let item ← nodeUnless handles .block [.blockEntry, .blockEnd] fuel
      blockSequence handles (item :: done) fuel
    | .blockEnd => do
      advance
      return .sequence done.reverse
    | _ => failure

/-- Reads the rest of a sequence that is no deeper than its key. -/
def indentless (handles : List (List Char × List Char)) (done : List Node) :
    (fuel : Nat) → Read Node
  | 0 => failure
  | fuel + 1 => do
    match ← peek with
    | .blockEntry => do
      advance
      let item ← nodeUnless handles .block [.blockEntry, .key, .value, .blockEnd] fuel
      indentless handles (item :: done) fuel
    | _ => return .sequence done.reverse

def blockMapping (handles : List (List Char × List Char)) (done : List (Node × Node)) :
    (fuel : Nat) → Read Node
  | 0 => failure
  | fuel + 1 => do
    match ← peek with
    | .key => do
      advance
      let key ← nodeUnless handles .entry [.key, .value, .blockEnd] fuel
      let value ← valueUnless handles .entry [.key, .value, .blockEnd] fuel
      blockMapping handles ((key, value) :: done) fuel
    | .blockEnd => do
      advance
      return .mapping done.reverse
    | _ => failure

/-- Reads the rest of a sequence between brackets. An item with a key is a mapping of one entry. -/
def flowSequence (handles : List (List Char × List Char)) (first : Bool) (done : List Node) :
    (fuel : Nat) → Read Node
  | 0 => failure
  | fuel + 1 => do
    if (← peek) != .flowSequenceEnd && ! first then
      if (← peek) != .flowEntry then failure
      advance
    match ← peek with
    | .flowSequenceEnd => do
      advance
      return .sequence done.reverse
    | .key => do
      advance
      let key ← flowKey handles fuel
      let value ← valueUnless handles .flow [.flowEntry, .flowSequenceEnd] fuel
      flowSequence handles false (.mapping [(key, value)] :: done) fuel
    | _ => do
      let item ← node handles .flow fuel
      flowSequence handles false (item :: done) fuel

/-- Reads the key of an entry in a sequence. If the key is left out, so is the token after it. -/
def flowKey (handles : List (List Char × List Char)) : (fuel : Nat) → Read Node
  | 0 => failure
  | fuel + 1 => do
    if [Token.value, .flowEntry, .flowSequenceEnd].contains (← peek) then
      advance
      return .empty none
    else node handles .flow fuel

def flowMapping (handles : List (List Char × List Char)) (first : Bool) (done : List (Node × Node)) :
    (fuel : Nat) → Read Node
  | 0 => failure
  | fuel + 1 => do
    if (← peek) != .flowMappingEnd && ! first then
      if (← peek) != .flowEntry then failure
      advance
    match ← peek with
    | .flowMappingEnd => do
      advance
      return .mapping done.reverse
    | .key => do
      advance
      let key ← nodeUnless handles .flow [.value, .flowEntry, .flowMappingEnd] fuel
      let value ← valueUnless handles .flow [.flowEntry, .flowMappingEnd] fuel
      flowMapping handles false ((key, value) :: done) fuel
    | _ => do
      let key ← node handles .flow fuel
      flowMapping handles false ((key, .empty none) :: done) fuel

end

/-- The handles that every document knows. -/
def standardHandles : List (List Char × List Char) :=
  [("!".toList, "!".toList), ("!!".toList, "tag:yaml.org,2002:".toList)]

/-- Reads directives. The version may be given once, and each handle may be defined once. -/
def directives (version : Bool) (handles : List (List Char × List Char)) :
    (fuel : Nat) → Read (List (List Char × List Char))
  | 0 => failure
  | fuel + 1 => do
    match ← peek with
    | .versionDirective major minor => do
      if version || major != 1 || minor != 1 then failure
      advance
      directives true handles fuel
    | .tagDirective handle start => do
      if handles.any (·.1 == handle) then failure
      advance
      directives version (handles ++ [(handle, start)]) fuel
    | _ => return handles

def document (fuel : Nat) : Read (Option Node) := do
  match ← peek with
  | .streamEnd => return none
  | .versionDirective .. | .tagDirective .. | .documentStart => do
    let handles ← directives false [] fuel
    if (← peek) != .documentStart then failure
    advance
    let root ← match ← peek with
      | .versionDirective .. | .tagDirective .. | .documentStart | .documentEnd | .streamEnd =>
        pure (.empty none)
      | _ => node (handles ++ standardHandles) .block fuel
    let _ ← peek
    return some root
  | _ => do
    let root ← node standardHandles .block fuel
    let _ ← peek
    return some root

end Read

/-- The node of the first document, if there is one. The result is `none` if the tokens make no
document. -/
def Node.ofTokens? (tokens : List Token) : Option (Option Node) :=
  ((Read.document (4 * tokens.length + 4)).run { rest := tokens }).map (·.1)

end ShaderGraft.Yaml
