import TranslationKeys.Toml.Number

/-!
# TOML documents

A document is a sequence of key-value pairs and table headers. Values put together in place, that
is, inline tables and arrays, cannot be added to later; a table can be declared once only, and
neither a declaration nor a dotted key may reopen what the other has made. The rules are kept by
marks on the keys that were seen.
-/

namespace TranslationKeys.Toml

/-- The entries of a table. -/
abbrev Entries := List (Value × Value)

/-- The way from the root of a document to a value. -/
abbrev Key := List String

/-- Changes the table that a key leads to, making tables on the way. A key that leads through a
list goes on in its last item if `throughLists` is set. Nothing comes of a key that leads to
something else. -/
def changeAt (throughLists : Bool) (change : Entries → Option Entries) :
    Key → Entries → Option Entries
  | [], entries => change entries
  | k :: ks, entries =>
    match Value.lookup? k entries with
    | none => do
      return Value.insertEntry entries (.str k) (.map (← changeAt throughLists change ks []))
    | some (.map below) => do
      return Value.insertEntry entries (.str k) (.map (← changeAt throughLists change ks below))
    | some (.list items) =>
      match throughLists, items.getLast? with
      | true, some (.map below) => do
        let last := Value.map (← changeAt throughLists change ks below)
        return Value.insertEntry entries (.str k) (.list (items.dropLast ++ [last]))
      | _, _ => none
    | some _ => none

/-- Adds an entry unless the name is taken. -/
def addEntry (name : String) (v : Value) (entries : Entries) : Option Entries :=
  if (Value.lookup? name entries).isSome then none
  else some (entries ++ [(.str name, v)])

/-- Adds an empty table to a list of tables, making the list if need be. -/
def appendTable (name : String) (entries : Entries) : Option Entries :=
  match Value.lookup? name entries with
  | none => some (entries ++ [(.str name, .list [.map []])])
  | some (.list items) => some (Value.insertEntry entries (.str name) (.list (items ++ [.map []])))
  | some _ => none

/-- Adds a value under a key. -/
def addAt (throughLists : Bool) (key : Key) (v : Value) (entries : Entries) : Option Entries :=
  changeAt throughLists (addEntry (key.getLast?.getD "") v) key.dropLast entries

/-- Whether a value is put together from others. -/
def isCompound : Value → Bool
  | .map _ | .list _ => true
  | _ => false

/-- Whether one of the keys, or a key above it, is in a list. -/
def isWithin (keys : List Key) (key : Key) : Bool :=
  keys.any fun k => k.isPrefixOf key

/-- The result of a step that may find a rule broken. -/
def orMalformed {α : Type} : Option α → Except Fault α
  | some x => .ok x
  | none => .error .malformed

mutual

/-- A value; `fuel` bounds the depth and the number of items. -/
def readValue : Nat → List Char → Except Fault (Value × List Char)
  | 0, _ => .error .malformed
  | fuel + 1, cs =>
    match cs with
    | [] => .error .malformed
    | c :: rest =>
      if c == '"' || c == '\x27' then (readString cs).map fun r => (.str r.1, r.2)
      else if startsWith "true" cs then .ok (.bool true, cs.drop 4)
      else if startsWith "false" cs then .ok (.bool false, cs.drop 5)
      else if c == '[' then do
        let after ← skipLayout rest
        let (items, after) ← readItems fuel after
        return (.list items, after)
      else if c == '\x7b' then
        match skipSpaces rest with
        | '\x7d' :: after => .ok (.map [], after)
        | after => do
          let (entries, after) ← readEntries fuel [] [] after
          return (.map entries, after)
      else readNumber cs

/-- The items of an array up to its end. -/
def readItems : Nat → List Char → Except Fault (List Value × List Char)
  | 0, _ => .error .malformed
  | fuel + 1, cs =>
    match cs with
    | ']' :: after => .ok ([], after)
    | cs => do
      let (item, after) ← readValue fuel cs
      match ← skipLayout after with
      | ']' :: after => return ([item], after)
      | ',' :: after =>
        let (items, after) ← readItems fuel (← skipLayout after)
        return (item :: items, after)
      | _ => throw .malformed

/-- The entries of an inline table up to its end, given those read so far and the keys whose values
can no longer be added to. -/
def readEntries : Nat → List Key → Entries → List Char → Except Fault (Entries × List Char)
  | 0, _, _, _ => .error .malformed
  | fuel + 1, closed, entries, cs => do
    let (key, v, after) ← readPair fuel cs
    if isWithin closed key then throw .malformed
    let entries ← orMalformed (addAt false key v entries)
    match skipSpaces after with
    | '\x7d' :: after => return (entries, after)
    | ',' :: after =>
      readEntries fuel (if isCompound v then key :: closed else closed) entries (skipSpaces after)
    | _ => throw .malformed

/-- A key with its value. -/
def readPair : Nat → List Char → Except Fault (Key × Value × List Char)
  | 0, _ => .error .malformed
  | fuel + 1, cs => do
    let (key, after) ← readKey cs
    match after with
    | '=' :: after =>
      let (v, after) ← readValue fuel (skipSpaces after)
      return (key, v, after)
    | _ => throw .malformed

end

/-- A document while it is read. -/
structure Document where
  /-- The tables so far. -/
  entries : Entries := []
  /-- The table that pairs are added to. -/
  header : Key := []
  /-- The keys of values that can no longer be added to. -/
  closed : List Key := []
  /-- The keys of tables that cannot be declared again. -/
  declared : List Key := []
  /-- The keys of tables that cannot be declared after the next header. -/
  pending : List Key := []

namespace Document

/-- The keys above the last part of a dotted key, under a header. -/
def keysAbove (header key : Key) : List Key :=
  (List.range (key.length - 1)).map fun i => header ++ key.take (i + 1)

/-- Adds a pair to the current table. -/
def addPair (d : Document) (key : Key) (v : Value) : Except Fault Document := do
  let above := keysAbove d.header key
  let parent := d.header ++ key.dropLast
  if above.any d.declared.contains || isWithin d.closed parent then throw .malformed
  let full := d.header ++ key
  let entries ← orMalformed (addAt true full v d.entries)
  return { d with
    entries := entries
    pending := d.pending ++ above
    closed := if isCompound v then full :: d.closed else d.closed }

/-- The document at a header, where the tables of dotted keys can no longer be declared. -/
def settled (d : Document) : Document :=
  { d with declared := d.declared ++ d.pending, pending := [] }

/-- Declares a table. -/
def declareTable (d : Document) (key : Key) : Except Fault Document := do
  if d.declared.contains key || isWithin d.closed key then throw .malformed
  let entries ← orMalformed (changeAt true some key d.entries)
  return { d with entries := entries, header := key, declared := key :: d.declared }

/-- Adds a table to a list of tables; what was known of the keys below it is forgotten. -/
def declareItem (d : Document) (key : Key) : Except Fault Document := do
  if isWithin d.closed key then throw .malformed
  let keep (k : Key) : Bool := !key.isPrefixOf k
  let entries ← orMalformed
    (changeAt true (appendTable (key.getLast?.getD "")) key.dropLast d.entries)
  return { d with
    entries := entries
    header := key
    closed := d.closed.filter keep
    declared := key :: d.declared.filter keep }

/-- Whether a pair may start with a character. -/
def startsPair (c : Char) : Bool :=
  isBareKeyChar c || c == '"' || c == '\x27'

/-- Reads one statement and the blanks after it. -/
def readStatement (d : Document) (cs : List Char) : Except Fault (Document × List Char) := do
  match cs with
  | '[' :: '[' :: rest =>
    let (key, after) ← readKey (skipSpaces rest)
    let d ← d.settled.declareItem key
    if startsWith "]]" after then return (d, skipSpaces (after.drop 2)) else throw .malformed
  | '[' :: rest =>
    let (key, after) ← readKey (skipSpaces rest)
    let d ← d.settled.declareTable key
    if startsWith "]" after then return (d, skipSpaces (after.drop 1)) else throw .malformed
  | '#' :: _ => return (d, cs)
  | c :: _ =>
    if startsPair c then
      let (key, v, after) ← readPair (cs.length + 1) cs
      return (← d.addPair key v, skipSpaces after)
    else throw .malformed
  | [] => return (d, [])

/-- Reads statements, at most `fuel` of them, one a line. -/
def readWithin : Nat → Document → List Char → Except Fault Document
  | 0, d, _ => .ok d
  | fuel + 1, d, cs =>
    match skipSpaces cs with
    | [] => .ok d
    | '\n' :: rest => readWithin fuel d rest
    | cs => do
      let (d, after) ← d.readStatement cs
      match ← skipComment after with
      | [] => return d
      | '\n' :: rest => readWithin fuel d rest
      | _ => throw .malformed

end Document

/-- A text whose pairs of carriage return and line feed are line feeds. -/
def joinNewlines : List Char → List Char
  | [] => []
  | '\r' :: '\n' :: rest => '\n' :: joinNewlines rest
  | c :: rest => c :: joinNewlines rest

/-- The table that a document states. -/
def read (cs : List Char) : Except Fault Value := do
  let text := joinNewlines cs
  return .map (← Document.readWithin (text.length + 1) {} text).entries

end TranslationKeys.Toml
