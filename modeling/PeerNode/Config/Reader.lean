import PeerNode.Config.Field
import PeerNode.Json.Reader

/-!
# Loading a configuration

A configuration is loaded from a JSON object: the default is taken, and each member replaces one
entry.  Members with other names are passed over, whatever they hold; an entry that is given
twice is refused.  A JSON list is read as the values of the entries in order, and entries beyond
its end keep their defaults.

A value may be well-formed and still be refused, as a repeated entry or a bad key is.  The whole
object is closed before such a refusal gets its place, so its place lies behind the insignificant
characters and the closing brace, if that is what follows.

* `Config.ofJson`: the configuration that a text holds.
-/

namespace PeerNode
namespace Config

open Json (Fault)

/-- Why reading the members stopped. -/
inductive Refusal where
  /-- The text is faulty. -/
  | fault (f : Fault)
  /-- A member is refused for a reason; `rest` follows what was read of it. -/
  | member (reason : String) (rest : List Char)

/-- The outcome of a reader as that of reading a member. -/
def ofRead {α : Type} (set : α → Config) :
    Except Fault (α × List Char) → Except Refusal (Config × List Char)
  | .ok (v, rest) => .ok (set v, rest)
  | .error f => .error (.fault f)

/-- Sets the private key to the one that an optional text stands for. -/
def readKey (c : Config) : Except Fault (Option String × List Char) →
    Except Refusal (Config × List Char)
  | .error f => .error (.fault f)
  | .ok (none, rest) => .ok ({ c with privateKey := none }, rest)
  | .ok (some text, rest) =>
    match keyOfText text with
    | .ok key => .ok ({ c with privateKey := key }, rest)
    | .error e => .error (.member e.message rest)

/-- Replaces an entry by the value in front. -/
def Field.read (c : Config) (cs : List Char) : Field → Except Refusal (Config × List Char)
  | topics => ofRead (fun v => { c with topics := v }) (Json.readTexts cs)
  | protocolName => ofRead (fun v => { c with protocolName := v }) (Json.readOptional cs)
  | listenPort =>
    ofRead (fun v => { c with listenPort := v.toUInt16 }) (Json.readNatural UInt16.size "u16" cs)
  | bootstrapPeers => ofRead (fun v => { c with bootstrapPeers := v }) (Json.readTexts cs)
  | privateKey => readKey c (Json.readOptional cs)
  | nodeName => ofRead (fun v => { c with nodeName := v }) (Json.readText cs)
  | localOnly => ofRead (fun v => { c with localOnly := v }) (Json.readBool cs)
  | enableMdns => ofRead (fun v => { c with enableMdns := v }) (Json.readBool cs)
  | enableKad => ofRead (fun v => { c with enableKad := v }) (Json.readBool cs)
  | enableUpnp => ofRead (fun v => { c with enableUpnp := v }) (Json.readBool cs)
  | enableRelay => ofRead (fun v => { c with enableRelay := v }) (Json.readBool cs)
  | requestTimeout =>
    ofRead (fun v => { c with requestTimeout := v.toUInt64 })
      (Json.readNatural UInt64.size "u64" cs)
  | idleTimeout =>
    ofRead (fun v => { c with idleTimeout := v.toUInt64 }) (Json.readNatural UInt64.size "u64" cs)

/-! ## Objects -/

/-- The name of the next member, whose opening quotation mark has been read. -/
def readName (cs : List Char) : Except Fault (Option (String × List Char)) :=
  (Json.scanText [] cs).map fun (t, rest) => some (String.ofList t, rest)

/-- The name of the next member, and what follows it; none in front of the closing brace.  The
first member has no comma before it. -/
def nextName (first : Bool) (cs : List Char) : Except Fault (Option (String × List Char)) :=
  match Json.skipSpace cs with
  | [] => .error ⟨.eofInObject, 0⟩
  | c :: rest =>
    if c = '}' then .ok none
    else if first then
      if c = '"' then readName rest else .error (Json.faultAt .keyNoText (c :: rest))
    else if c = ',' then
      match Json.skipSpace rest with
      | [] => .error ⟨.eofInValue, 0⟩
      | d :: rest =>
        if d = '"' then readName rest
        else if d = '}' then .error (Json.faultAt .trailingComma (d :: rest))
        else .error (Json.faultAt .keyNoText (d :: rest))
    else .error (Json.faultAt .expectedCommaOrBrace (c :: rest))

/-- What follows the colon after the name of a member. -/
def readColon (cs : List Char) : Except Fault (List Char) :=
  match Json.skipSpace cs with
  | [] => .error ⟨.eofInObject, 0⟩
  | c :: rest =>
    if c = ':' then .ok rest else .error (Json.faultAt .expectedColon (c :: rest))

/-- Reads the value of the member with a name, given the entries `seen` so far; what it changes
and the entries seen after it. -/
def readMember (seen : List Field) (c : Config) (name : String) (cs : List Char) :
    Except Refusal (List Field × Config × List Char) :=
  match Field.ofName? name with
  | none =>
    match readColon cs with
    | .error f => .error (.fault f)
    | .ok rest =>
      match Json.skipValue rest with
      | .error f => .error (.fault f)
      | .ok rest => .ok (seen, c, rest)
  | some field =>
    if field ∈ seen then
      .error (.member ("duplicate field \x60" ++ field.name ++ "\x60") cs)
    else match readColon cs with
      | .error f => .error (.fault f)
      | .ok rest =>
        match field.read c rest with
        | .error r => .error r
        | .ok (c, rest) => .ok (field :: seen, c, rest)

/-- Reads the members of an object up to its closing brace.  A member takes a character at least,
so their number is bounded by `fuel`, the number of characters. -/
def readMembers : Nat → Bool → List Field → Config → List Char →
    Except Refusal (Config × List Char)
  | 0, _, _, c, cs => .ok (c, cs)
  | fuel + 1, first, seen, c, cs =>
    match nextName first cs with
    | .error f => .error (.fault f)
    | .ok none => .ok (c, cs)
    | .ok (some (name, rest)) =>
      match readMember seen c name rest with
      | .error r => .error r
      | .ok (seen, c, rest) => readMembers fuel false seen c rest

/-- What follows the closing brace, if that comes next. -/
def afterObject (cs : List Char) : List Char :=
  match Json.skipSpace cs with
  | '}' :: rest => rest
  | rest => rest

/-- The configuration in an object whose opening brace has been read, and what follows it. -/
def readObject (cs : List Char) : Except Fault (Config × List Char) :=
  match readMembers (cs.length + 1) true [] default cs with
  | .ok (c, rest) => .ok (c, afterObject rest)
  | .error (.fault f) => .error f
  | .error (.member reason rest) =>
    .error (Json.faultBefore (.unwanted reason) (afterObject rest))

/-! ## Lists -/

/-- In front of the next value of a list; none in front of the closing bracket. -/
def nextElement (first : Bool) (cs : List Char) : Except Fault (Option (List Char)) :=
  match Json.skipSpace cs with
  | [] => .error ⟨.eofInList, 0⟩
  | c :: rest =>
    if c = ']' then .ok none
    else if first then .ok (some (c :: rest))
    else if c = ',' then
      match Json.skipSpace rest with
      | [] => .error ⟨.eofInValue, 0⟩
      | d :: rest =>
        if d = ']' then .error (Json.faultAt .trailingComma (d :: rest))
        else .ok (some (d :: rest))
    else .error (Json.faultAt .expectedCommaOrBracket (c :: rest))

/-- Reads the values of the entries `fields` as far as the list goes. -/
def readElements : Bool → List Field → Config → List Char → Except Refusal (Config × List Char)
  | _, [], c, cs => .ok (c, cs)
  | first, field :: fields, c, cs =>
    match nextElement first cs with
    | .error f => .error (.fault f)
    | .ok none => .ok (c, cs)
    | .ok (some rest) =>
      match field.read c rest with
      | .error r => .error r
      | .ok (c, rest) => readElements false fields c rest

/-- What follows the closing bracket, or else a comma, if that comes next. -/
def afterList (cs : List Char) : List Char :=
  match Json.skipSpace cs with
  | ']' :: rest => rest
  | ',' :: rest => Json.skipSpace rest
  | rest => rest

/-- What follows the closing bracket, which must come next. -/
def closeList (cs : List Char) : Except Fault (List Char) :=
  match Json.skipSpace cs with
  | [] => .error ⟨.eofInList, 0⟩
  | c :: rest =>
    if c = ']' then .ok rest
    else if c = ',' then
      match Json.skipSpace rest with
      | [] => .error ⟨.trailingCharacters, 0⟩
      | d :: rest =>
        .error (Json.faultAt (if d = ']' then .trailingComma else .trailingCharacters)
          (d :: rest))
    else .error (Json.faultAt .trailingCharacters (c :: rest))

/-- The configuration in a list whose opening bracket has been read, and what follows it. -/
def readList (cs : List Char) : Except Fault (Config × List Char) :=
  match readElements true Field.all default cs with
  | .ok (c, rest) =>
    match closeList rest with
    | .error f => .error f
    | .ok rest => .ok (c, rest)
  | .error (.fault f) => .error f
  | .error (.member reason rest) =>
    .error (Json.faultBefore (.unwanted reason) (afterList rest))

/-! ## Whole texts -/

/-- The configuration in front, and what follows it. -/
def readValue (cs : List Char) : Except Fault (Config × List Char) :=
  match Json.skipSpace cs with
  | [] => .error ⟨.eofInValue, 0⟩
  | c :: rest =>
    if c = '{' then readObject rest
    else if c = '[' then readList rest
    else .error (Json.kindFault "struct BiomeP2pConfig" (c :: rest))

/-- The configuration that a whole text holds, with nothing but insignificant characters after
it. -/
def readWhole (cs : List Char) : Except Fault Config :=
  match readValue cs with
  | .error f => .error f
  | .ok (c, rest) =>
    match Json.skipSpace rest with
    | [] => .ok c
    | d :: rest => .error (Json.faultAt .trailingCharacters (d :: rest))

/-- The configuration that a text holds. -/
def ofJson (text : String) : Except NodeError Config :=
  match readWhole text.toList with
  | .ok c => .ok c
  | .error f => .error (.invalidConfig (f.report text.toList))

end Config
end PeerNode
