import PeerNode.Config.File
import PeerNode.Whole

/-!
# The arguments of the program

The program starts a node from a configuration file, or from the default configuration, with the
changes that its options make.  Options that may be repeated add up; of the others each is given
at most once.

* `Arguments`: the values of all options.
* `Occurrence`: one option with its value; `Occurrence.apply` adds it to the arguments.
* `UsageFault`: the ways in which arguments are unusable.
* `Arguments.toConfig`: the configuration that the arguments ask for.
-/

namespace PeerNode

/-- The values of all options. -/
structure Arguments where
  /-- The configuration file. -/
  config : Option String := none
  /-- The topics to join instead of the configured ones. -/
  topics : List String := []
  protocol : Option String := none
  port : Option UInt16 := none
  /-- Further bootstrap peers. -/
  bootstrap : List String := []
  /-- Further bootstrap peers, joined. -/
  bundle : Option String := none
  /-- The private key as base64 text. -/
  key : Option String := none
  localOnly : Bool := false
  noMdns : Bool := false
  /-- Whether to print a fresh key and do nothing else. -/
  generateKey : Bool := false
  deriving DecidableEq, Repr

/-- The ways in which arguments are unusable. -/
inductive UsageFault where
  /-- Help was asked for. -/
  | displayHelp
  /-- An argument is no option and no value of one. -/
  | unknownArgument
  /-- A value is missing, or it is empty and may not be. -/
  | invalidValue
  /-- A value is not of the kind that its option takes. -/
  | valueValidation
  /-- An option that may be given once is repeated. -/
  | argumentConflict
  /-- An option that takes no value has one. -/
  | tooManyValues
  deriving DecidableEq, Repr

/-- What the user reads about unusable arguments. -/
def UsageFault.message : UsageFault → String
  | displayHelp => "help was asked for"
  | unknownArgument => "unexpected argument"
  | invalidValue => "a value is missing"
  | valueValidation => "a value is not of the kind that its option takes"
  | argumentConflict => "an option is given more than once"
  | tooManyValues => "an option that takes no value has one"

/-- The options that take a value. -/
inductive ValueOption where
  | config | topic | protocol | port | bootstrap | bundle | key
  deriving DecidableEq, Repr

namespace ValueOption

def all : List ValueOption := [config, topic, protocol, port, bootstrap, bundle, key]

/-- The name of an option. -/
def name : ValueOption → String
  | config => "config"
  | topic => "topic"
  | protocol => "protocol"
  | port => "port"
  | bootstrap => "bootstrap"
  | bundle => "bootstrap-bundle"
  | key => "key-base64"

end ValueOption

/-- The options that take no value. -/
inductive Flag where
  | localOnly | noMdns | generateKey
  deriving DecidableEq, Repr

namespace Flag

def all : List Flag := [localOnly, noMdns, generateKey]

/-- The name of an option. -/
def name : Flag → String
  | localOnly => "local-only"
  | noMdns => "no-mdns"
  | generateKey => "generate-key"

end Flag

/-- One option, with its value if it takes one. -/
inductive Occurrence where
  | value (option : ValueOption) (text : String)
  | flag (flag : Flag)
  deriving DecidableEq, Repr

/-- The port that a text spells: decimal digits with a sign or none, and at most 65535. -/
def readPortOption? (text : String) : Option UInt16 :=
  let (negative, digits) := match text.toList with
    | '-' :: rest => (true, rest)
    | '+' :: rest => (false, rest)
    | cs => (false, cs)
  match Whole.readDigits UInt16.size 0 digits with
  | .ok n => if digits.isEmpty ∨ negative ∧ n ≠ 0 then none else some n.toUInt16
  | .error _ => none

namespace Occurrence

/-- The new value of an option that may be given once. -/
def once {α : Type} (old : Option α) (new : Except UsageFault α) : Except UsageFault (Option α) :=
  if old.isSome then .error .argumentConflict else new.map some

/-- The new value of a flag, which may be given once. -/
def raise (old : Bool) : Except UsageFault Bool :=
  if old then .error .argumentConflict else .ok true

def readPath (text : String) : Except UsageFault String :=
  if text.isEmpty then .error .invalidValue else .ok text

/-- A port. -/
def readPort (text : String) : Except UsageFault UInt16 :=
  match readPortOption? text with
  | some n => .ok n
  | none => .error .valueValidation

/-- The arguments with one option more. -/
def apply (a : Arguments) : Occurrence → Except UsageFault Arguments
  | value .config t => (once a.config (readPath t)).map fun v => { a with config := v }
  | value .topic t => .ok { a with topics := a.topics ++ [t] }
  | value .protocol t => (once a.protocol (.ok t)).map fun v => { a with protocol := v }
  | value .port t => (once a.port (readPort t)).map fun v => { a with port := v }
  | value .bootstrap t => .ok { a with bootstrap := a.bootstrap ++ [t] }
  | value .bundle t => (once a.bundle (.ok t)).map fun v => { a with bundle := v }
  | value .key t => (once a.key (.ok t)).map fun v => { a with key := v }
  | flag .localOnly => (raise a.localOnly).map fun v => { a with localOnly := v }
  | flag .noMdns => (raise a.noMdns).map fun v => { a with noMdns := v }
  | flag .generateKey => (raise a.generateKey).map fun v => { a with generateKey := v }

end Occurrence

namespace Arguments

/-- The arguments with these options, one after the other. -/
def ofOccurrences : List Occurrence → Arguments → Except UsageFault Arguments
  | [], a => .ok a
  | o :: rest, a =>
    match o.apply a with
    | .ok a => ofOccurrences rest a
    | .error fault => .error fault

/-- The configuration to start from: that of the file, or the default.  `read` gives the contents
of a file. -/
def baseConfig (read : String → Except FileProblem Bytes) (a : Arguments) :
    Except NodeError Config :=
  match a.config with
  | some path => Config.ofContents path (read path)
  | none => .ok Config.default

/-- A configuration with the changes of all options but the key. -/
def amend (a : Arguments) (c : Config) : Config :=
  let c := if a.topics.isEmpty then c else { c with topics := a.topics }
  let c := match a.protocol with
    | some name => c.withProtocol name
    | none => c
  let c := match a.port with
    | some port => { c with listenPort := port }
    | none => c
  let c := { c with bootstrapPeers := c.bootstrapPeers ++ a.bootstrap }
  let c := match a.bundle with
    | some bundle => c.withBundle bundle
    | none => c
  { c with
    localOnly := c.localOnly || a.localOnly
    enableMdns := c.enableMdns && !a.noMdns }

/-- The configuration that the arguments ask for.  A file that cannot be loaded is reported before
a key that cannot be read. -/
def toConfig (read : String → Except FileProblem Bytes) (a : Arguments) :
    Except NodeError Config :=
  match a.baseConfig read with
  | .error e => .error e
  | .ok c =>
    let c := a.amend c
    match a.key with
    | some text => c.withKeyText text
    | none => .ok c

end Arguments
end PeerNode
