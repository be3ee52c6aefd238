import PeerNode.CommandLine.Arguments

/-!
# Reading the command line

An argument that starts with two hyphens is an option.  Its value is attached to it with an equals
sign or is the next argument, which then may not start with a hyphen.  The only short option is
`-h`, which asks for help; two hyphens alone end the options.

An option whose value is the next argument takes effect only when the one after it has been looked
at, so an argument that is no option at all is reported before a bad value in front of it.

* `Arguments.read`: the arguments that a command line spells.
-/

namespace PeerNode
namespace Arguments

/-- An option that has been read but has not taken effect. -/
inductive Pending where
  | none
  /-- Its value is still to come. -/
  | awaiting (option : ValueOption)
  /-- Its value has been read. -/
  | supplied (option : ValueOption) (text : String)
  deriving DecidableEq, Repr

/-- Lets a pending option take effect. -/
def resolve (a : Arguments) : Pending → Except UsageFault Arguments
  | .none => .ok a
  | .awaiting _ => .error .invalidValue
  | .supplied option text => (Occurrence.value option text).apply a

/-- The name and the attached value of a long option, from what follows its hyphens. -/
def splitOption (cs : List Char) : String × Option String :=
  let name := cs.takeWhile (· != '=')
  match cs.drop name.length with
  | [] => (String.ofList name, none)
  | _ :: value => (String.ofList name, some (String.ofList value))

/-- What an argument is. -/
inductive Token where
  | endOfOptions
  /-- A long option, with its attached value. -/
  | long (name : String) (attached : Option String)
  /-- Short options. -/
  | short (letters : List Char)
  | plain (text : String)
  deriving DecidableEq, Repr

/-- What an argument is. -/
def tokenOf (text : String) : Token :=
  match text.toList with
  | '-' :: '-' :: [] => .endOfOptions
  | '-' :: '-' :: rest =>
    let (name, attached) := splitOption rest
    .long name attached
  | '-' :: c :: rest => .short (c :: rest)
  | _ => .plain text

/-- Asks for help after letting a pending option take effect. -/
def help (a : Arguments) (pending : Pending) : Except UsageFault Arguments :=
  match a.resolve pending with
  | .ok _ => .error .displayHelp
  | .error fault => .error fault

/-- The arguments that the rest of a command line spells, after `a` and an option that is
pending. -/
def readFrom (a : Arguments) (pending : Pending) : List String → Except UsageFault Arguments
  | [] => a.resolve pending
  | text :: rest =>
    match tokenOf text with
    | .endOfOptions => if rest.isEmpty then a.resolve pending else .error .unknownArgument
    | .short letters =>
      if letters.head? = some 'h' then a.help pending else .error .unknownArgument
    | .plain text =>
      match pending with
      | .awaiting option => a.readFrom (.supplied option text) rest
      | _ => .error .unknownArgument
    | .long name attached =>
      match ValueOption.all.find? fun o => o.name == name with
      | some option =>
        match a.resolve pending with
        | .error fault => .error fault
        | .ok a =>
          match attached with
          | none => a.readFrom (.awaiting option) rest
          | some text =>
            match (Occurrence.value option text).apply a with
            | .error fault => .error fault
            | .ok a => a.readFrom .none rest
      | none =>
        match Flag.all.find? fun f => f.name == name with
        | some flag =>
          if attached.isSome then .error .tooManyValues
          else match a.resolve pending with
            | .error fault => .error fault
            | .ok a =>
              match (Occurrence.flag flag).apply a with
              | .error fault => .error fault
              | .ok a => a.readFrom .none rest
        | none =>
          if name = "help" then
            if attached.isSome then .error .tooManyValues else a.help pending
          else .error .unknownArgument

def read (args : List String) : Except UsageFault Arguments := readFrom {} .none args

end Arguments
end PeerNode
