import PeerNode.CommandLine.Reader
import PeerNode.Console.Transcript

/-!
# The program

The program prints a fresh key, or starts a node and runs the console on it, or says why it cannot.
Its network has no other node.  When the console has ended the node is shut down, and the program
ends when it has.

* `Program.Plan`, `Program.plan`: what the arguments ask the program to do.
* `Program.Exit`, `Program.Remains`: what the program leaves behind.
* `Program.run`: all that comes of an input.
-/

namespace PeerNode
namespace Program

variable {H : Host}

/-- What the arguments ask the program to do. -/
inductive Plan (H : Host) where
  /-- To print lines on the standard output and end. -/
  | print (lines : List String)
  /-- To run the console on the node at a position of a network. -/
  | serve (net : Network H) (i : Nat)
  /-- To report a cause and fail. -/
  | fail (e : NodeError)
  /-- To report that the arguments are unusable. -/
  | misuse (fault : UsageFault)

/-- How the program is called. -/
def usage : List String :=
  ["Usage: [OPTIONS]", ""] ++
    ValueOption.all.map (fun o => "  --" ++ o.name ++ " <VALUE>") ++
    Flag.all.map (fun f => "  --" ++ f.name)

/-- The plan for some arguments.  `read` gives the contents of a file, and `fresh` is a key that
nobody else has. -/
def plan (fresh : KeyPair) (read : String → Except FileProblem Bytes) (args : List String) :
    Plan H :=
  match Arguments.read args with
  | .error .displayHelp => .print usage
  | .error fault => .misuse fault
  | .ok a =>
    if a.generateKey then .print [keyText fresh.encode]
    else
      let started := do
        let config ← a.toConfig read
        ({} : Network H).start fresh config
      match started with
      | .error e => .fail e
      | .ok (net, i) => .serve net i

/-- The line that reports why the program failed. -/
def failureLine (e : NodeError) : String := "Error: " ++ e.diagnostic

/-- The lines that report unusable arguments. -/
def misuseLines (fault : UsageFault) : List String := ("error: " ++ fault.message) :: usage

/-- How the program ends. -/
structure Exit where
  code : Nat
  /-- The lines on the standard output. -/
  output : List String
  /-- The lines on the standard error output. -/
  errors : List String
  deriving DecidableEq, Repr

/-- What the program leaves behind. -/
structure Remains (H : Host) where
  exit : Exit
  net : Network H

/-- Ends a program that has printed some lines, with what has come of its last step. -/
def concluded (output : List String) : Except NodeError Unit → Exit
  | .ok () => ⟨0, output, []⟩
  | .error e => ⟨1, output, [failureLine e]⟩

/-- What is left when the console has ended: a node that is shut down, or one that is dropped
because it could not be asked any more.  No result means that the program waits for ever. -/
def closing (i : Nat) (output : List String) (talk : Console.Talk H) : Option (Remains H) :=
  match talk.failure with
  | some e => some ⟨concluded output (.error e), talk.net.stop i⟩
  | none =>
    let (net, result) := talk.net.shutdown i
    result.map fun result => ⟨concluded output result, net⟩

/-- All that comes of an input.  `meanwhile` says what happens in the host before each line.  No
result means that the program never ends. -/
def run (fresh : KeyPair) (read : String → Except FileProblem Bytes) (args : List String)
    (meanwhile : Nat → List H.Event) (input : Bytes) : Option (Remains H) :=
  match plan fresh read args with
  | .print lines => some ⟨⟨0, lines, []⟩, {}⟩
  | .serve net i =>
    let talk := Console.converse i meanwhile net (Console.linesOf input)
    closing i (Console.banner net i ++ talk.printed) talk
  | .fail e => some ⟨⟨1, [], [failureLine e]⟩, {}⟩
  | .misuse fault => some ⟨⟨2, [], misuseLines fault⟩, {}⟩

end Program
end PeerNode
