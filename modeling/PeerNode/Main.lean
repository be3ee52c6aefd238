import PeerNode.CommandLine.Program
import PeerNode.Network.Loopback

/-!
# The command line

The program as it runs: it takes a key from the host's random numbers, reads the configuration
file if there is one, and answers the lines of the standard input as they come.
-/

namespace PeerNode
namespace Program

/-- A key that nobody else has. -/
def freshKey : IO KeyPair := do
  let seed ← IO.getRandomBytes 32
  return KeyPair.ofSeed seed.toList

/-- Why a file cannot be read, from what the host reports. -/
def problemOf : IO.Error → FileProblem
  | .noFileOrDirectory .. => .missing
  | .inappropriateType _ code _ => if code = 21 then .directory else .notDirectory
  | e => .other (toString e)

/-- The contents of a file, or why they cannot be had. -/
def contentsOf (path : String) : IO (Except FileProblem Bytes) := do
  try
    let contents ← IO.FS.readBinFile path
    return .ok contents.toList
  catch e => return .error (problemOf e)

/-- The contents of the configuration file that the arguments name. -/
def configContents (args : List String) : IO (Except FileProblem Bytes) :=
  match Arguments.read args with
  | .ok { config := some path, .. } => contentsOf path
  | _ => return .error .missing

/-- The rest of a line, after the octets `taken`; none at the end of the input. -/
partial def readLine (input : IO.FS.Stream) (taken : Bytes) : IO (Option Bytes) := do
  match (← input.read 1).toList with
  | [] => return if taken.isEmpty then none else some taken.reverse
  | octet :: _ =>
    if octet = Bytes.newline then return some taken.reverse
    else readLine input (octet :: taken)

/-- Answers the lines of the standard input until the console ends: the network that is left, and
why the console could not go on, if it could not. -/
partial def converse (input : IO.FS.Stream) (net : Network loopback) (i : Nat) :
    IO (Network loopback × Option NodeError) := do
  match ← readLine input [] with
  | none => return (net, none)
  | some line =>
    match Console.turn net i line with
    | .next net printed =>
      printed.forM IO.println
      converse input net i
    | .ends => return (net, none)
    | .fails net e => return (net, some e)

/-- Waits for ever. -/
partial def waitForEver : IO UInt32 := do
  IO.sleep 1000
  waitForEver

/-- Does what the arguments ask for; the result is the exit code. -/
def launch (args : List String) : IO UInt32 := do
  let contents ← configContents args
  match plan (H := loopback) (← freshKey) (fun _ => contents) args with
  | .print lines =>
    lines.forM IO.println
    return 0
  | .serve net i =>
    (Console.banner net i).forM IO.println
    let (net, failure) ← converse (← IO.getStdin) net i
    match closing i [] ⟨net, [], failure⟩ with
    | none => waitForEver
    | some remains =>
      remains.exit.errors.forM IO.eprintln
      return remains.exit.code.toUInt32
  | .fail e =>
    IO.eprintln (failureLine e)
    return 1
  | .misuse fault =>
    (misuseLines fault).forM IO.eprintln
    return 2

end Program
end PeerNode

/-- Runs the program. -/
def main (args : List String) : IO UInt32 := PeerNode.Program.launch args
