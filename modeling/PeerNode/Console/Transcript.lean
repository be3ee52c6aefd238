import PeerNode.Console.Request
import PeerNode.Network.Handle

/-!
# What the console prints

The console introduces the node and then answers line by line.  A blank line is passed over.  The
console ends with the line that asks for it, with a line that is no text, or with its input; it also
ends when the node cannot be asked any more.  Before each line the host may do what it likes.

* `Console.banner`: the lines that come first.
* `Console.answer`: the lines with which a request is answered.
* `Console.Turn`, `Console.turn`: what becomes of the console with a line.
* `Console.Talk`, `Console.converse`: what comes of an input.
-/

namespace PeerNode
namespace Console

variable {H : Host}

/-- A peer as it stands in a list of peers. -/
def shownPeer (name : PeerName) : String := "PeerId(" ++ Text.quote name.text ++ ")"

/-- The lines that report a failure; none after a success. -/
def complaint {α : Type} (what : String) : Except NodeError α → List String
  | .ok _ => []
  | .error e => [what ++ " failed: " ++ e.message]

/-- The name of the node at a position. -/
def nameOf (net : Network H) (i : Nat) : PeerName :=
  match net.nodes[i]? with
  | some n => n.name
  | none => ⟨""⟩

/-- The lines that introduce a node. -/
def banner (net : Network H) (i : Nat) : List String :=
  ["ID: " ++ (nameOf net i).text,
    "commands: 'pub <msg>', 'send <peer> <msg>', 'peers', 'addrs', 'id', 'quit'"]

def peersLine (names : List PeerName) : String :=
  "Connected peers: " ++ Text.bracketed (names.map shownPeer)

def addressLine (name : PeerName) (address : Multiaddr) : String :=
  "  " ++ Multiaddr.toText address ++ "/p2p/" ++ name.text

/-- Sends a text to whom another text denotes. -/
def send (net : Network H) (i : Nat) (peer text : String) : Network H × Except NodeError Unit :=
  match PeerName.parse peer with
  | .ok recipient => net.sendFrom i recipient (Bytes.ofText text)
  | .error e => (net, .error e)

/-- Carries out a request: the network and the lines that are printed, or why the console cannot go
on. -/
def answer (net : Network H) (i : Nat) : Request → Network H × Except NodeError (List String)
  | .publish text =>
    let (net, result) := net.publishPrimary i (Bytes.ofText text)
    (net, .ok (complaint "publish" result))
  | .send peer text =>
    let (net, result) := send net i peer text
    (net, .ok (complaint "send" result))
  | .peers =>
    let (net, result) := net.connectedPeers i
    (net, result.map fun names => [peersLine names])
  | .addresses =>
    let (net, result) := net.listenAddresses i
    (net, result.map fun addresses => addresses.map (addressLine (nameOf net i)))
  | .id => (net, .ok [(nameOf net i).text])
  | .quit => (net, .ok [])
  | .unknown => (net, .ok ["Unknown command"])

/-- What becomes of the console with a line. -/
inductive Turn (H : Host) where
  /-- It goes on, after printing some lines. -/
  | next (net : Network H) (printed : List String)
  | ends
  /-- The node cannot be asked any more. -/
  | fails (net : Network H) (e : NodeError)

/-- Answers a line. -/
def turn (net : Network H) (i : Nat) (line : Bytes) : Turn H :=
  match Bytes.text? line with
  | none => .ends
  | some text =>
    match Request.ofLine? text with
    | none => .next net []
    | some .quit => .ends
    | some request =>
      match answer net i request with
      | (net, .ok printed) => .next net printed
      | (net, .error e) => .fails net e

/-- What comes of an input. -/
structure Talk (H : Host) where
  /-- The network that is left. -/
  net : Network H
  /-- The lines that have been printed. -/
  printed : List String
  /-- Why the console could not go on, if it could not. -/
  failure : Option NodeError

/-- Answers lines.  `meanwhile` says what happens in the host before each of them. -/
def converse (i : Nat) (meanwhile : Nat → List H.Event) (net : Network H) : List Bytes → Talk H
  | [] => ⟨(meanwhile 0).foldl Network.react net, [], none⟩
  | line :: rest =>
    let net := (meanwhile 0).foldl Network.react net
    match turn net i line with
    | .next net printed =>
      let talk := converse i (fun k => meanwhile (k + 1)) net rest
      { talk with printed := printed ++ talk.printed }
    | .ends => ⟨net, [], none⟩
    | .fails net e => ⟨net, [], some e⟩

end Console
end PeerNode
