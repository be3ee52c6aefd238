import PeerNode.Bytes
import PeerNode.Text.Blank

/-!
# The lines of the console

The console reads lines, cuts each into words and takes the first word for a command.  How the
words are spaced does not matter: what is published or sent is made of the words, with single
spaces between them.

* `Console.linesOf`: the lines of what is typed in.
* `Console.Request`, `Console.Request.ofWords?`: what a line asks for.
-/

namespace PeerNode
namespace Console

/-- The lines of an input, without the newlines that end them. -/
def linesOf (input : Bytes) : List Bytes :=
  let pieces := input.splitOn Bytes.newline
  if pieces.getLast? = some [] then pieces.dropLast else pieces

/-- What a line asks for. -/
inductive Request where
  /-- To publish on the primary topic. -/
  | publish (text : String)
  /-- To send to a peer. -/
  | send (peer text : String)
  | peers
  | addresses
  | id
  | quit
  /-- It is no command, or has too few words for one. -/
  | unknown
  deriving DecidableEq, Repr

def joined (words : List String) : String := " ".intercalate words

/-- What a line with these words asks for; nothing if there are none. -/
def Request.ofWords? : List String → Option Request
  | [] => none
  | "pub" :: word :: rest => some (.publish (joined (word :: rest)))
  | "send" :: peer :: word :: rest => some (.send peer (joined (word :: rest)))
  | "peers" :: _ => some .peers
  | "addrs" :: _ => some .addresses
  | "id" :: _ => some .id
  | "quit" :: _ => some .quit
  | _ => some .unknown

/-- What a line asks for; nothing if it is blank. -/
def Request.ofLine? (line : String) : Option Request := ofWords? (Text.words line)

end Console
end PeerNode
