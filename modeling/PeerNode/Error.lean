import PeerNode.Text.Quoted

/-!
# What can go wrong

Every operation of the node fails for one of eleven causes.  A cause that concerns a piece of
input carries the detail that the user is told; the wording is in one place.

* `NodeError`: the causes.
* `NodeError.message`: what the user reads.
* `NodeError.diagnostic`: the cause with its detail quoted, as the command line reports it.
* `StreamError`: a failure of a byte stream, by kind and text.
-/

namespace PeerNode

/-- The causes for which an operation of the node fails. -/
inductive NodeError where
  /-- The node has stopped, or never ran. -/
  | notStarted
  /-- The configuration, its file or the protocol name is unusable. -/
  | invalidConfig (detail : String)
  /-- The private key does not decode. -/
  | invalidKey (detail : String)
  /-- A text names no peer. -/
  | invalidPeerId (detail : String)
  /-- A topic name is blank. -/
  | invalidTopic (detail : String)
  /-- The node has not joined the topic. -/
  | topicNotJoined (detail : String)
  /-- The node has no direct protocol. -/
  | protocolNotConfigured
  /-- The payload cannot be framed. -/
  | invalidPayload (detail : String)
  /-- The network refused or failed. -/
  | networkError (detail : String)
  /-- Every producer of a delivery queue is gone and the queue is drained. -/
  | channelClosed
  /-- An inconsistency inside the node. -/
  | internal (detail : String)
  deriving DecidableEq, Repr

namespace NodeError

/-- The name of a cause. -/
def name : NodeError → String
  | notStarted => "NotStarted"
  | invalidConfig _ => "InvalidConfig"
  | invalidKey _ => "InvalidKey"
  | invalidPeerId _ => "InvalidPeerId"
  | invalidTopic _ => "InvalidTopic"
  | topicNotJoined _ => "TopicNotJoined"
  | protocolNotConfigured => "ProtocolNotConfigured"
  | invalidPayload _ => "InvalidPayload"
  | networkError _ => "NetworkError"
  | channelClosed => "ChannelClosed"
  | internal _ => "Internal"

/-- The detail that a cause carries, if it is one that carries any. -/
def detail? : NodeError → Option String
  | notStarted | protocolNotConfigured | channelClosed => none
  | invalidConfig d | invalidKey d | invalidPeerId d | invalidTopic d | topicNotJoined d
  | invalidPayload d | networkError d | internal d => some d

/-- What the user reads. -/
def message : NodeError → String
  | notStarted => "Node is not running"
  | invalidConfig d => "Invalid configuration: " ++ d
  | invalidKey d => "Invalid private key: " ++ d
  | invalidPeerId d => "Invalid peer id: " ++ d
  | invalidTopic d => "Invalid topic: " ++ d
  | topicNotJoined d => "Topic not joined: " ++ d
  | protocolNotConfigured => "No direct protocol configured"
  | invalidPayload d => "Invalid payload: " ++ d
  | networkError d => "Network error: " ++ d
  | channelClosed => "Delivery channel closed"
  | internal d => "Internal error: " ++ d

/-- The cause by name, with its detail quoted in parentheses. -/
def diagnostic (e : NodeError) : String :=
  match e.detail? with
  | none => e.name
  | some d => e.name ++ "(" ++ Text.quote d ++ ")"

end NodeError

/-- The kinds of failure of a byte stream. -/
inductive StreamErrorKind where
  | connectionReset
  | connectionAborted
  | brokenPipe
  | unexpectedEof
  | interrupted
  | invalidData
  | timedOut
  | notConnected
  | writeZero
  | other
  deriving DecidableEq, Repr

/-- A failure of a byte stream. -/
structure StreamError where
  kind : StreamErrorKind
  text : String
  deriving DecidableEq, Repr

end PeerNode
