import PeerNode.Exchange.Session
import PeerNode.Frame.Window
import PeerNode.Frame.Writer
import PeerNode.Main
import PeerNode.Network.Action
import PeerNode.Network.Loopback
import PeerNode.Proofs.Exchange.Settling
import PeerNode.Proofs.Frame.Wire
import PeerNode.Proofs.Frame.Normalizing
import PeerNode.Proofs.Frame.Calls
import PeerNode.Proofs.Session.Cancellation
import PeerNode.Proofs.Session.Conservation
import PeerNode.Proofs.Session.Handler
import PeerNode.Proofs.Session.Listener
import PeerNode.Proofs.Node.Sound
import PeerNode.Proofs.Node.Relaying
import PeerNode.Proofs.Node.Happening
import PeerNode.Proofs.Node.Standing
import PeerNode.Proofs.Exchange.Waiting
import PeerNode.Proofs.Node.Letters
import PeerNode.Proofs.Node.Steadiness
import PeerNode.Proofs.Node.Beginning
import PeerNode.Proofs.PeerId.Naming
import PeerNode.Proofs.Session.Fairness
import PeerNode.Proofs.Session.Closing
import PeerNode.Proofs.Config.Listening
import PeerNode.Proofs.Exchange.Alongside
import PeerNode.Proofs.Node.Likeness
import PeerNode.Proofs.Node.Queueing
import PeerNode.Proofs.Node.Resting
import PeerNode.Proofs.Node.Hiding
import PeerNode.Proofs.Node.Isolation
import PeerNode.Proofs.Frame.Deciding
import PeerNode.Proofs.Json.Spelling
import PeerNode.Proofs.Json.Kinds
import PeerNode.Proofs.Json.Passing
import PeerNode.Proofs.Base64.Canonical
import PeerNode.Proofs.Config.Members
import PeerNode.Proofs.Text.Trimming
import PeerNode.Proofs.Key.Text
import PeerNode.Proofs.Config.RoundTrip
import PeerNode.Proofs.Key.Encoding
import PeerNode.Proofs.Key.Transport
import PeerNode.Proofs.Node.Ledger
import PeerNode.Proofs.Session.Feeding
import PeerNode.Proofs.Session.Overflow
import PeerNode.Proofs.Json.Accepting
import PeerNode.Proofs.Config.Overriding
import PeerNode.Proofs.Config.KeyEntry
import PeerNode.Proofs.PeerId.Denoting
import PeerNode.Proofs.CommandLine.Occurrences
import PeerNode.Proofs.CommandLine.Reading
import PeerNode.Proofs.CommandLine.Amending
import PeerNode.Proofs.Config.Bundles
import PeerNode.Proofs.Node.Filing
import PeerNode.Proofs.Console.Lines
import PeerNode.Proofs.Node.Rejoining
import PeerNode.Node.Happening
import PeerNode.Proofs.Network.Requests
import PeerNode.Proofs.Network.Starting
import PeerNode.Proofs.Network.Refusals
import PeerNode.Proofs.Network.Happenings
import PeerNode.Proofs.Network.Subscriptions
import PeerNode.Proofs.Network.Isolation
import PeerNode.Proofs.Console.Replies
import PeerNode.Proofs.Node.Receipts
import PeerNode.Proofs.Node.Deliveries
import PeerNode.Proofs.Fleet.Basic
import PeerNode.Proofs.Fleet.Streams
import PeerNode.Proofs.Fleet.Gossip
import PeerNode.Proofs.Fleet.Hosting
