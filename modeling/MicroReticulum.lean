import MicroReticulum.Lib.Runs
import MicroReticulum.Lib.Outcome
import MicroReticulum.Lib.Blocks
import MicroReticulum.Lib.Sequence
import MicroReticulum.Lib.Cursor
import MicroReticulum.Lib.Seqlock
import MicroReticulum.Lib.Ring
import MicroReticulum.Lib.Slots
import MicroReticulum.Lib.Memory
import MicroReticulum.Lib.Descent
import MicroReticulum.Lib.Bits
import MicroReticulum.Lib.Peak
import MicroReticulum.Lib.Log
import MicroReticulum.Lib.Rounding
import MicroReticulum.Bytes
import MicroReticulum.Link.Data
import MicroReticulum.Link.Proof
import MicroReticulum.Link.ProofSound
import MicroReticulum.Link.Choking
import MicroReticulum.Link.Lifecycle
import MicroReticulum.Link.Closing
import MicroReticulum.Link.Listeners
import MicroReticulum.Link.Announced
import MicroReticulum.Channel.Endpoint
import MicroReticulum.Channel.Pair
import MicroReticulum.Channel.Receiving
import MicroReticulum.Channel.Sending
import MicroReticulum.Channel.Delivery
import MicroReticulum.Channel.Receipts
import MicroReticulum.MsgPack.Reading
import MicroReticulum.MsgPack.Getters
import MicroReticulum.MsgPack.Format
import MicroReticulum.MsgPack.Skipping
import MicroReticulum.MsgPack.Packing
import MicroReticulum.MsgPack.Values
import MicroReticulum.MsgPack.Readers
import MicroReticulum.MsgPack.Navigation
import MicroReticulum.MsgPack.Splicing
import MicroReticulum.MsgPack.Advertisement
import MicroReticulum.MsgPack.Envelopes
import MicroReticulum.MsgPack.Printer
import MicroReticulum.MsgPack.Printing
import MicroReticulum.MsgPack.Confinement
import MicroReticulum.Directory.Record
import MicroReticulum.Directory.Writer
import MicroReticulum.Directory.Coherence
import MicroReticulum.Directory.Guard
import MicroReticulum.Directory.Replay
import MicroReticulum.Directory.Recall
import MicroReticulum.Directory.Collision
import MicroReticulum.Directory.Pools
import MicroReticulum.Directory.Consistency
import MicroReticulum.Directory.Image
import MicroReticulum.Directory.Expansion
import MicroReticulum.Directory.Snapshot
import MicroReticulum.Directory.Reachable
import MicroReticulum.Directory.RoundTrip
import MicroReticulum.Directory.ImageSafety
import MicroReticulum.Directory.Eviction
import MicroReticulum.Directory.Claims
import MicroReticulum.Packet.Wire
import MicroReticulum.Transport.Announce
import MicroReticulum.Transport.Forwarding
import MicroReticulum.Transport.AnnounceTable
import MicroReticulum.Transport.Holding
import MicroReticulum.Transport.Hops
import MicroReticulum.Transport.Ifac
import MicroReticulum.Transport.Echoes
import MicroReticulum.Link.ProofRelay
import MicroReticulum.Transport.Relay
import MicroReticulum.Transport.Returning
import MicroReticulum.Transport.Repair
import MicroReticulum.Transport.Reflection
import MicroReticulum.Resource.Incoming
import MicroReticulum.Resource.Outgoing
import MicroReticulum.Resource.Transfer
import MicroReticulum.Resource.Frames
import MicroReticulum.Resource.Hashmap
import MicroReticulum.Resource.Assembly
import MicroReticulum.Packet.Announcement
import MicroReticulum.Directory.Invalidation
import MicroReticulum.Rnsd.Tables
import MicroReticulum.Rnsd.LinkTable
import MicroReticulum.Rnsd.ChannelTable
import MicroReticulum.Rnsd.Node
import MicroReticulum.Rnsd.Slots
import MicroReticulum.Rnsd.Moves
import MicroReticulum.Rnsd.Specs
import MicroReticulum.Lib.Progress
import MicroReticulum.Rnsd.Phases
import MicroReticulum.Rnsd.Keys
import MicroReticulum.Rnsd.Attribution
import MicroReticulum.Rnsd.Markers
import MicroReticulum.Rnsd.Opening
import MicroReticulum.Gateway.Table
import MicroReticulum.Gateway.Rows
import MicroReticulum.Gateway.Evidence
import MicroReticulum.Lib.Hops
import MicroReticulum.Gateway.Network
import MicroReticulum.Gateway.Rounds
import MicroReticulum.Gateway.Distances
import MicroReticulum.Destination.Ratchets
import MicroReticulum.Rnsd.RatchetRecord
import MicroReticulum.Lib.Spacing
import MicroReticulum.Rnsd.Rotation
import MicroReticulum.Peers.Table
import MicroReticulum.Peers.Relations
import MicroReticulum.Peers.Publishing
import MicroReticulum.Peers.Updates
import MicroReticulum.Lib.Pacing
import MicroReticulum.Interface.AnnounceQueue
import MicroReticulum.Interface.Releases
import MicroReticulum.Identity.Token
import MicroReticulum.Destination.Receive
import MicroReticulum.Destination.Announce
import MicroReticulum.Resource.Intake
import MicroReticulum.Resource.Budget
import MicroReticulum.Lib.Utf8
import MicroReticulum.Peers.Names
import MicroReticulum.Peers.NameForms
import MicroReticulum.Rnsd.Hosted
import MicroReticulum.Rnsd.ProofCounters
import MicroReticulum.Transport.Escalation
import MicroReticulum.Lib.Circle
import MicroReticulum.Transport.Walk
import MicroReticulum.Transport.Retirement
import MicroReticulum.Transport.Egress
import MicroReticulum.Directory.Retained
import MicroReticulum.Directory.Shortlist
import MicroReticulum.Transport.Questions
import MicroReticulum.Transport.AskedOnce
import MicroReticulum.Transport.QuestionNet
import MicroReticulum.Link.Requests
import MicroReticulum.Channel.Window
import MicroReticulum.Resource.Inputs
import MicroReticulum.Resource.Window
import MicroReticulum.Lib.Filling
import MicroReticulum.Resource.Bookkeeping
import MicroReticulum.Lib.Recent
import MicroReticulum.Transport.Remembered
import MicroReticulum.Packet.RouteTrailer
import MicroReticulum.Channel.Ring
import MicroReticulum.Transport.AnnounceRate
import MicroReticulum.MsgPack.Reordering
import MicroReticulum.Transport.StandDown
import MicroReticulum.Lib.Sharing
import MicroReticulum.SharedBytes
import MicroReticulum.Resource.Standing
import MicroReticulum.Resource.Once
import MicroReticulum.Resource.Termination
import MicroReticulum.Rnsd.Accounts
import MicroReticulum.Rnsd.Attempts
import MicroReticulum.Lib.Balance
import MicroReticulum.Rnsd.Requests
import MicroReticulum.Rnsd.Answering
import MicroReticulum.Rnsd.Sends
import MicroReticulum.Lib.Machine
import MicroReticulum.Rnsd.Opportunistic
import MicroReticulum.Rnsd.Deliveries
import MicroReticulum.Rnsd.Patience
import MicroReticulum.Channel.Ends
import MicroReticulum.Rnsd.ChannelStream
import MicroReticulum.Rnsd.Streaming
import MicroReticulum.Rnsd.StreamEnds
