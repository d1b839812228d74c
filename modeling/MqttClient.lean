import MqttClient.Config.Summary
import MqttClient.Simulation
import MqttClient.TlsMaterial
import MqttClient.Proofs.Session.Steps
import MqttClient.Proofs.Delivery.Exchange
import MqttClient.Proofs.Delivery.Lane
import MqttClient.Proofs.Delivery.ExactlyOnce
import MqttClient.Proofs.Engine.Account
import MqttClient.Proofs.Engine.Settled
import MqttClient.Proofs.Engine.Requests
import MqttClient.Proofs.Engine.Packets
import MqttClient.Proofs.Engine.Commands
import MqttClient.Proofs.Engine.Run
import MqttClient.Proofs.Wire.Numbers
import MqttClient.Proofs.Wire.Reads
import MqttClient.Proofs.Wire.Properties
import MqttClient.Proofs.Wire.Bodies
import MqttClient.Proofs.Wire.RoundTrip
import MqttClient.Proofs.Wire.Finality
import MqttClient.Proofs.Wire.Limits
import MqttClient.Proofs.Wire.Stream
import MqttClient.Proofs.Wire.Chunks
import MqttClient.Proofs.Wire.Framing
import MqttClient.Proofs.Wire.Transport
import MqttClient.Proofs.Wire.Restored
import MqttClient.Proofs.Wire.Canonical
import MqttClient.Proofs.Wire.Accepted
import MqttClient.Proofs.Wire.InPlace
import MqttClient.Proofs.Wire.Surplus
import MqttClient.Proofs.Wire.Continuation
import MqttClient.Proofs.Wire.Blocks
import MqttClient.Proofs.Session.Run
import MqttClient.Proofs.Session.Turns
import MqttClient.Proofs.Session.Endings
import MqttClient.Proofs.Session.Inbound
import MqttClient.Proofs.Session.Resending
import MqttClient.Proofs.Session.Replaying
import MqttClient.Proofs.Session.Identifiers
import MqttClient.Proofs.Session.Refusals
import MqttClient.Proofs.Engine.Waning
import MqttClient.Proofs.Engine.Sending
import MqttClient.Proofs.Engine.Courses
import MqttClient.Proofs.Engine.Steps
import MqttClient.Proofs.Engine.Window
import MqttClient.Proofs.Engine.Order
import MqttClient.Proofs.Engine.Deeds
import MqttClient.Proofs.Engine.Progress
import MqttClient.Proofs.Engine.Lifetime
import MqttClient.Proofs.Engine.HalfReceived
import MqttClient.Proofs.Engine.KeepAlive
import MqttClient.Proofs.Engine.Entries
import MqttClient.Proofs.Engine.Resubscription
import MqttClient.Proofs.Engine.Moves
import MqttClient.Proofs.Engine.Reactions
import MqttClient.Proofs.Engine.Stale
import MqttClient.Proofs.Engine.Leaving
import MqttClient.Proofs.Engine.Traffic
import MqttClient.Proofs.Engine.PingGrace
import MqttClient.Proofs.Engine.Remembered
import MqttClient.Proofs.Engine.Unsent
import MqttClient.Proofs.Engine.Renewals
import MqttClient.Proofs.Engine.Arming
import MqttClient.Proofs.Engine.AckTimers
import MqttClient.Proofs.Session.Handshake
import MqttClient.Proofs.Engine.Cancelling
import MqttClient.Proofs.Engine.Unsubscribing
import MqttClient.Proofs.Engine.Slots
import MqttClient.Proofs.Engine.Retransmission
import MqttClient.Proofs.Topic.Matching
import MqttClient.Proofs.Topic.Grammar
import MqttClient.Proofs.Engine.Dispatch
import MqttClient.Proofs.Engine.Delays
