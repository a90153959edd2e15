import MqttClient.Fault
import MqttClient.Bytes
import MqttClient.VarInt
import MqttClient.Topic
import MqttClient.Protocol
import MqttClient.Wire.Reader
import MqttClient.Wire.Layout
import MqttClient.Packet.Header
import MqttClient.Packet.Reason
import MqttClient.Property.Id
import MqttClient.Property.Basic
import MqttClient.Property.Builder
import MqttClient.Negotiated
import MqttClient.Packet.Publish
import MqttClient.Packet.Connect
import MqttClient.Packet.Connack
import MqttClient.Packet.Ack
import MqttClient.Packet.Subscribe
import MqttClient.Packet.Suback
import MqttClient.Packet.Disconnect
import MqttClient.Packet.Ping
import MqttClient.Exchange.State
import MqttClient.Exchange.Table
import MqttClient.Settings
import MqttClient.Settings.Library
import MqttClient.Settings.Json
import MqttClient.Host
import MqttClient.Scripted
import MqttClient.Session.Basic
import MqttClient.Session.Sending
import MqttClient.Session.Filling
import MqttClient.Session.KeepAlive
import MqttClient.Session.Dispatch
import MqttClient.Session.Receiving
import MqttClient.Session.Connecting
import MqttClient.Session.Publishing
import MqttClient.Session.Subscribing
import MqttClient.Session.Closing
import MqttClient.Session.Summary
import MqttClient.Proofs.Running
import MqttClient.Proofs.Watched
import MqttClient.Proofs.Sending
import MqttClient.Proofs.Exchange.Records
import MqttClient.Proofs.Exchange.TwoEnds
import MqttClient.Proofs.Faultless
import MqttClient.Proofs.Headers
import MqttClient.Proofs.Handling
import MqttClient.Proofs.Lockstep
import MqttClient.Proofs.Reassembly
import MqttClient.Proofs.Publishing
import MqttClient.Proofs.Arriving
import MqttClient.Proofs.Delivery
import MqttClient.Proofs.Exchange.Flow
import MqttClient.Proofs.Keeping
import MqttClient.Proofs.Inward
import MqttClient.Proofs.Silence
import MqttClient.Proofs.Connecting
import MqttClient.Proofs.Requested
import MqttClient.Proofs.Resuming
import MqttClient.Proofs.Redelivery
import MqttClient.Proofs.Acknowledgements
import MqttClient.Proofs.Exchange.Independence
import MqttClient.Proofs.Wire.VarInt
import MqttClient.Proofs.Wire.Unfinished
import MqttClient.Proofs.Wire.Fields
import MqttClient.Proofs.Messages
import MqttClient.Proofs.Wire.RoundTrip
import MqttClient.Proofs.Faults
import MqttClient.Proofs.Waiting
import MqttClient.Proofs.Outward
import MqttClient.Proofs.KeepAlive
import MqttClient.Proofs.Untouched
import MqttClient.Proofs.Status
import MqttClient.Proofs.Clocks
import MqttClient.Proofs.Pinging
import MqttClient.Proofs.Logs
import MqttClient.Proofs.Oversized
import MqttClient.Proofs.Failing
import MqttClient.Proofs.Wire.Bodies
import MqttClient.Proofs.Wire.Frames
import MqttClient.Proofs.Framing
import MqttClient.Proofs.Wire.Phases
import MqttClient.Proofs.Wire.Requests
import MqttClient.Proofs.Sinks
import MqttClient.Proofs.Timely
import MqttClient.Proofs.Batches
import MqttClient.Proofs.Property.Walking
import MqttClient.Proofs.Property.Building
import MqttClient.Proofs.Alongside
import MqttClient.Proofs.Stuck
import MqttClient.Proofs.InFlight
import MqttClient.Proofs.Pieces
import MqttClient.Proofs.Piecemeal
import MqttClient.Proofs.Agreed
import MqttClient.Proofs.Negotiating
import MqttClient.Proofs.Guarding
import MqttClient.Proofs.Checked
import MqttClient.Proofs.Bounds
import MqttClient.Proofs.Stamping
import MqttClient.Proofs.Drafts
import MqttClient.Proofs.Tending
import MqttClient.Proofs.Alternating
import MqttClient.Proofs.Busy
import MqttClient.Proofs.Topic.Grammar
import MqttClient.Proofs.Topic.Matching
import MqttClient.Proofs.PlainJson
import MqttClient.Proofs.Settings
import MqttClient.Proofs.Skipping
import MqttClient.Proofs.Published
import MqttClient.Proofs.Withheld
import MqttClient.Proofs.Misfits
import MqttClient.Proofs.Wire.Connack
import MqttClient.Proofs.Wire.Answers
import MqttClient.Proofs.FirstPacket
import MqttClient.Proofs.Wire.Suback
import MqttClient.Proofs.Granted
import MqttClient.Proofs.Cursor
