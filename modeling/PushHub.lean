import PushHub.Identity
import PushHub.Subscription
import PushHub.Event
import PushHub.Dispatch
import PushHub.ClientFrame
import PushHub.ServerFrame
import PushHub.Auth.Policy
import PushHub.SocketAddress
import PushHub.Config
import PushHub.Settings
import PushHub.Mailbox
import PushHub.Transport.Pipe
import PushHub.Hub.Requests
import PushHub.Registry.Journal
import PushHub.Hub.Gathering
import PushHub.Http.Site
import PushHub.CommandLine.Run
import PushHub.Main
import PushHub.Proofs.Registry.History
import PushHub.Proofs.Hub.Situation
import PushHub.Proofs.Hub.Delivery
import PushHub.Proofs.Hub.Opening
import PushHub.Proofs.Hub.Speech
import PushHub.Proofs.Hub.Conversation
import PushHub.Proofs.Hub.Credential
import PushHub.Proofs.Session.Request
import PushHub.Proofs.Hub.Following
import PushHub.Proofs.Hub.Acknowledgement
import PushHub.Proofs.Registry.Roster
import PushHub.Proofs.Registry.Isolation
import PushHub.Proofs.Hub.Shutdown
import PushHub.Proofs.Hub.Refusal
import PushHub.Proofs.Http.Broadcast
import PushHub.Proofs.Http.Convention
import PushHub.Proofs.Registry.Signal
import PushHub.Proofs.Json.RoundTrip
import PushHub.Proofs.Text.Base64Url
import PushHub.Proofs.Auth.SignedToken
import PushHub.Proofs.Hub.Hearing
import PushHub.Proofs.Hub.Entrance
import PushHub.Proofs.Config.Validation
import PushHub.Proofs.Hub.Bounds
import PushHub.Proofs.Hub.Keepalive
import PushHub.Proofs.Text.Digits
import PushHub.Proofs.SocketAddress
import PushHub.Proofs.Toml.Texts
import PushHub.Proofs.Toml.Document
import PushHub.Proofs.Config.Printing
import PushHub.Proofs.ServerFrame
import PushHub.Proofs.Hub.Conveyance
import PushHub.Proofs.ClientFrame
import PushHub.Proofs.Hub.Lapse
import PushHub.Proofs.Auth.Policy
import PushHub.Proofs.Hub.Notification
import PushHub.Proofs.Hub.Handshake
import PushHub.Proofs.Hub.Leaving
import PushHub.Proofs.Auth.Chain
import PushHub.Proofs.Registry.Capacity
import PushHub.Proofs.Pipe.Contract
import PushHub.Proofs.Origin
