import Warpinator.Lib.LexPath
import Warpinator.Lib.Machine
import Warpinator.Types.Platform
import Warpinator.Types.Token
import Warpinator.Types.Transfer
import Warpinator.Types.Remote
import Warpinator.Server.RemoteManager
import Warpinator.Transfers.Disk
import Warpinator.Transfers.Receiver
import Warpinator.Transfers.Confinement
import Warpinator.Transfers.Sender
import Warpinator.Transfers.Emission
import Warpinator.Transfers.Reassembly
import Warpinator.Transfers.Trees
import Warpinator.Transfers.Delivery
import Warpinator.Server.Grounds
import Warpinator.Server.Shutdown
import Warpinator.Server.Host
import Warpinator.Transfers.StreamTasks
import Warpinator.Transfers.Truncation
import Warpinator.Grpc.WarpServer
import Warpinator.Server.RemoteWorker
import Warpinator.Lib.Pool
import Warpinator.Server.Calls
import Warpinator.Negotiation.Consent
import Warpinator.Negotiation.StopOutcome
import Warpinator.Negotiation.Announcement
import Warpinator.Server.Authenticator
import Warpinator.Server.Connection
import Warpinator.Grpc.WaitingForDuplex
import Warpinator.Lib.History
import Warpinator.Server.LiveWorker
import Warpinator.Server.Supervision
import Warpinator.Server.Duplex
import Warpinator.Types.Text
import Warpinator.Server.Admission
import Warpinator.Server.Discovery
import Warpinator.Server.Admissions
import Warpinator.Server.Tracking
import Warpinator.Server.Registration
import Warpinator.Transfers.Stopping
import Warpinator.Transfers.Omissions
import Warpinator.Transfers.Repeats
import Warpinator.Transfers.FileTimes
import Warpinator.Server.Messaging
import Warpinator.Server.Instance
import Warpinator.Server.StoreOrder
import Warpinator.Server.Ordering
import Warpinator.Server.Isolation
import Warpinator.Server.Telling
import Warpinator.Server.Subscriber
import Warpinator.Server.Convergence
import Warpinator.Negotiation.Protocol
import Warpinator.Negotiation.Agreement
import Warpinator.Server.Requests
import Warpinator.Server.ConnectOutcome
import Warpinator.Grpc.WakeUps
import Warpinator.Transfers.Totals
import Warpinator.Transfers.Failures
import Warpinator.Transfers.VirtualSender
import Warpinator.Transfers.Unreadable
import Warpinator.Server.TokenOwners
import Warpinator.Negotiation.Finished
import Warpinator.Server.StateChanges
import Warpinator.Negotiation.LateCancel
import Warpinator.Transfers.Contents
import Warpinator.Transfers.Collisions
import Warpinator.Transfers.VirtualReceiver
import Warpinator.Server.ApiVersion
import Warpinator.Server.ProtocolIds
import Warpinator.Transfers.PromptStop
import Warpinator.Transfers.WalkDir
import Warpinator.Transfers.RoundTrip
import Warpinator.Server.MalformedUrls
import Warpinator.Transfers.NativePaths
import Warpinator.Server.EventChannel
import Warpinator.Server.AvatarRoundTrip
import Warpinator.Lib.Base64
import Warpinator.Lib.SecretBox
import Warpinator.Lib.Sha256
import Warpinator.Server.CertificateExchange
import Warpinator.Server.ServiceNames
import Warpinator.Lib.Float64
import Warpinator.Lib.SlidingWindow
import Warpinator.Transfers.MovingAverage
import Warpinator.Lib.Locks
import Warpinator.Server.Locking
import Warpinator.Server.MessageSteps
import Warpinator.Server.Conversation
import Warpinator.Server.RecordLife
import Warpinator.Transfers.Ending
import Warpinator.Transfers.Accounting
import Warpinator.Transfers.WholeTransfer
import Warpinator.Transfers.VirtualDelivery
import Warpinator.Transfers.VirtualTotals
import Warpinator.Server.ContactData
