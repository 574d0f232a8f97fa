import GWSockets.Marker
import GWSockets.Protocol
import GWSockets.Inbound
import GWSockets.Isolation
import GWSockets.CloseNow
import GWSockets.GracefulClose
import GWSockets.Dispatch
import GWSockets.Lifetime
import GWSockets.Outstanding
import GWSockets.Certificate
import GWSockets.ModuleClose
import GWSockets.FieldName
import GWSockets.Verdict
import GWSockets.Target
import GWSockets.HostValue
import GWSockets.QueueLaw
import GWSockets.Interleaving
import GWSockets.Version
import GWSockets.WriteBuffer
import GWSockets.Callbacks
import GWSockets.Quiescence
import GWSockets.Handover
import GWSockets.Closers
import GWSockets.Refusal
import GWSockets.Address
import GWSockets.Object
import GWSockets.Stored
