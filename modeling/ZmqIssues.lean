import ZmqIssues.Lib.Machine
import ZmqIssues.Lib.Progress
import ZmqIssues.Lib.Slots
import ZmqIssues.Lib.Reader
import ZmqIssues.Lib.CStrings
import ZmqIssues.Lib.Numbers
import ZmqIssues.Lib.Hex
import ZmqIssues.Lib.Segments
import ZmqIssues.Lib.Multipart
import ZmqIssues.Lib.Lines
import ZmqIssues.Lib.Printing
import ZmqIssues.Dist.Fanout
import ZmqIssues.Dist.Pipes
import ZmqIssues.Dist.Model
import ZmqIssues.Dist.Bounds
import ZmqIssues.Dist.Atomicity
import ZmqIssues.Dist.PrePatch
import ZmqIssues.Dist.Callbacks
import ZmqIssues.Dist.PrePatchAtomicity
import ZmqIssues.Subscriber.Loops
import ZmqIssues.Subscriber.Detection
import ZmqIssues.Subscriber.Verdicts
import ZmqIssues.Subscriber.Publishing
import ZmqIssues.Stress.Client
import ZmqIssues.Stress.Server
import ZmqIssues.Stress.Atomic
import ZmqIssues.Stress.Reads
import ZmqIssues.Stress.Hex
import ZmqIssues.Stress.Versions
import ZmqIssues.Stress.Format
import ZmqIssues.FileTransfer.Programs
import ZmqIssues.FileTransfer.System
import ZmqIssues.FileTransfer.Clients
import ZmqIssues.FileTransfer.Transfer
import ZmqIssues.FileTransfer.Survival
import ZmqIssues.FileTransfer.Credit
import ZmqIssues.FileTransfer.Offsets
import ZmqIssues.FileTransfer.Completion
import ZmqIssues.Zmtp.Program
import ZmqIssues.Zmtp.Calls
import ZmqIssues.Zmtp.Wire
import ZmqIssues.Zmtp.Receive
import ZmqIssues.Zmtp.RoundTrip
import ZmqIssues.Zmtp.Shown
import ZmqIssues.Zmtp.ShownFrames
import ZmqIssues.Zmtp.Illegal
import ZmqIssues.Zmtp.Closing
import ZmqIssues.RouterMore.Loop
import ZmqIssues.Relay.Device
import ZmqIssues.Relay.Verdict
import ZmqIssues.Broadcaster.Messages
import ZmqIssues.Proxies.Loops
import ZmqIssues.Proxies.Pipeline
import ZmqIssues.Testutil.Sequences
import ZmqIssues.Testutil.Bounce
import ZmqIssues.Zmqtest.Model
import ZmqIssues.Zmqtest.Service
