import DpiEngine.FastPath.Addresses
import DpiEngine.FastPath.Classified
import DpiEngine.FastPath.Clock
import DpiEngine.FastPath.Cuts
import DpiEngine.FastPath.Readable
import DpiEngine.FastPath.Teardown
import DpiEngine.Inspect.Complete
import DpiEngine.Inspect.HostHeader
import DpiEngine.Inspect.HostSection
import DpiEngine.Inspect.LookAhead
import DpiEngine.Inspect.Offsets
import DpiEngine.Inspect.Origin
import DpiEngine.Inspect.Termination
import DpiEngine.Packet.Fragments
import DpiEngine.Packet.RoundTrip
import DpiEngine.Pipeline.Exchanges
import DpiEngine.Pipeline.Filtering
import DpiEngine.Pipeline.Metadata
import DpiEngine.Pipeline.Order
import DpiEngine.Pipeline.Progress
import DpiEngine.Pipeline.Queue
import DpiEngine.Pipeline.Refiltering
import DpiEngine.Pipeline.Reports
import DpiEngine.Pipeline.Restart
import DpiEngine.Pipeline.Statistics
import DpiEngine.Reassembly.Arithmetic
import DpiEngine.Reassembly.Clear
import DpiEngine.Reassembly.Permutation
import DpiEngine.Reassembly.Translation
import DpiEngine.Report.Document
import DpiEngine.Report.GlobalTable
import DpiEngine.Rules.History
import DpiEngine.Rules.Matchers
import DpiEngine.Rules.Octets
import DpiEngine.Rules.Ports
import DpiEngine.Service.Dashboard
import DpiEngine.Tracker.Identity
import DpiEngine.Traffic.Written
