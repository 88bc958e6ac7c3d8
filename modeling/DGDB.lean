import DGDB.Lib.Run
import DGDB.Lib.GraphSearch
import DGDB.Lib.StopAndWait
import DGDB.Traversal
import DGDB.Agreement
import DGDB.Replies
import DGDB.Symmetry
import DGDB.Exclusion
import DGDB.HostList
import DGDB.Visibility
import DGDB.Settling
import DGDB.Overlap
import DGDB.GraphStore
import DGDB.Converging
import DGDB.TakingTurns
import DGDB.WaitResponse
import DGDB.CommandLine
import DGDB.Forwarding
import DGDB.Reachability
import DGDB.Independence
import DGDB.Harmless
import DGDB.RoundTrip
import DGDB.Lib.Connectives
import DGDB.Conditions
import DGDB.Writing
import DGDB.Recorded
import DGDB.Existing
import DGDB.Rdt.Framing
import DGDB.Rdt.Mixing
import DGDB.Rdt.Success
import DGDB.Rdt.Corruption
import DGDB.Rdt.Packetisation
import DGDB.Integrity
import DGDB.Rdt.Progress
import DGDB.Client
import DGDB.Coalescing
import DGDB.Main
import DGDB.Session
