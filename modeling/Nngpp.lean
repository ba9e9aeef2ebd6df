import Nngpp.Lib.Run
import Nngpp.Lib.Custody
import Nngpp.Lib.BigEndian
import Nngpp.Core
import Nngpp.Pointer
import Nngpp.Copyable.Duplicates
import Nngpp.Buffer.Copies
import Nngpp.HandOver.Runs
import Nngpp.Ids.References
import Nngpp.Ids.Closing
import Nngpp.Msg.Deques
import Nngpp.Aio.Runs
import Nngpp.Async.Runs
import Nngpp.Async.Delays
import Nngpp.Rest.Recycling
import Nngpp.Rest.Inproc
import Nngpp.Rest.Termination
import Nngpp.Options.Behaviour
import Nngpp.Perf.Throughput
import Nngpp.Perf.Latency
import Nngpp.Perf.Completion
import Nngpp.Reqrep.Runs
import Nngpp.Pointer.Classes
import Nngpp.Perf.Arguments
import Nngpp.HttpClient
