import Xltop.Library.Smoothing
import Xltop.Library.BinaryHeap
import Xltop.Core.Text
import Xltop.Core.Words
import Xltop.Rate.Reads
import Xltop.Heap.TopK
import Xltop.Core.Hash
import Xltop.Master.XNode
import Xltop.Master.Tree
import Xltop.Master.KTable
import Xltop.Master.Operations
import Xltop.Master.Steps
import Xltop.Master.Walks
import Xltop.Master.Totals
import Xltop.Master.Moves
import Xltop.Master.Owner
import Xltop.Master.Put
import Xltop.Master.ServPut
import Xltop.Core.NBuf
import Xltop.Http.Botz
import Xltop.Http.Lookup
import Xltop.Library.Incremental
import Xltop.Http.Session
import Xltop.Http.Callback
import Xltop.Http.Wakeup
import Xltop.Http.Requests
import Xltop.Http.Responses
import Xltop.Http.Interleaving
import Xltop.Library.MarkSweep
import Xltop.Client.Poll
import Xltop.Client.Dangling
import Xltop.Master.Grace
import Xltop.Library.Telescoping
import Xltop.Servd.Traffic
import Xltop.Clusd.Qhost
import Xltop.Query.RoundTrip
import Xltop.Core.Decimal
import Xltop.Master.Names
import Xltop.Library.KeepFirst
import Xltop.Client.Mirror
import Xltop.Servd.Failures
import Xltop.Servd.Bookkeeping
import Xltop.Client.Register
import Xltop.Query.Accept
import Xltop.Core.Printing
import Xltop.Core.Fifo
import Xltop.Core.ApParse
import Xltop.Master.Domains
import Xltop.Client.TopMsg
import Xltop.Master.Statuses
import Xltop.Master.Traffic
import Xltop.Master.Queries
