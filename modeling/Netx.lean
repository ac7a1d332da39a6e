import Netx.Limit.OverRelease
import Netx.Limit.BudgetCalls
import Netx.Limit.RefusedAll
import Netx.Stream.RefusalContract
import Netx.Stream.BorrowContract
import Netx.FlowTable.EpochContract
import Netx.FlowTable.FlowLife
import Netx.FlowTable.SweepContract
import Netx.FlowTable.ExpiryContract
import Netx.Lifecycle.GroupRefinement
import Netx.Lifecycle.MemberFailures
import Netx.Lifecycle.SecondSignal
import Netx.Tcp.IpKeyProperties
import Netx.Tcp.SlotContract
import Netx.Tcp.StopContract
import Netx.Udp.StopReport
import Netx.Sys.ControlData
import Netx.Udp.ReceiveProperties
import Netx.Udp.DropTotal
import Netx.Runtime.RequestedStop
import Netx.Limit.Alone
import Netx.FlowTable.RangeCoverage
import Netx.Gateway.Contract
import Netx.Socket.Contract
import Netx.Udp.SendContract
import Netx.Udp.Snapshot
import Netx.Stream.Link
