import CodeFactory.Tr69.TreeLock
import CodeFactory.Core.Dispatch
import CodeFactory.Core.DispatchOrder
import CodeFactory.Tr69.CountLeaf
import CodeFactory.Core.PendingInform
import CodeFactory.Core.SetParameterValues
import CodeFactory.Core.TransferComplete
import CodeFactory.Core.HoldRequests
import CodeFactory.Core.DelayedTasks
import CodeFactory.Core.Notify
import CodeFactory.Oal.TimerRun
import CodeFactory.Msg.Pairing
import CodeFactory.Msg.PutBack
import CodeFactory.Conf.Stock
import CodeFactory.Conf.RoundTrip
import CodeFactory.Core.HostHandler
import CodeFactory.Msg.Stream
import CodeFactory.Sched.Args
import CodeFactory.Sched.DelayedMsg
import CodeFactory.Sched.SpecificEid
import CodeFactory.Sched.Delivery
import CodeFactory.Sched.Descriptors
import CodeFactory.Sched.Requests
import CodeFactory.Sched.Events
import CodeFactory.Http.Download
import CodeFactory.Core.DigestLine
import CodeFactory.Soap.Namespaces
import CodeFactory.Ehcc.Token
import CodeFactory.Ehcc.OpenDoor
import CodeFactory.Conf.FailedRow
import CodeFactory.Conf.ReadBack
import CodeFactory.Ehcc.Silence
import CodeFactory.Ehcc.HandledOnce
import CodeFactory.Ehcc.Doors
import CodeFactory.Ehcc.AlarmReport
import CodeFactory.Tcm.RowText
import CodeFactory.Tcm.Incremental
import CodeFactory.Tcm.SetReadBack
import CodeFactory.Stun.Event
import CodeFactory.Stun.Lifetime
import CodeFactory.Stun.ErrorCode
import CodeFactory.Stun.Request
import CodeFactory.Tr69.XmlRoundTrip
import CodeFactory.Auth.Base64
import CodeFactory.Stun.Sha1
import CodeFactory.Ftp.Download
import CodeFactory.Ehcc.Convert
import CodeFactory.Ehcc.QueueFilter
import CodeFactory.Oal.SubOption
import CodeFactory.Ftp.Fields
import CodeFactory.Msg.ReplyTimeout
import CodeFactory.DataStructure.SortAgree
