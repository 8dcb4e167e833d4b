import Esq.Infra.Chain
import Esq.Infra.Dll
import Esq.Infra.Run
import Esq.Infra.RwQueue
import Esq.Basic
import Esq.Session.HashLock
import Esq.Session.HashLockFifo
import Esq.Session.Socket
import Esq.Session.Membership
import Esq.Session.Removal
import Esq.Infra.PrefixChain
import Esq.Libs.Sscanf
import Esq.RangeMap.Basic
import Esq.RangeMap.Load
import Esq.RangeMap.Invariant
import Esq.RangeMap.Addresses
import Esq.RangeMap.Lookup
import Esq.Bee.Bucket
import Esq.Bee.Db
import Esq.Bee.Register
import Esq.Bee.Partial
import Esq.Bee.Session
import Esq.Pony
import Esq.Bee.Reply
import Esq.Bee.Framing
import Esq.Bee.BucketKey
import Esq.Bee.Open
import Esq.Bee.Online
import Esq.Bee.Link
import Esq.RangeMap.Isolation
import Esq.Bee.Generation
import Esq.Bee.Merge
import Esq.Bee.Sync
import Esq.Bee.SyncWire
import Esq.Bee.SyncWorker
import Esq.Bee.Monkey
import Esq.Infra.HeadOrder
import Esq.Libs.HeadMatchTree
import Esq.Libs.HeadMatchCompile
import Esq.Libs.HeadMatch
import Esq.H2esq.Session
import Esq.Session.Client
import Esq.Session.HashWait
import Esq.Session.HashWaitLists
import Esq.Session.HashWake
import Esq.Session.Chassis
import Esq.Session.HashCall
import Esq.Session.CellStep
import Esq.Session.Family
import Esq.Session.Children
import Esq.Bee.BucketOrder
import Esq.Bee.FileName
import Esq.Session.Broadcast
import Esq.Session.McoLists
import Esq.Infra.Coroutine
import Esq.Session.McoService
import Esq.Bee.PonyService
import Esq.Infra.Eventually
import Esq.Session.EventBits
import Esq.Session.EventBitsFresh
import Esq.Infra.LockTrace
import Esq.RangeMap.Dump
import Esq.RangeMap.OnLock
import Esq.Bee.OnLock
import Esq.Bee.LockBalance
import Esq.Bee.Offline
import Esq.Infra.SearchForest
import Esq.FileLru.Basic
import Esq.FileLru.Invariant
import Esq.FileLru.Accounting
import Esq.FileLru.NameOrder
import Esq.FileLru.Lifetime
import Esq.FileLru.LifetimeRun
import Esq.FileLru.BloomGate
import Esq.Infra.Components
import Esq.Libs.PathIsVerySafe
import Esq.Libs.EscapePercent
import Esq.Libs.RemoveRedundancySlash
import Esq.Sfs.Handler
import Esq.Libs.FindLastSlash
import Esq.Sfs.PostFile
import Esq.Infra.Infix
import Esq.PostData.Body
import Esq.PostData.Run
import Esq.PostData.RoundTrip
import Esq.PostData.Join
import Esq.PostData.Short
import Esq.PostData.Cuts
import Esq.PostData.Accept
import Esq.PostData.Chunks
import Esq.Infra.RingWindow
import Esq.Logger.Basic
import Esq.Logger.Invariant
import Esq.Logger.Turn
import Esq.Logger.Flush
import Esq.Logger.Delivery
import Esq.Logger.Birth
import Esq.Logger.Oldest
import Esq.H2esq.Stream
import Esq.H2esq.StreamRun
import Esq.Bee.GetReply
import Esq.Bee.MainAddress
import Esq.Bee.SocketTransfer
import Esq.Libs.InetAddr
import Esq.Libs.Ipv4Text
import Esq.RangeMap.DumpWhole
import Esq.RangeMap.NodeAddress
import Esq.Session.Deadline
import Esq.Session.Timing
import Esq.Infra.Loop
import Esq.Session.Loop
import Esq.Session.Parked
import Esq.Session.Shutdown
import Esq.Session.RoundRobin
import Esq.Bee.CrossLinks
import Esq.Infra.FirstSeen
import Esq.Session.CellFrame
import Esq.Session.SocketFd
import Esq.Session.SocketFdRun
import Esq.Bee.MonkeyReply
import Esq.Bee.ReadYourWrites
import Esq.Bee.MonkeyParam
import Esq.Libs.HashString
import Esq.RangeMap.HashPrefix
import Esq.Bee.SyncTarget
import Esq.Libs.Ipv4Grammar
import Esq.RangeMap.AddressText
import Esq.Bee.CanonicalName
import Esq.Libs.HeadMatchSigned
import Esq.PostData.Exact
import Esq.PostData.WholeBoundary
import Esq.Session.HashWaiters
import Esq.Infra.Utf8
import Esq.Libs.Utf8
import Esq.Libs.PathGrammar
import Esq.Libs.UrlPairs
import Esq.Libs.UrlDecode
import Esq.Libs.FileEnumeratorsWhole
import Esq.Libs.PathBloomPrecision
import Esq.PostData.Safety
import Esq.Libs.FileEnumeratorsStop
import Esq.FileLru.Capacity
import Esq.FileLru.EvictionOrder
import Esq.Sfs.PostFileName
import Esq.PostData.Refuse
import Esq.Sfs.PostParser
import Esq.Sfs.IndexPage
import Esq.Sfs.Folder
import Esq.Sfs.FolderListing
import Esq.H2esq.Cookie
import Esq.H2esq.CookieIndex
import Esq.H2esq.CookieName
import Esq.Libs.SocketUtils
import Esq.Dashboard.Basic
import Esq.Dashboard.Text
import Esq.Bee.SyncReport
import Esq.Logger.Recovery
import Esq.Bee.BucketBuf
import Esq.H2esq.Bind
import Esq.Infra.Ownership
import Esq.Bee.Owned
import Esq.Bee.OwnedCall
import Esq.Bee.Lifecycle
