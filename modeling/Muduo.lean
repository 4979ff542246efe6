import Muduo.Transitions
import Muduo.OrderedSets
import Muduo.Windows
import Muduo.Basics
import Muduo.Buffer
import Muduo.BufferStreams
import Muduo.Channel
import Muduo.EpollPoller
import Muduo.TcpConnection
import Muduo.ConnectionOutput
import Muduo.ConnectionCallbacks
import Muduo.ConnectionReads
import Muduo.ConnectionFrames
import Muduo.TcpServer
import Muduo.LoopConfinement
import Muduo.TimerQueue
import Muduo.TimerInvariants
import Muduo.TimerArming
import Muduo.Scheduler
import Muduo.TimerRefinement
import Muduo.TimerThreads
import Muduo.EventLoop
import Muduo.FunctorQueue
import Muduo.LoopStart
import Muduo.PollerRegistration
import Muduo.ThreadPool
import Muduo.ConnectionState
import Muduo.SendCapture
import Muduo.ConnectionTable
import Muduo.Ownership
import Muduo.BatchCancels
import Muduo.BacklogNotifications
import Muduo.EventDispatch
import Muduo.EventLoopThread
import Muduo.ThreadPoolFailures
import Muduo.BufferBounds
import Muduo.BufferRetrieval
import Muduo.TimerDeadline
import Muduo.TimerOwnership
import Muduo.ConnectionOutcome
import Muduo.PollerEntries
import Muduo.PollerLifetimes
import Muduo.ConnectionLeaks
import Muduo.RoundRobin
import Muduo.ServerFrames
import Muduo.LoadBalance
import Muduo.PollGrowth
import Muduo.SchedulerPace
import Muduo.TimerPace
import Muduo.LoopExit
import Muduo.ThreadPoolShutdown
import Muduo.BufferFootprint
import Muduo.EchoServer
import Muduo.Numerals
import Muduo.InetAddress
import Muduo.ConnectionNames
import Muduo.TimestampText
import Muduo.HandshakeProgress
import Muduo.ServerStartup
import Muduo.Acceptor
import Muduo.AcceptorLife
