import IocpStudy.Lib.Runs
import IocpStudy.Lib.Memory
import IocpStudy.Lib.Words
import IocpStudy.Lib.Frames
import IocpStudy.Lib.Pools
import IocpStudy.Lib.BoundedFifo
import IocpStudy.Lib.Slots
import IocpStudy.Lib.KeyIndex
import IocpStudy.Lib.FixedWindow
import IocpStudy.Lib.Copies
import IocpStudy.Lib.Outbox
import IocpStudy.Lib.Rounds
import IocpStudy.Lib.Workers
import IocpStudy.Lib.Joins
import IocpStudy.Lib.Heap
import IocpStudy.Lib.Json
import IocpStudy.Lib.Dictionary
import IocpStudy.StudyServer.NetworkContext
import IocpStudy.StudyServer.ByteFifo
import IocpStudy.StudyServer.NetworkPacket
import IocpStudy.StudyServer.NetworkClient
import IocpStudy.StudyServer.Receive
import IocpStudy.StudyServer.Framing
import IocpStudy.StudyServer.Codec
import IocpStudy.StudyServer.NetworkDispatcher
import IocpStudy.StudyServer.SendPath
import IocpStudy.StudyServer.NetworkManager
import IocpStudy.StudyServer.Isolation
import IocpStudy.StudyServer.ClientList
import IocpStudy.StudyServer.FailedCompletion
import IocpStudy.StudyServer.Echoes
import IocpStudy.StudyServer.Outstanding
import IocpStudy.StudyServer.Sockets
import IocpStudy.StudyServer.DispatcherLife
import IocpStudy.StudyServer.MemoryPool
import IocpStudy.StudyServer.Listener
import IocpStudy.StudyServer.PacketPool
import IocpStudy.OneSend
import IocpStudy.Callbacks
import IocpStudy.ChatServer.NetworkClient
import IocpStudy.ChatServer.Acceptor
import IocpStudy.ChatServer.LostSlots
import IocpStudy.ChatServer.Responses
import IocpStudy.ChatServer.User
import IocpStudy.ChatServer.UserBuffer
import IocpStudy.ChatServer.BufferBounds
import IocpStudy.ChatServer.Payload
import IocpStudy.ChatServer.PacketManager
import IocpStudy.ChatServer.Framing
import IocpStudy.ChatServer.IOCPServer
import IocpStudy.ChatServer.Isolation
import IocpStudy.ChatServer.SystemEvents
import IocpStudy.ChatServer.ProcessThread
import IocpStudy.ChatServer.Login
import IocpStudy.ChatServer.Users
import IocpStudy.SBServer.Buffer
import IocpStudy.SBServer.ByteFifo
import IocpStudy.SBServer.IOCPHandler
import IocpStudy.SBServer.PacketBody
import IocpStudy.SBServer.Delivery
import IocpStudy.SBServer.Indices
import IocpStudy.SBServer.RateLimit
import IocpStudy.SBServer.Sockets
import IocpStudy.Iocpsolution.NetworkClient
import IocpStudy.Iocpsolution.IOCPServer
import IocpStudy.Iocpsolution.EchoServer
import IocpStudy.OnClose
import IocpStudy.Shutdown
import IocpStudy.ChatServer.Shutdown
import IocpStudy.Iocpsolution.Shutdown
import IocpStudy.Iocpsolution.EchoHeap
import IocpStudy.Iocpsolution.Silence
import IocpStudy.Iocpsolution.Accepting
import IocpStudy.Iocpsolution.Connections
import IocpStudy.Iocpsolution.EchoOrder
import IocpStudy.Iocpsolution.ReusedIndex
import IocpStudy.StudyServer.ConfigLoader
import IocpStudy.StudyServer.Server
import IocpStudy.SBServer.ConfigLoader
import IocpStudy.SBServer.Server
import IocpStudy.SBServer.Windows
