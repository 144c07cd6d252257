import AsioLearn.Lib.Transducer
import AsioLearn.Lib.Hoare
import AsioLearn.Lib.Loop
import AsioLearn.Lib.Lts
import AsioLearn.Lib.Ranking
import AsioLearn.Lib.Pipeline
import AsioLearn.Lib.Backtrack
import AsioLearn.Lib.RoundRobin
import AsioLearn.Lib.Queens
import AsioLearn.Cpp
import AsioLearn.Wire
import AsioLearn.MsgNode
import AsioLearn.LogicServer.HandleRead
import AsioLearn.LogicServer.Refine
import AsioLearn.LogicServer.Chunking
import AsioLearn.BoostCoServer.Start
import AsioLearn.BoostCoServer.Refine
import AsioLearn.LogicServer.Stranding
import AsioLearn.SameProtocol
import AsioLearn.ReceiveBounds
import AsioLearn.LogicServer.SendQueue
import AsioLearn.BoostCoServer.SendQueue
import AsioLearn.SendLength
import AsioLearn.SendCap
import AsioLearn.Registry
import AsioLearn.LogicSystem
import AsioLearn.Dispatch
import AsioLearn.Wakeups
import AsioLearn.Progress
import AsioLearn.HelloWord
import AsioLearn.Serving
import AsioLearn.LogicServer.Replies
import AsioLearn.Answering
import AsioLearn.Settling
import AsioLearn.JsonClient
import AsioLearn.Endpoints
import AsioLearn.ClosedLoop
import AsioLearn.ServicePool
import AsioLearn.BeastHttpServer.Connection
import AsioLearn.BeastHttpServer.Server
import AsioLearn.CppVector
import AsioLearn.NQueen.Board
import AsioLearn.NQueen.Server
import AsioLearn.NQueen.Fillings
import AsioLearn.NQueen.Count
import AsioLearn.NQueen.Reply
import AsioLearn.NQueen.Client
import AsioLearn.WebSocket.Session
import AsioLearn.WebSocket.Chat
import AsioLearn.WebSocket.Lifetime
import AsioLearn.WebSocket.Delivery
import AsioLearn.WebSocket.Drain
import AsioLearn.Lib.Path
import AsioLearn.WebSocket.HandleRequest
import AsioLearn.WebSocket.Server
import AsioLearn.Protobuf.Rpc
import AsioLearn.PoolShutdown
import AsioLearn.Echo
import AsioLearn.NQueen.Verification
import AsioLearn.BeastHttpServer.Answers
