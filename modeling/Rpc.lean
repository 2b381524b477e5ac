import Rpc.ForStd.AList
import Rpc.ForStd.BigEndian
import Rpc.ForStd.Codec
import Rpc.ForStd.Crc
import Rpc.ForStd.Cumulative
import Rpc.ForStd.Dialogue
import Rpc.ForStd.IoContext
import Rpc.ForStd.Journal
import Rpc.ForStd.Json
import Rpc.ForStd.List
import Rpc.ForStd.MachineInt
import Rpc.ForStd.NameTree
import Rpc.ForStd.Transition
import Rpc.ForStd.Typestate
import Rpc.ForStd.WriteChain
import Rpc.Native.Protocol
import Rpc.Native.Checksum
import Rpc.Native.Service
import Rpc.Native.Connection
import Rpc.Native.MessageCycle
import Rpc.Native.ThreadPool
import Rpc.Native.Server
import Rpc.Native.Client
import Rpc.Native.ClientLife
import Rpc.Native.Session
import Rpc.Native.System
import Rpc.Native.Programs
import Rpc.Native.Shutdown
import Rpc.Native.ZkProto
import Rpc.Native.ZkClient
import Rpc.Native.Registry
import Rpc.Native.WaitLoop
import Rpc.Native.Balancer
import Rpc.Native.NodeManager
import Rpc.Native.Fleet
import Rpc.Native.Config
import Rpc.Native.Encrypt
import Rpc.Native.Evp
import Rpc.Spec.ProtocolCorrect
import Rpc.Spec.FieldLimits
import Rpc.Spec.ResponseCorrect
import Rpc.Spec.ErrorCodes
import Rpc.Spec.ChecksumCorrect
import Rpc.Spec.Framing
import Rpc.Spec.ConnectionSteps
import Rpc.Spec.ClientSteps
import Rpc.Spec.WriteQueueCorrect
import Rpc.Spec.PromiseCorrect
import Rpc.Spec.PendingCorrect
import Rpc.Spec.ClientLifeCorrect
import Rpc.Spec.ThreadPoolCorrect
import Rpc.Spec.ThreadPoolProgress
import Rpc.Spec.TasksCorrect
import Rpc.Spec.DrainCorrect
import Rpc.Spec.ZkProtoCorrect
import Rpc.Spec.ZkClientCorrect
import Rpc.Spec.RegistryCorrect
import Rpc.Spec.WaitLoopCorrect
import Rpc.Spec.ZkReplyCorrect
import Rpc.Spec.BalancerCorrect
import Rpc.Spec.BalancerNames
import Rpc.Spec.DiscoveryCorrect
import Rpc.Spec.PlayCorrect
import Rpc.Spec.RefreshCorrect
import Rpc.Spec.InitPathsCorrect
import Rpc.Spec.FleetSteps
import Rpc.Spec.FleetCorrect
import Rpc.Spec.ConfigCorrect
import Rpc.Spec.EncryptCorrect
import Rpc.Spec.CipherCorrect
import Rpc.Spec.CycleSteps
import Rpc.Spec.CycleMap
import Rpc.Spec.CycleCorrect
import Rpc.Spec.ServerSteps
import Rpc.Spec.ServerJobs
import Rpc.Spec.ServerFlow
import Rpc.Spec.ServerProgress
import Rpc.Spec.ServerCorrect
import Rpc.Spec.SerialServer
import Rpc.Spec.StreamCorrect
import Rpc.Spec.CallCorrect
import Rpc.Spec.SequenceCorrect
import Rpc.Spec.SystemCorrect
import Rpc.Spec.SerialCorrect
import Rpc.Spec.CalmRuns
import Rpc.Spec.SystemProgress
import Rpc.Spec.AnswerCorrect
import Rpc.Spec.CallerCorrect
import Rpc.Spec.ProgramsCorrect
import Rpc.Spec.ShutdownSteps
import Rpc.Spec.ShutdownCorrect
import Rpc.Spec.ShutdownProgress
