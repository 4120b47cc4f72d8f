import FuzzUSB.Transition
import FuzzUSB.PyText
import FuzzUSB.StateMgrFsm
import FuzzUSB.StateMgrLoader
import FuzzUSB.StateMgrWalk
import FuzzUSB.StateMgrCoverage
import FuzzUSB.StateMgrCommands
import FuzzUSB.StateMgrThreads
import FuzzUSB.Program
import FuzzUSB.UsbtestTypes
import FuzzUSB.UsbtestIoctl
import FuzzUSB.UsbtestQueue
import FuzzUSB.UsbtestQueueFree
import FuzzUSB.UsbtestEndpoints
import FuzzUSB.UsbtestBinding
import FuzzUSB.Ledger
import FuzzUSB.CLayout
import FuzzUSB.UsbtestCtrlQueue
import FuzzUSB.UsbtestUnlink
import FuzzUSB.UsbtestHostFuzz
import FuzzUSB.UsbtestVary
import FuzzUSB.ConfigfsAttr
import FuzzUSB.Configfs
import FuzzUSB.GadgetCalls
import FuzzUSB.GadgetTeardown
import FuzzUSB.GadgetGuards
import FuzzUSB.GadgetDescriptors
import FuzzUSB.GoText
import FuzzUSB.KcovLoader
import FuzzUSB.KcovCollection
import FuzzUSB.WorkQueue
import FuzzUSB.Signal
import FuzzUSB.RpcServer
import FuzzUSB.RpcInputs
import FuzzUSB.RpcSignal
import FuzzUSB.RpcCorpus
import FuzzUSB.GoSlice
import FuzzUSB.CorpusManager
import FuzzUSB.CorpusCoverage
import FuzzUSB.CorpusPruning
import FuzzUSB.CorpusCandidates
import FuzzUSB.FuzzerCorpus
import FuzzUSB.FuzzerTriage
import FuzzUSB.FuzzerSignal
import FuzzUSB.FuzzerSync
import FuzzUSB.TextLines
import FuzzUSB.Report
import FuzzUSB.ReportStack
import FuzzUSB.ReportTitle
import FuzzUSB.ReportParse
import FuzzUSB.VmLoop
import FuzzUSB.VmRepro
import FuzzUSB.UsbRawIndex
import FuzzUSB.UsbRawReplies
import FuzzUSB.UsbRawInterfaces
import FuzzUSB.Grouping
import FuzzUSB.UsbRawDescriptors
import FuzzUSB.ByteFlow
import FuzzUSB.DummyHcdTransfer
import FuzzUSB.DummyHcdOrder
import FuzzUSB.DummyHcdStreams
import FuzzUSB.DummyHcdHub
import FuzzUSB.DummyHcdEnable
import FuzzUSB.DummyHcdQueues
import FuzzUSB.DummyHcdFifo
import FuzzUSB.DummyHcdTimer
import FuzzUSB.DummyHcdControl
import FuzzUSB.ArrayLoops
import FuzzUSB.DummyHcdInit
import FuzzUSB.Tiling
import FuzzUSB.UsbtestIso
import FuzzUSB.UsbtestSelect
import FuzzUSB.UsbRawTables
import FuzzUSB.RecordWalk
import FuzzUSB.UsbtestChapter9
import FuzzUSB.UsbtestHalt
import FuzzUSB.UsbtestCtrlOut
import FuzzUSB.StateMgrRules
