import Chipscopy.Lib.Python
import Chipscopy.Lib.Worklist
import Chipscopy.Lib.Machine
import Chipscopy.Lib.Method
import Chipscopy.Lib.Digits
import Chipscopy.Lib.Bits
import Chipscopy.Lib.Numerals
import Chipscopy.Lib.Bytes
import Chipscopy.Lib.Frames
import Chipscopy.Lib.Float
import Chipscopy.Lib.Fuel
import Chipscopy.Lib.Stream
import Chipscopy.Lib.ValueChange
import Chipscopy.Lib.Records
import Chipscopy.Lib.Forest
import Chipscopy.IlaMapper.BitValue
import Chipscopy.IlaMapper.Match
import Chipscopy.IlaMapper.Mapper
import Chipscopy.IlaMapper.Placement
import Chipscopy.IlaMapper.Registers
import Chipscopy.Tsm.Data
import Chipscopy.Tsm.ConditionList
import Chipscopy.Tsm.Flatten
import Chipscopy.Tsm.Checker
import Chipscopy.Tsm.Table
import Chipscopy.Tsm.Words
import Chipscopy.Tsm.Simulation
import Chipscopy.Tsm.Segments
import Chipscopy.Tsm.Split
import Chipscopy.Waveform.Data
import Chipscopy.Waveform.Export
import Chipscopy.Waveform.GetData
import Chipscopy.Waveform.Transactions
import Chipscopy.Waveform.Pairing
import Chipscopy.Waveform.Archive
import Chipscopy.Lib.Positions
import Chipscopy.Lib.Decimal
import Chipscopy.Waveform.BusProbes
import Chipscopy.Waveform.BusBits
import Chipscopy.Upload.Internal
import Chipscopy.Upload.External
import Chipscopy.Upload.ExternalDecode
import Chipscopy.Upload.ExternalWaveform
import Chipscopy.Client.ReadBytes
import Chipscopy.Client.WriteBytes
import Chipscopy.Client.JtagConfig
import Chipscopy.Dm.Manager
import Chipscopy.Dm.Consistency
import Chipscopy.Dm.Notify
import Chipscopy.Dm.Memory
import Chipscopy.Dm.Tree
import Chipscopy.Dm.Request
import Chipscopy.Dm.RequestRuns
import Chipscopy.Dm.Poll
import Chipscopy.Dm.PollRuns
import Chipscopy.Api.JtagSequence
import Chipscopy.Api.Memory
import Chipscopy.Api.Patg
import Chipscopy.Ibert.Link
import Chipscopy.Ibert.LinkRegistry
import Chipscopy.Ibert.LinkGroups
import Chipscopy.Ibert.DetectLinks
import Chipscopy.Ibert.DetectedLinks
import Chipscopy.Probe.Value
import Chipscopy.Probe.Encoding
import Chipscopy.Tsm.Number
import Chipscopy.Tsm.NumberAgreement
import Chipscopy.Device.Scanner
import Chipscopy.Device.JtagChain
import Chipscopy.Device.Grouping
import Chipscopy.Xvc.Registers
import Chipscopy.Xvc.RegisterFile
import Chipscopy.Xvc.Handler
import Chipscopy.Xvc.HandlerReads
import Chipscopy.Xvc.HandlerWrites
import Chipscopy.Xvc.Dispatch
import Chipscopy.Xvc.Commands
import Chipscopy.Xvc.Framing
import Chipscopy.Api.Session
import Chipscopy.Api.SessionCounts
import Chipscopy.Api.SessionRuns
import Chipscopy.Api.DeviceList
import Chipscopy.Api.DeviceListRuns
import Chipscopy.Lib.PowersOfTwo
import Chipscopy.Upload.ExternalSize
import Chipscopy.Lib.FirstFit
import Chipscopy.Waveform.Lanes
import Chipscopy.IlaMapper.Overflow
import Chipscopy.Probe.StringValues
import Chipscopy.IlaMapper.PortMap
import Chipscopy.Dm.Discovery
import Chipscopy.Dm.DiscoveryRuns
import Chipscopy.Ibert.EyeScan
import Chipscopy.Ibert.OpenArea
import Chipscopy.Lib.Hex
import Chipscopy.Waveform.Csv
import Chipscopy.Lib.Subsets
import Chipscopy.Waveform.ManualSignal
import Chipscopy.Waveform.RuleSignals
import Chipscopy.Lib.DepthFirst
import Chipscopy.Tsm.ProbeMatch
import Chipscopy.Tsm.Reachability
import Chipscopy.Lib.Slots
import Chipscopy.Client.JtagRegister
import Chipscopy.Api.Watchlist
import Chipscopy.Lib.BitFields
import Chipscopy.Lib.IntLiteral
import Chipscopy.Api.PatgPacking
import Chipscopy.Api.PatgCsv
import Chipscopy.Dm.Future
import Chipscopy.Ltx.Pins
import Chipscopy.Device.Validity
import Chipscopy.Client.IlaStatus
import Chipscopy.Client.LongOperations
import Chipscopy.Client.LongOperationRuns
import Chipscopy.Ibert.Openings
import Chipscopy.Noc.Perfmon
import Chipscopy.Ddr.Margins
import Chipscopy.Ddr.EyeScan
import Chipscopy.Pcie.Trace
import Chipscopy.Pcie.TraceItems
import Chipscopy.Pcie.TracePrint
import Chipscopy.Pcie.Completeness
import Chipscopy.Waveform.Vcd
import Chipscopy.Waveform.VcdReading
import Chipscopy.Waveform.VcdEvents
import Chipscopy.Waveform.VcdHeader
import Chipscopy.Waveform.VcdExport
import Chipscopy.Waveform.SignalFrame
import Chipscopy.Lib.Layers
import Chipscopy.Ltx.FileTables
import Chipscopy.Ltx.Merging
import Chipscopy.Ltx.Sources
import Chipscopy.Xvc.Session
import Chipscopy.Client.MemoryTransfers
import Chipscopy.Tsm.Props
import Chipscopy.Tsm.ConditionRegisters
import Chipscopy.Tsm.Core
import Chipscopy.Lib.Arrivals
import Chipscopy.Tcf.Stream
import Chipscopy.Tcf.Messages
import Chipscopy.Tcf.Channel
import Chipscopy.Tcf.ChannelRuns
import Chipscopy.Tcf.ChannelReplies
