import SaneBackends.Lib.Transition
import SaneBackends.Lib.Result
import SaneBackends.Lib.Graded
import SaneBackends.Lib.CInt
import SaneBackends.Lib.Ring
import SaneBackends.Lib.Memory
import SaneBackends.Sanei.Types
import SaneBackends.Saned.Handles
import SaneBackends.Saned.DoScan
import SaneBackends.Saned.ScanStream
import SaneBackends.Saned.ScanGrammar
import SaneBackends.Saned.ScanOversize
import SaneBackends.Sanei.Wire
import SaneBackends.Sanei.CodecBin
import SaneBackends.Sanei.WireBuffer
import SaneBackends.Sanei.WireValues
import SaneBackends.Sanei.Net
import SaneBackends.Sanei.Sending
import SaneBackends.Sanei.Ownership
import SaneBackends.Sanei.Freeing
import SaneBackends.Sanei.Decoding
import SaneBackends.Sanei.DecodeMemory
import SaneBackends.Sanei.Encoding
import SaneBackends.Sanei.RoundTrip
import SaneBackends.Sanei.WireCalls
import SaneBackends.Sanei.Config
import SaneBackends.Sanei.ConfigLines
import SaneBackends.Sanei.ConfigValues
import SaneBackends.Net.SaneRead
import SaneBackends.Net.ByteOrder
import SaneBackends.Net.ScanLink
import SaneBackends.Net.ScanFidelity
import SaneBackends.Lib.Recency
import SaneBackends.Dll.BackendList
import SaneBackends.Dll.DeviceNames
import SaneBackends.Saned.AccessDecision
import SaneBackends.Saned.Session
import SaneBackends.Saned.ScanningFlag
import SaneBackends.Saned.PollSet
import SaneBackends.Sanei.Consuming
import SaneBackends.Saned.ControlOption
import SaneBackends.Saned.OptionLength
import SaneBackends.Lib.Logged
import SaneBackends.Pixma.Session
import SaneBackends.Pixma.OneFinish
import SaneBackends.Pixma.Bjnp
import SaneBackends.Pixma.BjnpFraming
import SaneBackends.Pixma.BjnpBulkRead
import SaneBackends.Sanei.Scsi
import SaneBackends.Sanei.ScsiQueue
import SaneBackends.Sanei.ScsiRequests
import SaneBackends.Escl.Transfer
import SaneBackends.Escl.RetryBody
import SaneBackends.Lib.Reads
import SaneBackends.Escl.PageStream
import SaneBackends.Escl.StreamReads
import SaneBackends.Escl.CropStream
import SaneBackends.Escl.FailedTransfer
import SaneBackends.Sanei.ConstrainValue
import SaneBackends.Escl.Options
import SaneBackends.Escl.OptionState
import SaneBackends.Escl.OptionCalls
import SaneBackends.Genesys.Session
import SaneBackends.Genesys.Pipeline
import SaneBackends.Genesys.PipelineSize
import SaneBackends.Genesys.ImageSize
import SaneBackends.Net.ReadBounds
import SaneBackends.Sanei.ConstrainArray
import SaneBackends.Lib.Calls
import SaneBackends.Genesys.RowBuffer
import SaneBackends.Genesys.ImageBuffer
import SaneBackends.Saned.ResolverLists
import SaneBackends.Lib.Decimal
import SaneBackends.Escl.DeviceName
import SaneBackends.Escl.FailOver
import SaneBackends.Sanei.CodecAscii
import SaneBackends.Sanei.AsciiText
import SaneBackends.Sanei.AsciiWrite
import SaneBackends.Sanei.AsciiRead
import SaneBackends.Sanei.AsciiRoundTrip
import SaneBackends.Net.EndOfData
import SaneBackends.Saned.AuthCallback
import SaneBackends.Saned.AuthorizeWindow
import SaneBackends.Saned.SubnetCheck
import SaneBackends.Lib.Nearest
import SaneBackends.Sanei.NearestValue
import SaneBackends.Sanei.StringMatch
import SaneBackends.Genesys.RowClear
import SaneBackends.Genesys.FailedBatch
import SaneBackends.Genesys.PixelRow
import SaneBackends.Genesys.Extract
import SaneBackends.Lib.Loop
import SaneBackends.Genesys.PixelBits
import SaneBackends.Genesys.RowNode
import SaneBackends.Genesys.Desegment
import SaneBackends.Genesys.ShiftLines
import SaneBackends.Genesys.ShiftColumns
import SaneBackends.Genesys.MonoLines
import SaneBackends.Genesys.ConvertRow
import SaneBackends.Lib.Cells
import SaneBackends.Lib.Sweep
import SaneBackends.Sanei.Image
import SaneBackends.Sanei.Manhattan
import SaneBackends.Sanei.Dilate
import SaneBackends.Lib.ByteBits
import SaneBackends.Sanei.Turn
import SaneBackends.Lib.Window
import SaneBackends.Sanei.FilterMean
import SaneBackends.Genesys.ScaleRows
import SaneBackends.Sanei.Crop
import SaneBackends.Saned.DataPort
import SaneBackends.Saned.PortRange
import SaneBackends.Saned.RunasUser
import SaneBackends.Net.DeviceName
import SaneBackends.Net.NetHosts
import SaneBackends.Sanei.Despeck
import SaneBackends.Sanei.AsciiOverrun
import SaneBackends.Lib.Yields
import SaneBackends.Sanei.Listening
import SaneBackends.Sanei.AsciiReject
import SaneBackends.Sanei.Transitions
import SaneBackends.Lib.Lines
import SaneBackends.Scanimage.ScanIt
import SaneBackends.Scanimage.StreamedLines
import SaneBackends.Lib.Succeeds
import SaneBackends.Scanimage.FrameAssembly
import SaneBackends.Scanimage.BufferedScan
import SaneBackends.Scanimage.EncoderObjects
import SaneBackends.Pixma.ReadImage
import SaneBackends.Pixma.SaneRead
import SaneBackends.Pixma.JpegRead
import SaneBackends.Pixma.SaneStart
import SaneBackends.Pixma.BinarizeLine
import SaneBackends.Pixma.BinarizeBits
import SaneBackends.Sanei.ConfigTrim
import SaneBackends.Saned.Numerals
import SaneBackends.Scanimage.OptionVector
import SaneBackends.Scanimage.OptionGrammar
import SaneBackends.Lib.Keyed
import SaneBackends.Lib.LowerBound
import SaneBackends.Genesys.SettingSet
import SaneBackends.Genesys.RegisterContainer
import SaneBackends.Genesys.SlopeTable
import SaneBackends.Lib.FloorMean
import SaneBackends.Genesys.DarkWhite
import SaneBackends.Sanei.Luminance
import SaneBackends.Sanei.SpectralClean
import SaneBackends.Lib.Writes
import SaneBackends.Genesys.ShadingData
import SaneBackends.Genesys.Coefficients
import SaneBackends.Genesys.PlanarCoefficients
import SaneBackends.Genesys.ShiftedCoefficients
import SaneBackends.Lib.BreakLoop
import SaneBackends.Genesys.AveragedPlanar
import SaneBackends.Lib.TextStream
import SaneBackends.Genesys.Serialize
import SaneBackends.Escl.JobStatus
import SaneBackends.Lib.TextBlock
import SaneBackends.Escl.NewJob
import SaneBackends.Pixma.BjnpUdp
import SaneBackends.Pixma.BjnpIdentity
import SaneBackends.Lib.Segments
import SaneBackends.Pixma.BjnpClosing
import SaneBackends.Pixma.BjnpUri
import SaneBackends.Pixma.BjnpAllocate
import SaneBackends.Dell.Responses
import SaneBackends.Lib.Frames
import SaneBackends.Dell.Stream
import SaneBackends.Dell.Pages
import SaneBackends.Sanei.Conversation
