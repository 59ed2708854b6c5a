import SoundScreen.Lib.Sched
import SoundScreen.Lib.Channel
import SoundScreen.AudioRecord.Callbacks
import SoundScreen.AudioRecord.Invariants
import SoundScreen.AudioRecord.Handover
import SoundScreen.AudioRecord.Ring
import SoundScreen.Lib.Interleave
import SoundScreen.Numpy
import SoundScreen.Lib.Lfilter
import SoundScreen.RealTime.FreqFilter
import SoundScreen.RealTime.Streaming
import SoundScreen.RealTime.BpFilter
import SoundScreen.Lib.Ramp
import SoundScreen.RealTime.PythonRt
import SoundScreen.AudioRecordPython.Callbacks
import SoundScreen.AudioRecordPython.Invariants
import SoundScreen.AudioRecordPython.Progress
import SoundScreen.AudioRecordPython.EndToEnd
import SoundScreen.AudioRecordPython.Failure
import SoundScreen.Separation.Model
import SoundScreen.Separation.Process
import SoundScreen.AuxIVA.Unmix
import SoundScreen.AuxIVA.Regular
import SoundScreen.Lib.MovingSum
import SoundScreen.MovingAverage.RunningMean
import SoundScreen.Lib.LittleEndian
import SoundScreen.MovingAverage.InterpretWav
import SoundScreen.MovingAverage.FilterAudio
import SoundScreen.Lib.Pipeline
import SoundScreen.MovingAverage.Pipeline
import SoundScreen.CythonRealTime.RunningMean
import SoundScreen.CythonRealTime.DoubleBuffer
import SoundScreen.AuxIVA.Auxiliary
import SoundScreen.AuxIVA.MatH
import SoundScreen.AuxIVA.Shapes
import SoundScreen.Lib.Trace
import SoundScreen.Recorders.Main
import SoundScreen.AuxIVA.Driver
import SoundScreen.AuxIVA.Objects
import SoundScreen.AuxIVA.Products
import SoundScreen.AuxIVA.Copying
import SoundScreen.Lib.Windows
import SoundScreen.Separation.Preprocess
import SoundScreen.Lib.Stream
import SoundScreen.ReadWav.Copy
import SoundScreen.Lib.Spelling
import SoundScreen.ReadWav.HexDump
import SoundScreen.Test3.ExampleWav
import SoundScreen.Test3.Header
import SoundScreen.Test3.Blocks
import SoundScreen.Recorders.ManualStream
import SoundScreen.RealTime.InterpretWav
import SoundScreen.Lib.FloatingPoint
import SoundScreen.Separation.Reconstruct
import SoundScreen.Separation.Utils
import SoundScreen.KissFft.Cpx
import SoundScreen.Lib.Columns
import SoundScreen.KissFft.Butterfly
import SoundScreen.KissFft.Factor
import SoundScreen.KissFft.Work
import SoundScreen.KissFft.Real
import SoundScreen.Lib.Buffer
import SoundScreen.Lib.Fir
import SoundScreen.KissFft.FastFir
import SoundScreen.KissFft.FileFilter
import SoundScreen.Lib.Chunks
import SoundScreen.FirFilter.Slow
import SoundScreen.FirFilter.Fast
import SoundScreen.FirFilter.Agreement
import SoundScreen.FirFilter.Design
import SoundScreen.CythonRealTime.OneBuffer
import SoundScreen.AuxIVA.Projection
import SoundScreen.KissFft.Template
import SoundScreen.Recorders.PulseRecord
import SoundScreen.Separation.Eval
import SoundScreen.Separation.GriffinLim
import SoundScreen.Test3.Generations
