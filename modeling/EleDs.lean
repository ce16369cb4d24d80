import EleDs.Lib.Bitmap
import EleDs.Lib.Bits
import EleDs.Lib.Bresenham
import EleDs.Lib.Bytes
import EleDs.Lib.Calls
import EleDs.Lib.Canvas
import EleDs.Lib.Decimals
import EleDs.Lib.Gregorian
import EleDs.Lib.Lfsr
import EleDs.Lib.Machine
import EleDs.Lib.Numerals
import EleDs.Lib.Orbit
import EleDs.Lib.Paths
import EleDs.Lib.Raster
import EleDs.Lib.Ring
import EleDs.Lib.Rounding
import EleDs.Lib.Words
import EleDs.Model.Alarm
import EleDs.Model.CJson
import EleDs.Model.CJsonParse
import EleDs.Model.CJsonPrint
import EleDs.Model.Client
import EleDs.Model.Common
import EleDs.Model.Config
import EleDs.Model.Ctime
import EleDs.Model.Disp
import EleDs.Model.Draw
import EleDs.Model.Epd
import EleDs.Model.Fangsong8
import EleDs.Model.Files
import EleDs.Model.Gzp6816d
import EleDs.Model.Icon
import EleDs.Model.Microtar
import EleDs.Model.MicrotarWrite
import EleDs.Model.Paint
import EleDs.Model.Pm
import EleDs.Model.Ringbuffer
import EleDs.Model.Sensors
import EleDs.Model.Threads
import EleDs.Model.Untar
import EleDs.Proofs.Alarm
import EleDs.Proofs.AlarmRuns
import EleDs.Proofs.Archive
import EleDs.Proofs.CJsonParse
import EleDs.Proofs.CJsonPrefix
import EleDs.Proofs.CJsonPrint
import EleDs.Proofs.CJsonText
import EleDs.Proofs.Canvas
import EleDs.Proofs.Circles
import EleDs.Proofs.Config
import EleDs.Proofs.Crc
import EleDs.Proofs.Ctime
import EleDs.Proofs.Descriptors
import EleDs.Proofs.Display
import EleDs.Proofs.Drawing
import EleDs.Proofs.Durability
import EleDs.Proofs.Fangsong8
import EleDs.Proofs.Flush
import EleDs.Proofs.Gzp6816d
import EleDs.Proofs.Header
import EleDs.Proofs.HeaderWalk
import EleDs.Proofs.Icon
import EleDs.Proofs.Lines
import EleDs.Proofs.Loading
import EleDs.Proofs.Malformed
import EleDs.Proofs.Microtar
import EleDs.Proofs.MicrotarWrite
import EleDs.Proofs.Opening
import EleDs.Proofs.Parents
import EleDs.Proofs.Paths
import EleDs.Proofs.Pictures
import EleDs.Proofs.Pm
import EleDs.Proofs.Receive
import EleDs.Proofs.Ringbuffer
import EleDs.Proofs.RingbufferRuns
import EleDs.Proofs.Runs
import EleDs.Proofs.Saving
import EleDs.Proofs.Sensors
import EleDs.Proofs.Stream
import EleDs.Proofs.Strokes
import EleDs.Proofs.Sync
import EleDs.Proofs.Text
import EleDs.Proofs.Threads
import EleDs.Proofs.Transfers
import EleDs.Proofs.Untar
import EleDs.Proofs.UntarPaths
import EleDs.Proofs.Update
