import IridiumSniffer.Lib.Bits
import IridiumSniffer.Lib.Gf2
import IridiumSniffer.Lib.Gf2Poly
import IridiumSniffer.Lib.TableFill
import IridiumSniffer.Lib.Selection
import IridiumSniffer.Lib.Loop
import IridiumSniffer.Lib.Arrivals
import IridiumSniffer.Lib.Slots
import IridiumSniffer.Lib.Crc
import IridiumSniffer.Lib.Access
import IridiumSniffer.Lib.RowOps
import IridiumSniffer.Lib.JsonString
import IridiumSniffer.Lib.Ring
import IridiumSniffer.Lib.Printf
import IridiumSniffer.Bch
import IridiumSniffer.Chase
import IridiumSniffer.QpskDemod
import IridiumSniffer.SbdAcars
import IridiumSniffer.Acars
import IridiumSniffer.JsonEscape
import IridiumSniffer.IdaReassembly
import IridiumSniffer.IdaDecode
import IridiumSniffer.IdaLcw
import IridiumSniffer.IdaBurst
import IridiumSniffer.DopplerPos
import IridiumSniffer.DopplerRing
import IridiumSniffer.DopplerSolve
import IridiumSniffer.BurstDetect
import IridiumSniffer.BurstTrack
import IridiumSniffer.BurstFeed
import IridiumSniffer.FrameDecode
import IridiumSniffer.FrameBounds
import IridiumSniffer.OutputBuffers
import IridiumSniffer.Lib.Lanes
import IridiumSniffer.SimdFir
import IridiumSniffer.SimdMap
