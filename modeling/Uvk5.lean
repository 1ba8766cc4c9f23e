import Uvk5.Lib.Run
import Uvk5.Lib.Proc
import Uvk5.Lib.Overlay
import Uvk5.Lib.Disk
import Uvk5.Lib.Lcg
import Uvk5.Lib.ByteBits
import Uvk5.Lib.Wrapping
import Uvk5.Lib.WordBits
import Uvk5.Lib.Worklist
import Uvk5.Lib.Signal
import Uvk5.Lib.Scroll
import Uvk5.Lib.Crc
import Uvk5.Lib.Utf8
import Uvk5.Lib.Png
import Uvk5.Lib.Interleaving
import Uvk5.Lib.Multipart
import Uvk5.Lib.Lines
import Uvk5.Lib.Windows
import Uvk5.Flash.Frame
import Uvk5.Flash.PowerCycle
import Uvk5.Flash.Controller
import Uvk5.Flash.Uf2
import Uvk5.Transceiver.Pins
import Uvk5.Transceiver.Squelch
import Uvk5.Transceiver.Collection
import Uvk5.Serial.Framing
import Uvk5.Serial.Checksum
import Uvk5.Serial.Reassembly
import Uvk5.Serial.Bootloader
import Uvk5.Slots.Header
import Uvk5.Slots.Store
import Uvk5.Slots.Apps
import Uvk5.Slots.Law
import Uvk5.Slots.Files
import Uvk5.Slots.ShortImages
import Uvk5.Slots.Installing
import Uvk5.Slots.Packing
import Uvk5.Slots.Integrity
import Uvk5.Qmp.Endpoint
import Uvk5.Qmp.Client
import Uvk5.Supervisor.Power
import Uvk5.Supervisor.Threads
import Uvk5.Serial.Link
import Uvk5.Serial.Radio
import Uvk5.Serial.SlotWrite
import Uvk5.Serial.Install
import Uvk5.Timers.Tim2
import Uvk5.Timers.SysTick
import Uvk5.Serial.Console
import Uvk5.Dma.Device
import Uvk5.Dma.Receive
import Uvk5.Dma.Spi
import Uvk5.Dma.SpiBounds
import Uvk5.Dma.UsartBounds
import Uvk5.Dma.Irq
import Uvk5.Board.Gpio
import Uvk5.Board.Keypad
import Uvk5.Board.BootKey
import Uvk5.Display.Panel
import Uvk5.Display.SoftReset
import Uvk5.Display.Grabber
import Uvk5.Display.Pump
import Uvk5.Dma.Bus
import Uvk5.Board.Wiring
import Uvk5.Display.Frames
import Uvk5.Display.Browser
import Uvk5.Web.Image
import Uvk5.Web.Loaders
import Uvk5.Board.MemoryMap
import Uvk5.Board.LastWritten
import Uvk5.Elf.Wrap
import Uvk5.Elf.Extract
import Uvk5.Web.Server
import Uvk5.Web.PowerCycle
import Uvk5.Web.Clients
import Uvk5.Web.Emulators
import Uvk5.Web.Launches
import Uvk5.Web.Refused
import Uvk5.Web.Files
import Uvk5.Web.Buffers
import Uvk5.Web.Logs
import Uvk5.Web.SerialLog
import Uvk5.Web.Stream
import Uvk5.Web.LogPane
import Uvk5.Web.Keys
import Uvk5.Web.Presses
import Uvk5.Web.Store
import Uvk5.Harness.Playback
import Uvk5.Harness.Debounce
import Uvk5.Harness.Capture
import Uvk5.Harness.Elements
import Uvk5.Minesweeper.Game
import Uvk5.Minesweeper.Field
import Uvk5.Minesweeper.Flood
import Uvk5.Minesweeper.Play
import Uvk5.Minesweeper.Screen
