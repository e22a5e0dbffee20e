import Realraum.Common.Reach
import Realraum.Common.Flow
import Realraum.Common.Framing
import Realraum.Common.Dispatch
import Realraum.Common.Chunks
import Realraum.Common.Throttle
import Realraum.Common.Emission
import Realraum.Common.Pulses
import Realraum.Common.Debounce
import Realraum.Common.Divider
import Realraum.Common.Raising
import Realraum.Common.Walk
import Realraum.Common.BitSearch
import Realraum.Common.Crc
import Realraum.Common.Sampling
import Realraum.Common.Biphase
import Realraum.Common.Window
import Realraum.Common.Latest
import Realraum.Common.Replacing
import Realraum.Daemon.Queue
import Realraum.Daemon.Replies
import Realraum.Daemon.Reuse
import Realraum.Daemon.Unsent
import Realraum.Daemon.Expiry
import Realraum.Daemon.Delivery
import Realraum.Daemon.Readline
import Realraum.Daemon.ClientErrors
import Realraum.Daemon.Connections
import Realraum.Daemon.Restart
import Realraum.Daemon.Termination
import Realraum.Daemon.Grammar
import Realraum.Daemon.Invalid
import Realraum.Daemon.EmptyValue
import Realraum.Daemon.Reentry
import Realraum.Daemon.Writes
import Realraum.Daemon.PairFile
import Realraum.Daemon.PhysicalLines
import Realraum.Daemon.Codes
import Realraum.Daemon.Storage
import Realraum.Daemon.SampleNames
import Realraum.Daemon.Sampling
import Realraum.Daemon.Schedule
import Realraum.Daemon.Argv
import Realraum.Daemon.Log
import Realraum.Daemon.LogClose
import Realraum.Firmware.Acknowledge
import Realraum.Firmware.Waveform
import Realraum.Firmware.PanicButton
import Realraum.Firmware.Light
import Realraum.Firmware.SameMessage
import Realraum.Firmware.RomSearch
import Realraum.Firmware.Crc
import Realraum.Firmware.AlarmSearch
import Realraum.Firmware.Sensors
import Realraum.Firmware.Amplifier
import Realraum.Firmware.Infrared
import Realraum.Firmware.BiphaseCodes
import Realraum.Firmware.RawBuffer
import Realraum.Firmware.Movement
import Realraum.Power.Panic
import Realraum.Power.MainLoop
import Realraum.Power.SwitchCgi
import Realraum.Presence.Exclusion
import Realraum.Presence.Distribute
import Realraum.Presence.Notify
import Realraum.Presence.Recheck
import Realraum.Presence.DoorFlags
import Realraum.Presence.Restored
import Realraum.Sound.Theme
import Realraum.Sound.Links
import Realraum.Console.SampleSensors
