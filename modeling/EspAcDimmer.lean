import EspAcDimmer.Lib.Run
import EspAcDimmer.Lib.StdList
import EspAcDimmer.Lib.LittleEndian
import EspAcDimmer.Lib.UniqueKeys
import EspAcDimmer.Lib.Framing
import EspAcDimmer.Lib.Relay
import EspAcDimmer.Lib.RelayOrder
import EspAcDimmer.Lib.RelayEnd
import EspAcDimmer.Lib.BitTrie
import EspAcDimmer.Lib.SearchTree
import EspAcDimmer.Lib.Crc
import EspAcDimmer.Lib.CrcOrder
import EspAcDimmer.Lib.Binary32
import EspAcDimmer.Lib.Mutex
import EspAcDimmer.Lib.StdSteps
import EspAcDimmer.Bus.Basic
import EspAcDimmer.Bus.System
import EspAcDimmer.Bus.Clients
import EspAcDimmer.Bus.ClientTable
import EspAcDimmer.Bus.Groups
import EspAcDimmer.Bus.GroupCalls
import EspAcDimmer.Bus.GroupNames
import EspAcDimmer.Bus.Delivery
import EspAcDimmer.Bus.FullQueue
import EspAcDimmer.Bus.Growth
import EspAcDimmer.Bus.Conservation
import EspAcDimmer.Bus.Order
import EspAcDimmer.Bus.Teardown
import EspAcDimmer.Bus.Sections
import EspAcDimmer.Bus.Quiescence
import EspAcDimmer.OneWire.Basic
import EspAcDimmer.OneWire.Search
import EspAcDimmer.OneWire.Simulation
import EspAcDimmer.OneWire.Pins
import EspAcDimmer.OneWire.Interrupts
import EspAcDimmer.OneWire.Recovery
import EspAcDimmer.OneWire.Crc
import EspAcDimmer.OneWire.CrcErrors
import EspAcDimmer.OneWire.Crc16Errors
import EspAcDimmer.OneWire.Family
import EspAcDimmer.OneWire.Stabilise
import EspAcDimmer.OneWire.TemperatureSensor
import EspAcDimmer.OneWire.Callbacks
import EspAcDimmer.OneWire.Presence
import EspAcDimmer.OneWire.Power
import EspAcDimmer.OneWire.Timing
import EspAcDimmer.OneWire.Sensors
import EspAcDimmer.OneWire.Celsius
import EspAcDimmer.OneWire.Devices
import EspAcDimmer.OneWire.Measurement
import EspAcDimmer.OneWire.OpenDrain
import EspAcDimmer.OneWire.InStep
import EspAcDimmer.Main.AppMain
import EspAcDimmer.Main.Readings
import EspAcDimmer.Main.AtThePins
import EspAcDimmer.Netio.UdpSrv
import EspAcDimmer.Netio.Receive
import EspAcDimmer.Netio.Clients
import EspAcDimmer.Netio.Life
import EspAcDimmer.Bus.Refused
import EspAcDimmer.Streams.Types
import EspAcDimmer.Streams.InputStream
import EspAcDimmer.Streams.Bounds
import EspAcDimmer.Streams.Decode
import EspAcDimmer.Streams.OutputStream
import EspAcDimmer.Streams.Encode
import EspAcDimmer.Netio.Messages
import EspAcDimmer.Netio.Parse
import EspAcDimmer.Streams.RoundTrip
import EspAcDimmer.Streams.Accept
import EspAcDimmer.Streams.Reserve
import EspAcDimmer.Streams.Vector
import EspAcDimmer.Streams.Targets
import EspAcDimmer.Main.TempMsg
import EspAcDimmer.Main.Firmware
