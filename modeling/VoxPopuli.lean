import VoxPopuli.Telnet.Screen
import VoxPopuli.Telnet.Printf
import VoxPopuli.Model.Resizing
import VoxPopuli.Model.ButtonCopies
import VoxPopuli.Model.Narrowing
import VoxPopuli.Model.Settings
import VoxPopuli.Model.Traces
import VoxPopuli.XBee.Connection
import VoxPopuli.XBee.NullObjects
import VoxPopuli.XBee.Agreement
import VoxPopuli.XBee.RemotePointers
import VoxPopuli.XBee.XBeeInterface
import VoxPopuli.Model.OscRemote
import VoxPopuli.Concatenation
import VoxPopuli.Arduino.Queries
import VoxPopuli.Arduino.Buttons
import VoxPopuli.Arduino.Leds
import VoxPopuli.XBee.ReceiveRX
import VoxPopuli.Arduino.Bounds
import VoxPopuli.Arduino.Replies
import VoxPopuli.XBee.SafeSend
import VoxPopuli.Model.PatchSteps
import VoxPopuli.Model.Persistence
import VoxPopuli.Model.Outbound
import VoxPopuli.Model.Locking
import VoxPopuli.Model.Commands
import VoxPopuli.Model.Frame
import VoxPopuli.XBee.XBeeRemote
import VoxPopuli.Arduino.Framing
import VoxPopuli.Telnet.RawInput
import VoxPopuli.Telnet.Session
import VoxPopuli.Telnet.CallSyntax
import VoxPopuli.Telnet.Termination
import VoxPopuli.Model.MidiMessages
import VoxPopuli.Model.Wiring
import VoxPopuli.Model.GroupLoads
import VoxPopuli.Conversions
import VoxPopuli.Model.Listing
import VoxPopuli.Model.Naming
import VoxPopuli.Model.OscInterface
import VoxPopuli.Model.Forwarding
import VoxPopuli.Model.LookupKeys
import VoxPopuli.Model.Adding
import VoxPopuli.XBee.Fleet
import VoxPopuli.Telnet.Stream
import VoxPopuli.Osc.RoundTrip
import VoxPopuli.Osc.Clients
