import Wotex.Routines.Reports
import Wotex.Routines.Verdicts
import Wotex.CoAP.Download
import Wotex.CoAP.Delivery
import Wotex.CoAP.Ownership
import Wotex.Directory.Patching
import Wotex.Zigbee.Frame
import Wotex.Zigbee.Downlinks
import Wotex.Zigbee.Freshness
import Wotex.Modbus.Server
import Wotex.Opcua.PublishSequence
import Wotex.Bacnet.DiscoveryWindow
import Wotex.Runtime.Wire
import Wotex.Json.Pointer
import Wotex.Profiles.Embedding
import Wotex.Profiles.Compiler
import Wotex.Lab.Channel
import Wotex.Udp.Contention
import Wotex.Modbus.RegisterCodec
import Wotex.Matter.Bridge
import Wotex.Routines.Closure
import Wotex.Routines.Predicates
