import Vng.Host
import Vng.Lib.Lfsr
import Vng.Lib.Memory
import Vng.Lib.Transducer
import Vng.Utils.Crc16
import Vng.Devices.Slip
import Vng.Devices.SlipTheorems
import Vng.Devices.SlipCorruption
import Vng.Devices.Slbp
import Vng.Core.Executer
import Vng.Core.Application
import Vng.Devices.Serial
import Vng.Net.Subscriber
import Vng.Services.Parse
import Vng.Lib.OrderedMap
import Vng.Net.Channel
import Vng.Net.Clients
import Vng.Ble.GapPacket
import Vng.Lib.Ltv
import Vng.Ble.GapPacketTheorems
import Vng.Core.Exit
import Vng.Core.Synchronizer
import Vng.Net.Broker
import Vng.Net.Mosquitto
import Vng.Core.Dispatch
import Vng.Ble.GapPayload
import Vng.Services.Readers
import Vng.Services.Messages
import Vng.Core.Variant
import Vng.Services.Cloud
import Vng.Lib.Json
import Vng.Lib.JsonStrings
import Vng.Lib.JsonPrice
import Vng.Lib.JsonItems
import Vng.Core.VariantJson
import Vng.Lib.Chain
import Vng.Std.List
import Vng.Ble.GapParse
import Vng.Ble.GapRuns
import Vng.Comm.Message
import Vng.Devices.SlbpTheorems
import Vng.Lib.LfsrPolynomial
import Vng.Lib.Links
import Vng.Net.Publish
import Vng.Services.SensorEvent
import Vng.Std.Hash
import Vng.Utils.Crc16Theorems
import Vng.Devices.SerialInterest
import Vng.Devices.SerialRead
import Vng.Services.Advertise
import Vng.Core.Setting
import Vng.Lib.HexText
import Vng.Lib.Multimap
import Vng.Lib.Object
import Vng.Services.Addresses
import Vng.Services.Http
import Vng.Services.Startup
import Vng.Services.ZCloud
import Vng.Core.Startup
import Vng.Devices.Device
import Vng.Lib.Timerfd
import Vng.Services.TimerFD
import Vng.Lib.OptionList
import Vng.Lib.CoapMessage
import Vng.Coap.OptionParse
import Vng.Coap.OptionEncode
import Vng.Coap.Filter
import Vng.Lib.Slots
import Vng.Coap.Pdu
import Vng.Coap.PduParse
import Vng.Coap.Iterator
import Vng.Coap.RoundTrip
import Vng.Coap.ErrorResponse
import Vng.Coap.SendQueue
import Vng.Coap.Retransmission
import Vng.Cantcoap.CoapPdu
import Vng.Cantcoap.Validate
import Vng.Cantcoap.Insert
import Vng.Cantcoap.Build
import Vng.Cantcoap.Uri
import Vng.Services.ZCoap
import Vng.Net.Paho
