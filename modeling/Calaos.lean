import Calaos.Buttons
import Calaos.Closing
import Calaos.Conditions
import Calaos.Conversation
import Calaos.Decisions
import Calaos.Feedback
import Calaos.HomeStore
import Calaos.Identities
import Calaos.Independence
import Calaos.InputControllers
import Calaos.Interlock
import Calaos.JsonRoundTrip
import Calaos.MainServer
import Calaos.MqttQueue
import Calaos.MqttStates
import Calaos.Occurrences
import Calaos.OneOutput
import Calaos.PlcOwnership
import Calaos.RelayPause
import Calaos.RestToRest
import Calaos.Shutdown
import Calaos.StateTopics
import Calaos.TlsFiles
import Calaos.Views
import Calaos.WagoAddresses
import Calaos.WebsocketServer
import Calaos.WebsocketSession
