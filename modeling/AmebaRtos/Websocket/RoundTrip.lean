import AmebaRtos.Websocket.ClientSend
import AmebaRtos.Websocket.Server

/-!
# From the client to the server

The frame that `ws_sendData` builds, in front of anything else in the buffer of
`ws_server_dispatchBinary`.
-/

namespace AmebaRtos.Websocket

open Lib Lib.WebSocket List

end AmebaRtos.Websocket
