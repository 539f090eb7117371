import AmebaRtos.Boot.SlotSelect
import AmebaRtos.Ota.PowerCut
import AmebaRtos.Ota.Package
import AmebaRtos.FileSystem.Ftl
import AmebaRtos.FileSystem.Kv
import AmebaRtos.FileSystem.FtlLock
import AmebaRtos.Qwen.Env
import AmebaRtos.Mesh.Transfer
import AmebaRtos.Mesh.Command
import AmebaRtos.Vb6824.Receive
import AmebaRtos.Dhcp.Pool
import AmebaRtos.Dhcp.Exchange
import AmebaRtos.Hci.Stream
import AmebaRtos.BtInic.GoBackN
import AmebaRtos.AtCmd.TransparentMode
import AmebaRtos.Diagnose.Transfer
import AmebaRtos.Websocket.RoundTrip
import AmebaRtos.Whc.UartDev
import AmebaRtos.Flash.Nor
import AmebaRtos.FlashTool.Programming
import AmebaRtos.Usb.MscTransfer
import AmebaRtos.Usb.Sense
import AmebaRtos.Boot.KeyTable
import AmebaRtos.Usb.UvcFrames
import AmebaRtos.Usb.UvcQueues
import AmebaRtos.Ota.EraseAhead
import AmebaRtos.Ota.SlotCheck
import AmebaRtos.Ota.Http
import AmebaRtos.Vb6824.Burst
import AmebaRtos.Vb6824.FirmwareRead
import AmebaRtos.Qwen.WakeWord
import AmebaRtos.Vb6824.UpdateLoop
import AmebaRtos.Boot.Lzma
import AmebaRtos.FileSystem.VfsWrap
import AmebaRtos.Mesh.Filter
import AmebaRtos.Mesh.Failure
import AmebaRtos.Dhcp.Options
import AmebaRtos.IpNat.Replies
import AmebaRtos.IpNat.Wire
import AmebaRtos.Network.HeaderEnd
import AmebaRtos.Network.Xml
import AmebaRtos.Whc.DevOta
import AmebaRtos.Wifi.AutoReconnect
import AmebaRtos.Wifi.Rnat
import AmebaRtos.Ota.Chunking
