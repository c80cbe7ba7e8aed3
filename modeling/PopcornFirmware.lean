import PopcornFirmware.Packet.Http
import PopcornFirmware.Packet.Receive
import PopcornFirmware.Packet.Stream
import PopcornFirmware.FreeRTOS.FailedSend
import PopcornFirmware.FreeRTOS.HandOff
import PopcornFirmware.FreeRTOS.LcdLines
import PopcornFirmware.FreeRTOS.PacketIntegrity
import PopcornFirmware.FreeRTOS.ReceiveLoop
import PopcornFirmware.FreeRTOS.ReportOnce
import PopcornFirmware.Standalone.CloseAfterFin
import PopcornFirmware.Standalone.EchoStream
import PopcornFirmware.Standalone.PbufAccounting
import PopcornFirmware.Packet.JsonParser
import PopcornFirmware.FreeRTOS.ResourcePools
import PopcornFirmware.FreeRTOS.SenderNetconn
import PopcornFirmware.FreeRTOS.UdpTcpHandOff
import PopcornFirmware.Standalone.StoreAndForward
import PopcornFirmware.Standalone.ConnectGuard
import PopcornFirmware.Standalone.MessageStream
import PopcornFirmware.Standalone.ClientAccounting
import PopcornFirmware.Standalone.EsLifetime
import PopcornFirmware.Usart.RxBuffer
import PopcornFirmware.Usart.RxQueue
import PopcornFirmware.Usart.RxFifo
import PopcornFirmware.Usart.TxQueue
import PopcornFirmware.Packet.SerialRange
import PopcornFirmware.Packet.SerialCheck
import PopcornFirmware.Packet.Buffers
import PopcornFirmware.FreeRTOS.ServerThread
import PopcornFirmware.Standalone.SerialExtraction
import PopcornFirmware.Usart.PutInt
import PopcornFirmware.Usart.ReceiveString
import PopcornFirmware.Packet.JsonKeys
import PopcornFirmware.Standalone.ServerInit
import PopcornFirmware.Standalone.StaleHeap
import PopcornFirmware.Lwip.TcpConnection
import PopcornFirmware.Lwip.EthTx
import PopcornFirmware.Lwip.MemRuns
import PopcornFirmware.Lwip.TcpipTimer
