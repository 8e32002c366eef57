import At32.Bootloader.Accepted
import At32.Bootloader.Board
import At32.Bootloader.Commands
import At32.Bootloader.Completion
import At32.Bootloader.Download
import At32.Bootloader.EraseRegion
import At32.Bootloader.Framing
import At32.Bootloader.ImageBytes
import At32.Bootloader.Install
import At32.Bootloader.MainLoop
import At32.Bootloader.PacketBuffer
import At32.Bootloader.Parameters
import At32.Bootloader.Parser
import At32.Bootloader.Protection
import At32.Bootloader.Replies
import At32.Bootloader.Responses
import At32.Bootloader.Resync
import At32.Bootloader.StaleData
import At32.Bootloader.State
import At32.Bootloader.WriteRegion
import At32.Checksum
import At32.Devices.At24c02
import At32.Devices.Eeprom
import At32.Devices.EepromBlock
import At32.Devices.SpiFlash
import At32.Devices.Tsic506
import At32.Drivers.AutoBaud
import At32.Drivers.Clock
import At32.Drivers.Encoder
import At32.Drivers.Exti
import At32.Drivers.Flash
import At32.Drivers.FlashBank
import At32.Drivers.FlashWait
import At32.Drivers.FlashWrite
import At32.Drivers.Gpio
import At32.Drivers.GpioIic
import At32.Drivers.IicReceive
import At32.Drivers.Nvic
import At32.Drivers.Spi
import At32.Drivers.SystemClk
import At32.Drivers.Uart
import At32.Drivers.VirtualEcho
import At32.Drivers.VirtualSampling
import At32.Drivers.VirtualUart
import At32.Imu.Completeness
import At32.Imu.DataDecode
import At32.Imu.Gateway
import At32.Imu.Items
import At32.Imu.PacketBuffer
import At32.Imu.PacketDecode
import At32.Imu.PayloadBounds
import At32.Imu.Soundness
import At32.Lib.Account
import At32.Lib.BitField
import At32.Lib.BitMask
import At32.Lib.Buffer
import At32.Lib.CString
import At32.Lib.CellWalk
import At32.Lib.Crc
import At32.Lib.CrcBurst
import At32.Lib.CrcPoly
import At32.Lib.DownCounter
import At32.Lib.I2c
import At32.Lib.I2cSlave
import At32.Lib.LastWrite
import At32.Lib.LinkedRing
import At32.Lib.LittleEndian
import At32.Lib.NorFlash
import At32.Lib.Numeral
import At32.Lib.Polling
import At32.Lib.Port
import At32.Lib.Quadrature
import At32.Lib.Replay
import At32.Lib.SerialFlash
import At32.Lib.Stride
import At32.Lib.Transducer
import At32.Lib.Waveform
import At32.Rtthread.LineConfig
import At32.Rtthread.PinIrq
import At32.Rtthread.Serial
import At32.Rtthread.UsDelay
import At32.Shell.History
import At32.Shell.Indices
import At32.Shell.LineEditor
import At32.Shell.Link
import At32.Shell.ShellLoop
import At32.Shell.ShellSteps
import At32.StrFunc
import At32.Bootloader.Retry
import At32.Bootloader.MainRun
import At32.Bootloader.BootCycle
import At32.Bootloader.Traffic
import At32.Drivers.FlashStore
import At32.Devices.EepromStore
import At32.Devices.SpiFlashPower
import At32.Imu.Stream
import At32.Drivers.VirtualLink
import At32.Drivers.UartClock
import At32.Drivers.UartTransmit
import At32.Shell.Memory
import At32.Devices.SpiFlashBus
import At32.Devices.EepromAbsent
import At32.Lib.RingBuffer
import At32.Rtthread.SerialFifo
import At32.Rtthread.SerialPoll
import At32.Devices.SimulationIic
import At32.Lib.ByteMemory
import At32.Lib.Allocation
import At32.Lib.Segments
import At32.Rtthread.Heap
import At32.Rtthread.HeapCalls
import At32.Rtthread.HeapRealloc
import At32.Rtthread.HeapSession
