import LinuxDriver.BlkdevSchedule
import LinuxDriver.BlkdevRange
import LinuxDriver.BlkdevTeardown
import LinuxDriver.TinyTty
import LinuxDriver.TinyTtyPorts
import LinuxDriver.TinyTtyTimer
import LinuxDriver.Buttons
import LinuxDriver.Circ
import LinuxDriver.TinySerial
import LinuxDriver.TinySerialTx
import LinuxDriver.Beep
import LinuxDriver.BeepBalance
import LinuxDriver.HelloGpio
import LinuxDriver.BlkdevLedger
import LinuxDriver.BlkdevPrefix
import LinuxDriver.BlkdevBalance
import LinuxDriver.TinySerialStep
import LinuxDriver.BlkdevGeometry
import LinuxDriver.BlkdevParam
import LinuxDriver.TinyTtyIoctl
import LinuxDriver.TinyTtyLines
import LinuxDriver.BeepRegs
import LinuxDriver.ButtonsLifetime
import LinuxDriver.VolumeKey
import LinuxDriver.Latches
import LinuxDriver.TinyTtyModem
import LinuxDriver.TinyTtyWait
import LinuxDriver.I2cBus
import LinuxDriver.I2cMaster
import LinuxDriver.I2cRefine
import LinuxDriver.I2cPlain
import LinuxDriver.I2cXfer
import LinuxDriver.TouchScreen
import LinuxDriver.SpiMaster
import LinuxDriver.SpiClock
import LinuxDriver.SpiQueue
import LinuxDriver.SpiDma
import LinuxDriver.SpiSelect
import LinuxDriver.SpiConfig
import LinuxDriver.I2cClock
import LinuxDriver.Uart
import LinuxDriver.UartWork
import LinuxDriver.UartTx
import LinuxDriver.UartIrq
import LinuxDriver.UartDrain
import LinuxDriver.UartBaud
import LinuxDriver.UartTermios
import LinuxDriver.UartRx
import LinuxDriver.UartFlow
import LinuxDriver.SpiLife
import LinuxDriver.I2cLife
import LinuxDriver.BlkdevMemory
