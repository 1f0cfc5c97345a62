import Mv88fxx81.Lib.LinkedOrder
import Mv88fxx81.Lib.Run
import Mv88fxx81.Sata.PrdTable
import Mv88fxx81.Sata.PrdPool
import Mv88fxx81.Cesa.Lru
import Mv88fxx81.Cesa.Md5
import Mv88fxx81.Cesa.Sha1
import Mv88fxx81.Cesa.Hmac
import Mv88fxx81.Cesa.Session
import Mv88fxx81.Cesa.KeyCache
import Mv88fxx81.Cesa.Command
import Mv88fxx81.Cesa.Queue
import Mv88fxx81.Cesa.Scheduling
import Mv88fxx81.Cesa.Moves
import Mv88fxx81.Cesa.QueueRun
import Mv88fxx81.Cesa.Binding
import Mv88fxx81.Cesa.Sram
import Mv88fxx81.Cesa.Ocf
import Mv88fxx81.Cesa.OcfRun
import Mv88fxx81.Cesa.MbufCopy
import Mv88fxx81.Cesa.CtrMode
import Mv88fxx81.Sata.Scsi
import Mv88fxx81.Sata.ScsiAta
import Mv88fxx81.Sata.Sal
import Mv88fxx81.Lib.Attention
import Mv88fxx81.Sata.UnitAttention
import Mv88fxx81.Sata.ScsiCompletion
import Mv88fxx81.Lib.LinkedChain
import Mv88fxx81.Sata.PendingQueue
import Mv88fxx81.Eth.Filter
import Mv88fxx81.Eth.UcastFilter
import Mv88fxx81.Eth.McastFilter
import Mv88fxx81.Eth.RxRing
import Mv88fxx81.Eth.TxRing
import Mv88fxx81.Eth.TxRun
import Mv88fxx81.Flash.NorFlash
import Mv88fxx81.Sata.Crqb
import Mv88fxx81.Flash.BlockWrite
import Mv88fxx81.Flash.RoundTrip
import Mv88fxx81.Lib.DoublyLinked
import Mv88fxx81.Sata.Channel
import Mv88fxx81.Sata.ChannelRecovery
import Mv88fxx81.Sata.ChannelStep
import Mv88fxx81.Sata.ChannelAccounts
import Mv88fxx81.Sata.ChannelLedger
import Mv88fxx81.Sata.ChannelRuns
import Mv88fxx81.Sata.IalChannel
import Mv88fxx81.Sata.IalBringUp
import Mv88fxx81.Sata.IalPorts
import Mv88fxx81.Sata.Inquiry
import Mv88fxx81.Sata.IalHotPlug
import Mv88fxx81.Soc.AddrDec
import Mv88fxx81.Soc.CpuWindows
import Mv88fxx81.Soc.EthWindows
import Mv88fxx81.Idma.Engine
import Mv88fxx81.Lib.Cuts
import Mv88fxx81.Idma.DmaCopy
import Mv88fxx81.Idma.CopySpec
import Mv88fxx81.Idma.CopyMemory
import Mv88fxx81.Idma.CopyPieces
import Mv88fxx81.Idma.CopyLoop
import Mv88fxx81.Idma.CopyChannels
import Mv88fxx81.Idma.CopyRight
import Mv88fxx81.Idma.CopyRuns
import Mv88fxx81.Eth.EgigaTx
import Mv88fxx81.Eth.EgigaTxRing
import Mv88fxx81.Eth.EgigaTxRuns
import Mv88fxx81.Eth.EgigaRx
import Mv88fxx81.Eth.EgigaRxAccounts
import Mv88fxx81.Eth.EgigaRxRuns
import Mv88fxx81.Cesa.CryptoIv
import Mv88fxx81.Cesa.MbufTransfer
import Mv88fxx81.Cesa.MbufMove
import Mv88fxx81.Cesa.IdmaCopy
import Mv88fxx81.Cesa.FixOffset
import Mv88fxx81.Cesa.RangeCheck
import Mv88fxx81.Cesa.Fragment
import Mv88fxx81.Cesa.FragCrypto
import Mv88fxx81.Cesa.FragMac
import Mv88fxx81.Cesa.OcfMbuf
import Mv88fxx81.Soc.Twsi
import Mv88fxx81.Soc.TwsiRuns
import Mv88fxx81.Sata.Deferred
import Mv88fxx81.Sata.DeferredRuns
import Mv88fxx81.Sata.HostChannel
import Mv88fxx81.Sata.HostCommand
import Mv88fxx81.Sata.HostMoves
import Mv88fxx81.Sata.HostAccounts
import Mv88fxx81.Sata.HostRuns
import Mv88fxx81.Sata.HostOwnership
import Mv88fxx81.Cesa.Incremental
import Mv88fxx81.Sata.PrdCoverage
import Mv88fxx81.Cesa.SkbCopy
import Mv88fxx81.Sata.AtaRange
import Mv88fxx81.Sata.VerifyCoverage
import Mv88fxx81.Sata.ErrorLba
import Mv88fxx81.Sata.EmulatedData
import Mv88fxx81.Sata.ModeSelect
import Mv88fxx81.Sata.EdmaRuns
import Mv88fxx81.Eth.McastCrc
import Mv88fxx81.Lib.PairedParity
import Mv88fxx81.Nflash.Ecc3
import Mv88fxx81.Nflash.EccParity
import Mv88fxx81.Nflash.EccFix
import Mv88fxx81.Nflash.EccCorrection
import Mv88fxx81.Nflash.NandRead
import Mv88fxx81.Nflash.NandStream
import Mv88fxx81.Nflash.NandPageRead
import Mv88fxx81.Flash.SectorLocks
import Mv88fxx81.Soc.LegalWindows
import Mv88fxx81.Soc.WinRoundTrip
import Mv88fxx81.Soc.WinSet
import Mv88fxx81.Flash.SectorTable
import Mv88fxx81.Flash.SectorLayout
import Mv88fxx81.Flash.BufferLoads
import Mv88fxx81.Sata.PioData
import Mv88fxx81.Sata.PioBlocks
import Mv88fxx81.Sata.PioRuns
import Mv88fxx81.Soc.SizeRegs
import Mv88fxx81.Soc.SizeRoundUp
import Mv88fxx81.Soc.AhbRegs
import Mv88fxx81.Soc.AhbFields
import Mv88fxx81.Soc.AhbRoundTrip
import Mv88fxx81.Soc.WinSwap
import Mv88fxx81.Idma.CopyFaults
import Mv88fxx81.Pci.BarProbe
import Mv88fxx81.Pci.BarTurns
import Mv88fxx81.Pci.BarRuns
import Mv88fxx81.Pci.Scan
import Mv88fxx81.Pci.ScanRuns
import Mv88fxx81.Eth.TxFrame
import Mv88fxx81.Eth.TxFrameRight
import Mv88fxx81.Eth.TxPolicy
import Mv88fxx81.Eth.TxPolicyRuns
import Mv88fxx81.Eth.RxPolicy
import Mv88fxx81.Eth.RxPolicyFair
import Mv88fxx81.Sata.Smart
import Mv88fxx81.Sata.SmartBuffers
import Mv88fxx81.Sata.TagPairs
import Mv88fxx81.Lib.Calendar
import Mv88fxx81.Rtc.Clock
import Mv88fxx81.Rtc.RoundTrip
import Mv88fxx81.Dram.BankInfo
import Mv88fxx81.Dram.Timing
import Mv88fxx81.Dram.TimingRight
import Mv88fxx81.Dram.CasLatency
import Mv88fxx81.Dram.CasRight
import Mv88fxx81.Dram.Detect
import Mv88fxx81.Dram.SpdSafe
import Mv88fxx81.Dram.BankWindows
import Mv88fxx81.Dram.BankScan
import Mv88fxx81.Dram.DetectRight
import Mv88fxx81.Lib.ByteField
import Mv88fxx81.Cesa.AesBoxes
import Mv88fxx81.Cesa.AesCipher
import Mv88fxx81.Cesa.AesKey
import Mv88fxx81.Cesa.AesModes
import Mv88fxx81.Soc.EthWinInit
import Mv88fxx81.Flash.EraseLocks
