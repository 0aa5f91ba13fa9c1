import G4Common.IpaNat.Visible
import G4Common.Ipacm.NatSleep
import G4Common.Ipacm.CtClose
import G4Common.Ipacm.CtTables
import G4Common.Ipacm.LanRelink
import G4Common.Ipacm.LanCross
import G4Common.Ipacm.LanSlotRuns
import G4Common.Ipacm.EthReset
import G4Common.Ipacm.EthFaultRuns
import G4Common.Ipacm.EthBridge
import G4Common.Ipacm.RmDepend
import G4Common.Ipacm.WanUpDown
import G4Common.Ipacm.WanPdn
import G4Common.Ipacm.NetlinkRuns
import G4Common.Ipacm.Neighbor
import G4Common.MdmTransfer.CrcSerial
import G4Common.MdmTransfer.HdlcBounds
import G4Common.MdmTransfer.StreamChunks
import G4Common.MdmTransfer.WriteRetries
import G4Common.MdmTransfer.RamDumpRuns
import G4Common.MdmTransfer.ResponseHistory
import G4Common.MdmTransfer.HexText
import G4Common.Gps.LocTimerCallback
import G4Common.Gps.LocTimerOnce
import G4Common.Gps.AgpsDs
import G4Common.Gps.NiConsent
import G4Common.Gps.NmeaGsv
import G4Common.Dtbtool.ChipLinks
import G4Common.Dtbtool.DirFailures
import G4Common.Dtbtool.PathNames
import G4Common.Ril.EventDel
import G4Common.Ril.RequestRuns
import G4Common.Ril.WakeLock
import G4Common.Ril.Nitz
import G4Common.Ril.SapRuns
import G4Common.SoftAp.CfgRuns
import G4Common.IpaNat.Cksum
import G4Common.IpaNat.DelFrame
import G4Common.IpaNat.HandleCheck
import G4Common.IpaNat.AddComplete
import G4Common.Ipacm.NatIfaces
import G4Common.Ipacm.NatTemp
import G4Common.Ipacm.NatCacheEntry
import G4Common.Ipacm.LanHdr
import G4Common.Ipacm.UsbRtRules
import G4Common.Ipacm.EthNames
import G4Common.Ipacm.WanAddr
import G4Common.Gps.AgpsTargeted
import G4Common.Gps.AgpsIdentity
import G4Common.Ipacm.FirewallFidelity
import G4Common.Ipacm.NlAttrs
import G4Common.Gps.LinkedListRuns
import G4Common.Gps.MiscUtils
import G4Common.WifiOffload.ScanStats
import G4Common.SoftAp.MacList
