import Comodoo.CString
import Comodoo.ByteMemory
import Comodoo.TelnetInput
import Comodoo.Urls
import Comodoo.FtpResponse
import Comodoo.FtpReply
import Comodoo.FtpScan
import Comodoo.FtpReads
import Comodoo.StepRun
import Comodoo.LoaderSettings
import Comodoo.LoaderMount
import Comodoo.LoaderMain
import Comodoo.LoaderInvariant
import Comodoo.HttpHeaders
import Comodoo.HttpRedirect
import Comodoo.CpioSystem
import Comodoo.CpioRead
import Comodoo.CpioExpand
import Comodoo.CpioInstall
import Comodoo.CpioFormat
import Comodoo.CpioStream
import Comodoo.CpioFilter
import Comodoo.CpioFilterCorrect
import Comodoo.CpioFrame
import Comodoo.CpioSync
import Comodoo.CpioGroups
import Comodoo.CpioLog
import Comodoo.CpioWaiting
import Comodoo.CpioErrors
import Comodoo.FilePath
import Comodoo.CpioDisk
import Comodoo.CpioDiskCalls
import Comodoo.CpioDiskFiles
import Comodoo.CpioDiskLinks
import Comodoo.CpioTree
import Comodoo.CpioTreeGroups
import Comodoo.CpioTreeSteps
import Comodoo.CpioTreeMembers
import Comodoo.CpioTreeRun
import Comodoo.CpioTreeCorrect
import Comodoo.CpioTreeInstall
import Comodoo.KickstartUrl
import Comodoo.LoaderArgs
import Comodoo.FirstMatch
import Comodoo.Modules
import Comodoo.ModuleOptions
import Comodoo.ModulesConf
import Comodoo.KickstartScan
import Comodoo.KickstartCommands
import Comodoo.KickstartRead
import Comodoo.ModuleList
import Comodoo.ModuleListScan
import Comodoo.ModuleListRead
import Comodoo.ModuleListMerge
import Comodoo.Postorder
import Comodoo.UndoMounts
import Comodoo.DecimalText
import Comodoo.InetText
import Comodoo.NetIface
import Comodoo.ManualNetConfig
import Comodoo.LineBuffer
import Comodoo.NetInfoFile
import Comodoo.NetInfo
import Comodoo.NetInfoLines
import Comodoo.NetInfoRoundTrip
import Comodoo.SimpleMot
import Comodoo.Translations
import Comodoo.TranslationKeys
import Comodoo.TelnetOutput
import Comodoo.TelnetStrip
import Comodoo.IsysMount
import Comodoo.IsysMountCounts
import Comodoo.CpioBall
import Comodoo.CpioBallDisk
import Comodoo.DriverMedia
import Comodoo.EddSupport
import Comodoo.EddDisks
import Comodoo.LoggedSteps
import Comodoo.AmebaInstaller
import Comodoo.AmebaInstallerSound
import Comodoo.SetupCdrom
import Comodoo.SetupCdromMounts
import Comodoo.ReadLoop
import Comodoo.IsoImage
import Comodoo.ImplantIso
import Comodoo.CheckIso
import Comodoo.IsoAppData
import Comodoo.IsoFragments
import Comodoo.Md5
import Comodoo.IsoImplantCheck
import Comodoo.BinarySearch
import Comodoo.PoFile
import Comodoo.SimpleMotRun
import Comodoo.TranslationsRoundTrip
import Comodoo.TelnetNegotiate
import Comodoo.TelnetCommands
import Comodoo.TelnetClient
import Comodoo.TelnetHangup
import Comodoo.FtpTermination
import Comodoo.CpioNumbers
import Comodoo.CpioFilterEnds
import Comodoo.CheckDirectory
import Comodoo.CpioMapped
import Comodoo.CpioQuiet
import Comodoo.CpioMade
import Comodoo.CpioMembers
import Comodoo.CpioMappedInstall
import Comodoo.CpioMappedRun
import Comodoo.FtpPassive
import Comodoo.HttpReadHeaders
import Comodoo.HttpFindHeader
import Comodoo.RequestBuffers
import Comodoo.UrlReuse
import Comodoo.SplitHostname
import Comodoo.KickstartSource
import Comodoo.KickstartBounds
import Comodoo.LoaderReturnCodes
import Comodoo.CmdLineIp
import Comodoo.Stage2Location
import Comodoo.RepoCorrection
import Comodoo.ImageLocations
import Comodoo.ComparisonSort
import Comodoo.ParallelSort
import Comodoo.VersionCompare
import Comodoo.VersionOrder
import Comodoo.NetDeviceMenu
import Comodoo.DriveOrder
import Comodoo.NetmaskPrefix
import Comodoo.NameServers
import Comodoo.ConfigureTcpip
import Comodoo.CopyFile
import Comodoo.SetupIsoImages
import Comodoo.PulseProgress
import Comodoo.EthtoolSettings
import Comodoo.NetBroadcast
import Comodoo.GetModuleList
import Comodoo.AnacondaPath
import Comodoo.UeventMessage
import Comodoo.FirmwareLoader
import Comodoo.ProcMounts
import Comodoo.Partitions
import Comodoo.CopyDirectory
import Comodoo.ModuleInfoFile
import Comodoo.DevSpaceFree
import Comodoo.ReadFd
import Comodoo.StringCount
import Comodoo.RaidCounts
import Comodoo.DriveList
import Comodoo.PartitionLayout
import Comodoo.PvdSearch
import Comodoo.LinkSlots
import Comodoo.CheckReads
import Comodoo.CheckAccesses
import Comodoo.CheckShortReads
import Comodoo.CheckReadsNeeded
import Comodoo.FreeModuleInfo
import Comodoo.SystemCalls
import Comodoo.FtpSession
import Comodoo.LoadUpdates
import Comodoo.LastSetting
import Comodoo.LoaderCommandLine
import Comodoo.MakeDirectories
import Comodoo.TelnetRelay
import Comodoo.KeymapArchive
import Comodoo.RemoveDeviceMap
import Comodoo.DirectoryBrowser
import Comodoo.NfsMounts
import Comodoo.MpTable
import Comodoo.SimpleConfigFile
import Comodoo.KernelLog
import Comodoo.CompareTables
import Comodoo.Languages
