import Ultimate1541.CbmFreeSearchD71Proofs
import Ultimate1541.CbmBamFootprintProofs
import Ultimate1541.CbmTerminationProofs
import Ultimate1541.CbmCreateProofs
import Ultimate1541.IecPositionProofs
import Ultimate1541.Assembler6502Proofs
import Ultimate1541.GcrWriteBackProofs
import Ultimate1541.GcrTerminationProofs
import Ultimate1541.GcrStoreProofs
import Ultimate1541.GcrRoundTripProofs
import Ultimate1541.GcrStatusProofs
import Ultimate1541.ManagedTempRunProofs
import Ultimate1541.MountRunProofs
import Ultimate1541.MountOwnershipRunProofs
import Ultimate1541.RelRecordProofs
import Ultimate1541.RelChannelRunProofs
import Ultimate1541.RecoveryLoadProofs
import Ultimate1541.SlipLinkProofs
import Ultimate1541.AciaBufferProofs
import Ultimate1541.CmdBufferProofs
import Ultimate1541.RestMouseQueueProofs
import Ultimate1541.WriteTrackProofs
import Ultimate1541.RestKeyboardTapProofs
import Ultimate1541.MousePotPacerProofs
import Ultimate1541.HidReportProofs
import Ultimate1541.ConfigRoundTripProofs
import Ultimate1541.SocketDmaRunProofs
import Ultimate1541.FtpdSessionProofs
import Ultimate1541.Iso9660DirectoryProofs
import Ultimate1541.T64RunProofs
import Ultimate1541.TapeRecorderRunProofs
import Ultimate1541.HttpTargetDecodeProofs
import Ultimate1541.CbmRelSizeProofs
import Ultimate1541.WifiStoreProofs
import Ultimate1541.ConnectorRadioProofs
import Ultimate1541.RpcRunProofs
import Ultimate1541.CbmdosReadProofs
import Ultimate1541.SoftIecRoundTripProofs
import Ultimate1541.WakeupRunProofs
import Ultimate1541.CbmFormatDnpProofs
import Ultimate1541.CrtMirrorProofs
import Ultimate1541.PetsciiFatProofs
import Ultimate1541.PathProofs
import Ultimate1541.ManifestParseProofs
import Ultimate1541.CbmdosClockProofs
import Ultimate1541.SerialMatchProofs
import Ultimate1541.RecoveryUrlProofs
import Ultimate1541.HidValueProofs
import Ultimate1541.WheelPulseProofs
import Ultimate1541.ConfigBoundsProofs
import Ultimate1541.Iso9660FileProofs
import Ultimate1541.MonitorTransferProofs
import Ultimate1541.SidSongLengthProofs
import Ultimate1541.SidLoadProofs
import Ultimate1541.TapeRecorderFailureProofs
import Ultimate1541.IndexedListProofs
import Ultimate1541.MonitorSearchProofs
import Ultimate1541.MonitorNumberProofs
import Ultimate1541.SmallPrintfProofs
import Ultimate1541.ScreenProofs
import Ultimate1541.StringEditProofs
import Ultimate1541.CbmCoherenceProofs
