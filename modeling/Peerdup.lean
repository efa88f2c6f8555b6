import Peerdup.Foundation.Machine
import Peerdup.Foundation.Service
import Peerdup.Foundation.Mailbox
import Peerdup.Foundation.Crash
import Peerdup.Foundation.Slot
import Peerdup.Foundation.Handles
import Peerdup.Foundation.Gossip
import Peerdup.Foundation.InOrder
import Peerdup.Foundation.CausalOrder
import Peerdup.Foundation.LastWriter
import Peerdup.Foundation.Latest
import Peerdup.Foundation.Bytes
import Peerdup.Foundation.Codec
import Peerdup.Foundation.Text
import Peerdup.Foundation.Path
import Peerdup.Foundation.Utf8
import Peerdup.Foundation.FileName
import Peerdup.Foundation.FileTree
import Peerdup.Foundation.DiskSteps
import Peerdup.Foundation.RawPath
import Peerdup.Foundation.RawPathProperties
import Peerdup.Foundation.PresentPath
import Peerdup.Clock
import Peerdup.ClockProperties
import Peerdup.ClockOrder
import Peerdup.Primitives
import Peerdup.Auth
import Peerdup.MemberHex
import Peerdup.MemberHexProperties
import Peerdup.AuthEncoding
import Peerdup.Ticket
import Peerdup.AuthProperties
import Peerdup.AuthDelivery
import Peerdup.AuthLog
import Peerdup.AuthBystanders
import Peerdup.AuthReplay
import Peerdup.Crypto
import Peerdup.CryptoProperties
import Peerdup.KeyringHistory
import Peerdup.Rotation
import Peerdup.RotationEncoding
import Peerdup.RotationProperties
import Peerdup.Reference
import Peerdup.RotationAgreement
import Peerdup.SignedBytes
import Peerdup.Daemon.Announce
import Peerdup.Daemon.SyncNetwork
import Peerdup.Daemon.SyncConvergence
import Peerdup.Daemon.LwwWinner
import Peerdup.Daemon.AnnounceExchange
import Peerdup.Daemon.Content
import Peerdup.Daemon.ContentProperties
import Peerdup.Daemon.Watcher
import Peerdup.Daemon.WatcherProperties
import Peerdup.Daemon.Shadow
import Peerdup.Daemon.ShadowProperties
import Peerdup.Daemon.DecryptPass
import Peerdup.Daemon.CompletePass
import Peerdup.Daemon.EncryptPass
import Peerdup.Daemon.Endpoint
import Peerdup.Daemon.ApplyRemote
import Peerdup.Daemon.Reproduction
import Peerdup.Daemon.FailedSync
import Peerdup.Daemon.SealedShadow
import Peerdup.Daemon.RoundTrip
import Peerdup.Daemon.PeerLife
import Peerdup.Daemon.LifeSteps
import Peerdup.Daemon.RestartClocks
import Peerdup.Daemon.EditDominance
import Peerdup.Daemon.LiveSync
import Peerdup.Daemon.ApplySteps
import Peerdup.Daemon.EditSafety
import Peerdup.Daemon.AuthGossip
import Peerdup.Daemon.AuthGossipProperties
import Peerdup.Daemon.ShareLoop
import Peerdup.Daemon.ShareLoopProperties
import Peerdup.Daemon.RevokeProperties
import Peerdup.Daemon.ReplayProperties
import Peerdup.Daemon.StrayRotations
import Peerdup.Daemon.DeliveryOrder
import Peerdup.Daemon.RotationDelivery
import Peerdup.Daemon.Distribution
import Peerdup.Daemon.ShareNetwork
import Peerdup.Daemon.ShareFiles
import Peerdup.Daemon.ShareScope
import Peerdup.Daemon.DiskMirror
import Peerdup.Daemon.RunShare
import Peerdup.Daemon.RunShareProperties
import Peerdup.Daemon.PublishedRotations
import Peerdup.Daemon.AnnouncedClocks
import Peerdup.Daemon.StrayTorrents
import Peerdup.Daemon.LeechDisk
import Peerdup.Daemon.CommandChannel
import Peerdup.Daemon.ShareNetworkProperties
import Peerdup.Daemon.RevocationSecrecy
import Peerdup.Daemon.ContentReaders
import Peerdup.Daemon.EpochAgreement
import Peerdup.Daemon.GroupScope
import Peerdup.Daemon.AuthFile
import Peerdup.Daemon.InviteJoin
import Peerdup.Daemon.VersionHash
import Peerdup.Daemon.DecryptScope
import Peerdup.Daemon.ReachedBlobs
import Peerdup.Daemon.ShareCommands
import Peerdup.Daemon.PresentShare
import Peerdup.Daemon.PendingFiles
import Peerdup.Daemon.CrashSaves
import Peerdup.Daemon.PlacedFiles
import Peerdup.Daemon.WireRoundTrip
import Peerdup.Daemon.ReAdd
import Peerdup.Daemon.ConfiguredShares
import Peerdup.Daemon.ConfigStore
import Peerdup.Daemon.JoinAtomicity
import Peerdup.Daemon.RemovalRace
import Peerdup.Daemon.RemovalAlone
import Peerdup.Daemon.Registry
import Peerdup.Daemon.DirectCommands
import Peerdup.Daemon.CommandAgreement
import Peerdup.Daemon.CrashRecovery
import Peerdup.Daemon.CrashedRevocation
import Peerdup.Daemon.WholeLogs
import Peerdup.Daemon.Swarm
import Peerdup.Daemon.SwarmSteps
import Peerdup.Daemon.SwarmConvergence
