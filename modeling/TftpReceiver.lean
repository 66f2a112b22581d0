import TftpReceiver.Main
import TftpReceiver.Proofs.AllowedNames
import TftpReceiver.Proofs.ConformingSender
import TftpReceiver.Proofs.KeptFiles
import TftpReceiver.Proofs.EncodedText
import TftpReceiver.Proofs.RequestGrammar
import TftpReceiver.Proofs.NegotiatedOptions
import TftpReceiver.Proofs.OptionAcks
import TftpReceiver.Proofs.ForeignPeers
import TftpReceiver.Proofs.HeldTransfers
import TftpReceiver.Proofs.AuditTrail
import TftpReceiver.Proofs.TransferNotes
import TftpReceiver.Proofs.Deadlines
import TftpReceiver.Proofs.RenewedOptions
import TftpReceiver.Proofs.StagedUses
import TftpReceiver.Proofs.StagingPlace
import TftpReceiver.Proofs.CutDatagrams
import TftpReceiver.Proofs.ReportedProgress
import TftpReceiver.Proofs.ReadySettings
import TftpReceiver.Proofs.DecimalValues
import TftpReceiver.Proofs.AuditRecords
import TftpReceiver.Proofs.SavedSettings
import TftpReceiver.Proofs.RepresentableDeadlines
import TftpReceiver.Proofs.BlockSizes
import TftpReceiver.Proofs.RecordedOptions
