import PhicommTC1.Proofs.CJsonSessions
import PhicommTC1.Proofs.CJsonTextCopies
import PhicommTC1.Proofs.CommandMemory
import PhicommTC1.Proofs.ReplyRestores
import PhicommTC1.Proofs.CommandOrder
import PhicommTC1.Proofs.PlugIsolation
import PhicommTC1.Proofs.ParseSafety
import PhicommTC1.Proofs.RelayRecords
import PhicommTC1.Proofs.Addressing
import PhicommTC1.Proofs.FieldUpdates
import PhicommTC1.Proofs.OneShotTasks
import PhicommTC1.Proofs.SystemSteps
import PhicommTC1.Proofs.RepeatedPass
import PhicommTC1.Proofs.StandingCommands
import PhicommTC1.Proofs.UnsynchronisedClock
import PhicommTC1.Proofs.ServedSeconds
import PhicommTC1.Proofs.OutgoingMessages
import PhicommTC1.Proofs.ButtonPresses
import PhicommTC1.Proofs.LedFeedback
import PhicommTC1.Proofs.ReceivedCommands
import PhicommTC1.Proofs.WeekdayMask
import PhicommTC1.Proofs.ReportEntries
import PhicommTC1.Proofs.ExpiredEntries
import PhicommTC1.Proofs.PassReference
import PhicommTC1.Proofs.PageAndCommand
import PhicommTC1.Proofs.QueryGrammar
import PhicommTC1.Proofs.PageDispatch
import PhicommTC1.Proofs.PageBuffers
import PhicommTC1.Proofs.StringStores
import PhicommTC1.Proofs.MissingStrings
import PhicommTC1.Proofs.CommandReply
import PhicommTC1.Proofs.StringValues
import PhicommTC1.Proofs.SendBuffer
import PhicommTC1.Proofs.DeviceType
import PhicommTC1.Proofs.PowerReading
