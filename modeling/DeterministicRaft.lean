import DeterministicRaft.Theorems.Safety
import DeterministicRaft.Theorems.Representation
import DeterministicRaft.Theorems.Acknowledgement
import DeterministicRaft.Theorems.ReadIndex
import DeterministicRaft.Theorems.Linearizability
import DeterministicRaft.Theorems.Oracle
import DeterministicRaft.Theorems.Sessions
import DeterministicRaft.Theorems.Shrink
import DeterministicRaft.Theorems.CheckerCaches
import DeterministicRaft.Theorems.Membership
import DeterministicRaft.Theorems.Reconfiguration
import DeterministicRaft.Theorems.CheckerCoverage
import DeterministicRaft.Theorems.Compaction
import DeterministicRaft.Theorems.CommitRule
import DeterministicRaft.Theorems.LeaderAppendOnly
import DeterministicRaft.Theorems.LogMatching
import DeterministicRaft.Theorems.LiveTimer
import DeterministicRaft.Theorems.NemesisWindows
import DeterministicRaft.Theorems.CrashRecovery
import DeterministicRaft.Theorems.AppendEntries
import DeterministicRaft.Theorems.LogRepair
import DeterministicRaft.Theorems.Replay
import DeterministicRaft.Theorems.Masks
import DeterministicRaft.Theorems.Schedules
import DeterministicRaft.Theorems.Codec
import DeterministicRaft.Theorems.Quorums
import DeterministicRaft.Theorems.Partition
import DeterministicRaft.Supervised
import DeterministicRaft.Theorems.Votes
import DeterministicRaft.Crashes
import DeterministicRaft.Theorems.CrashPairing
import DeterministicRaft.Theorems.History
import DeterministicRaft.Theorems.Delivery
import DeterministicRaft.Timeline
import DeterministicRaft.Addressees
import DeterministicRaft.Lanes
import DeterministicRaft.Roster
import DeterministicRaft.Theorems.Timeline
import DeterministicRaft.Theorems.StepBudget
import DeterministicRaft.Theorems.FalseAlarms
import DeterministicRaft.Feasible
import DeterministicRaft.Commands
import DeterministicRaft.Theorems.CleanRuns
import DeterministicRaft.Pace
import DeterministicRaft.Undisturbed
import DeterministicRaft.Rounds
import DeterministicRaft.Theorems.PrintedCommands
import DeterministicRaft.Consensus.Durability
import DeterministicRaft.Theorems.Durability
import DeterministicRaft.StaleReads
import DeterministicRaft.Polls
import DeterministicRaft.Theorems.Defects
import DeterministicRaft.Theorems.Messages
import DeterministicRaft.Possibility
import DeterministicRaft.Moments
import DeterministicRaft.Campaigns
import DeterministicRaft.CatchingUp
import DeterministicRaft.Consensus.Lasting
import DeterministicRaft.Insiders
import DeterministicRaft.Theorems.Progress
import DeterministicRaft.Theorems.Reshaping
import DeterministicRaft.Theorems.LoneVoter
