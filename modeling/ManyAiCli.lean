import ManyAiCli.Approval.RiskComposition
import ManyAiCli.Attach.Save
import ManyAiCli.AutoApproval.AddedRule
import ManyAiCli.ConfigFile.SavedComesBack
import ManyAiCli.Hub.ApprovalPatterns
import ManyAiCli.Hub.ApprovalPush
import ManyAiCli.Hub.BoardNotices
import ManyAiCli.Hub.CachedFetch
import ManyAiCli.Hub.ChildRespawns
import ManyAiCli.Hub.CommitCounts
import ManyAiCli.Hub.CommitMessageScan
import ManyAiCli.Hub.CrossedAnswers
import ManyAiCli.Hub.DoneSummary
import ManyAiCli.Hub.ExternalHTTP
import ManyAiCli.Hub.GitLog
import ManyAiCli.Hub.GitStatus
import ManyAiCli.Hub.InitialPrompt
import ManyAiCli.Hub.InputStranded
import ManyAiCli.Hub.ModelsFetch
import ManyAiCli.Hub.MoveUndone
import ManyAiCli.Hub.NewerSession
import ManyAiCli.Hub.PathMention
import ManyAiCli.Hub.PinBound
import ManyAiCli.Hub.PinUndo
import ManyAiCli.Hub.PtyStreamOrder
import ManyAiCli.Hub.ReplayBuffer
import ManyAiCli.Hub.RequestGuard
import ManyAiCli.Hub.RootsKept
import ManyAiCli.Hub.RulesAtRest
import ManyAiCli.Hub.ServerConnsAgree
import ManyAiCli.Hub.ServerProfiles
import ManyAiCli.Hub.SessionIDUnique
import ManyAiCli.Hub.SessionMeta
import ManyAiCli.Hub.SessionStates
import ManyAiCli.Hub.SpawnDepth
import ManyAiCli.Hub.SpawnLimits
import ManyAiCli.Hub.SpawnWorktree
import ManyAiCli.Hub.StoreRows
import ManyAiCli.Hub.UsageHooks
import ManyAiCli.Hub.VTMotion
import ManyAiCli.Launcher.ConnectLock
import ManyAiCli.Launcher.OrphanCleanup
import ManyAiCli.SessionLog.ChunkedMask
import ManyAiCli.SessionStore.HistoryPrune
import ManyAiCli.SessionStore.Search
import ManyAiCli.UsageRelay.Rollout
import ManyAiCli.Web.AutoDismiss
import ManyAiCli.Web.CommitGraph
import ManyAiCli.Web.CursorHideScreens
import ManyAiCli.Web.DeferredEnter
import ManyAiCli.Web.DisplayFilters
import ManyAiCli.Web.MarkerLedger
import ManyAiCli.Web.MobileTranscript
import ManyAiCli.Web.PathLinks
import ManyAiCli.Web.PrefsSync
import ManyAiCli.Web.QuestionBlocks
import ManyAiCli.Web.ReviewView
import ManyAiCli.Wrapper.HookRewrite
import ManyAiCli.Wrapper.LockExclusion
import ManyAiCli.Wrapper.Mojibake
import ManyAiCli.Wrapper.PtyInput
import ManyAiCli.Wrapper.ReconnectReplay
import ManyAiCli.Wrapper.ReconnectShutdown
