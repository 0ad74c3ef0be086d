import AssistantHub.IndexCrash
import AssistantHub.IndexHistory
import AssistantHub.MediaEffects
import AssistantHub.MediaOutcome
import AssistantHub.LibraryDocs
import AssistantHub.MediaMirror
import AssistantHub.MediaLive
import AssistantHub.MediaPaging
import AssistantHub.MalformedPages
import AssistantHub.MediaCalls
import AssistantHub.MediaSaved
import AssistantHub.MediaSettled
import AssistantHub.DeliveryLedger
import AssistantHub.MediaFollow
import AssistantHub.FollowCoverage
import AssistantHub.InodeFiles
import AssistantHub.SlotFiles
import AssistantHub.SlotSaves
import AssistantHub.ChildRuns
import AssistantHub.Engines
import AssistantHub.Streaks
import AssistantHub.EnginePlans
import AssistantHub.Supervision
import AssistantHub.EngineBooks
import AssistantHub.EngineFiles
import AssistantHub.RenameChains
import AssistantHub.SlotMoves
import AssistantHub.SlotLoop
import AssistantHub.SlotLoopRuns
import AssistantHub.LiveCache
import AssistantHub.SortedMaps
import AssistantHub.WyomingFrames
import AssistantHub.PcmAudio
import AssistantHub.KeyRuns
import AssistantHub.SpokenText
import AssistantHub.WyomingVoice
import AssistantHub.Utterances
import AssistantHub.VoiceAnswers
import AssistantHub.BuildArithmetic
import AssistantHub.FileReaders
import AssistantHub.GgufHeader
import AssistantHub.GgufCheck
import AssistantHub.WatchdogRuns
import AssistantHub.IndexRank
import AssistantHub.SemanticGate
import AssistantHub.Runs
import AssistantHub.UnicodeText
import AssistantHub.Rounding
import AssistantHub.TitleText
import AssistantHub.EpisodeQueries
import AssistantHub.SoundMatches
import AssistantHub.TitleChecks
import AssistantHub.EngineEval
import AssistantHub.DocumentEntries
import AssistantHub.FileContents
import AssistantHub.GgufFiles
import AssistantHub.LossyText
import AssistantHub.GgufMetadata
import AssistantHub.CountedReaders
import AssistantHub.GgufSteps
import AssistantHub.CheckedAccess
import AssistantHub.WavFiles
import AssistantHub.PcmFrames
import AssistantHub.PcmResampling
import AssistantHub.SlotFamilies
import AssistantHub.CachedModels
import AssistantHub.JellyfinFind
import AssistantHub.RegexMatching
import AssistantHub.TrimmedEnds
import AssistantHub.SpokenMarkup
import AssistantHub.VoiceProbes
import AssistantHub.GpuFaults
import AssistantHub.SpeechDevices
import AssistantHub.ProxyRequests
import AssistantHub.JoinedWords
import AssistantHub.RunMaps
import AssistantHub.SearchQueries
import AssistantHub.McpTools
import AssistantHub.ChildOutput
import AssistantHub.JellyfinPicks
import AssistantHub.RoundedRatios
import AssistantHub.YoutubeAnswers
import AssistantHub.YoutubePicks
import AssistantHub.EvalRuns
import AssistantHub.EngineArgs
import AssistantHub.CpuCores
import AssistantHub.ChatTemplates
