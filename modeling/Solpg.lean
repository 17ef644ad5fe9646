import Solpg.Std.Machine
import Solpg.Std.Table
import Solpg.Server.Routes.Build.Permit
import Solpg.Server.Routes.Build.Handler
import Solpg.Server.Routes.Learning.Quota
import Solpg.Std.IpAddr
import Solpg.Server.Routes.Learning.ClientIp
import Solpg.Std.Regex
import Solpg.Std.FileSystem
import Solpg.Server.Program
import Solpg.Server.Deployed
import Solpg.Client.Commands.Build
import Solpg.Playnet.Sdk
import Solpg.Std.Outcome
import Solpg.Playnet.TransactionContext
import Solpg.Playnet.Effect
import Solpg.Std.Async
import Solpg.Std.Bincode
import Solpg.Playnet.Runtime.NonceKeyedAccount
import Solpg.Playnet.Authorization
import Solpg.Playnet.Runtime.MessageProcessor
import Solpg.Playnet.Runtime.Bank
import Solpg.Playnet.Atomicity
import Solpg.Playnet.Replay
import Solpg.Playnet.Lamports
import Solpg.Std.Text
import Solpg.Std.EventStream
import Solpg.Server.Routes.Learning.Request
import Solpg.Client.Learning.Api
import Solpg.Client.Learning.UseTutor
import Solpg.Std.Calls
import Solpg.Std.UnixPath
import Solpg.Server.Files
import Solpg.Server.Package
import Solpg.Server.PackageConfinement
import Solpg.Server.Confinement
import Solpg.Server.ProgramFiles
import Solpg.Std.OrderedMap
import Solpg.Client.Utils.Common
import Solpg.Client.Utils.Explorer.State
import Solpg.Client.Utils.Explorer.Fs
import Solpg.Client.Utils.Explorer.Explorer
import Solpg.Client.Utils.Explorer.MemoryFs
import Solpg.Client.Utils.Explorer.Tabs
import Solpg.Client.Utils.Explorer.Effects
import Solpg.Client.Utils.Explorer.TabInvariant
import Solpg.Client.Utils.Explorer.Paths
import Solpg.Client.Utils.Explorer.FsRules
import Solpg.Client.Utils.Explorer.Saving
import Solpg.Client.Utils.Explorer.Loading
import Solpg.Client.Utils.Explorer.Switching
import Solpg.Client.Utils.Explorer.TabRuns
import Solpg.Client.Utils.Explorer.Removing
import Solpg.Client.Utils.Explorer.Mirror
import Solpg.Client.Utils.Explorer.Deletion
import Solpg.Std.PutBack
import Solpg.Client.Learning.WorkspacePatch
import Solpg.Client.Utils.Explorer.Writing
import Solpg.Client.Learning.ApplyPatch
import Solpg.Client.Learning.UndoPatch
import Solpg.Playnet.ChainState
import Solpg.Client.Utils.Playnet.RpcResponse
import Solpg.Playnet.Reload
import Solpg.Playnet.Drained
import Solpg.Playnet.BlankNonce
import Solpg.Playnet.NonceFree
import Solpg.Client.Learning.TutorLimits
import Solpg.Std.Url
import Solpg.Client.Learning.LearningNetwork
import Solpg.Client.Learning.ResetGuard
import Solpg.Client.Learning.ChainActions
import Solpg.Client.Learning.LearningWorkspace
import Solpg.Client.Learning.ProgramActions
import Solpg.Client.Utils.ProgramInfo
import Solpg.Client.Components.MonacoWorkspace
import Solpg.Client.Components.AutoSave
import Solpg.Client.Commands.Deploy.Retries
import Solpg.Client.Commands.Deploy.Transfer
import Solpg.Client.Commands.Deploy.BpfLoaderUpgradeable
import Solpg.Client.Commands.Deploy.LoadBufferWithControl
import Solpg.Client.Utils.Decorators.Derivable
import Solpg.Client.Utils.Wallet.Accounts
import Solpg.Client.Utils.Wallet.SigningScope
import Solpg.Client.Utils.Explorer.Session
import Solpg.Client.Utils.Explorer.Workspaces
import Solpg.Client.Utils.Explorer.Entering
import Solpg.Client.Utils.Explorer.Creating
import Solpg.Client.Utils.Explorer.Returning
import Solpg.Client.Utils.Explorer.Preserving
import Solpg.Server.PackageVisits
import Solpg.Client.Utils.Command
import Solpg.Client.Utils.ProgramInteraction.IdlType
import Solpg.Client.Utils.ProgramInteraction.Storage
import Solpg.Playnet.Restore
import Solpg.Server.WritePhase
import Solpg.Playnet.ProgramLoading
import Solpg.Client.Frameworks.Common
import Solpg.Client.Frameworks.Import
import Solpg.Client.Frameworks.Export
import Solpg.Client.Frameworks.RoundTrip
import Solpg.Client.Frameworks.Projects
import Solpg.Client.Utils.ProgramInteraction.IdlPrimitives
import Solpg.Client.Utils.ProgramInteraction.IdlComposites
import Solpg.Client.Utils.Explorer.Closing
import Solpg.Server.Routes.Learning.Session
import Solpg.Client.Learning.StreamCallbacks
import Solpg.Client.Learning.WorkspaceState
import Solpg.Client.Learning.EventLog
import Solpg.Std.Pattern
import Solpg.Client.Utils.Github
import Solpg.Client.Learning.TutorRequests
import Solpg.Server.PackageDeclarations
import Solpg.Client.Commands.DeclareId
import Solpg.Client.Commands.BuildFiles
import Solpg.Client.Utils.ProgramInteraction.RandomIntegers
import Solpg.Client.Utils.Resending
import Solpg.Client.Utils.Callbacks
import Solpg.Std.Rank
import Solpg.Client.Utils.PriorityFee
import Solpg.Client.Utils.ProgramInteraction.IntegerArguments
import Solpg.Client.Utils.ProgramInteraction.StructArguments
import Solpg.Client.Utils.ProgramInteraction.Generator
import Solpg.Client.Commands.Create
import Solpg.Client.Utils.ProgramInteraction.References
import Solpg.Client.Utils.CommandReading
import Solpg.Client.Utils.CommandBinding
import Solpg.Client.Utils.BareCommands
import Solpg.Client.Utils.Explorer.Sparing
import Solpg.Client.Utils.Explorer.WorkspaceRuns
import Solpg.Client.Utils.Terminal.History
import Solpg.Client.Utils.Terminal.CursorPosition
import Solpg.Client.Utils.Terminal.PrintWide
import Solpg.Client.Utils.Terminal.FormatList
import Solpg.Client.Utils.Terminal.Parse
import Solpg.Client.Utils.RouteMatching
import Solpg.Client.Utils.Terminal.Completion
import Solpg.Client.Utils.Terminal.Input
import Solpg.Client.Utils.Terminal.LineEditing
import Solpg.Client.Frameworks.ConvertJS
import Solpg.Client.Frameworks.GeneratedImports
import Solpg.Client.Frameworks.KeptLines
import Solpg.Client.Utils.Explorer.FileRuns
import Solpg.Playnet.Wallets
import Solpg.Server.Routes.Learning.Tutor
import Solpg.Client.Utils.Terminal.TabCompletion
import Solpg.Client.Utils.Framework
import Solpg.Client.Utils.Playnet.Serde
import Solpg.Client.Utils.Playnet.Playnet
import Solpg.Client.Learning.LibraryState
import Solpg.Client.Utils.Decorators.Updatable
import Solpg.Std.RustStr
import Solpg.Std.Double
import Solpg.Std.PerformedCalls
import Solpg.Server.BuildCalls
