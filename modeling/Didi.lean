import Didi.Json.Pointer
import Didi.Common
import Didi.Lib.Locked
import Didi.Lib.Run
import Didi.Blackboard.Path
import Didi.Blackboard.Board
import Didi.Blackboard.Keys
import Didi.Blackboard.Steps
import Didi.Blackboard.Rules
import Didi.Blackboard.Dependencies
import Didi.Blackboard.Lease
import Didi.Json.Tree
import Didi.Blackboard.Pins
import Didi.Blackboard.Revision
import Didi.Blackboard.Metadata
import Didi.Json.Size
import Didi.Blackboard.Size
import Didi.Blackboard.Resource
import Didi.Json.Holds
import Didi.Blackboard.Expiry
import Didi.Json.Erasures
import Didi.Journal.History
import Didi.Jobs.Threads
import Didi.Safety.Runs
import Didi.Mcp.Requests
import Didi.Mcp.Consent
import Didi.Json.Doubles
import Didi.Schema.Validation
import Didi.Schema.Meaning
import Didi.Schema.Checks
import Didi.Schema.Complete
import Didi.Schema.Sound
import Didi.Config.Text
import Didi.Config.Values
import Didi.Config.Scan
import Didi.Config.Settings
import Didi.Config.Lines
import Didi.Config.Accepted
import Didi.Log.Paging
import Didi.Sessions.Released
import Didi.Sessions.Room
import Didi.Reports.Scanner
import Didi.Reports.Passes
import Didi.Reports.Markup
import Didi.Reports.Documents
import Didi.Reports.Rendered
import Didi.Reports.Roundtrip
import Didi.Undo.Available
import Didi.Script.Declarations
import Didi.Script.Masks
import Didi.Script.Readers
import Didi.Script.Agreement
import Didi.Script.Extent
import Didi.Expression.Tokens
import Didi.Lib.Brackets
import Didi.Expression.Policy
import Didi.Expression.Trees
import Didi.Expression.Confined
import Didi.Expression.Getters
import Didi.Lib.Retained
import Didi.Recovery.Checkpoints
import Didi.Scenario.Run
import Didi.Scenario.Steps
import Didi.Scenario.Sequence
import Didi.Scenario.Verdict
import Didi.Index.Shared
import Didi.Index.Fresh
import Didi.Engine.Command
import Didi.Engine.Life
import Didi.Engine.Truth
import Didi.Engine.Queue
import Didi.Engine.Answers
import Didi.Bridge.Dump
import Didi.Bridge.Frame
import Didi.Bridge.Serving
import Didi.Recovery.Managed
import Didi.Recovery.Unsettled
import Didi.Export.Presets
import Didi.Export.Addition
import Didi.Config.Returns
import Didi.Export.Appended
import Didi.Export.Section
import Didi.Export.Adding
import Didi.Config.Endings
import Didi.LanguageServer.FrameReader
import Didi.Log.Output
import Didi.Scenario.Absence
import Didi.Blackboard.Statuses
import Didi.Blackboard.Claims
import Didi.Blackboard.Clearing
import Didi.Json.Names
import Didi.Blackboard.Listing
import Didi.Blackboard.Causes
import Didi.Blackboard.Reasons
import Didi.Lib.Worklist
import Didi.Scenario.Sha256
import Didi.Scenario.Files
import Didi.Scenario.Record
import Didi.Safety.Retry
import Didi.Journal.Secrets
import Didi.Lib.Recency
import Didi.Image.CaptureCache
import Didi.Image.Recency
import Didi.Common.Base64
import Didi.Config.Strings
import Didi.Import.Options
import Didi.Import.Window
import Didi.Setup.Blocks
import Didi.Setup.Rewrite
import Didi.Script.Reindent
import Didi.Script.Scopes
import Didi.Script.Placement
import Didi.Script.Repeat
import Didi.Script.Again
import Didi.Mcp.Results
import Didi.Mcp.Economy
import Didi.Mcp.Repeats
import Didi.Mcp.Streaks
import Didi.Config.Literals
import Didi.Config.Rendered
import Didi.Common.Validators
import Didi.Lib.Heap
import Didi.Performance.Frames
import Didi.Exploration.Observe
import Didi.Exploration.Stillness
import Didi.Index.Order
import Didi.Index.Independent
import Didi.Index.Unchanged
import Didi.Cells.Records
import Didi.Cells.Expansion
import Didi.Cells.Prepared
import Didi.Search.Lines
import Didi.Search.Shadows
import Didi.Input.Actions
import Didi.Input.Literal
import Didi.Input.Exactly
import Didi.Resource.Header
import Didi.Resource.Range
import Didi.Resource.Identity
import Didi.Tres.Literal
import Didi.Tres.Scalars
import Didi.Tres.Spelled
import Didi.Tres.Written
import Didi.Tres.Kept
import Didi.Lib.Glob
import Didi.Export.Glob
import Didi.Lib.Sha2
import Didi.Scenario.Digest
import Didi.Lib.Blocks
import Didi.Lib.Word32
import Didi.Lib.Md5
import Didi.Import.Md5
import Didi.Import.Digest
import Didi.Bridge.Payload
import Didi.Schema.Branches
import Didi.Editor.Refresh
import Didi.Editor.Named
import Didi.Lib.Rose
import Didi.Hierarchy.View
import Didi.Hierarchy.Kept
import Didi.Mcp.Normalization
import Didi.Mcp.Normalized
import Didi.Exploration.Callbacks
import Didi.Exploration.Released
