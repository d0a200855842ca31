import Scftp.Lib.CString
import Scftp.Lib.Stdin
import Scftp.Lib.LineReading
import Scftp.Lib.Program
import Scftp.Lib.Machine
import Scftp.Lib.Feed
import Scftp.Lib.SqlText
import Scftp.Lib.Keyed
import Scftp.Lib.Interleaving
import Scftp.Lib.JsonText
import Scftp.Lib.Json
import Scftp.Lib.JsonPrefix
import Scftp.Lib.FileTree
import Scftp.Lib.Ledger
import Scftp.UserMan.Queries
import Scftp.UserMan.Injection
import Scftp.UserMan.Server
import Scftp.UserMan.Store
import Scftp.UserMan.Collation
import Scftp.UserMan.Main
import Scftp.UserMan.Failures
import Scftp.UserMan.Concurrency
import Scftp.UserMan.Races
import Scftp.UserMan.EndOfInput
import Scftp.UserMan.Buffers
import Scftp.UserMan.Endings
import Scftp.UserMan.Lines
import Scftp.UserMan.Client
import Scftp.UserMan.Wire
import Scftp.UserMan.Transcript
import Scftp.UserMan.Whole
import Scftp.UserMan.Secrets
import Scftp.ConfigurationTool.Common
import Scftp.ConfigurationTool.StartUp
import Scftp.ConfigurationTool.Main
import Scftp.ConfigurationTool.Loading
import Scftp.ConfigurationTool.Sessions
import Scftp.ConfigurationTool.Saving
import Scftp.ConfigurationTool.Progress
import Scftp.ConfigurationTool.Rounds
import Scftp.ConfigurationTool.Numbers
import Scftp.ConfigurationTool.Strings
import Scftp.ConfigurationTool.Lines
import Scftp.ConfigurationTool.Processes
import Scftp.ConfigurationTool.SharedFile
import Scftp.ConfigurationTool.Register
import Scftp.ConfigurationTool.Restarts
import Scftp.ConfigurationTool.Calls
import Scftp.ConfigurationTool.System
import Scftp.ConfigurationTool.Conduct
import Scftp.ConfigurationTool.Resources
import Scftp.ConfigurationTool.Holdings
import Scftp.ConfigurationTool.Shown
import Scftp.ConfigurationTool.Dialogue
import Scftp.ConfigurationTool.Typed
