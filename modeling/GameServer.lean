import GameServer.Module.HeaderEncode
import GameServer.Module.Lookup
import GameServer.Program.Neutral
import GameServer.Program.Replies
import GameServer.Program.Registered
import GameServer.Program.Balance
import GameServer.Program.NetManager
import GameServer.Module.ArrayTest
import GameServer.Module.HeaderReport
import GameServer.Module.This
import GameServer.Module.WarmLookup
import GameServer.Program.ScriptCall
import GameServer.Program.CallScript
import GameServer.Program.Completion
import GameServer.Module.WriteFile
import GameServer.Module.HeaderDecode
import GameServer.Module.UriEscape
import GameServer.Program.Address
import GameServer.Program.Echo
import GameServer.Program.Dispatch
import GameServer.Lua.Boundary
import GameServer.Lua.Survival
import GameServer.Lua.PatternRuns
import GameServer.Program.TestServer
import GameServer.Program.Startup
import GameServer.Lua.FloatByte
