import CppTry.NetPolling
import CppTry.ReceiveSafety
import CppTry.SendRoundTrip
import CppTry.NetRuns
import CppTry.SendMask
import CppTry.WriteWakeup
import CppTry.PollingAgreement
import CppTry.ConnectionIdentity
import CppTry.AcceptFailures
import CppTry.TransientErrors
import CppTry.LoginReplies
import CppTry.TokenHistories
import CppTry.SendStaging
import CppTry.FieldCodec
import CppTry.HttpParams
import CppTry.LuaStrings
import CppTry.CommandSync
import CppTry.HttpRequests
import CppTry.DoubleFields
import CppTry.RandomAccess
import CppTry.QueryDecoding
import CppTry.ReplyBuilds
import CppTry.TimeUtil
import CppTry.MySQLResult
import CppTry.HeaderCache
import CppTry.LuaWrap
import CppTry.SplitPositions
import CppTry.StringWidth
import CppTry.BufferGuards
import CppTry.BufferMoves
import CppTry.LongFields
import CppTry.LockQueue
import CppTry.XMLDocument
import CppTry.XMLRoundTrip
import CppTry.NetLifecycle
import CppTry.HttpService
import CppTry.StartSetting
import CppTry.XMLStrings
import CppTry.XMLCharacters
import CppTry.LinkedLists
import CppTry.XMLDeletion
import CppTry.XMLEdits
