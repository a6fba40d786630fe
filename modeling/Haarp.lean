import Haarp.Base.Interval
import Haarp.Base.Layout
import Haarp.Base.Cut
import Haarp.Utils.Blocks
import Haarp.Utils.Plan
import Haarp.Utils.Append
import Haarp.Utils.Strings
import Haarp.Utils.LongLong
import Haarp.Utils.Paths
import Haarp.Cache.Store
import Haarp.Cache.Writer
import Haarp.Cache.Frame
import Haarp.Cache.Progress
import Haarp.Cache.Session
import Haarp.Cache.Coverage
import Haarp.Cache.Reading
import Haarp.Cache.Delivery
import Haarp.Proxy.Relay
import Haarp.Cache.Complete
import Haarp.Cache.Lock
import Haarp.Cache.World
import Haarp.Cache.Exclusive
import Haarp.Cache.Shared
import Haarp.Cache.Connection
import Haarp.Cache.Range
import Haarp.Cache.Decide
import Haarp.Cache.Place
import Haarp.Cache.Header
import Haarp.Cache.PartialSize
import Haarp.Cache.Planning
import Haarp.Cache.Marks
import Haarp.Cache.Declined
import Haarp.Proxy.Communication
import Haarp.Proxy.Release
import Haarp.Proxy.PassThrough
import Haarp.Http.Socket
import Haarp.Http.Receive
import Haarp.Http.Resolve
import Haarp.Http.ReadHeader
import Haarp.Http.Chunked
import Haarp.Http.AnalyseHeader
import Haarp.Http.ContentLength
import Haarp.Proxy.Planned
import Haarp.Cache.Turning
import Haarp.Cache.Offset
import Haarp.Proxy.Anchored
import Haarp.Cache.Fetching
import Haarp.Proxy.Clean
import Haarp.Utils.Loaded
import Haarp.Proxy.ClientBody
import Haarp.Base.Regex
import Haarp.Base.Quoting
import Haarp.Base.Lexical
import Haarp.Base.Replace
import Haarp.Utils.Search
import Haarp.Utils.Replace
import Haarp.Cache.Track
import Haarp.Cache.Sql
import Haarp.Proxy.HeaderError
import Haarp.Http.Tokens
import Haarp.Proxy.RequestLine
import Haarp.Etc.HaarpClean
import Haarp.Etc.Agreement
import Haarp.Plugins.Youtube
import Haarp.Base.Keyed
import Haarp.Utils.Users
import Haarp.Utils.History
import Haarp.Base.Transaction
import Haarp.Cache.Locking
import Haarp.Base.Parts
import Haarp.Plugins.Netflix
import Haarp.Plugins.Akamaihd
import Haarp.Plugins.Returns
import Haarp.Utils.Domain
import Haarp.Cache.Saving
import Haarp.Cache.Statistics
import Haarp.Base.Occurrence
import Haarp.Plugins.Query
import Haarp.Plugins.Order
import Haarp.Plugins.Syntaxes
import Haarp.Proxy.Forwarding
import Haarp.Server.Pool
import Haarp.Proxy.Conversation
import Haarp.Proxy.ClientHeader
import Haarp.Proxy.Hops
import Haarp.Base.Absorb
import Haarp.Utils.Md5
import Haarp.Plugins.Named
import Haarp.Plugins.General
import Haarp.Base.Sweep
import Haarp.Base.Rounding
import Haarp.Etc.Dates
import Haarp.Etc.Cleaning
import Haarp.Server.Params
import Haarp.Proxy.Answers
import Haarp.Proxy.Stored
