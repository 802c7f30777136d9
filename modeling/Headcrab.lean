import Headcrab.Lib.Runs
import Headcrab.Lib.Window
import Headcrab.Queue
import Headcrab.Lib.BoundedFifo
import Headcrab.MessageQueue
import Headcrab.Server
import Headcrab.ServerRuns
import Headcrab.Delivery
import Headcrab.WakeUp
import Headcrab.Lifecycle
import Headcrab.Lib.Store
import Headcrab.Lib.Chain
import Headcrab.Lib.Traced
import Headcrab.Dispatch
import Headcrab.Lib.Registry
import Headcrab.Table
import Headcrab.TableRep
import Headcrab.ExecuteSim
import Headcrab.Bindings
import Headcrab.Rebinding
import Headcrab.Json
import Headcrab.Commands
import Headcrab.Requests
import Headcrab.NullCalls
import Headcrab.Client
import Headcrab.System
import Headcrab.ReplyTable
import Headcrab.Lib.RefCount
import Headcrab.References
import Headcrab.Released
import Headcrab.Lexer
import Headcrab.Load
import Headcrab.Decoding
import Headcrab.Lib.Blocks
import Headcrab.Reentrancy
import Headcrab.AccessBracket
import Headcrab.Reply
import Headcrab.SendFailures
import Headcrab.TableRuns
import Headcrab.FreeNode
import Headcrab.Lib.Printf
import Headcrab.LexerErrors
import Headcrab.ErrorText
import Headcrab.TokenText
import Headcrab.Utf8
import Headcrab.Dump
import Headcrab.LexerText
import Headcrab.StringText
import Headcrab.NumberText
import Headcrab.WellFormed
import Headcrab.Roundtrip
import Headcrab.Lib.Circle
import Headcrab.Lib.Groups
import Headcrab.Hashtable
import Headcrab.HashtableRep
import Headcrab.ObjectMap
import Headcrab.Lib.Ownership
import Headcrab.DumpCells
import Headcrab.Reordered
import Headcrab.Posting
import Headcrab.Exchange
import Headcrab.Arrival
