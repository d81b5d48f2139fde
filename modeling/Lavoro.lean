import Lavoro.Lib.Loop
import Lavoro.Lib.Reach
import Lavoro.Lib.Overwrite
import Lavoro.Lib.Cursor
import Lavoro.Lib.Slots
import Lavoro.Efi.Base
import Lavoro.Efi.Str
import Lavoro.Stream.Reader
import Lavoro.Stream.View
import Lavoro.Stream.Deliver
import Lavoro.Stream.FileReader
import Lavoro.Stream.Writer
import Lavoro.File.System
import Lavoro.File.LFile
import Lavoro.File.Transfer
import Lavoro.File.Landed
import Lavoro.File.Directory
import Lavoro.Console.Path
import Lavoro.Console.Copy
import Lavoro.Console.Cp
import Lavoro.Console.Mv
import Lavoro.Console.MvSafe
import Lavoro.Console.Ls
import Lavoro.Console.Dispatch
import Lavoro.Screen.Explorer
import Lavoro.Screen.Enumeration
import Lavoro.Screen.Selection
import Lavoro.Net.Polling
import Lavoro.Net.Balance
import Lavoro.Net.Receive
import Lavoro.Net.SocketReader
import Lavoro.Net.Connect
import Lavoro.Lib.DList
import Lavoro.Task.Queue
import Lavoro.Task.Nested
import Lavoro.Lib.LittleEndian
import Lavoro.Screen.LBitmap
import Lavoro.Lib.Blocks
import Lavoro.Screen.Bmp
import Lavoro.Stream.History
import Lavoro.Net.SocketWriter
import Lavoro.Stream.Destruction
import Lavoro.Task.Runs
import Lavoro.Task.Drain
import Lavoro.Lib.Raster
import Lavoro.Screen.Draw
import Lavoro.Lib.Walk
import Lavoro.Packages.Box
import Lavoro.Packages.Pyramids
import Lavoro.File.Lines
import Lavoro.Lib.CString
import Lavoro.Console.Buffers
import Lavoro.Console.Commands
import Lavoro.Console.Mode
import Lavoro.Console.Arguments
import Lavoro.Console.Leftover
import Lavoro.Console.Independence
import Lavoro.Console.Overflow
import Lavoro.File.Handles
import Lavoro.Console.Handles
import Lavoro.Screen.Loads
import Lavoro.Screen.Handles
import Lavoro.Lib.Arrangement
import Lavoro.Lib.Backtrack
import Lavoro.Lib.Rounding
import Lavoro.Packages.AntTSP
import Lavoro.Net.Traced
import Lavoro.Net.Waiting
import Lavoro.Net.Events
import Lavoro.Net.Success
import Lavoro.Net.Children
import Lavoro.Net.Accepting
import Lavoro.Screen.Grid
import Lavoro.Console.Nesting
import Lavoro.Console.Quit
import Lavoro.File.ReadLine
import Lavoro.Console.Turns
import Lavoro.Console.Batch
import Lavoro.Console.Flat
import Lavoro.Net.Scripts
import Lavoro.File.Unbuffered
import Lavoro.Stream.Returned
import Lavoro.Stream.LineMemory
import Lavoro.Stream.Priming
import Lavoro.File.Seek
import Lavoro.Console.Addline
import Lavoro.Console.Shell
import Lavoro.Lib.DirectMap
import Lavoro.Screen.Fonts
import Lavoro.Screen.FontFiles
import Lavoro.Screen.Mask
import Lavoro.Console.Print
import Lavoro.Screen.BitmapBounds
import Lavoro.Lib.Sampling
import Lavoro.Lib.Scatter
import Lavoro.Screen.Scale
import Lavoro.Screen.Sampler
import Lavoro.Screen.Viewer
import Lavoro.Lib.Segments
import Lavoro.Lib.Trie
import Lavoro.Screen.Glyphs
import Lavoro.Screen.Sheets
import Lavoro.Lib.Typeset
import Lavoro.Screen.Baseline
import Lavoro.Screen.TextCells
import Lavoro.Lib.Faults
import Lavoro.Screen.SheetFaults
import Lavoro.Screen.FontSafety
import Lavoro.File.Initialize
import Lavoro.Screen.Disks
import Lavoro.Console.Target
import Lavoro.Lib.LinkedTrie
import Lavoro.Screen.GlyphTable
import Lavoro.Screen.Messages
import Lavoro.Packages.AntBounds
import Lavoro.Packages.AntMain
import Lavoro.Packages.AntBest
import Lavoro.Packages.AntRobust
import Lavoro.Console.Contents
import Lavoro.Console.Duplicate
import Lavoro.Console.Orders
import Lavoro.Console.Obeys
import Lavoro.Console.Sessions
import Lavoro.Console.Scripts
import Lavoro.Lib.Channel
import Lavoro.Stream.Passing
import Lavoro.Stream.Handing
import Lavoro.Net.Incoming
import Lavoro.Net.Conversation
import Lavoro.Net.Server
import Lavoro.Lib.Terminal
import Lavoro.Efi.Input
import Lavoro.Lib.Mosaic
import Lavoro.Screen.TextInside
import Lavoro.Screen.PagePicture
import Lavoro.Screen.Display
import Lavoro.Lib.Pool
import Lavoro.Efi.Locate
import Lavoro.File.Protocols
import Lavoro.Screen.Boxes
import Lavoro.Console.Config
import Lavoro.Lib.Spool
import Lavoro.Efi.Numerals
import Lavoro.Efi.Print
import Lavoro.Efi.Formats
import Lavoro.Console.Printed
import Lavoro.Console.Shown
