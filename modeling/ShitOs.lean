import ShitOs.Properties.Time
import ShitOs.Properties.Qsort
import ShitOs.Properties.Fifo
import ShitOs.Properties.EventLoop
import ShitOs.Properties.Multiboot
import ShitOs.Properties.PageSystem
import ShitOs.Properties.Tmpfs
import ShitOs.Properties.UserCopy
import ShitOs.Properties.ElfLoader
import ShitOs.Properties.Fork
import ShitOs.Properties.KernelHeap
import ShitOs.Properties.TextField
import ShitOs.Properties.Pipeline
import ShitOs.Properties.Stdio
import ShitOs.Properties.Printf
import ShitOs.Properties.Regex
import ShitOs.Properties.ThreadSystem
import ShitOs.Properties.RunQueue
import ShitOs.Properties.WaitQueue
import ShitOs.Properties.GroupSignals
import ShitOs.Properties.JobControl
import ShitOs.Properties.Session
import ShitOs.Properties.PendingSignals
import ShitOs.Properties.SignalFrame
import ShitOs.Properties.Basename
import ShitOs.Properties.DirectoryStream
import ShitOs.Properties.Mounts
import ShitOs.Properties.UstarRoundTrip
import ShitOs.Properties.Regions
import ShitOs.Properties.Rename
import ShitOs.Properties.OpenFile
import ShitOs.Properties.Echo
import ShitOs.Properties.Pty
import ShitOs.Properties.TerminalRepaint
import ShitOs.Properties.HitTest
import ShitOs.Properties.BoxLayout
import ShitOs.Properties.Kerning
