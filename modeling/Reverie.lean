import Reverie.BranchStep.Run
import Reverie.EntryGate.Publication
import Reverie.ExecTicket.Refusals
import Reverie.Gdb.Interrupt
import Reverie.Gdb.Payload
import Reverie.Gdb.Receive
import Reverie.Gdb.Response
import Reverie.Gdb.VCont
import Reverie.GuestLog.OrderedDelivery
import Reverie.Input.Exclusivity
import Reverie.Input.Finality
import Reverie.Input.Lifetimes
import Reverie.Input.Sharing
import Reverie.LiteInst.Interior
import Reverie.Memory.FreeRange
import Reverie.Memory.Scratch
import Reverie.PageMaps.Refinement
import Reverie.PageMaps.Watches
import Reverie.ReservedFds.CloseRange
import Reverie.Rpc.Framing
import Reverie.Rpc.Successor
import Reverie.Seccomp.Filter
import Reverie.SegvState.Restore
import Reverie.Selection.Handoff
import Reverie.Selection.Reports
import Reverie.Selection.Unknown
import Reverie.SignalFrame.Layout
import Reverie.SignalFrame.RoundTrip
import Reverie.Timer.Counter
import Reverie.Timer.PmuState
import Reverie.Timer.Rearm
import Reverie.ToolHeap.Reuse
import Reverie.UserAddress.Search
import Reverie.UserAddress.SingleWinner
import Reverie.Vfork.Window
