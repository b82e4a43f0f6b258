import StencilRtl.Kernel.Builder
import StencilRtl.Main
import StencilRtl.Proofs.Adapter
import StencilRtl.Proofs.Answers.Kernels
import StencilRtl.Proofs.Command.Outputs
import StencilRtl.Proofs.Datapath.Declarations
import StencilRtl.Proofs.Datapath.Indices
import StencilRtl.Proofs.Datapath.Printing
import StencilRtl.Proofs.Datapath.Window
import StencilRtl.Proofs.Dispatch.Alias
import StencilRtl.Proofs.Document.Kernels
import StencilRtl.Proofs.LineBuffer.Windows
import StencilRtl.Proofs.LoopControl.Controller
import StencilRtl.Proofs.LoopControl.Output
import StencilRtl.Proofs.LoopNest.Scopes
import StencilRtl.Proofs.Netlist.Acyclic
import StencilRtl.Proofs.Netlist.Circles
import StencilRtl.Proofs.Netlist.Interface
import StencilRtl.Proofs.Operands.StreamCalls
import StencilRtl.Proofs.Queue
import StencilRtl.Proofs.Registers.Completion
import StencilRtl.Proofs.Registers.Header
import StencilRtl.Proofs.Registers.Parameters
import StencilRtl.Proofs.Scan.Walk
import StencilRtl.Proofs.Sharing.Clashes
import StencilRtl.Proofs.Sharing.Uses
import StencilRtl.Proofs.Subset.Statements
