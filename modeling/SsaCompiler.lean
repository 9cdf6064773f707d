import SsaCompiler.Ir.Printer
import SsaCompiler.Lower.Compilation
import SsaCompiler.Machine.Run
import SsaCompiler.Source.Reader
import SsaCompiler.Proofs.Computation
import SsaCompiler.Proofs.Ir.Folding
import SsaCompiler.Proofs.Ir.Growth
import SsaCompiler.Proofs.Machine.Path
import SsaCompiler.Proofs.Scalar.Arithmetic
import SsaCompiler.Proofs.Machine.Emission
import SsaCompiler.Proofs.Scalar.Emission
import SsaCompiler.Proofs.Scalar.Operand
import SsaCompiler.Proofs.Lower.Step
import SsaCompiler.Proofs.Lower.Later
import SsaCompiler.Proofs.Lower.Composed.Node
import SsaCompiler.Proofs.Machine.Jump
import SsaCompiler.Proofs.Scalar.Expression
import SsaCompiler.Proofs.Scalar.Condition
import SsaCompiler.Proofs.Scalar.Chain
import SsaCompiler.Proofs.Scalar.Evaluation
import SsaCompiler.Proofs.ControlFlow.Compilation
import SsaCompiler.Proofs.Ir.Containment
import SsaCompiler.Proofs.Ir.Development
import SsaCompiler.Proofs.Ir.History
import SsaCompiler.Proofs.Ir.Typing
import SsaCompiler.Proofs.Lower.Registry
import SsaCompiler.Proofs.Lower.Stepwise
import SsaCompiler.Proofs.Lower.Stepwise.Callable
import SsaCompiler.Proofs.Lower.Stepwise.Composed
import SsaCompiler.Proofs.Lower.Stepwise.Object
import SsaCompiler.Proofs.Ir.Integrity
import SsaCompiler.Proofs.Lower.Compilation
import SsaCompiler.Proofs.Lower.Argument
import SsaCompiler.Proofs.Lower.Symbol
import SsaCompiler.Proofs.Lower.Entry
import SsaCompiler.Proofs.Ir.Placement
import SsaCompiler.Proofs.Machine.Bytes
import SsaCompiler.Proofs.Machine.Memory
import SsaCompiler.Proofs.Machine.Limit
import SsaCompiler.Proofs.Machine.Run
import SsaCompiler.Proofs.DynamicArray.Code
import SsaCompiler.Proofs.DynamicArray.Contents
import SsaCompiler.Proofs.DynamicArray.Operators
import SsaCompiler.Proofs.DynamicArray.Entry
import SsaCompiler.Proofs.DynamicArray.Behaviour
import SsaCompiler.Proofs.Machine.Recursion
import SsaCompiler.Proofs.Lower.Diagnostics
import SsaCompiler.Proofs.Lower.Nesting
import SsaCompiler.Proofs.Lower.Position
import SsaCompiler.Proofs.Ir.Identity
import SsaCompiler.Proofs.Lower.Intact.Node
import SsaCompiler.Proofs.Lower.Agreement.Compilation
import SsaCompiler.Proofs.Lower.Agreement.Order
import SsaCompiler.Proofs.Lower.Layout
import SsaCompiler.Proofs.Symbols.Resolution
import SsaCompiler.Proofs.Ir.Extent
import SsaCompiler.Proofs.Machine.Allocator
import SsaCompiler.Proofs.ShortCircuit.Lowering
import SsaCompiler.Proofs.Symbols.Operators
import SsaCompiler.Proofs.Scalar.Width
import SsaCompiler.Proofs.Machine.Format
import SsaCompiler.Proofs.Machine.Numeral
import SsaCompiler.Proofs.Machine.FormatCrash
import SsaCompiler.Proofs.Machine.HeapRequest
import SsaCompiler.Proofs.Machine.Access
import SsaCompiler.Proofs.Machine.WildPointer
import SsaCompiler.Proofs.Lower.Calm
import SsaCompiler.Proofs.Lower.Parts
import SsaCompiler.Proofs.Lower.Exceptions
import SsaCompiler.Proofs.Lower.Exceptions.Node
import SsaCompiler.Proofs.Lower.Exceptions.Compilation
import SsaCompiler.Proofs.Machine.Log
import SsaCompiler.Proofs.Structured.Function
import SsaCompiler.Proofs.Symbols.Scope
import SsaCompiler.Proofs.Symbols.Index
