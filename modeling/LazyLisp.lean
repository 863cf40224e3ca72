import LazyLisp.Main
import LazyLisp.Proofs.Direct.Evaluator
import LazyLisp.Proofs.Machine.Path
import LazyLisp.Proofs.Direct.Trampoline
import LazyLisp.Proofs.Alike.Script
import LazyLisp.Proofs.Reader.Inert
import LazyLisp.Proofs.Alike.Builtin
import LazyLisp.Proofs.Direct.Traces
import LazyLisp.Proofs.Alike.Link
import LazyLisp.Proofs.Alike.Same
import LazyLisp.Proofs.Alike.Store
import LazyLisp.Proofs.Quiet.Script
import LazyLisp.Proofs.Direct.ByName
import LazyLisp.Proofs.Direct.Sharing
import LazyLisp.Proofs.Direct.Memoization
import LazyLisp.Proofs.Direct.Programs
import LazyLisp.Proofs.Machine.Effect
import LazyLisp.Proofs.Async.System
import LazyLisp.Proofs.Async.Invariant
import LazyLisp.Proofs.Async.Turns
import LazyLisp.Proofs.Async.Once
import LazyLisp.Proofs.Async.Foreground
import LazyLisp.Proofs.Async.Evaluation
import LazyLisp.Proofs.Lockstep.Store
import LazyLisp.Proofs.Lockstep.Machine
import LazyLisp.Proofs.Lockstep.System
import LazyLisp.Proofs.Lockstep.Places
import LazyLisp.Proofs.Ready.Value
import LazyLisp.Proofs.Ready.Session
import LazyLisp.Proofs.Direct.Callers
import LazyLisp.Proofs.Reader.Grammar
import LazyLisp.Proofs.Reader.Munch
import LazyLisp.Proofs.Reader.Lines
import LazyLisp.Proofs.Reader.Final
import LazyLisp.Proofs.Repl.Pending
import LazyLisp.Proofs.Reader.Relocate
import LazyLisp.Proofs.Lockstep.Elsewhere
import LazyLisp.Proofs.Machine.Output
import LazyLisp.Proofs.Repl.Succession
import LazyLisp.Proofs.Repl.Session
import LazyLisp.Proofs.Repl.Transcript
import LazyLisp.Proofs.Decimal.Text
import LazyLisp.Proofs.Reader.Seams
import LazyLisp.Proofs.Text.Quoted
import LazyLisp.Proofs.Value.ReadBack
import LazyLisp.Proofs.Builtin.Hygiene
import LazyLisp.Proofs.Renaming.Frame
import LazyLisp.Proofs.Renaming.Store
import LazyLisp.Proofs.Machine.Reaches
import LazyLisp.Proofs.Renaming.Machine
import LazyLisp.Proofs.Renaming.Let
import LazyLisp.Proofs.Lexical.Store
import LazyLisp.Proofs.Lexical.Call
import LazyLisp.Proofs.Builtin.Code
import LazyLisp.Proofs.Async.Waiting
import LazyLisp.Proofs.Reader.Ending
import LazyLisp.Proofs.Reader.Completion
import LazyLisp.Proofs.Decimal.Rational
import LazyLisp.Proofs.Decimal.Truncation
import LazyLisp.Proofs.Decimal.Canonical
import LazyLisp.Proofs.Machine.Operands
import LazyLisp.Proofs.Builtin.Quotient
import LazyLisp.Proofs.Value.Equality
import LazyLisp.Proofs.Builtin.Comparison
import LazyLisp.Proofs.Builtin.Indistinct
import LazyLisp.Proofs.Reader.LineIndex
import LazyLisp.Proofs.Reader.Places
import LazyLisp.Proofs.Store.Resolution
import LazyLisp.Proofs.Async.Pursuit
import LazyLisp.Proofs.Async.Fate
import LazyLisp.Proofs.Async.Handles
import LazyLisp.Proofs.Machine.Again
import LazyLisp.Proofs.Machine.InTurn
import LazyLisp.Proofs.Builtin.Pointwise
import LazyLisp.Proofs.Reader.Agreement
import LazyLisp.Proofs.Text.Escapes
import LazyLisp.Proofs.Machine.Chain
import LazyLisp.Proofs.Builtin.Malformed
import LazyLisp.Proofs.Value.Inspect
import LazyLisp.Proofs.Reader.Slices
import LazyLisp.Proofs.Reader.Descent
