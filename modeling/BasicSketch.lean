import BasicSketch.Lint.Fix
import BasicSketch.Main
import BasicSketch.Proofs.ArrayBounds
import BasicSketch.Proofs.BranchCapture
import BasicSketch.Proofs.CallForms
import BasicSketch.Proofs.CaseInsensitive
import BasicSketch.Proofs.CompilerOutput
import BasicSketch.Proofs.Composition
import BasicSketch.Proofs.Continuation
import BasicSketch.Proofs.CountingLoops
import BasicSketch.Proofs.DeclaredOnce
import BasicSketch.Proofs.EqualsSigns
import BasicSketch.Proofs.EveryTasks
import BasicSketch.Proofs.FixedFindings
import BasicSketch.Proofs.Hoisting
import BasicSketch.Proofs.JumpTargets
import BasicSketch.Proofs.LiteralValues
import BasicSketch.Proofs.NestedDelimiters
import BasicSketch.Proofs.NumberedText
import BasicSketch.Proofs.PointerAccess
import BasicSketch.Proofs.RecordBodies
import BasicSketch.Proofs.SeenDelays
import BasicSketch.Proofs.SelectCases
import BasicSketch.Proofs.SelfContained
import BasicSketch.Proofs.Unseen
import BasicSketch.Proofs.WellFormed
import BasicSketch.Sketch.Error
