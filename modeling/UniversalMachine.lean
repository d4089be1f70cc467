import UniversalMachine.Main
import UniversalMachine.Proofs.Digits
import UniversalMachine.Proofs.Lexing
import UniversalMachine.Proofs.Codec
import UniversalMachine.Proofs.Reading
import UniversalMachine.Proofs.InstructionText
import UniversalMachine.Proofs.ListingRoundTrip
import UniversalMachine.Proofs.HeapInvariant
import UniversalMachine.Proofs.HeapView
import UniversalMachine.Proofs.AbstractMachine
import UniversalMachine.Proofs.Reachability
import UniversalMachine.Proofs.Refinement
import UniversalMachine.Proofs.LabelPlacement
import UniversalMachine.Proofs.TwoPasses
import UniversalMachine.Proofs.Lockstep
import UniversalMachine.Proofs.InputCausality
import UniversalMachine.Proofs.Observation
import UniversalMachine.Proofs.CycleBudget
import UniversalMachine.Proofs.FaultTable
import UniversalMachine.Proofs.AtomicFaults
import UniversalMachine.Proofs.Halting
import UniversalMachine.Proofs.StraightLine
import UniversalMachine.Proofs.TraceRows
import UniversalMachine.Proofs.LineGrammar
import UniversalMachine.Proofs.LongestMatch
import UniversalMachine.Proofs.TraceCodec
import UniversalMachine.Proofs.SourceTiling
import UniversalMachine.Proofs.Concatenation
import UniversalMachine.Proofs.ErrorLines
import UniversalMachine.Proofs.BlockIsolation
import UniversalMachine.Proofs.Files
import UniversalMachine.Proofs.Performing
import UniversalMachine.Proofs.RunCommand
import UniversalMachine.Proofs.TraceFile
import UniversalMachine.Proofs.UsedBits
import UniversalMachine.Proofs.RunVerdict
import UniversalMachine.Proofs.BlockLimit
import UniversalMachine.Proofs.ImageCodec
import UniversalMachine.Proofs.AssembleCommand
import UniversalMachine.Proofs.IndexReuse
import UniversalMachine.Proofs.SingleLine
import UniversalMachine.Proofs.InputScript
import UniversalMachine.Proofs.Literals
import UniversalMachine.Proofs.OutputLedger
import UniversalMachine.Proofs.Comments
import UniversalMachine.Proofs.LetterCase
import UniversalMachine.Proofs.LineEndings
import UniversalMachine.Proofs.CaseFolding
import UniversalMachine.Proofs.ListingImage
import UniversalMachine.Proofs.ProgramCounter
import UniversalMachine.Proofs.ErrorColumns
import UniversalMachine.Proofs.SourceKept
import UniversalMachine.Proofs.RegisterNames
