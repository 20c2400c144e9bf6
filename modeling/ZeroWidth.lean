import ZeroWidth.FileTree
import ZeroWidth.Main
import ZeroWidth.Proofs.Edges
import ZeroWidth.Proofs.Saturation
import ZeroWidth.Proofs.TopOfStack
import ZeroWidth.Proofs.Layout
import ZeroWidth.Proofs.Partition
import ZeroWidth.Proofs.Fragments
import ZeroWidth.Proofs.Stitching
import ZeroWidth.Proofs.Passage
import ZeroWidth.Proofs.Seams
import ZeroWidth.Proofs.StackMachine
import ZeroWidth.Proofs.Simulation
import ZeroWidth.Proofs.Soundness
import ZeroWidth.Proofs.Liveness
import ZeroWidth.Proofs.Numerals
import ZeroWidth.Proofs.Grammar
import ZeroWidth.Proofs.Naming
import ZeroWidth.Proofs.Tables
import ZeroWidth.Proofs.Reading
import ZeroWidth.Proofs.Renaming
import ZeroWidth.Proofs.Respelling
import ZeroWidth.Proofs.FirstOccurrence
import ZeroWidth.Proofs.AssemblyText
import ZeroWidth.Proofs.Conversion
import ZeroWidth.Proofs.Places
import ZeroWidth.Proofs.Relocation
import ZeroWidth.Proofs.NodeMap
import ZeroWidth.Proofs.Equivariance
import ZeroWidth.Proofs.Origins
import ZeroWidth.Proofs.Reports
import ZeroWidth.Proofs.Verdict
import ZeroWidth.Proofs.Checkable
import ZeroWidth.Proofs.Convergence
import ZeroWidth.Proofs.Strictness
import ZeroWidth.Proofs.StraightLine
import ZeroWidth.Proofs.LineGraph
import ZeroWidth.Proofs.SingleBranch
import ZeroWidth.Proofs.Exactness
import ZeroWidth.Proofs.Coverage
import ZeroWidth.Proofs.Placing
import ZeroWidth.Proofs.Numbering
import ZeroWidth.Proofs.Junctions
import ZeroWidth.Proofs.Interning
import ZeroWidth.Proofs.Deletion
import ZeroWidth.Proofs.Splicing
import ZeroWidth.Proofs.Assertions
import ZeroWidth.Proofs.Lockstep
import ZeroWidth.Proofs.DeadCode
import ZeroWidth.Proofs.CanonicalSpelling
import ZeroWidth.Proofs.Positions
import ZeroWidth.Proofs.TableOrder
import ZeroWidth.Proofs.Findings
import ZeroWidth.Proofs.GuardedBranches
import ZeroWidth.Proofs.GuardedGraph
import ZeroWidth.Proofs.GuardedResolution
import ZeroWidth.Proofs.Integrity
import ZeroWidth.Proofs.NumberCodec
import ZeroWidth.Proofs.LaxErrors
import ZeroWidth.Proofs.Unreached
import ZeroWidth.Proofs.Pragmas
import ZeroWidth.Proofs.LongestMatch
import ZeroWidth.Proofs.TypeNames
import ZeroWidth.Proofs.LineIndex
