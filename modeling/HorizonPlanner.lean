import HorizonPlanner.Main
import HorizonPlanner.Plan.Validation
import HorizonPlanner.ProblemText
import HorizonPlanner.Proofs.Builds
import HorizonPlanner.Proofs.Conditions
import HorizonPlanner.Proofs.Encoding.Bijection
import HorizonPlanner.Proofs.Encoding.Contradictions
import HorizonPlanner.Proofs.Encoding.Correctness
import HorizonPlanner.Proofs.Encoding.Decoding
import HorizonPlanner.Proofs.Encoding.Demands
import HorizonPlanner.Proofs.Encoding.Formula
import HorizonPlanner.Proofs.Encoding.Layers
import HorizonPlanner.Proofs.Encoding.Meaning
import HorizonPlanner.Proofs.Encoding.Numbering
import HorizonPlanner.Proofs.Encoding.Readings
import HorizonPlanner.Proofs.Encoding.Size
import HorizonPlanner.Proofs.Encoding.Uniqueness
import HorizonPlanner.Proofs.Histories
import HorizonPlanner.Proofs.Interference
import HorizonPlanner.Proofs.Moves
import HorizonPlanner.Proofs.Orders
import HorizonPlanner.Proofs.ProblemText.Accesses
import HorizonPlanner.Proofs.ProblemText.Content
import HorizonPlanner.Proofs.ProblemText.Grammar
import HorizonPlanner.Proofs.ProblemText.Rejections
import HorizonPlanner.Proofs.Sat.Answers
import HorizonPlanner.Proofs.Sat.Buffers
import HorizonPlanner.Proofs.Sat.Assignments
import HorizonPlanner.Proofs.Sat.ClauseSets
import HorizonPlanner.Proofs.Sat.Competition
import HorizonPlanner.Proofs.Sat.Dimacs
import HorizonPlanner.Proofs.Sat.Insertions
import HorizonPlanner.Proofs.Sat.Interruptions
import HorizonPlanner.Proofs.Sat.Narrowing
import HorizonPlanner.Proofs.Sat.Outcomes
import HorizonPlanner.Proofs.Sat.Transmission
import HorizonPlanner.Proofs.Search.Absence
import HorizonPlanner.Proofs.Search.Attempts
import HorizonPlanner.Proofs.Search.Correctness
import HorizonPlanner.Proofs.Search.Course
import HorizonPlanner.Proofs.Search.Idleness
import HorizonPlanner.Proofs.Search.Programs
import HorizonPlanner.Proofs.Search.Questions
import HorizonPlanner.Proofs.Search.Runs
import HorizonPlanner.Proofs.Search.Unreachability
import HorizonPlanner.Proofs.Shortening
import HorizonPlanner.Proofs.Solutions
import HorizonPlanner.Proofs.Text.Blanks
import HorizonPlanner.Proofs.Text.Cuts
import HorizonPlanner.Proofs.Text.Lines
import HorizonPlanner.Proofs.Text.Numerals
import HorizonPlanner.Proofs.Text.Words
import HorizonPlanner.Proofs.Trajectories
import HorizonPlanner.Proofs.Traversal
import HorizonPlanner.Proofs.WellFormed
import HorizonPlanner.Report
import HorizonPlanner.Sat.AnswerText
import HorizonPlanner.Sat.Embedded
import HorizonPlanner.Sat.EngineKind
import HorizonPlanner.StandIn.Folder
import HorizonPlanner.StandIn.Learning
import HorizonPlanner.Proofs.ProblemText.Warnings
import HorizonPlanner.Proofs.Reports
