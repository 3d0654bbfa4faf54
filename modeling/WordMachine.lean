import WordMachine.Main
import WordMachine.Proofs.Assembly.Files
import WordMachine.Proofs.Assembly.Listing
import WordMachine.Proofs.Assembly.Reassembly
import WordMachine.Proofs.Assembly.References
import WordMachine.Proofs.Assembly.Relocation
import WordMachine.Proofs.Assembly.StringData
import WordMachine.Proofs.Cflat.Bounds
import WordMachine.Proofs.Cflat.Branches
import WordMachine.Proofs.Cflat.Comments
import WordMachine.Proofs.Cflat.Conditional
import WordMachine.Proofs.Cflat.Conservation
import WordMachine.Proofs.Cflat.FunctionHeaders
import WordMachine.Proofs.Cflat.Groups
import WordMachine.Proofs.Cflat.InternalFaults
import WordMachine.Proofs.Cflat.Loops
import WordMachine.Proofs.Cflat.Macros
import WordMachine.Proofs.Cflat.Names
import WordMachine.Proofs.Cflat.NumberTokens
import WordMachine.Proofs.Cflat.Parentheses
import WordMachine.Proofs.Cflat.Strictness
import WordMachine.Proofs.Cflat.Transfers
import WordMachine.Proofs.Cflat.Trigraphs
import WordMachine.Proofs.Cflat.WellFormed
import WordMachine.Proofs.Instruction.Recoding
