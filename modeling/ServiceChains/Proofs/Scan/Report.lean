import Mathlib
import ServiceChains.Proofs.Scan.SourceFile
import ServiceChains.Proofs.Tally

/-!
# What an analysis reports

Discovery groups the files by service and the search for calls goes through the services one by one.
The errors of both, as multisets, are collected from the source files below the directory that is
walked, each by itself.
-/
namespace ServiceChains

section Reports

variable {α ε : Type}

end Reports

namespace Analysis

open Source FileTree

section IsWalked

variable {t : FileTree} {s : Settings} {root : String}

end IsWalked

end Analysis

end ServiceChains
