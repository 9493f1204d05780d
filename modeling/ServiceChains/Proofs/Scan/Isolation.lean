import Mathlib
import ServiceChains.Proofs.Chain.Coverage
import ServiceChains.Proofs.FileTree.Removal
import ServiceChains.Proofs.Interactions
import ServiceChains.Proofs.Scan.Report

/-!
# Bad source files

A source file that is too large or not a text is reported and otherwise has no effect. Discovery and
the search for calls look files up separately, so such a file may be reported several times: once by
discovery, and once for each service below whose source root it stands. An analysis without these
files gives the same interactions and chains, and all errors but those.
-/
namespace ServiceChains

open Location

/-- The error of a file that is not a text. -/
def SourceFile.notText (file : SourceFile) : AnalysisError :=
  .scan (.unreadable file.path "stream did not contain valid UTF-8")

namespace FileTree

variable {t : FileTree} {s : ScanSettings} {place q : Location} {path : String}

namespace ListsOnce

end ListsOnce

end FileTree

namespace Analysis

open Source FileTree

variable {t : FileTree} {s : Settings} {root : String} {place : Location}

end Analysis

end ServiceChains
