import ServiceChains.Path
import ServiceChains.Text.Bytes

/-!
# Names in file trees

A file or a directory has a name, which is a sequence of bytes. Most names are texts. One that is not
can be looked up and shown, but it has no text that could be compared with another one.
-/
namespace ServiceChains

/-- The name of a file or a directory: a text, or bytes that are none. -/
inductive FileName where
  | text (s : String)
  | raw (content : ByteArray) (notText : String.fromUTF8? content = none)

namespace FileName

instance : DecidableEq FileName
  | text s, text t =>
    if h : s = t then isTrue (congrArg text h) else isFalse fun e => h (text.inj e)
  | raw a _, raw b _ =>
    if h : a.data.toList = b.data.toList then
      isTrue (by cases ByteArray.ext (Array.toList_inj.mp h); rfl)
    else isFalse fun e => h (congrArg (·.data.toList) (raw.inj e))
  | text _, raw .. => isFalse nofun
  | raw .., text _ => isFalse nofun

instance : Coe String FileName := ⟨text⟩

/-- What a name consists of. -/
def content : FileName → ByteArray
  | text s => s.toUTF8
  | raw content _ => content

/-- The bytes of a name. -/
def bytes (n : FileName) : List UInt8 :=
  n.content.data.toList

/-- The text of a name, if it is one. -/
def text? : FileName → Option String
  | text s => some s
  | raw .. => none

/-- A name as it is shown. -/
def display : FileName → String
  | text s => s
  | raw content _ => Text.shown content.data.toList

/-- What follows the last dot of a name, if that is a text; the rest of the name need not be one. -/
def extension? (n : FileName) : Option String :=
  (Path.cutAtLast '.'.toUInt8 n.bytes).2.bind fun after => String.fromUTF8? after.toByteArray

end FileName

end ServiceChains
