import Opbox.Foundation.Effect
import Opbox.Fs.Types

/-!
# System calls

What the file layer asks of the operating system.  The calls are made on a world that answers them
and may change with them; a disk is one such world, and a disk that others change between two calls
is another.  Paths are relative to the sync root, `none` being the root itself.
-/

namespace Opbox

/-- `std::io::ErrorKind`, as far as anything is done about it. -/
inductive IoErrorKind where
  | notFound
  | permissionDenied
  | notADirectory
  | isADirectory
  | filesystemLoop
  | other (code : Nat)
  deriving DecidableEq, Repr

/-- `eyre::Report`: an error of a system call, or a message. -/
inductive Report where
  | io (kind : IoErrorKind)
  | bail (message : String)
  deriving DecidableEq, Repr

/-- A file name as the operating system has it: the encoding of a text, or bytes that are none. -/
inductive OsName where
  | utf8 (text : List Char)
  | raw (bytes : Bytes)
  deriving DecidableEq

/-- `OsStr::to_str`. -/
def OsName.toStr : OsName → Option (List Char)
  | utf8 text => some text
  | raw _ => none

/-- The metadata of a path, without following a link at the path itself. -/
inductive Metadata where
  | directory
  | file (stat : FileStatFingerprint)
  /-- A symbolic link, a pipe, a socket or a device. -/
  | other
  deriving DecidableEq, Repr

/-- A world with the calls that read it. -/
class Syscalls (σ : Type) where
  /-- An open directory. -/
  Handle : Type
  /-- `symlink_metadata`. -/
  symlinkMetadata : RelativePath → σ → Except IoErrorKind Metadata × σ
  /-- `read_dir`. -/
  readDir : Option RelativePath → σ → Except IoErrorKind Handle × σ
  /-- `ReadDir::next_entry`. -/
  nextEntry : Handle → σ → Except IoErrorKind (Option (OsName × Handle)) × σ
  /-- `read`: the bytes of a file. -/
  read : RelativePath → σ → Except IoErrorKind Bytes × σ
  /-- `Path::exists`. -/
  pathExists : RelativePath → σ → Bool × σ

/-- A computation of the file layer. -/
abbrev Fio (σ α : Type) := Effect σ Report α

end Opbox
