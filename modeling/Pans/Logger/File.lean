import Pans.Basic
import Pans.Lib.WriteBack

/-!
# Where appenders write

The streams behind the two kinds of appenders, and the protected members of `Appender::Impl` on them. No operation
on a stream fails.
-/

namespace Pans

/-- What a stream has been given, what of it the operating system has, and what of that is on the disk. -/
abbrev File := WriteBack Byte

namespace File

def fwrite (file : File) (data : Bytes) : File := file.write data

def fflush (file : File) : File := file.flush

def fdatasync (file : File) : File := file.sync

/-- Closing flushes. -/
def fclose (file : File) : File := file.flush

end File

/-! ## The classes that derive from `Appender::Impl` -/

namespace StdoutAppenderImpl

/-- The part of `std::cout` that comes from the appender. -/
def writeUnlocked (cout : File) (formattedRecord : Bytes) : File := cout.write formattedRecord

def flushUnlocked (cout : File) : File := cout.flush

def syncUnlocked (cout : File) : File := flushUnlocked cout

end StdoutAppenderImpl

namespace FileAppenderImpl

def writeUnlocked (file : File) (formattedRecord : Bytes) : File := file.fwrite formattedRecord

def flushUnlocked (file : File) : File := file.fflush

def syncUnlocked (file : File) : File := (flushUnlocked file).fdatasync

/-- The destructor. -/
def destroy (file : File) : File := file.fflush.fclose

end FileAppenderImpl

namespace Appender

inductive Kind where
  | stdout
  | file
  deriving DecidableEq

inductive Member where
  | writeUnlocked (formattedRecord : Bytes)
  | flushUnlocked
  | syncUnlocked

/-- The call of a member goes to the class of the object. -/
def Kind.run : Kind → Member → File → File
  | .stdout, .writeUnlocked formattedRecord, stream => StdoutAppenderImpl.writeUnlocked stream formattedRecord
  | .stdout, .flushUnlocked, stream => StdoutAppenderImpl.flushUnlocked stream
  | .stdout, .syncUnlocked, stream => StdoutAppenderImpl.syncUnlocked stream
  | .file, .writeUnlocked formattedRecord, stream => FileAppenderImpl.writeUnlocked stream formattedRecord
  | .file, .flushUnlocked, stream => FileAppenderImpl.flushUnlocked stream
  | .file, .syncUnlocked, stream => FileAppenderImpl.syncUnlocked stream

def Kind.destroy : Kind → File → File
  | .stdout, stream => stream
  | .file, stream => FileAppenderImpl.destroy stream

def Member.written : Member → Bytes
  | writeUnlocked formattedRecord => formattedRecord
  | _ => []

/-! ## What the members do -/

variable {kind : Kind} {stream : File}

theorem Kind.run_valid (h : stream.Valid) (member : Member) : (kind.run member stream).Valid := by
  cases kind <;> cases member
  case stdout.writeUnlocked | file.writeUnlocked => exact h.write _
  case file.syncUnlocked => exact h.flush.sync
  all_goals exact h.flush

theorem Kind.run_extends (h : stream.Valid) (member : Member) :
    stream.Extends member.written (kind.run member stream) := by
  cases kind <;> cases member
  case stdout.writeUnlocked | file.writeUnlocked => exact WriteBack.extends_write _ _
  case file.syncUnlocked => exact (WriteBack.extends_flush stream).trans h.flush.extends_sync
  all_goals exact WriteBack.extends_flush stream

theorem Kind.run_flushUnlocked (h : stream.Valid) :
    (kind.run .flushUnlocked stream).handed = (kind.run .flushUnlocked stream).accepted := by
  cases kind <;> exact h.flush_handed

theorem Kind.run_syncUnlocked (h : stream.Valid) :
    (kind.run .syncUnlocked stream).handed = (kind.run .syncUnlocked stream).accepted := by
  cases kind <;> exact h.flush_handed

theorem run_file_syncUnlocked (h : stream.Valid) :
    (Kind.file.run .syncUnlocked stream).synced = (Kind.file.run .syncUnlocked stream).accepted := h.flush_handed

theorem Kind.destroy_valid (h : stream.Valid) : (kind.destroy stream).Valid := by
  cases kind
  · exact h
  · exact h.flush.flush

theorem Kind.destroy_extends : stream.Extends [] (kind.destroy stream) := by
  cases kind
  · exact WriteBack.Extends.refl stream
  · exact (WriteBack.extends_flush stream).trans (WriteBack.extends_flush _)

theorem Kind.destroy_of_handed (h : stream.handed = stream.accepted) : kind.destroy stream = stream := by
  cases kind with
  | stdout => rfl
  | file =>
      have hflush := WriteBack.flush_of_handed h
      exact (congrArg WriteBack.flush hflush).trans hflush

theorem destroy_file (h : stream.Valid) : (Kind.file.destroy stream).handed = (Kind.file.destroy stream).accepted :=
  h.flush.flush_handed

end Appender

end Pans
