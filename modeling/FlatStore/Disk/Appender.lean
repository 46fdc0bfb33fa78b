import FlatStore.Disk

/-! # Buffered appending

    An appender adds bytes to the end of an open file. Short pieces wait in a
    buffer until it is full or flushed; a piece as long as the buffer goes to
    the file at once, behind what waits. When a flush is cut short, the bytes
    that did not reach the file go on waiting.
-/

namespace FlatStore

/-- An open file and the bytes that wait to be added to it. -/
structure Appender where
  file : FileNumber
  pending : Bytes := ByteArray.empty

namespace Appender

/-- The length of the buffer. -/
def capacity : Nat := 8192

/-- Bring the waiting bytes to the file. -/
def flush (a : Appender) (d : Disk) : Option DiskFault × Appender × Disk :=
  if a.pending.size = 0 then (none, a, d)
  else
    match d.append a.file a.pending with
    | (_, none, d) => (none, { a with pending := ByteArray.empty }, d)
    | (count, some fault, d) =>
      (some fault, { a with pending := a.pending.extract count a.pending.size }, d)

/-- Take in a piece behind an empty or roomy buffer. -/
def accept (a : Appender) (piece : Bytes) (d : Disk) : Option DiskFault × Appender × Disk :=
  if piece.size < capacity then (none, { a with pending := a.pending ++ piece }, d)
  else
    match d.append a.file piece with
    | (_, fault, d) => (fault, a, d)

/-- Add a piece; the buffer is flushed first if the piece does not fit into it. -/
def write (a : Appender) (piece : Bytes) (d : Disk) : Option DiskFault × Appender × Disk :=
  if a.pending.size + piece.size ≤ capacity then a.accept piece d
  else
    match a.flush d with
    | (some fault, a, d) => (some fault, a, d)
    | (none, a, d) => a.accept piece d

end Appender

end FlatStore
