import FlatStore.Disk.Appender
import FlatStore.Proofs.Disk

/-! # What an appender brings to its file

    The bytes in the file and those that wait in the buffer make up one row.
    A piece that is taken in stands at its end; when a write is cut short, the
    file has grown by some bytes, and all that it held before still stands in
    front of them.
-/

namespace FlatStore

namespace Appender

variable {a : Appender} {d : Disk}

/-- What a use of an appender may do: the file only grows, and if nothing fails the piece stands at
the end of what was written. -/
structure Adds (a : Appender) (d : Disk) (piece : Bytes) (fault : Option DiskFault) (a' : Appender)
    (d' : Disk) : Prop where
  file : a'.file = a.file
  changes : Disk.Changes (fun _ => False) (· = a.file) d d'
  grows : ∃ more, d'.content a.file = d.content a.file ++ more
  row : fault = none → d'.content a.file ++ a'.pending = d.content a.file ++ a.pending ++ piece
  quiet : d.Quiet → fault = none

theorem flush_of_empty (h : a.pending = ByteArray.empty) (d : Disk) : a.flush d = (none, a, d) := by
  unfold flush
  rw [if_pos (by rw [h]; rfl)]

/-- A flush that succeeds leaves nothing in the buffer. -/
theorem flush_spec (a : Appender) (d : Disk) :
    ∃ fault a' d', a.flush d = (fault, a', d') ∧ Adds a d ByteArray.empty fault a' d' ∧
      (fault = none → a'.pending = ByteArray.empty) := by
  by_cases nothing : a.pending.size = 0
  · have empty : a.pending = ByteArray.empty := ByteArray.size_eq_zero_iff.1 nothing
    refine ⟨none, a, d, flush_of_empty empty d, ?_, fun _ => empty⟩
    exact ⟨rfl, .refl _ _ d, ⟨ByteArray.empty, by simp⟩, fun _ => by simp, fun _ => rfl⟩
  · obtain ⟨count, fault, d', run, changes, content, whole, quiet⟩ :=
      d.append_spec a.file a.pending
    unfold flush
    rw [if_neg nothing, run]
    cases fault with
    | none =>
      refine ⟨none, _, d', rfl, ⟨rfl, changes, ⟨_, content⟩, ?_, fun _ => rfl⟩,
        fun _ => rfl⟩
      intro _
      rw [content, whole rfl]
    | some fault =>
      exact ⟨some fault, _, d', rfl, ⟨rfl, changes, ⟨_, content⟩, nofun, quiet⟩, nofun⟩

/-- Taking in a piece behind what waits, when there is room for it. -/
theorem accept_spec (a : Appender) (piece : Bytes) (d : Disk)
    (room : piece.size < capacity ∨ a.pending = ByteArray.empty) :
    ∃ fault a' d', a.accept piece d = (fault, a', d') ∧ Adds a d piece fault a' d' := by
  unfold accept
  by_cases short : piece.size < capacity
  · -- A short one waits in the buffer, and the file stays as it is.
    rw [if_pos short]
    refine ⟨none, _, d, rfl, rfl, .refl _ _ d, ⟨ByteArray.empty, by simp⟩, ?_,
      fun _ => rfl⟩
    intro _
    rw [ByteArray.append_assoc]
  · -- A piece that is too long for the buffer goes straight to the file.
    have empty := room.resolve_left short
    obtain ⟨count, fault, d', run, changes, content, whole, quiet⟩ := d.append_spec a.file piece
    rw [if_neg short, run]
    refine ⟨fault, a, d', rfl, rfl, changes, ⟨_, content⟩, ?_, quiet⟩
    intro succeeded
    rw [content, whole succeeded, empty]
    simp

/-- What was taken in after something else stands behind it. -/
theorem Adds.trans {piece piece' : Bytes} {fault' : Option DiskFault} {a' a'' : Appender}
    {d' d'' : Disk} (h : Adds a d piece none a' d') (h' : Adds a' d' piece' fault' a'' d'') :
    Adds a d (piece ++ piece') fault' a'' d'' where
  file := h'.file.trans h.file
  changes := h.changes.trans (h'.changes.mono (fun _ => id) fun _ hn => hn.trans h.file)
  grows := by
    obtain ⟨more, hmore⟩ := h.grows
    obtain ⟨more', hmore'⟩ := h'.grows
    rw [h.file] at hmore'
    exact ⟨more ++ more', by rw [hmore', hmore, ByteArray.append_assoc]⟩
  row succeeded := by
    have row := h'.row succeeded
    rw [h.file, h.row rfl] at row
    rw [row, ByteArray.append_assoc]
  quiet hq := h'.quiet (h.changes.quiet hq)

theorem write_spec (a : Appender) (piece : Bytes) (d : Disk) :
    ∃ fault a' d', a.write piece d = (fault, a', d') ∧ Adds a d piece fault a' d' := by
  unfold write
  by_cases fitting : a.pending.size + piece.size ≤ capacity
  · rw [if_pos fitting]
    refine a.accept_spec piece d ?_
    by_cases short : piece.size < capacity
    · exact Or.inl short
    · exact Or.inr (ByteArray.size_eq_zero_iff.1 (by omega))
  · -- What waits is flushed first, to make room for the piece.
    obtain ⟨fault, a₁, d₁, flushed, adds, empty⟩ := a.flush_spec d
    rw [if_neg fitting, flushed]
    cases fault with
    | some fault =>
      exact ⟨some fault, a₁, d₁, rfl, adds.file, adds.changes, adds.grows, nofun, adds.quiet⟩
    | none =>
      obtain ⟨fault, a₂, d₂, accepted, adds'⟩ := a₁.accept_spec piece d₁ (Or.inr (empty rfl))
      refine ⟨fault, a₂, d₂, accepted, ?_⟩
      have both := adds.trans adds'
      rwa [ByteArray.empty_append] at both

/-- Writing a piece and flushing it, with nothing waiting before: if nothing fails, the piece stands
at the end of the file. -/
theorem Adds.content_of_flushed {piece : Bytes} {a' : Appender} {d' : Disk}
    (h : Adds a d piece none a' d') (before : a.pending = ByteArray.empty)
    (after : a'.pending = ByteArray.empty) :
    d'.content a.file = d.content a.file ++ piece := by
  have row := h.row rfl
  rwa [before, after, ByteArray.append_empty, ByteArray.append_empty] at row

end Appender

end FlatStore
