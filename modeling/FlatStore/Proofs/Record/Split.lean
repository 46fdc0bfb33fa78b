import FlatStore.Proofs.Record.Stream

/-! # Splitting any bytes into records

    Every string of bytes, whatever it holds, is in just one way a row of
    written records with a rest behind it, where the records are read in turn
    and nothing is read from the rest (`Record.Splits`). It is the row that
    a scan finds (`Record.splits_iff`).
-/

namespace FlatStore

namespace Record

variable {b rest : Bytes} {start stop : Nat} {records : List Record}

/-- Records are read in turn from a position on, each from where the one before it ends. -/
inductive ReadInTurn (b : Bytes) : Nat → List Record → Nat → Prop where
  | nil (start : Nat) : ReadInTurn b start [] start
  | cons {start stop : Nat} {r : Record} {records : List Record}
      (here : read b start = .ok (some r))
      (others : ReadInTurn b (start + r.encodedLength) records stop) :
      ReadInTurn b start (r :: records) stop

/-- Nothing is read at a position: the bytes end there, or what is there is refused. -/
def Ended (b : Bytes) (stop : Nat) : Prop := b.size ≤ stop ∨ ∃ fault, read b stop = .error fault

/-- Records that are read in turn until nothing is read are those that a scan finds. -/
theorem ReadInTurn.scanFrom (h : ReadInTurn b start records stop) (ended : Ended b stop)
    (before : List Record) :
    (scanFrom b start before).records = before.reverse ++ records ∧
      (scanFrom b start before).length = stop := by
  induction h generalizing before with
  | nil start =>
    rw [List.append_nil]
    rcases ended with past | ⟨fault, refused⟩
    · rw [scanFrom_of_end before (read_at_end past)]
      exact ⟨rfl, rfl⟩
    · rw [scanFrom_of_fault before refused]
      exact ⟨rfl, rfl⟩
  | @cons start stop r records here others ih =>
    have rest := ih ended (r :: before)
    rw [List.reverse_cons, List.append_assoc] at rest
    rw [scanFrom_of_record before here]
    exact rest

theorem read_eq_none (h : read b start = .ok none) : b.size ≤ start := by
  refine Nat.le_of_not_lt fun more => ?_
  -- Every branch but the first gives a record or a fault.
  have within : ¬ b.size ≤ start := Nat.not_le.2 more
  unfold read at h
  grind

/-- A scan reads records in turn until nothing is read. -/
theorem readInTurn_scanFrom (b : Bytes) (start : Nat) (before : List Record) :
    ∃ records, (scanFrom b start before).records = before.reverse ++ records ∧
      ReadInTurn b start records (scanFrom b start before).length ∧
      Ended b (scanFrom b start before).length := by
  fun_induction Record.scanFrom b start before with
  | case1 start before h => exact ⟨[], by simp, .nil start, Or.inl (read_eq_none h)⟩
  | case2 start before r h ih =>
    obtain ⟨records, found, read, ended⟩ := ih
    refine ⟨r :: records, ?_, .cons h read, ended⟩
    rw [found, List.reverse_cons, List.append_assoc, List.singleton_append]
  | case3 start before fault h => exact ⟨[], by simp, .nil start, Or.inr ⟨fault, h⟩⟩

/-- The bytes are the written forms of the records with the rest behind them; the records are read in
turn, and then the rest is empty or refused. -/
structure Splits (b : Bytes) (records : List Record) (rest : Bytes) : Prop where
  written : ∃ bytes, encodeAll records = .ok bytes ∧ b = bytes ++ rest
  accepted : ReadInTurn b 0 records (b.size - rest.size)
  ended : rest.size = 0 ∨ ∃ fault, read b (b.size - rest.size) = .error fault

/-- Any bytes split in one way only, which is the one that a scan finds. -/
theorem splits_iff : Splits b records rest ↔
    records = (scan b).records ∧ rest = b.extract (scan b).length b.size := by
  constructor
  · intro h
    obtain ⟨bytes, -, whole⟩ := h.written
    have size : b.size = bytes.size + rest.size := by rw [whole, ByteArray.size_append]
    have ended : Ended b (b.size - rest.size) := h.ended.imp_left (by omega)
    obtain ⟨found, length⟩ := h.accepted.scanFrom ended []
    refine ⟨found.symm, ?_⟩
    have front : (scan b).length = bytes.size := by
      rw [scan, length]
      omega
    rw [front, size, whole, ByteArray.extract_append_eq_right rfl rfl]
  · rintro ⟨rfl, rfl⟩
    obtain ⟨fits, stands⟩ := extract_scan b
    obtain ⟨records, found, read, ended⟩ := readInTurn_scanFrom b 0 []
    rw [List.reverse_nil, List.nil_append] at found
    have within := length_scan_le b
    have front : b.size - (b.extract (scan b).length b.size).size = (scan b).length := by
      rw [size_behind]
      omega
    refine ⟨⟨_, encodeAll_of_fits fits, ?_⟩, ?_, ?_⟩
    · rw [← stands, ← ByteArray.extract_eq_extract_append_extract _ (Nat.zero_le _) within,
        ByteArray.extract_zero_size]
    · rw [front, scan, found]
      exact read
    · rw [front]
      exact ended.imp_left fun past => by
        rw [size_behind, scan]
        omega

end Record

end FlatStore
