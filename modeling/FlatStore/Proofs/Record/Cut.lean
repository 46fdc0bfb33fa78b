import FlatStore.Proofs.Record

/-! # Files that are cut off

    A row of written records that is cut off at any length still shows where
    its last whole record ends. Behind that, a read meets the end of the file
    or reports a truncated record, before it ever comes to a checksum
    (`read_cut`). So a scan of the cut file finds just the records that are
    whole (`scan_cut`).
-/

namespace FlatStore

/-- A word that lies in front of the cut is read as before. -/
theorem Bytes.wordAt_cut {whole : Bytes} {cut i : Nat} (h : i + 4 ≤ cut)
    (bounded : cut ≤ whole.size) : Bytes.wordAt (whole.extract 0 cut) i = Bytes.wordAt whole i := by
  have size : (whole.extract 0 cut).size = cut := by
    rw [ByteArray.size_extract]
    omega
  rw [wordAt_extract (by omega), wordAt_extract (b := whole) (by omega), ByteArray.extract_extract,
    Nat.zero_add, Nat.zero_add, Nat.min_eq_left h]

namespace Record

variable {whole : Bytes} {cut start : Nat}

/-! ### One record -/

/-- A record in front of the cut is read as before. -/
theorem read_before_cut {r : Record} (h : read whole start = .ok (some r))
    (before : start + r.encodedLength ≤ cut) : read (whole.extract 0 cut) start = .ok (some r) := by
  obtain ⟨fits, stands⟩ := read_eq_some_iff.1 h
  refine read_eq_some_iff.2 ⟨fits, ?_⟩
  rw [ByteArray.extract_extract, Nat.zero_add, Nat.zero_add, Nat.min_eq_left before, stands]

/-- A record that the cut goes through is reported as truncated, wherever the cut goes. -/
theorem read_cut {r : Record} (h : read whole start = .ok (some r)) (begun : start < cut)
    (torn : cut < start + r.encodedLength) :
    read (whole.extract 0 cut) start = .error .truncated := by
  obtain ⟨⟨key_fits, value_fits⟩, stands⟩ := standsAt_of_read h
  have ends := stands.whole
  have header : headerLength = 8 := rfl
  have trailer : trailerLength = 4 := rfl
  have length := r.encodedLength_eq
  have size : (whole.extract 0 cut).size = cut := by
    rw [ByteArray.size_extract]
    omega
  unfold read
  rw [size, if_neg (by omega)]
  by_cases short : cut < start + headerLength
  · rw [if_pos short]
  · -- Both lengths are there, so it is known how far the record would have to go.
    rw [if_neg short, Bytes.wordAt_cut (by omega) (by omega),
      Bytes.wordAt_cut (by omega) (by omega), stands.keyLength, stands.valueLength]
    simp only [if_neg (Nat.not_lt.2 key_fits), if_neg (Nat.not_lt.2 value_fits)]
    rw [if_pos (by omega)]

/-! ### Rows of records -/

/-- A scan of a row of records that is cut off finds those in front of the first one that is not
whole. Unless the cut goes between two records, it ends with a truncated one. -/
theorem scanFrom_cut {kept rest : List Record} (fits : ∀ r ∈ kept ++ rest, r.Fits)
    (stands : whole.extract start whole.size = images (kept ++ rest))
    (bounded : cut ≤ whole.size) (enough : start + totalLength kept ≤ cut)
    (torn : ∀ r ∈ rest.head?, cut < start + totalLength kept + r.encodedLength)
    (before : List Record) :
    scanFrom (whole.extract 0 cut) start before =
      ⟨before.reverse ++ kept, start + totalLength kept,
        if start + totalLength kept = cut then none else some .truncated⟩ := by
  have size : (whole.extract 0 cut).size = cut := by
    rw [ByteArray.size_extract]
    omega
  have row := congrArg ByteArray.size stands
  rw [ByteArray.size_extract, size_images] at row
  -- On the records that are whole; behind the last of them the first torn one decides.
  induction kept generalizing start before with
  | nil =>
    rw [totalLength_nil, Nat.add_zero] at enough
    rw [List.nil_append] at row stands
    rw [List.append_nil, totalLength_nil, Nat.add_zero]
    by_cases ended : start = cut
    · rw [if_pos ended, scanFrom_of_end before (read_at_end (by omega))]
    · rw [if_neg ended]
      cases rest with
      | nil =>
        rw [totalLength_nil] at row
        omega
      | cons r rest =>
        obtain ⟨here, -⟩ := Bytes.extract_eq_append stands (Nat.le_refl _) (by omega)
        rw [size_image] at here
        have found := read_eq_some_iff.2 ⟨fits r List.mem_cons_self, here⟩
        have past := torn r rfl
        rw [totalLength_nil, Nat.add_zero] at past
        rw [scanFrom_of_fault before (read_cut found (by omega) past)]
  | cons r kept ih =>
    rw [List.cons_append, totalLength_cons] at row
    rw [totalLength_cons] at enough
    simp only [totalLength_cons] at torn
    rw [List.cons_append, images] at stands
    obtain ⟨here, behind⟩ := Bytes.extract_eq_append stands (Nat.le_refl _) (by omega)
    rw [size_image] at here behind
    have found := read_eq_some_iff.2 ⟨fits r List.mem_cons_self, here⟩
    rw [scanFrom_of_record before (read_before_cut found (by omega)),
      ih (fun r' hr => fits r' (List.mem_cons_of_mem r hr)) behind (by omega)
        (fun r' hr => by have := torn r' hr; omega) (r :: before) (by omega),
      totalLength_cons, List.reverse_cons, List.append_assoc, List.singleton_append,
      Nat.add_assoc]

/-- A scan of a cut file finds the records that are whole. -/
theorem scan_cut {kept rest : List Record} (fits : ∀ r ∈ kept ++ rest, r.Fits)
    (bounded : cut ≤ totalLength (kept ++ rest)) (enough : totalLength kept ≤ cut)
    (torn : ∀ r ∈ rest.head?, cut < totalLength kept + r.encodedLength) :
    scan ((images (kept ++ rest)).extract 0 cut) =
      ⟨kept, totalLength kept, if totalLength kept = cut then none else some .truncated⟩ := by
  rw [scan, scanFrom_cut fits ByteArray.extract_zero_size (by rwa [size_images])
    (by rwa [Nat.zero_add]) (by simpa using torn) [], Nat.zero_add]
  rfl

/-! ### How many are whole -/

/-- Of a row of records, some fit into a room from the front on, and the next one does not. -/
theorem exists_whole (records : List Record) (room : Nat) :
    ∃ k, k ≤ records.length ∧ totalLength (records.take k) ≤ room ∧
      ∀ r ∈ (records.drop k).head?, room < totalLength (records.take k) + r.encodedLength := by
  induction records generalizing room with
  | nil => exact ⟨0, Nat.le_refl 0, Nat.zero_le room, by simp⟩
  | cons r rest ih =>
    by_cases fits : r.encodedLength ≤ room
    · obtain ⟨k, within, enough, torn⟩ := ih (room - r.encodedLength)
      refine ⟨k + 1, Nat.succ_le_succ within, ?_, ?_⟩
      · rw [List.take_succ_cons, totalLength_cons]
        omega
      · intro r' hr
        have := torn r' hr
        rw [List.take_succ_cons, totalLength_cons]
        omega
    · refine ⟨0, Nat.zero_le _, Nat.zero_le room, ?_⟩
      intro r' hr
      obtain rfl : r = r' := by simpa using hr
      simpa using fits

theorem totalLength_take_le (records : List Record) (n : Nat) :
    totalLength (records.take n) ≤ totalLength records := by
  have parts := congrArg totalLength (List.take_append_drop n records)
  rw [totalLength_append] at parts
  omega

/-- No more records than those fit. -/
theorem le_of_whole {records : List Record} {room k j : Nat}
    (torn : ∀ r ∈ (records.drop k).head?, room < totalLength (records.take k) + r.encodedLength)
    (bounded : j ≤ records.length) (enough : totalLength (records.take j) ≤ room) : j ≤ k := by
  refine Nat.le_of_not_lt fun more => ?_
  -- The record behind the first `k` would be one of those that fit.
  have next : records[k]? = some records[k] := List.getElem?_eq_getElem (by omega)
  have past := torn records[k] (by rw [List.head?_drop, next]; rfl)
  have among := totalLength_take_le (records.take j) (k + 1)
  rw [List.take_take, Nat.min_eq_left more, List.take_add_one, next, totalLength_append,
    Option.toList_some, totalLength_cons] at among
  omega

end Record

end FlatStore
