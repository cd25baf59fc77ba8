import Cirrove.Library.Bytes

/-!
# Records laid end to end

A stream holds records one after the other, each as its encoder writes it. A record is found
again through its position, which an index keeps beside the stream as a number of fixed
width. Since a position depends only on the records before it, a stream that has grown still
answers the positions it had (`position_append`), and a stretch of bytes between two positions
is the records between them (`slice_framed`).
-/

namespace Cirrove.Library

/-- `len` bytes from `start`. -/
def slice (bytes : Bytes) (start len : Nat) : Bytes := (bytes.drop start).take len

/-- A stretch of a beginning is the stretch of the whole. -/
theorem slice_prefix_eq {a b : Bytes} {start len : Nat} (hbegin : a <+: b)
    (h : start + len ≤ a.length) : slice b start len = slice a start len := by
  obtain ⟨rest, rfl⟩ := hbegin
  have hdrop : len ≤ (a.drop start).length := by
    rw [List.length_drop]
    omega
  rw [slice, slice, List.drop_append_of_le_length (by omega),
    List.take_append_of_le_length hdrop]

/-- A stretch of a stretch. -/
theorem slice_slice {bytes : Bytes} {start len a n : Nat} (h : a + n ≤ len) :
    slice (slice bytes start len) a n = slice bytes (start + a) n := by
  simp only [slice, List.drop_take, List.drop_drop, List.take_take]
  congr 1
  omega

/-! ## Tilings -/

/-- Pieces with a place and a length that lie end to end from `start` to `stop`. -/
inductive Tiles {α : Type*} (piece : α → Nat × Nat) : Nat → Nat → List α → Prop where
  | nil (i : Nat) : Tiles piece i i []
  | cons {i stop : Nat} {x : α} {rest : List α} (here : (piece x).1 = i)
      (tail : Tiles piece (i + (piece x).2) stop rest) : Tiles piece i stop (x :: rest)

theorem Tiles.le {α : Type*} {piece : α → Nat × Nat} {start stop : Nat} {pieces : List α}
    (h : Tiles piece start stop pieces) : start ≤ stop := by
  induction h with
  | nil => exact le_rfl
  | cons _ _ ih => omega

/-! ## Records -/

section Framed

variable {α : Type*} (encode : α → Bytes)

/-- The records one after the other. -/
def framed (records : List α) : Bytes := records.flatMap encode

@[simp]
theorem framed_nil : framed encode [] = [] := rfl

@[simp]
theorem framed_append (xs ys : List α) :
    framed encode (xs ++ ys) = framed encode xs ++ framed encode ys := by
  simp [framed]

@[simp]
theorem framed_singleton (x : α) : framed encode [x] = encode x := by
  simp [framed]

/-- Where a record begins. -/
def position (records : List α) (i : Nat) : Nat := (framed encode (records.take i)).length

@[simp]
theorem position_zero (records : List α) : position encode records 0 = 0 := by
  simp [position]

theorem position_length (records : List α) :
    position encode records records.length = (framed encode records).length := by
  simp [position]

/-- A record begins where the one before it ends. -/
theorem position_succ {records : List α} {i : Nat} (h : i < records.length) :
    position encode records (i + 1) =
      position encode records i + (encode (records[i])).length := by
  rw [position, List.take_succ_eq_append_getElem h, framed_append, framed_singleton,
    List.length_append, position]

/-- Where a record begins depends on the records before it. -/
theorem position_append {records : List α} (more : List α) {i : Nat} (h : i ≤ records.length) :
    position encode (records ++ more) i = position encode records i := by
  rw [position, position, List.take_append_of_le_length h]

theorem position_take {records : List α} {i n : Nat} (h : i ≤ n) :
    position encode (records.take n) i = position encode records i := by
  rw [position, position, List.take_take, min_eq_left h]

/-- Records between two places take the bytes between their positions. -/
theorem position_add {records : List α} {i n : Nat} :
    position encode records (i + n) =
      position encode records i + (framed encode ((records.drop i).take n)).length := by
  rw [position, position, List.take_add, framed_append, List.length_append]

theorem position_mono {records : List α} {i j : Nat} (h : i ≤ j) :
    position encode records i ≤ position encode records j := by
  obtain ⟨n, rfl⟩ := Nat.exists_eq_add_of_le h
  rw [position_add]
  omega

/-- The bytes between two positions are the records between them. -/
theorem slice_framed {records : List α} {i n : Nat} :
    slice (framed encode records) (position encode records i)
      (framed encode ((records.drop i).take n)).length =
      framed encode ((records.drop i).take n) := by
  have hsplit : framed encode records = framed encode (records.take i) ++
      (framed encode ((records.drop i).take n) ++ framed encode ((records.drop i).drop n)) := by
    rw [← framed_append, List.take_append_drop, ← framed_append, List.take_append_drop]
  conv_lhs => rw [hsplit]
  rw [slice, position, List.drop_left, List.take_left]

/-- The positions of all the records, in order. -/
def positions (records : List α) : List Nat :=
  (List.range records.length).map (position encode records)

@[simp]
theorem length_positions (records : List α) :
    (positions encode records).length = records.length := by
  simp [positions]

/-- A new record begins where the stream ended. -/
theorem positions_concat (records : List α) (x : α) :
    positions encode (records ++ [x]) =
      positions encode records ++ [(framed encode records).length] := by
  have hold : (List.range records.length).map (position encode (records ++ [x])) =
      positions encode records := by
    apply List.map_congr_left
    intro i hi
    exact position_append encode [x] (List.mem_range.mp hi).le
  rw [positions, List.length_append, List.length_singleton, List.range_succ, List.map_append,
    hold, List.map_singleton, position_append encode [x] le_rfl, position_length]

theorem positions_take (records : List α) (n : Nat) :
    positions encode (records.take n) = (positions encode records).take n := by
  rw [positions, positions, ← List.map_take, List.take_range, List.length_take]
  apply List.map_congr_left
  intro i hi
  have hlt := List.mem_range.mp hi
  exact position_take encode (by omega)

theorem getElem_positions {records : List α} {i : Nat}
    (h : i < (positions encode records).length) :
    (positions encode records)[i] = position encode records i := by
  simp [positions]

end Framed

/-! ## Numbers of a fixed width -/

/-- The pieces of `n` bytes, as far as they are whole. -/
def chunks (n : Nat) (bytes : Bytes) : List Bytes :=
  (List.range (bytes.length / n)).map fun i => slice bytes (n * i) n

@[simp]
theorem length_framed_littleEndian (width : Nat) (ns : List Nat) :
    (framed (littleEndian width) ns).length = width * ns.length := by
  induction ns with
  | nil => simp
  | cons n ns ih =>
    rw [← List.singleton_append, framed_append, List.length_append, ih, framed_singleton]
    simp [Nat.mul_add, Nat.add_comm]

/-- A number of a fixed width begins at a multiple of it. -/
theorem position_littleEndian {width : Nat} {ns : List Nat} {i : Nat} (h : i ≤ ns.length) :
    position (littleEndian width) ns i = width * i := by
  rw [position, length_framed_littleEndian, List.length_take, min_eq_left h]

/-- Numbers that are written one after the other are read one after the other. -/
theorem chunks_framed {width : Nat} (hwidth : 0 < width) (ns : List Nat) :
    chunks width (framed (littleEndian width) ns) = ns.map (littleEndian width) := by
  have hcount : (framed (littleEndian width) ns).length / width = ns.length := by
    rw [length_framed_littleEndian, Nat.mul_div_cancel_left _ hwidth]
  apply List.ext_getElem
  · rw [chunks, hcount]
    simp
  · intro i hleft hright
    have hi : i < ns.length := by simpa using hright
    have hone : (ns.drop i).take 1 = [ns[i]] := by
      rw [List.drop_eq_getElem_cons hi]
      rfl
    -- A number is the stretch of one record.
    have hslice := @slice_framed _ (littleEndian width) ns i 1
    rw [hone, framed_singleton, length_littleEndian, position_littleEndian hi.le] at hslice
    simpa [chunks] using hslice

end Cirrove.Library
