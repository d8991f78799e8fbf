import Airbridge.Lib.Buffer
import Airbridge.Qpdl.Records
import Mathlib.Data.List.ProdSigma

/-!
# The band layout

A band holds 128 lines column by column, inverted (1 = white); rows hold them
line by line (1 = black).  `band.c` converts between the two with one loop
over all cells in each direction.
-/

namespace Airbridge.Qpdl

/-- The cells of the two nested loops, as pairs `(col, line)`. -/
def bandCells (bytesPerRow : Nat) : List (Nat × Nat) :=
  List.range bytesPerRow ×ˢ List.range 128

def columnIndex (cell : Nat × Nat) : Nat := cell.1 * 128 + cell.2

def rowIndex (bytesPerRow : Nat) (cell : Nat × Nat) : Nat := cell.2 * bytesPerRow + cell.1

def bandToRows (band : Bytes) (bytesPerRow : Nat) (rows : Bytes) : Bytes :=
  Buffer.setAll (rowIndex bytesPerRow) (fun cell => ~~~byteAt band (columnIndex cell))
    (bandCells bytesPerRow) rows

def rowsToBand (rows : Bytes) (bytesPerRow : Nat) (band : Bytes) : Bytes :=
  Buffer.setAll columnIndex (fun cell => ~~~byteAt rows (rowIndex bytesPerRow cell))
    (bandCells bytesPerRow) band

@[simp] theorem length_bandToRows (band : Bytes) (bytesPerRow : Nat) (rows : Bytes) :
    (bandToRows band bytesPerRow rows).length = rows.length :=
  Buffer.length_setAll _ _ _ _

@[simp] theorem length_rowsToBand (rows : Bytes) (bytesPerRow : Nat) (band : Bytes) :
    (rowsToBand rows bytesPerRow band).length = band.length :=
  Buffer.length_setAll _ _ _ _

/-! ## Cells and their places -/

theorem mem_bandCells {bytesPerRow : Nat} {cell : Nat × Nat} :
    cell ∈ bandCells bytesPerRow ↔ cell.1 < bytesPerRow ∧ cell.2 < 128 := by
  rw [bandCells, List.mem_product, List.mem_range, List.mem_range]

/-- A place in the band names its column and its line. -/
theorem columnIndex_div_mod (col : Nat) {line : Nat} (h : line < 128) :
    (col * 128 + line) / 128 = col ∧ (col * 128 + line) % 128 = line := by
  omega

theorem nodup_bandCells (bytesPerRow : Nat) : (bandCells bytesPerRow).Nodup :=
  List.nodup_range.product List.nodup_range

/-- A place in the rows names its line and its column. -/
theorem rowIndex_div_mod {bytesPerRow col : Nat} (line : Nat) (h : col < bytesPerRow) :
    (line * bytesPerRow + col) / bytesPerRow = line ∧
      (line * bytesPerRow + col) % bytesPerRow = col := by
  constructor
  · rw [Nat.add_comm, Nat.add_mul_div_right _ _ (by omega), Nat.div_eq_of_lt h, Nat.zero_add]
  · rw [Nat.add_comm, Nat.add_mul_mod_self_right, Nat.mod_eq_of_lt h]

/-- A line below 128 lies inside the rows. -/
theorem rowIndex_lt {bytesPerRow : Nat} {cell : Nat × Nat} (h : cell ∈ bandCells bytesPerRow) :
    rowIndex bytesPerRow cell < bytesPerRow * 128 := by
  obtain ⟨hcol, hline⟩ := mem_bandCells.mp h
  rw [rowIndex, Nat.mul_comm, Nat.add_comm]
  exact Nat.add_mul_lt_mul_of_lt_of_lt hcol hline

theorem columnIndex_lt {bytesPerRow : Nat} {cell : Nat × Nat} (h : cell ∈ bandCells bytesPerRow) :
    columnIndex cell < bytesPerRow * 128 := by
  obtain ⟨hcol, hline⟩ := mem_bandCells.mp h
  rw [columnIndex]
  omega

theorem nodup_map_rowIndex (bytesPerRow : Nat) :
    ((bandCells bytesPerRow).map (rowIndex bytesPerRow)).Nodup := by
  refine (nodup_bandCells bytesPerRow).map_on fun a ha b hb hab => ?_
  obtain ⟨hda, hma⟩ := rowIndex_div_mod a.2 (mem_bandCells.mp ha).1
  obtain ⟨hdb, hmb⟩ := rowIndex_div_mod b.2 (mem_bandCells.mp hb).1
  rw [rowIndex, rowIndex] at hab
  rw [hab] at hda hma
  exact Prod.ext (hma.symm.trans hmb) (hda.symm.trans hdb)

theorem nodup_map_columnIndex (bytesPerRow : Nat) :
    ((bandCells bytesPerRow).map columnIndex).Nodup := by
  refine (nodup_bandCells bytesPerRow).map_on fun a ha b hb hab => ?_
  have hla := (mem_bandCells.mp ha).2
  have hlb := (mem_bandCells.mp hb).2
  rw [columnIndex, columnIndex] at hab
  exact Prod.ext (by omega) (by omega)

/-! ## What the loops leave behind -/

/-- Every byte of the rows is the inverted byte of its column. -/
theorem byteAt_bandToRows (band : Bytes) {bytesPerRow : Nat} (rows : Bytes) {line col : Nat}
    (hrows : bytesPerRow * 128 ≤ rows.length) (hcol : col < bytesPerRow) (hline : line < 128) :
    byteAt (bandToRows band bytesPerRow rows) (line * bytesPerRow + col) =
      ~~~byteAt band (col * 128 + line) := by
  have hcell : (col, line) ∈ bandCells bytesPerRow := mem_bandCells.mpr ⟨hcol, hline⟩
  have hlt := rowIndex_lt hcell
  have h := Buffer.getElem?_setAll_of_mem (rowIndex bytesPerRow)
    (fun cell => ~~~byteAt band (columnIndex cell)) (bandCells bytesPerRow) rows
    (nodup_map_rowIndex bytesPerRow) hcell (by omega)
  rw [byteAt, List.getD_eq_getElem?_getD, bandToRows]
  exact congrArg (Option.getD · 0) h

/-- Behind its 128 lines the loop writes nothing. -/
theorem byteAt_bandToRows_behind (band : Bytes) {bytesPerRow : Nat} (rows : Bytes) {i : Nat}
    (hi : bytesPerRow * 128 ≤ i) : byteAt (bandToRows band bytesPerRow rows) i = byteAt rows i := by
  have hno : ∀ cell ∈ bandCells bytesPerRow, rowIndex bytesPerRow cell ≠ i := by
    intro cell hcell
    have hlt := rowIndex_lt hcell
    omega
  rw [byteAt, byteAt, List.getD_eq_getElem?_getD, bandToRows,
    Buffer.getElem?_setAll_of_not_mem _ _ _ _ hno, List.getD_eq_getElem?_getD]

/-- Every byte of the band is the inverted byte of its row. -/
theorem byteAt_rowsToBand (rows : Bytes) {bytesPerRow : Nat} (band : Bytes) {line col : Nat}
    (hband : bytesPerRow * 128 ≤ band.length) (hcol : col < bytesPerRow) (hline : line < 128) :
    byteAt (rowsToBand rows bytesPerRow band) (col * 128 + line) =
      ~~~byteAt rows (line * bytesPerRow + col) := by
  have hcell : (col, line) ∈ bandCells bytesPerRow := mem_bandCells.mpr ⟨hcol, hline⟩
  have hlt := columnIndex_lt hcell
  have h := Buffer.getElem?_setAll_of_mem columnIndex
    (fun cell => ~~~byteAt rows (rowIndex bytesPerRow cell)) (bandCells bytesPerRow) band
    (nodup_map_columnIndex bytesPerRow) hcell (by omega)
  rw [byteAt, List.getD_eq_getElem?_getD, rowsToBand]
  exact congrArg (Option.getD · 0) h

/-- The column-major inverse of rows, as a value. -/
def transposed (rows : Bytes) (bytesPerRow : Nat) : Bytes :=
  (List.range (bytesPerRow * 128)).map fun i => ~~~byteAt rows (i % 128 * bytesPerRow + i / 128)

@[simp] theorem length_transposed (rows : Bytes) (bytesPerRow : Nat) :
    (transposed rows bytesPerRow).length = bytesPerRow * 128 := by
  simp [transposed]

/-- The loop overwrites its whole destination. -/
theorem rowsToBand_eq_transposed {rows band : Bytes} {bytesPerRow : Nat}
    (hband : band.length = bytesPerRow * 128) :
    rowsToBand rows bytesPerRow band = transposed rows bytesPerRow := by
  apply List.ext_getElem (by simp [hband])
  intro i h1 h2
  rw [length_transposed] at h2
  have hcell := byteAt_rowsToBand rows band (show bytesPerRow * 128 ≤ band.length by omega)
    (show i / 128 < bytesPerRow by omega) (show i % 128 < 128 by omega)
  rw [show i / 128 * 128 + i % 128 = i by omega, byteAt_eq_getElem h1] at hcell
  rw [hcell]
  simp [transposed]

/-! ## The two layouts undo each other -/

/-- Every place of the rows belongs to a cell. -/
theorem exists_rowIndex {bytesPerRow i : Nat} (h : i < bytesPerRow * 128) :
    ∃ cell ∈ bandCells bytesPerRow, rowIndex bytesPerRow cell = i := by
  have hpos : 0 < bytesPerRow := Nat.pos_of_lt_mul_right h
  have hcell : (i % bytesPerRow, i / bytesPerRow) ∈ bandCells bytesPerRow :=
    mem_bandCells.mpr ⟨Nat.mod_lt _ hpos, Nat.div_lt_of_lt_mul h⟩
  refine ⟨_, hcell, ?_⟩
  rw [rowIndex, Nat.mul_comm]
  exact Nat.div_add_mod i bytesPerRow

/-- Every place of the band belongs to a cell. -/
theorem exists_columnIndex {bytesPerRow i : Nat} (h : i < bytesPerRow * 128) :
    ∃ cell ∈ bandCells bytesPerRow, columnIndex cell = i := by
  have hcell : (i / 128, i % 128) ∈ bandCells bytesPerRow :=
    mem_bandCells.mpr ⟨Nat.div_lt_of_lt_mul (by omega), Nat.mod_lt _ (by decide)⟩
  refine ⟨_, hcell, ?_⟩
  rw [columnIndex]
  exact Nat.div_add_mod' i 128

/-- The places of the rows, each once. -/
theorem map_rowIndex_perm (bytesPerRow : Nat) :
    ((bandCells bytesPerRow).map (rowIndex bytesPerRow)).Perm (List.range (bytesPerRow * 128)) := by
  rw [List.perm_ext_iff_of_nodup (nodup_map_rowIndex bytesPerRow) List.nodup_range]
  intro i
  rw [List.mem_map, List.mem_range]
  constructor
  · rintro ⟨cell, hcell, rfl⟩
    exact rowIndex_lt hcell
  · exact exists_rowIndex

/-- The places of the band, each once. -/
theorem map_columnIndex_perm (bytesPerRow : Nat) :
    ((bandCells bytesPerRow).map columnIndex).Perm (List.range (bytesPerRow * 128)) := by
  rw [List.perm_ext_iff_of_nodup (nodup_map_columnIndex bytesPerRow) List.nodup_range]
  intro i
  rw [List.mem_map, List.mem_range]
  constructor
  · rintro ⟨cell, hcell, rfl⟩
    exact columnIndex_lt hcell
  · exact exists_columnIndex

/-- The place each step of `m2022_qpdl_band_to_rows` writes and the one it
reads, in the order of the loops. -/
def bandToRowsPlaces (bytesPerRow : Nat) : List (Nat × Nat) :=
  (bandCells bytesPerRow).map fun cell => (rowIndex bytesPerRow cell, columnIndex cell)

/-- The places of `m2022_qpdl_rows_to_band`. -/
def rowsToBandPlaces (bytesPerRow : Nat) : List (Nat × Nat) :=
  (bandCells bytesPerRow).map fun cell => (columnIndex cell, rowIndex bytesPerRow cell)

/-- One step: the inverted byte of `src` at the second place goes to the
first. -/
def invertByte (src dst : Bytes) (place : Nat × Nat) : Bytes :=
  dst.set place.1 (~~~byteAt src place.2)

theorem bandToRows_eq_foldl (band : Bytes) (bytesPerRow : Nat) (rows : Bytes) :
    bandToRows band bytesPerRow rows =
      (bandToRowsPlaces bytesPerRow).foldl (invertByte band) rows := by
  rw [bandToRowsPlaces, List.foldl_map]
  rfl

theorem rowsToBand_eq_foldl (rows : Bytes) (bytesPerRow : Nat) (band : Bytes) :
    rowsToBand rows bytesPerRow band =
      (rowsToBandPlaces bytesPerRow).foldl (invertByte rows) band := by
  rw [rowsToBandPlaces, List.foldl_map]
  rfl

/-- Each of `size` places is written once and read once. -/
structure OneToOne (places : List (Nat × Nat)) (size : Nat) : Prop where
  written : (places.map Prod.fst).Perm (List.range size)
  read : (places.map Prod.snd).Perm (List.range size)

theorem bandToRowsPlaces_oneToOne (bytesPerRow : Nat) :
    OneToOne (bandToRowsPlaces bytesPerRow) (bytesPerRow * 128) := by
  constructor
  · rw [bandToRowsPlaces, List.map_map]
    exact map_rowIndex_perm bytesPerRow
  · rw [bandToRowsPlaces, List.map_map]
    exact map_columnIndex_perm bytesPerRow

theorem rowsToBandPlaces_oneToOne (bytesPerRow : Nat) :
    OneToOne (rowsToBandPlaces bytesPerRow) (bytesPerRow * 128) := by
  constructor
  · rw [rowsToBandPlaces, List.map_map]
    exact map_columnIndex_perm bytesPerRow
  · rw [rowsToBandPlaces, List.map_map]
    exact map_rowIndex_perm bytesPerRow

theorem bandToRows_rowsToBand {rows band out : Bytes} {bytesPerRow : Nat}
    (hrows : rows.length = bytesPerRow * 128) (hband : band.length = bytesPerRow * 128)
    (hout : out.length = bytesPerRow * 128) :
    bandToRows (rowsToBand rows bytesPerRow band) bytesPerRow out = rows := by
  refine Buffer.setAll_copy_back (fun b => by simp) 0 (nodup_map_columnIndex bytesPerRow)
    (nodup_map_rowIndex bytesPerRow) (fun cell hcell => ?_) (hout.trans hrows.symm) fun i hi => ?_
  · rw [hband]
    exact columnIndex_lt hcell
  · rw [hrows] at hi
    exact exists_rowIndex hi

/-- The rows of a transposed band are the rows it was made from. -/
theorem bandToRows_transposed {rows out : Bytes} {bytesPerRow : Nat}
    (hrows : rows.length = bytesPerRow * 128) (hout : out.length = bytesPerRow * 128) :
    bandToRows (transposed rows bytesPerRow) bytesPerRow out = rows := by
  have htransposed : rowsToBand rows bytesPerRow out = transposed rows bytesPerRow :=
    rowsToBand_eq_transposed hout
  rw [← htransposed]
  exact bandToRows_rowsToBand hrows hout hout

theorem rowsToBand_bandToRows {band rows out : Bytes} {bytesPerRow : Nat}
    (hband : band.length = bytesPerRow * 128) (hrows : rows.length = bytesPerRow * 128)
    (hout : out.length = bytesPerRow * 128) :
    rowsToBand (bandToRows band bytesPerRow rows) bytesPerRow out = band := by
  refine Buffer.setAll_copy_back (fun b => by simp) 0 (nodup_map_rowIndex bytesPerRow)
    (nodup_map_columnIndex bytesPerRow) (fun cell hcell => ?_) (hout.trans hband.symm)
    fun i hi => ?_
  · rw [hrows]
    exact rowIndex_lt hcell
  · rw [hband] at hi
    exact exists_columnIndex hi

/-- Whatever the destinations held, each conversion undoes the other; and each
writes every byte of its destination once, from the complement of a byte of the
source that no other step reads. -/
theorem bandLayout_mutually_inverse {bytesPerRow : Nat} {src mid out : Bytes}
    (hsrc : src.length = 128 * bytesPerRow) (hmid : mid.length = 128 * bytesPerRow)
    (hout : out.length = 128 * bytesPerRow) :
    bandToRows (rowsToBand src bytesPerRow mid) bytesPerRow out = src ∧
      rowsToBand (bandToRows src bytesPerRow mid) bytesPerRow out = src ∧
      (bandToRows src bytesPerRow out =
          (bandToRowsPlaces bytesPerRow).foldl (invertByte src) out ∧
        OneToOne (bandToRowsPlaces bytesPerRow) out.length) ∧
      rowsToBand src bytesPerRow out =
          (rowsToBandPlaces bytesPerRow).foldl (invertByte src) out ∧
        OneToOne (rowsToBandPlaces bytesPerRow) out.length := by
  rw [Nat.mul_comm] at hsrc hmid hout
  rw [hout]
  exact ⟨bandToRows_rowsToBand hsrc hmid hout, rowsToBand_bandToRows hsrc hmid hout,
    ⟨bandToRows_eq_foldl src bytesPerRow out, bandToRowsPlaces_oneToOne bytesPerRow⟩,
    rowsToBand_eq_foldl src bytesPerRow out, rowsToBandPlaces_oneToOne bytesPerRow⟩

/-- Two columns whose bytes are all different. -/
theorem bandLayout_mutually_inverse_columns :
    let src : Bytes := (List.range 256).map UInt8.ofNat
    let blank : Bytes := List.replicate 256 0
    bandToRows (rowsToBand src 2 blank) 2 blank = src ∧
      rowsToBand (bandToRows src 2 blank) 2 blank = src ∧
      OneToOne (bandToRowsPlaces 2) 256 ∧ OneToOne (rowsToBandPlaces 2) 256 := by
  intro src blank
  have hsrc : src.length = 128 * 2 := by
    rw [List.length_map, List.length_range]
  have hblank : blank.length = 128 * 2 := List.length_replicate
  obtain ⟨hrows, hband, ⟨-, hrowsPlaces⟩, -, hbandPlaces⟩ :=
    bandLayout_mutually_inverse hsrc hblank hblank
  rw [hblank] at hrowsPlaces hbandPlaces
  exact ⟨hrows, hband, hrowsPlaces, hbandPlaces⟩

end Airbridge.Qpdl
