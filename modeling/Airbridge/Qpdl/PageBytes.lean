import Airbridge.Lib.Bits
import Airbridge.Qpdl.Encode11
import Airbridge.Qpdl.Encoder

/-!
# The whole-page encoder

What a job's stream is for, without an encoder state: a job is its envelope,
its pages and its end, and the bytes of a page are a function of the job, the
page's width and its pixels.  A row is the list of its pixels, black being
`true`.  `Stream` proves that the line-by-line encoder writes exactly these
bytes.
-/

namespace Airbridge.Qpdl

/-! ## Rows and bands -/

/-- The bytes of a row in the row buffer: the width rounded up to whole
columns of 256 pixels. -/
def rowBytes (width : Nat) : Nat := (width + 255) / 256 * 32

theorem bandBytes_eq (width : Nat) : bandBytes width = rowBytes width * 128 := by
  rw [bandBytes, rowBytes]
  omega

theorem width_le_rowBytes (width : Nat) : width ≤ 8 * rowBytes width := by
  rw [rowBytes]
  omega

/-- The pixels of a packed row inside the page width. -/
def rowBits (width : Nat) (row : Bytes) : List Bool := (List.range width).map (Bits.get row)

@[simp] theorem length_rowBits (width : Nat) (row : Bytes) : (rowBits width row).length = width := by
  simp [rowBits]

theorem getD_rowBits (width : Nat) (row : Bytes) (x : Nat) :
    (rowBits width row).getD x false = (decide (x < width) && Bits.get row x) := by
  rw [rowBits, List.getD_eq_getElem?_getD, List.getElem?_map]
  by_cases h : x < width
  · simp [h]
  · rw [List.getElem?_eq_none (by simpa using h)]
    simp [h]

/-- The packed row of these pixels, white up to the padded width. -/
def packRow (width : Nat) (row : List Bool) : Bytes :=
  Bits.pack (rowBytes width) fun x => row.getD x false

@[simp] theorem length_packRow (width : Nat) (row : List Bool) :
    (packRow width row).length = rowBytes width :=
  Bits.length_pack _ _

/-- The 128 rows of a group, white below its last row. -/
def bandRows (width : Nat) (group : List (List Bool)) : Bytes :=
  group.flatMap (packRow width) ++ List.replicate ((128 - group.length) * rowBytes width) 0

theorem length_flatMap_packRow (width : Nat) (group : List (List Bool)) :
    (group.flatMap (packRow width)).length = group.length * rowBytes width := by
  simp [List.length_flatMap]

theorem length_bandRows {width : Nat} {group : List (List Bool)} (h : group.length ≤ 128) :
    (bandRows width group).length = rowBytes width * 128 := by
  rw [bandRows, List.length_append, length_flatMap_packRow, List.length_replicate, ← Nat.add_mul,
    show group.length + (128 - group.length) = 128 by omega, Nat.mul_comm]

/-! ## Bands -/

/-- The payload for the rows of a band: transposed and inverted, under the
table chosen for it. -/
def bandPayload (width : Nat) (rows : Bytes) : Bytes :=
  let band := transposed rows (rowBytes width)
  (codec11Encode band (codec11ChooseTable band) (codec11EncodeBound band.length)).out

def bandHeader (width number : Nat) (payload : Bytes) : BandHeader where
  number := UInt8.ofNat number
  width := UInt16.ofNat ((width + 255) / 256 * 256)
  height := 128
  compression := COMPRESSION_0X11
  length := UInt32.ofNat payload.length

/-- A group without a black pixel. -/
def isWhite (group : List (List Bool)) : Bool := group.all fun row => row.all (!·)

/-- The record of a group; a white group has none. -/
def bandRecord (width number : Nat) (group : List (List Bool)) : Bytes :=
  if isWhite group then []
  else
    let payload := bandPayload width (bandRows width group)
    writeBandHeader (bandHeader width number payload) ++ payload

/-- The records of the rows from group `number` on. -/
def bandRecords (width number : Nat) (rows : List (List Bool)) : Bytes :=
  if _h : rows = [] then []
  else bandRecord width number (rows.take 128) ++ bandRecords width (number + 1) (rows.drop 128)
termination_by rows.length
decreasing_by
  have := List.length_pos_of_ne_nil _h
  rw [List.length_drop]
  omega

/-- All bytes of a page. -/
def pageBytes (job : QpdlJob) (width : Nat) (rows : List (List Bool)) : Bytes :=
  writePageHeader job.pageHeader ++ bandRecords width 0 rows ++ writeEndPage job.copies

/-! ## Envelope and end -/

/-- The lines of the PJL envelope before the last one, without their line
endings. -/
def pjlBody (job : QpdlJob) : List Bytes :=
  (job.serviceDate.map fun s => ascii "@PJL DEFAULT SERVICEDATE=" ++ s).toList ++
  [ascii "@PJL COMMENT Model Name : Samsung M2020 Series"] ++
  (job.producer.map fun s => ascii "@PJL COMMENT Producer : " ++ s).toList ++
  [ascii "@PJL SET XIGNOREFF=" ++ ascii (if job.skipBlankPages then "ON" else "OFF"),
   [],
   ascii "@PJL SET RESOLUTION = " ++ ascii (toString job.dpi)] ++
  (if job.dpi = 600 then [ascii "@PJL SET BITSPERPIXEL = 1"] else []) ++
  [ascii "@PJL SET PAPERTYPE = " ++ job.paperType.getD [],
   ascii "@PJL SET DUPLEX = " ++ ascii (if job.duplex = DUPLEX_OFF then "OFF" else "MANUAL")] ++
  (if job.duplex ≠ DUPLEX_OFF then
    [ascii "@PJL SET BINDING = " ++
      ascii (if job.duplex = DUPLEX_MANUAL_LONG_EDGE then "LONGEDGE" else "SHORTEDGE")]
   else [])

/-- The line that ends the envelope. -/
def enterLine : Bytes := ascii "@PJL ENTER LANGUAGE=QPDL"

/-- The lines of the PJL envelope. -/
def pjlLines (job : QpdlJob) : List Bytes := pjlBody job ++ [enterLine]

/-- The bytes before the first page: the UEL runs into the first line. -/
def envelope (job : QpdlJob) : Bytes := uel ++ linesBytes (pjlLines job)

/-- The bytes behind the last page. -/
def jobEnd : Bytes := REC_END_JOB :: uel

/-! ## White groups -/

theorem getD_of_not_true {row : List Bool} (h : true ∉ row) (x : Nat) : row.getD x false = false := by
  by_cases hx : x < row.length
  · rw [List.getD_eq_getElem _ _ hx, ← Bool.not_eq_true]
    intro he
    exact h (he ▸ List.getElem_mem hx)
  · exact List.getD_eq_default _ _ (by omega)

/-- A row packs to zeros exactly when it has no black pixel. -/
theorem packRow_eq_zero_iff {width : Nat} {row : List Bool} (h : row.length ≤ width) :
    (∀ b ∈ packRow width row, b = 0) ↔ true ∉ row := by
  rw [Bits.all_zero_iff]
  have hwidth := width_le_rowBytes width
  constructor
  · intro hx hmem
    obtain ⟨x, hlt, he⟩ := List.mem_iff_getElem.mp hmem
    have := hx x
    rw [packRow, Bits.get_pack _ (by omega), List.getD_eq_getElem _ _ hlt, he] at this
    cases this
  · intro hno x
    by_cases hlt : x < 8 * rowBytes width
    · rw [packRow, Bits.get_pack _ hlt, getD_of_not_true hno]
    · exact Bits.get_of_le (by rw [length_packRow]; omega)

/-- The row buffer of a group is all zero exactly when the group is white. -/
theorem bandRows_all_zero {width : Nat} {group : List (List Bool)}
    (h : ∀ row ∈ group, row.length ≤ width) :
    (bandRows width group).all (· == 0) = isWhite group := by
  rw [Bool.eq_iff_iff, isWhite, List.all_eq_true, List.all_eq_true]
  simp only [beq_iff_eq, List.all_eq_true, Bool.not_eq_true']
  constructor
  · intro hz row hrow b hb
    have hrows : ∀ b ∈ packRow width row, b = 0 := fun b hb =>
      hz b (List.mem_append_left _ (List.mem_flatMap.mpr ⟨row, hrow, hb⟩))
    cases b with
    | false => rfl
    | true => exact absurd hb ((packRow_eq_zero_iff (h row hrow)).mp hrows)
  · intro hw b hb
    rcases List.mem_append.mp hb with hb | hb
    · obtain ⟨row, hrow, hb⟩ := List.mem_flatMap.mp hb
      have hno : true ∉ row := fun ht => by simpa using hw row hrow true ht
      exact (packRow_eq_zero_iff (h row hrow)).mpr hno b hb
    · exact List.eq_of_mem_replicate hb

/-! ## Groups one after the other -/

theorem bandRecords_nil (width number : Nat) : bandRecords width number [] = [] := by
  rw [bandRecords, dif_pos rfl]

/-- A group of 128 rows is one record. -/
theorem bandRecords_group {width number : Nat} {group rows : List (List Bool)}
    (h : group.length = 128) :
    bandRecords width number (group ++ rows) =
      bandRecord width number group ++ bandRecords width (number + 1) rows := by
  have hne : group ++ rows ≠ [] := by
    intro he
    rw [List.append_eq_nil_iff] at he
    rw [he.1] at h
    cases h
  rw [bandRecords, dif_neg hne, List.take_left' h, List.drop_left' h]

/-- So is a shorter last group. -/
theorem bandRecords_last {width number : Nat} {group : List (List Bool)} (hne : group ≠ [])
    (h : group.length ≤ 128) : bandRecords width number group = bandRecord width number group := by
  rw [bandRecords, dif_neg hne, List.take_of_length_le h, List.drop_of_length_le h,
    bandRecords_nil, List.append_nil]

/-- Complete groups and the rows behind them are separate records. -/
theorem bandRecords_append {width number k : Nat} {sent : List (List Bool)}
    (h : sent.length = 128 * k) (rest : List (List Bool)) :
    bandRecords width number (sent ++ rest) =
      bandRecords width number sent ++ bandRecords width (number + k) rest := by
  induction k generalizing number sent with
  | zero =>
    rw [Nat.mul_zero, List.length_eq_zero_iff] at h
    rw [h, List.nil_append, bandRecords_nil, List.nil_append, Nat.add_zero]
  | succ k ih =>
    have htake : (sent.take 128).length = 128 := List.length_take_of_le (by omega)
    have hdrop : (sent.drop 128).length = 128 * k := by
      rw [List.length_drop, h]
      omega
    rw [← List.take_append_drop 128 sent, List.append_assoc, bandRecords_group htake,
      bandRecords_group htake, ih hdrop, List.append_assoc, Nat.add_assoc, Nat.add_comm 1 k]

end Airbridge.Qpdl
