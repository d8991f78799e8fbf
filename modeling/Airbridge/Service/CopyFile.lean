import Airbridge.Lib.FileSystem
import Airbridge.Service.Plans

/-!
# The copy of a file

`copy_file` (`service.c`) writes a copy under a temporary name and renames it,
so that a process still running the old file keeps it.  What the machine answers
to its calls is a parameter, and so is how much of what the stream holds back
has reached the file at each of them.
-/

namespace Airbridge.Service

open Airbridge.Qpdl (ascii)
open CString (fit)
open FileSystem (Fs Op File run Staged Replaced)

/-- What the machine answers to the calls of one copy. -/
structure CopyCalls where
  openIn : Bool
  openOut : Bool
  /-- The mode of a file that `fopen` makes. -/
  newMode : Nat
  /-- How many bytes the `k`-th `fread` finds at most. -/
  reads : Nat → Nat
  /-- How many bytes the `k`-th `fwrite` takes at most. -/
  writes : Nat → Nat
  /-- How many bytes of the stream reach the file in the `k`-th `fwrite`. -/
  flushes : Nat → Nat
  close : Bool
  /-- How many do in a `fclose` that fails. -/
  closeFlush : Nat
  chmod : Bool
  rename : Bool
  unlink : Bool

/-- What the loop of the copy leaves: the result, its writes to the file, and
what the stream still holds. -/
structure CopyLoop where
  rc : Int
  ops : List (Op CString)
  held : List UInt8

/-- The loop from the `k`-th `fread` on, with `rest` to read of a file that needs
at most `fuel` turns; `out` is the number of the file it writes. -/
def copyLoop (a : CopyCalls) (out : Nat) : Nat → Nat → List UInt8 → List UInt8 → CopyLoop
  | 0, _, _, held => ⟨0, [], held⟩
  | fuel + 1, k, rest, held =>
    let buf := rest.take (min 65536 (a.reads k))
    let n := buf.length
    if n = 0 then ⟨0, [], held⟩
    else
      let stream := held ++ buf.take (a.writes k)
      let flush := Op.append out (stream.take (a.flushes k))
      let held := stream.drop (a.flushes k)
      if (buf.take (a.writes k)).length ≠ n then ⟨-1, [flush], held⟩
      else
        let loop := copyLoop a out fuel (k + 1) (rest.drop n) held
        { loop with ops := flush :: loop.ops }

/-- `if (rc == 0) rc = call`, where the call does `op` if it succeeds. -/
def ifZero (s : Int × List (Op CString)) (ok : Bool) (op : Op CString) :
    Int × List (Op CString) :=
  if s.1 = 0 then if ok then (0, s.2 ++ [op]) else (-1, s.2) else s

/-- `copy_file`: its result, and what it does to the files. -/
def copyFile (a : CopyCalls) (fs : Fs CString) (src dst : CString) (mode : Nat) :
    Int × List (Op CString) :=
  match fs.names src with
  | none => (-1, [])
  | some inode =>
    if a.openIn = false then (-1, [])
    else
      let tmp := fit 600 (dst ++ ascii ".new")
      if a.openOut = false then (-1, [])
      else
        let out := fs.number tmp
        let input := ((fs.create tmp a.newMode).files inode).data
        let loop := copyLoop a out input.length 0 input []
        let last := Op.append out (if a.close then loop.held else loop.held.take a.closeFlush)
        let written := .create tmp a.newMode :: loop.ops ++ [last]
        let closed := (if a.close then loop.rc else -1, written)
        let r := ifZero (ifZero closed a.chmod (.chmod tmp mode)) a.rename (.rename tmp dst)
        if r.1 ≠ 0 ∧ a.unlink then (r.1, r.2 ++ [.unlink tmp]) else r

/-! ## The loop -/

/-- No read finds less than it asks for. -/
def CopyCalls.ReadsAll (a : CopyCalls) : Prop := ∀ k, 65536 ≤ a.reads k

/-- The loop only writes to its file.  If it succeeds, what it wrote and what the
stream still holds is what it read, which is a front part of the input. -/
theorem copyLoop_spec (a : CopyCalls) (out fuel k : Nat) (rest held : List UInt8)
    (hfuel : rest.length ≤ fuel) :
    let loop := copyLoop a out fuel k rest held
    ∃ pieces : List (List UInt8), loop.ops = pieces.map (Op.append out) ∧
      (loop.rc = 0 → ∃ input, pieces.flatten ++ loop.held = held ++ input ∧ input <+: rest ∧
        (a.ReadsAll → input = rest)) := by
  have hstop (rest held : List UInt8) (hrest : a.ReadsAll → rest = []) :
      ∃ pieces : List (List UInt8), [] = pieces.map (Op.append (P := CString) out) ∧
        ((0 : Int) = 0 → ∃ input, pieces.flatten ++ held = held ++ input ∧ input <+: rest ∧
          (a.ReadsAll → input = rest)) :=
    ⟨[], rfl, fun _ => ⟨[], (List.append_nil held).symm, List.nil_prefix, fun h => (hrest h).symm⟩⟩
  induction fuel generalizing k rest held with
  | zero => exact hstop rest held fun _ => List.length_eq_zero_iff.mp (Nat.le_zero.mp hfuel)
  | succ fuel ih =>
    rw [copyLoop]
    dsimp only
    generalize hbuf : rest.take (min 65536 (a.reads k)) = buf
    split_ifs with hend hshort
    · refine hstop rest held fun hall => ?_
      have hle := hall k
      rw [List.length_eq_zero_iff.mp hend, List.take_eq_nil_iff] at hbuf
      exact hbuf.resolve_left (by omega)
    · have hfails : (-1 : Int) ≠ 0 := by
        decide
      exact ⟨[_], rfl, fun h => absurd h hfails⟩
    · obtain ⟨tail, rfl⟩ : buf <+: rest := hbuf ▸ List.take_prefix _ rest
      have htaken : buf.take (a.writes k) = buf := by
        rw [List.length_take] at hshort
        exact List.take_of_length_le (by omega)
      have hless : tail.length ≤ fuel := by
        rw [List.length_append] at hfuel
        omega
      rw [List.drop_left, htaken]
      obtain ⟨pieces, hops, hrc⟩ := ih (k + 1) tail ((held ++ buf).drop (a.flushes k)) hless
      refine ⟨(held ++ buf).take (a.flushes k) :: pieces, congrArg _ hops, fun hzero => ?_⟩
      obtain ⟨input, hinput, hfront, hall⟩ := hrc hzero
      refine ⟨buf ++ input, ?_, ?_, fun h => congrArg _ (hall h)⟩
      · rw [List.flatten_cons, List.append_assoc, hinput, ← List.append_assoc,
          List.take_append_drop, List.append_assoc]
      · exact (List.prefix_append_right_inj buf).mpr hfront

/-! ## The copy -/

/-- A file with the given mode and the content of what `src` leads to, or a front
part of it if a read finds less than it asks for: the loop does not ask whether
it has reached the end of the file. -/
def Copied (a : CopyCalls) (fs : Fs CString) (src tmp : CString) (mode : Nat) (f : File) : Prop :=
  f.mode = mode ∧ ∃ inode, fs.names src = some inode ∧ f.data <+: (fs.files inode).data ∧
    (a.ReadsAll → fs.names src ≠ fs.names tmp → f.data = (fs.files inode).data)

theorem ifZero_cases (s : Int × List (Op CString)) (ok : Bool) (op : Op CString) :
    (s.1 = 0 ∧ ifZero s ok op = (0, s.2 ++ [op])) ∨
      ((ifZero s ok op).1 ≠ 0 ∧ (ifZero s ok op).2 = s.2) := by
  have hfails : (-1 : Int) ≠ 0 := by
    decide
  unfold ifZero
  split_ifs with hzero
  · exact .inl ⟨hzero, rfl⟩
  · exact .inr ⟨hfails, rfl⟩
  · exact .inr ⟨hzero, rfl⟩

/-- What stands in front of the change of the mode, for the file behind `src`: it
stays on the temporary name, and if all went well the temporary file is a copy. -/
theorem written_copy (a : CopyCalls) {fs : Fs CString} {src tmp : CString} {inode : Nat}
    (hsrc : fs.names src = some inode) {loop : CopyLoop}
    (hloop : loop = copyLoop a (fs.number tmp)
      ((fs.create tmp a.newMode).files inode).data.length 0
      ((fs.create tmp a.newMode).files inode).data []) {last : List UInt8} {written : List (Op CString)}
    (hwritten : written = .create tmp a.newMode :: loop.ops ++ [Op.append (fs.number tmp) last]) :
    (∀ op ∈ written, op.Stages tmp fs) ∧
    (loop.rc = 0 → last = loop.held → ∀ mode, ∃ f,
      (run fs (written ++ [.chmod tmp mode])).Holds tmp (fs.number tmp) f ∧
        Copied a fs src tmp mode f) := by
  have htemporary := (Staged.refl tmp fs).number
  obtain ⟨pieces, hops, hrc⟩ := copyLoop_spec a (fs.number tmp) _ 0
    ((fs.create tmp a.newMode).files inode).data [] (Nat.le_refl _)
  rw [← hloop] at hops hrc
  have happends : written =
      .create tmp a.newMode :: (pieces ++ [last]).map (Op.append (fs.number tmp)) := by
    rw [hwritten, hops, List.map_append]
    rfl
  rw [happends]
  refine ⟨fun op hop => ?_, fun hzero hlast mode => ?_⟩
  · rcases List.mem_cons.mp hop with rfl | hop
    · exact rfl
    · obtain ⟨piece, -, rfl⟩ := List.mem_map.mp hop
      exact htemporary
  · obtain ⟨input, hinput, hfront, hall⟩ := hrc hzero
    obtain ⟨m, hcreated⟩ := FileSystem.create_holds fs tmp a.newMode
    have hdata : (pieces ++ [last]).flatten = input := by
      rw [List.flatten_append, List.flatten_singleton, hlast, hinput, List.nil_append]
    have hheld := FileSystem.run_appends hcreated (pieces ++ [last])
    rw [hdata, List.nil_append] at hheld
    refine ⟨⟨input, mode⟩, ?_, rfl, inode, hsrc, ?_, fun hreads hother => ?_⟩
    · rw [List.cons_append, FileSystem.run_cons, FileSystem.run_append]
      exact FileSystem.chmod_holds hheld mode
    · exact hfront.trans (FileSystem.create_data fs tmp a.newMode inode)
    · show input = _
      rw [hall hreads, FileSystem.create_file_of_ne (FileSystem.number_ne hsrc hother)]

/-- What a copy does: nothing but to the temporary name, which goes at the end if
it can, or that and the rename of the complete copy. -/
theorem copyFile_ops (a : CopyCalls) (fs : Fs CString) (src dst : CString) (mode : Nat) :
    let tmp := fit 600 (dst ++ ascii ".new")
    let r := copyFile a fs src dst mode
    (r.1 ≠ 0 ∧ (∀ op ∈ r.2, op.Stages tmp fs) ∧
      (r.2 = [] ∨ (a.unlink = true → ∃ ops, r.2 = ops ++ [Op.unlink tmp]))) ∨
    (r.1 = 0 ∧ ∃ ops f, r.2 = ops ++ [Op.rename tmp dst] ∧ (∀ op ∈ ops, op.Stages tmp fs) ∧
      (run fs ops).Holds tmp (fs.number tmp) f ∧ Copied a fs src tmp mode f) := by
  intro tmp
  have hfails : (-1 : Int) ≠ 0 := by
    decide
  -- a copy that failed so far at most takes the temporary name away
  have hfailed {s : Int × List (Op CString)} (hne : s.1 ≠ 0) (hops : ∀ op ∈ s.2, op.Stages tmp fs) :
      let r := if s.1 ≠ 0 ∧ a.unlink = true then (s.1, s.2 ++ [.unlink tmp]) else s
      r.1 ≠ 0 ∧ (∀ op ∈ r.2, op.Stages tmp fs) ∧
        (r.2 = [] ∨ (a.unlink = true → ∃ ops, r.2 = ops ++ [Op.unlink tmp])) := by
    dsimp only
    split_ifs with hunlink
    · refine ⟨hne, fun op hop => ?_, .inr fun _ => ⟨_, rfl⟩⟩
      rcases List.mem_append.mp hop with hop | hop
      · exact hops op hop
      · rw [List.mem_singleton.mp hop]
        exact rfl
    · exact ⟨hne, hops, .inr fun h => absurd ⟨hne, h⟩ hunlink⟩
  have hnothing : (-1 : Int) ≠ 0 ∧ (∀ op ∈ ([] : List (Op CString)), op.Stages tmp fs) ∧
      ([] = ([] : List (Op CString)) ∨
        (a.unlink = true → ∃ ops, [] = ops ++ [Op.unlink tmp])) :=
    ⟨hfails, fun op hop => absurd hop List.not_mem_nil, .inl rfl⟩
  unfold copyFile
  cases hsrc : fs.names src with
  | none => exact .inl hnothing
  | some inode =>
    dsimp only
    by_cases hin : a.openIn = false
    · rw [if_pos hin]
      exact .inl hnothing
    by_cases hout : a.openOut = false
    · rw [if_neg hin, if_pos hout]
      exact .inl hnothing
    rw [if_neg hin, if_neg hout]
    generalize hloop : copyLoop a (fs.number tmp) _ 0 _ [] = loop
    generalize hlast : (if a.close = true then loop.held else loop.held.take a.closeFlush) = last
    generalize hwritten : .create tmp a.newMode :: loop.ops ++ [Op.append (fs.number tmp) last] =
      written
    obtain ⟨hstages, hcopy⟩ := written_copy a hsrc hloop.symm hwritten.symm
    rcases ifZero_cases (if a.close = true then loop.rc else -1, written) a.chmod
      (.chmod tmp mode) with ⟨hclosed, heq⟩ | ⟨hne, hops⟩
    · have hclose : a.close = true := by
        by_contra hopen
        rw [if_neg hopen] at hclosed
        exact hfails hclosed
      rw [if_pos hclose] at hclosed hlast
      obtain ⟨f, hfile, hcopied⟩ := hcopy hclosed hlast.symm mode
      have hstages' : ∀ op ∈ written ++ [.chmod tmp mode], op.Stages tmp fs := by
        intro op hop
        rcases List.mem_append.mp hop with hop | hop
        · exact hstages op hop
        · rw [List.mem_singleton.mp hop]
          exact rfl
      rw [heq]
      rcases ifZero_cases (0, written ++ [.chmod tmp mode]) a.rename (.rename tmp dst) with
        ⟨-, heq'⟩ | ⟨hne, hops⟩
      · rw [heq', if_neg fun h => h.1 rfl]
        exact .inr ⟨rfl, _, f, rfl, hstages', hfile, hcopied⟩
      · exact .inl (hfailed hne (hops.symm ▸ hstages'))
    · generalize ifZero _ a.chmod _ = s at hne hops
      have hstop : ifZero s a.rename (.rename tmp dst) = s := if_neg hne
      rw [hstop]
      exact .inl (hfailed hne (hops.symm ▸ hstages))

/-- At every moment of the copy that a plan asks for, also when it is cut off,
its path leads to the old file or to a complete copy, nothing but the temporary
name differs besides, and no old file is written to but the one that the
temporary name led to.  A result of zero says that the copy is there; with
another the path is as it was and the temporary name goes, if it can. -/
theorem copyFile_atomic (a : CopyCalls) (fs : Fs CString) (text src path : CString) (mode : Nat) :
    let s := copyStep text src path mode
    let tmp := s.path ++ ascii ".new"
    let r := copyFile a fs s.src s.path s.mode
    (fs.names tmp = none ∨ fs.names tmp ≠ fs.names s.path) →
    (∀ k, Staged tmp fs (run fs (r.2.take k)) ∨
      ∃ f, Copied a fs s.src tmp mode f ∧ Replaced tmp s.path f fs (run fs (r.2.take k))) ∧
    if r.1 = 0 then
      ∃ f, Copied a fs s.src tmp mode f ∧ Replaced tmp s.path f fs (run fs r.2)
    else Staged tmp fs (run fs r.2) ∧
      (r.2 = [] ∨ (a.unlink = true → (run fs r.2).names tmp = none)) := by
  intro s tmp r halone
  have hlen : s.path.length ≤ 511 := CString.length_fit_le 512 path
  have htmp : fit 600 (s.path ++ ascii ".new") = tmp := by
    refine CString.fit_eq ?_
    rw [List.length_append, show (ascii ".new").length = 4 from rfl]
    omega
  have hne : s.path ≠ tmp := by
    intro heq
    have hsame := congrArg List.length heq
    rw [List.length_append, show (ascii ".new").length = 4 from rfl] at hsame
    omega
  have hcases := copyFile_ops a fs s.src s.path s.mode
  rw [htmp] at hcases
  rcases hcases with ⟨hfail, hstages, hclean⟩ | ⟨hzero, ops, f, hops, hstages, hfile, hcopied⟩
  · have hstaged {ops : List (Op CString)} (h : ∀ op ∈ ops, op.Stages tmp fs) :
        Staged tmp fs (run fs ops) := (Staged.refl tmp fs).run h
    rw [if_neg hfail]
    refine ⟨fun k => .inl (hstaged fun op hop => hstages op (List.mem_of_mem_take hop)),
      hstaged hstages, hclean.imp_right fun h hunlink => ?_⟩
    obtain ⟨ops, hops⟩ := h hunlink
    show (run fs (copyFile a fs s.src s.path s.mode).2).names tmp = none
    rw [hops, FileSystem.run_append]
    exact if_pos rfl
  · obtain ⟨hevery, hdone⟩ := FileSystem.run_replace hstages hfile hne halone
    rw [if_pos hzero]
    show (∀ k, Staged tmp fs (run fs ((copyFile a fs s.src s.path s.mode).2.take k)) ∨ _) ∧
      ∃ f, _ ∧ Replaced tmp s.path f fs (run fs (copyFile a fs s.src s.path s.mode).2)
    rw [hops]
    exact ⟨fun k => (hevery k).imp_right fun h => ⟨f, hcopied, h⟩, f, hcopied, hdone⟩

/-- A machine on which every call succeeds. -/
def CopyCalls.willing : CopyCalls where
  openIn := true
  openOut := true
  newMode := 0o644
  reads := fun _ => 65536
  writes := fun _ => 65536
  flushes := fun _ => 2
  close := true
  closeFlush := 0
  chmod := true
  rename := true
  unlink := true

/-- An installed binary, and a new one beside it. -/
def twoBinaries : Fs CString where
  names := fun p =>
    if p = ascii "/tmp/m2022-airbridge" then some 0 else if p = SERVICE_BINARY then some 1 else none
  files := fun i => if i = 0 then ⟨[1, 2, 3], 0o644⟩ else ⟨[9], 0o755⟩
  next := 2
  names_lt := by
    intro p i h
    split_ifs at h <;> simp only [Option.some_inj] at h <;> omega

/-- The installed binary is replaced, and the old one is still there for a
process that runs it. -/
theorem copyFile_atomic_binary :
    let s := copyStep (ascii "install the binary") (ascii "/tmp/m2022-airbridge") SERVICE_BINARY 0o755
    let r := copyFile .willing twoBinaries s.src s.path s.mode
    (∃ i, (run twoBinaries r.2).Holds SERVICE_BINARY i ⟨[1, 2, 3], 0o755⟩ ∧ i ≠ 1) ∧
      (run twoBinaries r.2).files 1 = ⟨[9], 0o755⟩ := by
  intro s r
  have hpath : s.path = SERVICE_BINARY := by
    decide +kernel
  have hsrc : s.src = ascii "/tmp/m2022-airbridge" := by
    decide +kernel
  have hnone : twoBinaries.names (s.path ++ ascii ".new") = none := by
    decide +kernel
  have hold : twoBinaries.names s.path = some 1 := by
    decide +kernel
  have hnew : twoBinaries.names s.src = some 0 := by
    decide +kernel
  have hzero : r.1 = 0 := by
    decide +kernel
  obtain ⟨-, hdone⟩ := copyFile_atomic .willing twoBinaries (ascii "install the binary")
    (ascii "/tmp/m2022-airbridge") SERVICE_BINARY 0o755 (.inl hnone)
  rw [if_pos hzero] at hdone
  obtain ⟨⟨data, mode⟩, ⟨hmode, inode, hinode, -, hall⟩, hreplaced⟩ := hdone
  obtain rfl : inode = 0 := Option.some_inj.mp (hinode.symm.trans hnew)
  obtain rfl : data = [1, 2, 3] := by
    refine hall (fun _ => Nat.le_refl _) ?_
    rw [hnone, hinode]
    simp
  obtain rfl : mode = 0o755 := hmode
  obtain ⟨i, hi, hne⟩ := hreplaced.target
  rw [hpath] at hi
  refine ⟨⟨i, hi, ?_⟩, hreplaced.files 1 ?_⟩
  · rintro rfl
    exact hne hold
  · rintro (htmp | hlate)
    · rw [hnone] at htmp
      exact absurd htmp (by simp)
    · exact absurd hlate (by decide)

end Airbridge.Service
