import Airbridge.Usb.Write

/-!
# Writing to a printer that goes away

An endpoint fails for good when a transfer that accepts nothing is followed
only by such transfers.  Over such an endpoint a write that does not return its
length leaves a dead endpoint, and later writes bring nothing to the printer
(`deviceBehind_unplugged`).
-/

namespace Airbridge.Usb

open Airbridge.Qpdl (Bytes)

/-- No transfer from now on accepts anything. -/
def Pipe.Dead (pipe : Pipe) : Prop := ∀ n ≥ pipe.calls, (pipe.answer n).ready = 0

/-- A transfer that accepts nothing is the end of the connection. -/
def Pipe.FailsForGood (pipe : Pipe) : Prop :=
  ∀ k ≥ pipe.calls, (pipe.answer k).ready = 0 → ∀ n ≥ k, (pipe.answer n).ready = 0

/-- Later on, the endpoint still answers the same. -/
structure Pipe.Later (pipe pipe' : Pipe) : Prop where
  answer_eq : pipe'.answer = pipe.answer
  calls_le : pipe.calls ≤ pipe'.calls

theorem Pipe.Later.refl (pipe : Pipe) : pipe.Later pipe := ⟨rfl, Nat.le_refl _⟩

theorem Pipe.Later.trans {pipe pipe' pipe'' : Pipe} (h : pipe.Later pipe')
    (h' : pipe'.Later pipe'') : pipe.Later pipe'' :=
  ⟨h'.answer_eq.trans h.answer_eq, Nat.le_trans h.calls_le h'.calls_le⟩

theorem Pipe.Later.dead {pipe pipe' : Pipe} (h : pipe.Later pipe') (hdead : pipe.Dead) :
    pipe'.Dead := by
  intro n hn
  rw [h.answer_eq]
  exact hdead n (Nat.le_trans h.calls_le hn)

theorem Pipe.Later.failsForGood {pipe pipe' : Pipe} (h : pipe.Later pipe')
    (hgood : pipe.FailsForGood) : pipe'.FailsForGood := by
  intro k hk
  rw [h.answer_eq]
  exact hgood k (Nat.le_trans h.calls_le hk)

/-! ## One write -/

theorem usbWriteLoop_later (buf : Bytes) (p len done : Nat) (rc : Int) (dev : UsbDevice) :
    dev.pipe.Later (usbWriteLoop buf p len done rc dev).2.2.pipe := by
  have hchunk (done : Nat) (dev : UsbDevice) :
      dev.pipe.Later (usbWriteChunk buf p len done dev).2.2.pipe := ⟨rfl, Nat.le_succ _⟩
  fun_induction usbWriteLoop buf p len done rc dev with
  | case1 done rc dev hlt hzero hprogress ih => exact (hchunk done dev).trans ih
  | case2 done rc dev hlt herror => exact hchunk done dev
  | case3 done rc dev hge => exact Pipe.Later.refl _

/-- The first transfer of a call that accepts no byte accepts nothing. -/
theorem usbWrite_failed {dev : UsbDevice} {buf : Bytes} {p len : Nat} (hlen : 0 < len)
    (hp : p + len ≤ buf.length) (hnone : (usbWrite dev buf p len).2.1 = 0) :
    (dev.pipe.answer dev.pipe.calls).ready = 0 := by
  unfold usbWrite at hnone
  rw [usbWriteLoop, dif_pos hlen] at hnone
  split_ifs at hnone with hzero
  · -- behind a transfer without an error there is something written
    have hprogress := usbWriteChunk_progress buf p dev hlen hzero
    obtain ⟨hle, -⟩ := usbWriteChunk_accepted dev hp hlen
    obtain ⟨-, haccepted⟩ := usbWriteLoop_accepted (usbWriteChunk buf p len 0 dev).2.2 hp hle hzero
    have hgrow := haccepted.le
    dsimp only at hnone
    omega
  · have hmin : 0 + min (dev.pipe.answer dev.pipe.calls).ready
        (if len - 0 > CHUNK_BYTES then CHUNK_BYTES else len - 0) = 0 := hnone
    have hchunk : 0 < CHUNK_BYTES := by decide
    split_ifs at hmin <;> omega

/-- A call over a dead endpoint fails without accepting a byte. -/
theorem usbWrite_dead {dev : UsbDevice} (hdead : dev.pipe.Dead) (buf : Bytes) (p : Nat) {len : Nat}
    (hlen : 0 < len) :
    (usbWrite dev buf p len).1 ≠ 0 ∧ (usbWrite dev buf p len).2.1 = 0 ∧
      (usbWrite dev buf p len).2.2.pipe.out = dev.pipe.out := by
  have hready := hdead dev.pipe.calls (Nat.le_refl _)
  have hrc : (usbWriteChunk buf p len 0 dev).1 ≠ 0 := by
    intro hzero
    have hprogress := (dev.pipe.answer dev.pipe.calls).progress hzero
    omega
  have hcall : usbWrite dev buf p len = usbWriteChunk buf p len 0 dev := by
    unfold usbWrite
    rw [usbWriteLoop, dif_pos hlen, dif_neg hrc]
  have hnone (want : Nat) : min (dev.pipe.answer dev.pipe.calls).ready want = 0 := by
    rw [hready, Nat.zero_min]
  rw [hcall]
  refine ⟨hrc, ?_, ?_⟩
  · unfold usbWriteChunk bulkTransfer
    exact (Nat.zero_add _).trans (hnone _)
  · unfold usbWriteChunk bulkTransfer
    show dev.pipe.out ++ _ = _
    rw [show (dev.stage _).pipe = dev.pipe from rfl, hnone, List.take_zero, List.append_nil]

/-! ## A write of the device scheme -/

/-- A write returns its length or leaves a dead endpoint. -/
theorem usbdevWriteLoop_unplugged {buf : Bytes} {p left : Nat} (dev : UsbDevice)
    (hp : p + left = buf.length) (hgood : dev.pipe.FailsForGood) :
    let w := usbdevWriteLoop buf p left dev
    dev.pipe.Later w.dev.pipe ∧ (w.ret = buf.length ∨ w.dev.pipe.Dead) := by
  fun_induction usbdevWriteLoop buf p left dev with
  | case1 p left dev hleft call hfail =>
    have hlater : dev.pipe.Later call.after.pipe := usbWriteLoop_later buf p left 0 0 dev
    have hready := usbWrite_failed hleft hp.le hfail.2
    refine ⟨hlater, .inr (hlater.dead ?_)⟩
    exact hgood _ (Nat.le_refl _) hready
  | case2 p left dev hleft call hfail hprogress rest ih =>
    have hlater : dev.pipe.Later call.after.pipe := usbWriteLoop_later buf p left 0 0 dev
    have hle : call.written ≤ left := (usbWrite_accepted dev hp.le).1
    obtain ⟨hrest, hend⟩ := ih (by omega) (hlater.failsForGood hgood)
    exact ⟨hlater.trans hrest, hend⟩
  | case3 p left dev hleft => exact ⟨Pipe.Later.refl _, .inl rfl⟩

/-- What a write brings to the printer is a front part of it, and all of it when
the write returns its length. -/
theorem usbdevWrite_front (dev : UsbDevice) (buf : Bytes) :
    ∃ stop, (usbdevWrite dev buf).dev.pipe.out = dev.pipe.out ++ buf.take stop ∧
      ((usbdevWrite dev buf).ret = buf.length ∧ stop = buf.length ∨
        (usbdevWrite dev buf).ret = -1) := by
  obtain ⟨⟨stop, -, haccepted, hends⟩, -⟩ := usbdevWriteLoop_accepted dev (Nat.zero_add buf.length)
  have hload := haccepted.out
  unfold Buffer.load at hload
  rw [Nat.sub_zero, List.drop_zero] at hload
  exact ⟨stop, hload, hends.imp_right fun h => h.1⟩

/-- A write to a dead endpoint brings nothing to the printer. -/
theorem usbdevWriteLoop_dead (buf : Bytes) (p left : Nat) {dev : UsbDevice}
    (hdead : dev.pipe.Dead) :
    (usbdevWriteLoop buf p left dev).dev.pipe.out = dev.pipe.out := by
  by_cases hleft : 0 < left
  · obtain ⟨hrc, hnone, hout⟩ := usbWrite_dead hdead buf p hleft
    rw [usbdevWriteLoop, dif_pos hleft]
    exact (congrArg (fun w : UsbdevWrite => w.dev.pipe.out) (dif_pos ⟨hrc, hnone⟩)).trans hout
  · rw [usbdevWriteLoop, dif_neg hleft]

/-! ## All writes of a job -/

/-- The device behind these writes. -/
def deviceBehind (dev : UsbDevice) (ds : List Bytes) : UsbDevice :=
  ds.foldl (fun dev data => (usbdevWrite dev data).dev) dev

theorem deviceBehind_append (dev : UsbDevice) (ds ds' : List Bytes) :
    deviceBehind dev (ds ++ ds') = deviceBehind (deviceBehind dev ds) ds' :=
  List.foldl_append

theorem deviceBehind_later {dev : UsbDevice} (hgood : dev.pipe.FailsForGood) (ds : List Bytes) :
    dev.pipe.Later (deviceBehind dev ds).pipe := by
  induction ds generalizing dev with
  | nil => exact Pipe.Later.refl _
  | cons data ds ih =>
    obtain ⟨hlater, -⟩ := usbdevWriteLoop_unplugged dev (Nat.zero_add data.length) hgood
    exact hlater.trans (ih (hlater.failsForGood hgood))

theorem deviceBehind_dead {dev : UsbDevice} (hgood : dev.pipe.FailsForGood)
    (hdead : dev.pipe.Dead) (ds : List Bytes) :
    (deviceBehind dev ds).pipe.out = dev.pipe.out := by
  induction ds generalizing dev with
  | nil => rfl
  | cons data ds ih =>
    obtain ⟨hlater, -⟩ := usbdevWriteLoop_unplugged dev (Nat.zero_add data.length) hgood
    refine Eq.trans (ih (hlater.failsForGood hgood) (hlater.dead hdead)) ?_
    exact usbdevWriteLoop_dead data 0 data.length hdead

/-- What the printer got is a prefix of what was written: all of it, or it gets
nothing more. -/
theorem deviceBehind_unplugged {dev : UsbDevice} (hgood : dev.pipe.FailsForGood)
    (ds : List Bytes) :
    ∃ got, got <+: ds.flatten ∧ (deviceBehind dev ds).pipe.out = dev.pipe.out ++ got ∧
      (got = ds.flatten ∨ (deviceBehind dev ds).pipe.Dead) := by
  induction ds generalizing dev with
  | nil => exact ⟨[], List.prefix_refl _, (List.append_nil _).symm, .inl rfl⟩
  | cons data ds ih =>
    obtain ⟨hlater, hend⟩ := usbdevWriteLoop_unplugged dev (Nat.zero_add data.length) hgood
    obtain ⟨stop, hout, hends⟩ := usbdevWrite_front dev data
    have hgood' := hlater.failsForGood hgood
    rw [List.flatten_cons]
    rcases hends with ⟨-, hfull⟩ | hret
    · rw [hfull, List.take_length] at hout
      obtain ⟨got, hpre, hgot, hlast⟩ := ih hgood'
      refine ⟨data ++ got, (List.prefix_append_right_inj data).mpr hpre, ?_, ?_⟩
      · rw [← List.append_assoc, ← hout]
        exact hgot
      · exact hlast.imp_left fun h => by rw [h]
    · have hdead := hend.resolve_left fun hlen => by
        have hneg : (-1 : Int) = data.length := hret.symm.trans hlen
        omega
      refine ⟨data.take stop, (List.take_prefix stop data).trans (List.prefix_append _ _), ?_,
        .inr ?_⟩
      · rw [← hout]
        exact deviceBehind_dead hgood' hdead ds
      · exact (deviceBehind_later hgood' ds).dead hdead

end Airbridge.Usb
