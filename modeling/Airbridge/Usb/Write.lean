import Airbridge.Lib.Buffer
import Airbridge.Qpdl.Records

/-!
# Writing to the printer

`m2022_usb_write` feeds the bulk endpoint in chunks through a staging block and
stops at the first transfer that returns an error; `usbdev_write` of the device
scheme calls it again with what is left, as long as a call made progress.

The endpoint is a sequence of outcomes, one for each transfer.  Nothing else is
assumed of it: a transfer accepts any prefix of what it is offered, with or
without an error.
-/

namespace Airbridge.Usb

open Airbridge.Qpdl (Bytes)

def CHUNK_BYTES : Nat := 64 * 1024

/-! ## The endpoint -/

/-- The outcome of one `libusb_bulk_transfer`: how many bytes it is ready to
accept, and its return code.  A transfer that returns zero accepts something. -/
structure Transfer where
  ready : Nat
  rc : Int
  progress : rc = 0 → 0 < ready

/-- The bulk endpoint, with the bytes it has accepted. -/
structure Pipe where
  answer : Nat → Transfer
  calls : Nat
  out : Bytes

/-- A transfer of the first `want` bytes of `data`: its return code, the number
of bytes accepted, and the endpoint behind it. -/
def bulkTransfer (pipe : Pipe) (data : Bytes) (want : Nat) : Int × Nat × Pipe :=
  let transfer := pipe.answer pipe.calls
  let transferred := min transfer.ready want
  (transfer.rc, transferred,
    { pipe with
      calls := pipe.calls + 1
      out := pipe.out ++ data.take transferred })

/-- `m2022_usb_device_t`: the endpoint and the staging block of `CHUNK_BYTES`
bytes. -/
structure UsbDevice where
  xfer : Bytes
  length_xfer : xfer.length = CHUNK_BYTES
  pipe : Pipe

/-- `memcpy(dev->xfer, data, size)`. -/
def UsbDevice.stage (dev : UsbDevice) (data : Bytes) : UsbDevice :=
  { dev with
    xfer := Buffer.store dev.xfer 0 data
    length_xfer := (Buffer.length_store _ _ _).trans dev.length_xfer }

/-- One pass of the loop in `m2022_usb_write`, over the `len` bytes of `buf`
from `p` on of which `done` are written: the return code, the bytes written,
and the device. -/
def usbWriteChunk (buf : Bytes) (p len done : Nat) (dev : UsbDevice) : Int × Nat × UsbDevice :=
  let want := if len - done > CHUNK_BYTES then CHUNK_BYTES else len - done
  let dev := dev.stage (Buffer.load buf (p + done) want)
  let (rc, transferred, pipe) := bulkTransfer dev.pipe dev.xfer want
  (rc, done + transferred, { dev with pipe := pipe })

/-- A chunk without an error makes progress. -/
theorem usbWriteChunk_progress (buf : Bytes) (p : Nat) {len done : Nat} (dev : UsbDevice)
    (hdone : done < len) (hrc : (usbWriteChunk buf p len done dev).1 = 0) :
    done < (usbWriteChunk buf p len done dev).2.1 := by
  have hready := (dev.pipe.answer dev.pipe.calls).progress hrc
  show done < done + min (dev.pipe.answer dev.pipe.calls).ready _
  have hchunk : 0 < CHUNK_BYTES := by decide
  split_ifs <;> omega

/-- The loop of `m2022_usb_write`. -/
def usbWriteLoop (buf : Bytes) (p len done : Nat) (rc : Int) (dev : UsbDevice) :
    Int × Nat × UsbDevice :=
  if h : done < len then
    if hrc : (usbWriteChunk buf p len done dev).1 = 0 then
      have := usbWriteChunk_progress buf p dev h hrc
      usbWriteLoop buf p len (usbWriteChunk buf p len done dev).2.1
        (usbWriteChunk buf p len done dev).1 (usbWriteChunk buf p len done dev).2.2
    else usbWriteChunk buf p len done dev
  else (rc, done, dev)
termination_by len - done

/-- `m2022_usb_write` of the `len` bytes of `buf` from `p` on: its return code,
what it stores in `*written`, and the device. -/
def usbWrite (dev : UsbDevice) (buf : Bytes) (p len : Nat) : Int × Nat × UsbDevice :=
  usbWriteLoop buf p len 0 0 dev

/-! ## What a write accepts -/

/-- Between two states of the device the endpoint accepted the bytes of `buf`
from `start` to `stop`, in at most `transfers` transfers. -/
structure Accepted (dev dev' : UsbDevice) (buf : Bytes) (start stop transfers : Nat) : Prop where
  le : start ≤ stop
  out : dev'.pipe.out = dev.pipe.out ++ Buffer.load buf start (stop - start)
  calls : dev'.pipe.calls ≤ dev.pipe.calls + transfers

theorem Accepted.refl (dev : UsbDevice) (buf : Bytes) (start : Nat) :
    Accepted dev dev buf start start 0 := by
  refine ⟨Nat.le_refl _, ?_, Nat.le_refl _⟩
  rw [Nat.sub_self]
  simp [Buffer.load]

theorem Accepted.trans {dev dev1 dev2 : UsbDevice} {buf : Bytes} {a b c m n : Nat}
    (h1 : Accepted dev dev1 buf a b m) (h2 : Accepted dev1 dev2 buf b c n) :
    Accepted dev dev2 buf a c (m + n) := by
  have hab := h1.le
  have hbc := h2.le
  have hload : Buffer.load buf a (c - a) =
      Buffer.load buf a (b - a) ++ Buffer.load buf b (c - b) := by
    rw [show c - a = (b - a) + (c - b) by omega, Buffer.load_add, show a + (b - a) = b by omega]
  refine ⟨Nat.le_trans hab hbc, ?_, ?_⟩
  · rw [h2.out, h1.out, hload, List.append_assoc]
  · have hcalls1 := h1.calls
    have hcalls2 := h2.calls
    omega

theorem Accepted.mono {dev dev' : UsbDevice} {buf : Bytes} {a b m n : Nat}
    (h : Accepted dev dev' buf a b m) (hmn : m ≤ n) : Accepted dev dev' buf a b n :=
  ⟨h.le, h.out, Nat.le_trans h.calls (Nat.add_le_add_left hmn _)⟩

/-- What is staged is what is offered. -/
theorem take_stage {dev : UsbDevice} {data : Bytes} (h : data.length ≤ CHUNK_BYTES) {n : Nat}
    (hn : n ≤ data.length) : (dev.stage data).xfer.take n = data.take n := by
  have hload := Buffer.load_store_same dev.xfer 0 data (by rw [dev.length_xfer]; omega)
  unfold Buffer.load at hload
  rw [List.drop_zero] at hload
  show (Buffer.store dev.xfer 0 data).take n = data.take n
  rw [← hload, List.take_take, Nat.min_eq_left hn, hload]

/-- A chunk accepts the bytes it says, in one transfer. -/
theorem usbWriteChunk_accepted {buf : Bytes} {p len done : Nat} (dev : UsbDevice)
    (hp : p + len ≤ buf.length) (hdone : done < len) :
    let r := usbWriteChunk buf p len done dev
    r.2.1 ≤ len ∧ Accepted dev r.2.2 buf (p + done) (p + r.2.1) 1 := by
  intro r
  generalize hwant : (if len - done > CHUNK_BYTES then CHUNK_BYTES else len - done) = want
  have hle : want ≤ CHUNK_BYTES ∧ want ≤ len - done := by
    rw [← hwant]
    split_ifs <;> omega
  have hr : r.2.1 = done + min (dev.pipe.answer dev.pipe.calls).ready want := by
    rw [← hwant]
    rfl
  generalize hn : min (dev.pipe.answer dev.pipe.calls).ready want = n at hr
  have hnw : n ≤ want := by
    rw [← hn]
    exact Nat.min_le_right _ _
  have hlen : (Buffer.load buf (p + done) want).length = want :=
    Buffer.length_load_of_le (by omega)
  have hout : r.2.2.pipe.out = dev.pipe.out ++
      (dev.stage (Buffer.load buf (p + done) want)).xfer.take n := by
    rw [← hn, ← hwant]
    rfl
  refine ⟨by omega, ⟨by omega, ?_, Nat.le_refl _⟩⟩
  rw [hout, take_stage (by omega) (by omega), hr, show p + (done + n) - (p + done) = n by omega]
  unfold Buffer.load
  rw [List.take_take, Nat.min_eq_left hnw]

/-- Without an error the loop ends behind the last byte. -/
theorem usbWriteLoop_full (buf : Bytes) (p len done : Nat) (rc : Int) (dev : UsbDevice)
    (h : (usbWriteLoop buf p len done rc dev).1 = 0) :
    len ≤ (usbWriteLoop buf p len done rc dev).2.1 := by
  fun_induction usbWriteLoop buf p len done rc dev with
  | case1 done rc dev hlt hzero hprogress ih => exact ih h
  | case2 done rc dev hlt herror => exact absurd h herror
  | case3 done rc dev hge => exact Nat.le_of_not_lt hge

/-- Where the loop ends: everything up to the bytes it reports was accepted,
and each transfer but a last failed one accepted something. -/
theorem usbWriteLoop_accepted {buf : Bytes} {p len done : Nat} {rc : Int} (dev : UsbDevice)
    (hp : p + len ≤ buf.length) (hdone : done ≤ len) (hrc : rc = 0) :
    let r := usbWriteLoop buf p len done rc dev
    r.2.1 ≤ len ∧
      Accepted dev r.2.2 buf (p + done) (p + r.2.1)
        (r.2.1 - done + if r.1 = 0 then 0 else 1) := by
  fun_induction usbWriteLoop buf p len done rc dev with
  | case1 done rc dev hlt hzero hprogress ih =>
    obtain ⟨hle, hchunk⟩ := usbWriteChunk_accepted dev hp hlt
    obtain ⟨hle', hrest⟩ := ih hle hzero
    have hgrow := hrest.le
    refine ⟨hle', (hchunk.trans hrest).mono ?_⟩
    omega
  | case2 done rc dev hlt herror =>
    obtain ⟨hle, hchunk⟩ := usbWriteChunk_accepted dev hp hlt
    refine ⟨hle, hchunk.mono ?_⟩
    rw [if_neg herror]
    exact Nat.le_add_left _ _
  | case3 done rc dev hge =>
    refine ⟨hdone, ?_⟩
    rw [if_pos hrc, Nat.sub_self]
    exact Accepted.refl dev buf (p + done)

/-- `m2022_usb_write` reports exactly the bytes accepted during the call, also
with an error. -/
theorem usbWrite_accepted {buf : Bytes} {p len : Nat} (dev : UsbDevice)
    (hp : p + len ≤ buf.length) :
    let r := usbWrite dev buf p len
    r.2.1 ≤ len ∧ Accepted dev r.2.2 buf p (p + r.2.1) (r.2.1 + if r.1 = 0 then 0 else 1) :=
  usbWriteLoop_accepted dev hp (Nat.zero_le len) rfl

/-- A call that accepts nothing fails. -/
theorem usbWrite_progress (dev : UsbDevice) (buf : Bytes) (p : Nat) {len : Nat} (hlen : 0 < len)
    (h : ¬((usbWrite dev buf p len).1 ≠ 0 ∧ (usbWrite dev buf p len).2.1 = 0)) :
    0 < (usbWrite dev buf p len).2.1 := by
  by_contra hzero
  refine h ⟨fun hrc => ?_, by omega⟩
  have hfull := usbWriteLoop_full buf p len 0 0 dev hrc
  unfold usbWrite at hzero
  omega

/-! ## The device scheme -/

/-- One call of `m2022_usb_write` by `usbdev_write`. -/
structure UsbWriteCall where
  p : Nat
  left : Nat
  before : UsbDevice
  rc : Int
  written : Nat
  after : UsbDevice

/-- The call with its results. -/
def usbWriteCall (dev : UsbDevice) (buf : Bytes) (p left : Nat) : UsbWriteCall :=
  let r := usbWrite dev buf p left
  { p := p
    left := left
    before := dev
    rc := r.1
    written := r.2.1
    after := r.2.2 }

/-- What `usbdev_write` returns, with the calls it made and the device behind
it. -/
structure UsbdevWrite where
  ret : Int
  calls : List UsbWriteCall
  dev : UsbDevice

/-- The loop of `usbdev_write`. -/
def usbdevWriteLoop (buf : Bytes) (p left : Nat) (dev : UsbDevice) : UsbdevWrite :=
  if hleft : 0 < left then
    let call := usbWriteCall dev buf p left
    if hfail : call.rc ≠ 0 ∧ call.written = 0 then ⟨-1, [call], call.after⟩
    else
      have := usbWrite_progress dev buf p hleft hfail
      let rest := usbdevWriteLoop buf (p + call.written) (left - call.written) call.after
      { rest with calls := call :: rest.calls }
  else ⟨buf.length, [], dev⟩
termination_by left
decreasing_by
  show left - (usbWrite dev buf p left).2.1 < left
  omega

/-- `usbdev_write` of a whole buffer.  The length of a buffer fits `ssize_t`. -/
def usbdevWrite (dev : UsbDevice) (buf : Bytes) : UsbdevWrite :=
  usbdevWriteLoop buf 0 buf.length dev

/-- A call of `m2022_usb_write` that reports what was accepted during it. -/
structure UsbWriteCall.Reports (c : UsbWriteCall) (buf : Bytes) : Prop where
  call : c = usbWriteCall c.before buf c.p c.left
  out : c.after.pipe.out = c.before.pipe.out ++ Buffer.load buf c.p c.written
  length : c.after.pipe.out.length = c.before.pipe.out.length + c.written

theorem usbWriteCall_reports {buf : Bytes} {p left : Nat} (dev : UsbDevice)
    (hp : p + left ≤ buf.length) : (usbWriteCall dev buf p left).Reports buf := by
  obtain ⟨hle, haccepted⟩ := usbWrite_accepted dev hp
  have hout := haccepted.out
  rw [Nat.add_sub_cancel_left] at hout
  refine ⟨rfl, hout, ?_⟩
  show (usbWrite dev buf p left).2.2.pipe.out.length = _
  rw [hout, List.length_append, Buffer.length_load_of_le (by omega)]
  rfl

/-- A call that failed without accepting a byte. -/
def UsbWriteCall.Failed (c : UsbWriteCall) : Prop := c.rc ≠ 0 ∧ c.written = 0

/-- How `usbdev_write` ends: with everything accepted, or behind a call that
failed without accepting a byte. -/
def UsbdevWrite.EndsAt (w : UsbdevWrite) (buf : Bytes) (stop : Nat) : Prop :=
  (w.ret = buf.length ∧ stop = buf.length) ∨
    (w.ret = -1 ∧ stop < buf.length ∧ ∃ c, w.calls.getLast? = some c ∧ c.Failed)

/-- One more call in front changes neither the end nor the return value. -/
theorem UsbdevWrite.EndsAt.cons {w : UsbdevWrite} {buf : Bytes} {stop : Nat}
    (h : w.EndsAt buf stop) (c : UsbWriteCall) :
    UsbdevWrite.EndsAt { w with calls := c :: w.calls } buf stop := by
  rcases h with h | ⟨hret, hstop, last, hlast, hfailed⟩
  · exact .inl h
  · refine .inr ⟨hret, hstop, last, ?_, hfailed⟩
    rw [List.getLast?_cons, hlast]
    rfl

/-- The invariant of the loop: everything before `p` is accepted, and what
remains to be accepted is accepted in order.  A call that makes progress ends
with at most one failed transfer. -/
theorem usbdevWriteLoop_accepted {buf : Bytes} {p left : Nat} (dev : UsbDevice)
    (hp : p + left = buf.length) :
    let w := usbdevWriteLoop buf p left dev
    (∃ stop ≤ buf.length, Accepted dev w.dev buf p stop (2 * (stop - p) + 1) ∧
      w.EndsAt buf stop) ∧ ∀ c ∈ w.calls, c.Reports buf := by
  fun_induction usbdevWriteLoop buf p left dev with
  | case1 p left dev hleft call hfail =>
    have hreports := usbWriteCall_reports dev (Nat.le_of_eq hp)
    obtain ⟨-, haccepted⟩ := usbWrite_accepted dev (Nat.le_of_eq hp)
    have hwritten : (usbWrite dev buf p left).2.1 = 0 := hfail.2
    have hrc : (usbWrite dev buf p left).1 ≠ 0 := hfail.1
    rw [hwritten, if_neg hrc, Nat.add_zero] at haccepted
    refine ⟨⟨p, by omega, haccepted.mono (by omega),
      .inr ⟨rfl, by omega, call, rfl, hfail⟩⟩, ?_⟩
    intro c hc
    rw [List.mem_singleton.mp hc]
    exact hreports
  | case2 p left dev hleft call hfail hprogress rest ih =>
    obtain ⟨hle, haccepted⟩ := usbWrite_accepted dev (Nat.le_of_eq hp)
    obtain ⟨⟨stop, hstop, hrest, hend⟩, hcalls⟩ :=
      ih (show p + (usbWrite dev buf p left).2.1 + (left - (usbWrite dev buf p left).2.1) = _ by
        omega)
    have hgrow : p + (usbWrite dev buf p left).2.1 ≤ stop := hrest.le
    refine ⟨⟨stop, hstop, (haccepted.trans hrest).mono ?_, hend.cons call⟩, ?_⟩
    · show _ + (2 * (stop - (p + (usbWrite dev buf p left).2.1)) + 1) ≤ _
      split_ifs <;> omega
    · intro c hc
      rcases List.mem_cons.mp hc with rfl | hc
      · exact usbWriteCall_reports dev (Nat.le_of_eq hp)
      · exact hcalls c hc
  | case3 p left dev hleft =>
    have hstop : p = buf.length := by omega
    refine ⟨⟨p, Nat.le_of_eq hstop, (Accepted.refl dev buf p).mono (Nat.zero_le _),
      .inl ⟨rfl, hstop⟩⟩, ?_⟩
    intro c hc
    exact absurd hc List.not_mem_nil

/-- Whatever the endpoint does, one `usbdev_write` neither loses, repeats nor
reorders bytes: what the endpoint accepted is a prefix of the buffer, in order;
the call returns the length of the buffer if and only if all of it was accepted,
and -1 otherwise, only behind a call of `m2022_usb_write` that failed without
accepting a byte; each of those calls reports exactly what was accepted during
it; and there is a bound on the number of transfers. -/
theorem usbdevWrite_exact (dev : UsbDevice) (buf : Bytes) :
    let w := usbdevWrite dev buf
    ∃ n ≤ buf.length,
      w.dev.pipe.out = dev.pipe.out ++ buf.take n ∧
      (w.ret = buf.length ↔ n = buf.length) ∧
      (w.ret = buf.length ∨ w.ret = -1) ∧
      (w.ret = -1 → ∃ c, w.calls.getLast? = some c ∧ c.Failed) ∧
      (∀ c ∈ w.calls, c.Reports buf) ∧
      w.dev.pipe.calls ≤ dev.pipe.calls + (2 * buf.length + 1) := by
  intro w
  obtain ⟨⟨stop, hstop, haccepted, hend⟩, hcalls⟩ :=
    usbdevWriteLoop_accepted dev (Nat.zero_add buf.length)
  have hout := haccepted.out
  unfold Buffer.load at hout
  rw [Nat.sub_zero, List.drop_zero] at hout
  have hbound : w.dev.pipe.calls ≤ dev.pipe.calls + (2 * buf.length + 1) :=
    Nat.le_trans haccepted.calls (by omega)
  refine ⟨stop, hstop, hout, ?_, ?_, ?_, hcalls, hbound⟩
  · rcases hend with ⟨hret, hfull⟩ | ⟨hret, hlt, -⟩
    · exact ⟨fun _ => hfull, fun _ => hret⟩
    · refine ⟨fun h => ?_, fun h => by omega⟩
      have hneg : (-1 : Int) = buf.length := hret.symm.trans h
      omega
  · rcases hend with ⟨hret, -⟩ | ⟨hret, -⟩
    · exact .inl hret
    · exact .inr hret
  · intro h
    rcases hend with ⟨hret, -⟩ | ⟨-, -, hlast⟩
    · have hneg : (-1 : Int) = buf.length := h.symm.trans hret
      omega
    · exact hlast

end Airbridge.Usb
