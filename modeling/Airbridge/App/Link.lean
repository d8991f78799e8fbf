import Airbridge.App.Lockstep
import Airbridge.Lib.Dialogue
import Airbridge.Qpdl.Truncation
import Airbridge.Usb.Unplug

/-!
# A print job over a failing link

Between the sink of the encoder and the printer lies a link that may fail at
any write.  The callbacks go on or stop as they please: what PAPPL's client
does next may depend on every result so far.

Whatever it does, the printer gets a prefix of the stream it gets over a link
that never fails, and what it reads of it are the first records of that stream
(`printed_over_link`).  `usbLink` is the link of the device scheme.
-/

namespace Airbridge.App

open Airbridge.Qpdl Airbridge.Usb Memory Dialogue

/-! ## A client that sees the results -/

/-- What the client does next, in view of the results of its callbacks so far;
`none` when it ends the job. -/
abbrev Client := List Bool → Option Callback

def callback : Callback → JobT → Bool × JobT
  | .startPage options => fun j => cbRstartpage j options
  | .writeLine y line => fun j => cbRwriteline j y line
  | .endPage => cbRendpage

/-- At most `fuel` more callbacks, and the end of the job. -/
def drive (client : Client) : Nat → List Bool → JobT → Bool × JobT
  | 0, _, j => cbRendjob j
  | fuel + 1, results, j =>
    match client results with
    | none => cbRendjob j
    | some c =>
      let r := callback c j
      drive client fuel (results ++ [r.1]) r.2

/-- A whole job.  One that does not start has no callbacks and no end. -/
def printed (host : Host) (heap : Heap UInt8) (options : PrOptions) (client : Client) (fuel : Nat)
    (device : Sink) : Bool × JobT :=
  let r := cbRstartjob host heap options device
  if !r.1 then r else drive client fuel [] r.2

/-- The data of every write of a job, over a device that gives these answers. -/
def writesOf (host : Host) (heap : Heap UInt8) (options : PrOptions) (client : Client) (fuel : Nat)
    (answer : Nat → Int) : List Bytes :=
  (printed host heap options client fuel { answer := answer }).2.enc.sink.offered

/-! ## The job learns about the link from its answers only -/

variable {n : Nat}

theorem callback_faithful (c : Callback) : JobFaithful n (callback c) := by
  cases c with
  | startPage options => exact cbRstartpage_faithful options
  | writeLine y line => exact cbRwriteline_faithful y line
  | endPage => exact cbRendpage_faithful

theorem drive_faithful (client : Client) (fuel : Nat) (results : List Bool) :
    JobFaithful n (drive client fuel results) := by
  induction fuel generalizing results with
  | zero => exact cbRendjob_faithful
  | succ fuel ih =>
    show JobFaithful n fun j => drive client (fuel + 1) results j
    unfold drive
    cases client results with
    | none => exact cbRendjob_faithful
    | some c => exact (callback_faithful c).bind fun ok => ih (results ++ [ok])

/-- What `cb_rstartjob` makes of the results of the encoder. -/
theorem cbRstartjob_eq (host : Host) (heap : Heap UInt8) (options : PrOptions) {m : Media}
    (hmedia : mediaByPwg options.mediaSizeName = some m) :
    ∃ g : Int × Encoder → Bool × JobT,
      (∀ device, cbRstartjob host heap options device =
        g (qpdlBeginJob (zeroEncoder device) (qpdlJob host m options) device)) ∧
      (∀ r, (g r).2.enc = r.2) ∧
      ∀ rc e t, g (rc, { e with sink := t }) = ((g (rc, e)).1, (g (rc, e)).2.withSink t) := by
  let p := jobmapPreset options.printQuality (contentFrom options.printContentOptimize)
  refine ⟨fun r =>
    let j : JobT := {
      host := host
      heap := heap
      enc := r.2
      media := some m
      hp := Halftone.preset p
      lut := host.toneBuild p }
    if r.1 ≠ 0 then (false, j) else (true, { j with jobOpen := true }), fun device => ?_,
    fun r => ?_, fun rc e t => ?_⟩
  · unfold cbRstartjob
    rw [hmedia]
  · dsimp only
    split_ifs <;> rfl
  · dsimp only
    split_ifs <;> rfl

/-- The start of a job over either sink. -/
theorem cbRstartjob_twin (host : Host) (heap : Heap UInt8) (options : PrOptions) {s t : Sink}
    (h : SameCalls n s t) :
    JobTwin n (cbRstartjob host heap options s) (cbRstartjob host heap options t) := by
  cases hmedia : mediaByPwg options.mediaSizeName with
  | none =>
    unfold cbRstartjob
    rw [hmedia]
    exact .inl ⟨rfl, rfl, h⟩
  | some m =>
    obtain ⟨g, hstart, henc, hg⟩ := cbRstartjob_eq host heap options hmedia
    obtain ⟨c, hfaithful, hbegin⟩ := beginJob_faithful (qpdlJob host m options)
    rw [hstart, hstart]
    refine JobTwin.of_twin ?_ henc hg
    rw [hbegin, hbegin]
    split_ifs
    · exact InStep.twin ⟨rfl, h⟩ EINVAL
    · exact (hfaithful n).twin ⟨rfl, h⟩

theorem cbRstartjob_writes (host : Host) (heap : Heap UInt8) (options : PrOptions)
    (device : Sink) : device.WritesTo (cbRstartjob host heap options device).2.enc.sink := by
  cases hmedia : mediaByPwg options.mediaSizeName with
  | none =>
    unfold cbRstartjob
    rw [hmedia]
    exact Sink.WritesTo.refl device
  | some m =>
    obtain ⟨g, hstart, henc, -⟩ := cbRstartjob_eq host heap options hmedia
    obtain ⟨c, hfaithful, hbegin⟩ := beginJob_faithful (qpdlJob host m options)
    rw [hstart, henc, hbegin]
    split_ifs
    · exact Sink.WritesTo.refl device
    · exact (hfaithful 0).writes _

/-- The callbacks and the end of a job, if it started. -/
theorem driveIf_faithful (client : Client) (fuel : Nat) (ok : Bool) :
    JobFaithful n fun j => if !ok then (ok, j) else drive client fuel [] j := by
  cases ok with
  | false => exact JobFaithful.const false
  | true => exact drive_faithful client fuel []

/-- A whole job over two sinks that agree on the first answers. -/
theorem printed_twin (host : Host) (heap : Heap UInt8) (options : PrOptions) (client : Client)
    (fuel : Nat) {s t : Sink} (h : SameCalls n s t) :
    JobTwin n (printed host heap options client fuel s)
      (printed host heap options client fuel t) :=
  (cbRstartjob_twin host heap options h).bind (driveIf_faithful client fuel)

theorem printed_writes (host : Host) (heap : Heap UInt8) (options : PrOptions) (client : Client)
    (fuel : Nat) (device : Sink) :
    device.WritesTo (printed host heap options client fuel device).2.enc.sink :=
  (cbRstartjob_writes host heap options device).trans
    ((driveIf_faithful (n := 0) client fuel _).writes _)

/-- What a job writes next depends on the answers before only. -/
theorem writesOf_causal (host : Host) (heap : Heap UInt8) (options : PrOptions) (client : Client)
    (fuel : Nat) : Causal (writesOf host heap options client fuel) := by
  intro a b n hab
  unfold writesOf
  rcases printed_twin host heap options client fuel (n := n) (s := { answer := a })
    (t := { answer := b }) ⟨rfl, rfl, rfl, hab⟩ with ⟨-, hin⟩ | ⟨-, -, htake⟩
  · rw [hin.same.offered_eq]
  · exact htake

/-! ## Links -/

/-- What lies between the sink and the printer: the return value of the last of
the writes so far, and what they have brought to the printer.  Data arrive in
order, all of them while every write returns 0, and nothing arrives behind a
write that failed. -/
structure Link where
  answer : List Bytes → Int
  arrived : List Bytes → Bytes
  in_order : ∀ ds, arrived ds <+: ds.flatten
  delivers : ∀ ds, (∀ k < ds.length, answer (ds.take (k + 1)) = 0) → arrived ds = ds.flatten
  dead : ∀ ds ds', answer ds ≠ 0 → arrived (ds ++ ds') = arrived ds

/-- What a sink that accepts everything has accepted. -/
theorem accepted_writeAll (s : Sink) (hs : ∀ n, s.answer n = 0) (ds : List Bytes) :
    (s.writeAll ds).accepted = s.accepted ++ ds.flatten := by
  induction ds generalizing s with
  | nil => exact (List.append_nil _).symm
  | cons data ds ih =>
    have haccepted : (s.write data).2.accepted = s.accepted ++ data := if_pos (hs s.calls)
    refine (ih (s.write data).2 hs).trans ?_
    rw [haccepted, List.flatten_cons, List.append_assoc]

/-- What a job writes when it is never disappointed is what it leaves on a
device that accepts everything. -/
theorem accepted_printed (host : Host) (heap : Heap UInt8) (options : PrOptions) (client : Client)
    (fuel : Nat) :
    (printed host heap options client fuel .accepting).2.enc.sink.accepted =
      (writesOf host heap options client fuel fun _ => 0).flatten := by
  obtain ⟨ds, hds⟩ := printed_writes host heap options client fuel .accepting
  show _ = ((printed host heap options client fuel .accepting).2.enc.sink.offered).flatten
  rw [hds, accepted_writeAll _ (fun _ => rfl), Sink.offered_writeAll]
  rfl

/-- Over any link, what arrives is a prefix of the expected stream. -/
theorem Link.arrived_prefix (link : Link) {run : (Nat → Int) → List Bytes} (hcausal : Causal run)
    {a : Nat → Int} (ha : AnsweredBy link.answer run a) :
    link.arrived (run a) <+: (run fun _ => 0).flatten := by
  rcases hcausal.first_refusal a 0 with ⟨-, hsame⟩ | ⟨k, hlt, -, hne, htake⟩
  · rw [← hsame]
    exact link.in_order (run a)
  · have hdead := link.dead ((run a).take (k + 1)) ((run a).drop (k + 1)) (by rwa [← ha k hlt])
    rw [List.take_append_drop] at hdead
    rw [hdead, htake]
    refine (link.in_order _).trans ?_
    conv_rhs => rw [← List.take_append_drop (k + 1) (run fun _ => 0), List.flatten_append]
    exact List.prefix_append _ _

/-! ## The link of the device scheme -/

/-- `device_sink`, with each write handed on to `usbdev_write`. -/
def deviceSink (dev : UsbDevice) (data : Bytes) : Int :=
  if (usbdevWrite dev data).ret ≠ data.length then -1 else 0

/-- The return value of the last write. -/
def lastReturn (dev : UsbDevice) (ds : List Bytes) : Int :=
  match ds.getLast? with
  | none => 0
  | some data => deviceSink (deviceBehind dev ds.dropLast) data

/-- A write that fails leaves a dead endpoint. -/
theorem dead_of_lastReturn {dev : UsbDevice} (hgood : dev.pipe.FailsForGood) {ds : List Bytes}
    (h : lastReturn dev ds ≠ 0) : (deviceBehind dev ds).pipe.Dead := by
  unfold lastReturn at h
  cases hlast : ds.getLast? with
  | none =>
    rw [hlast] at h
    exact absurd rfl h
  | some data =>
    rw [hlast] at h
    have hsplit : ds = ds.dropLast ++ [data] :=
      (List.dropLast_append_getLast? data hlast).symm
    have hlater := deviceBehind_later hgood ds.dropLast
    obtain ⟨-, hend⟩ := usbdevWriteLoop_unplugged (deviceBehind dev ds.dropLast)
      (Nat.zero_add data.length) (hlater.failsForGood hgood)
    have hbehind : deviceBehind dev ds = (usbdevWrite (deviceBehind dev ds.dropLast) data).dev := by
      conv_lhs => rw [hsplit, deviceBehind_append]
      rfl
    rw [hbehind]
    refine hend.resolve_left fun hret => h ?_
    unfold deviceSink
    exact if_neg (not_not.mpr hret)

/-- Writes that all returned 0 have brought all their data to the printer. -/
theorem deviceBehind_answered (dev : UsbDevice) (ds : List Bytes)
    (hall : ∀ k < ds.length, lastReturn dev (ds.take (k + 1)) = 0) :
    (deviceBehind dev ds).pipe.out = dev.pipe.out ++ ds.flatten := by
  induction ds using List.reverseRecOn with
  | nil => exact (List.append_nil _).symm
  | append_singleton ds data ih =>
    have hbefore : (deviceBehind dev ds).pipe.out = dev.pipe.out ++ ds.flatten := by
      refine ih fun k hk => ?_
      have hk' := hall k (by rw [List.length_append]; omega)
      rwa [List.take_append_of_le_length hk] at hk'
    have hlast : deviceSink (deviceBehind dev ds) data = 0 := by
      have h := hall ds.length (by rw [List.length_append]; exact Nat.lt_succ_self _)
      rw [List.take_of_length_le (by simp)] at h
      unfold lastReturn at h
      rwa [List.getLast?_concat, List.dropLast_concat] at h
    obtain ⟨stop, hout, hends⟩ := usbdevWrite_front (deviceBehind dev ds) data
    have hret : (usbdevWrite (deviceBehind dev ds) data).ret = data.length := by
      unfold deviceSink at hlast
      by_contra hne
      rw [if_pos hne] at hlast
      exact absurd hlast (by decide)
    obtain ⟨-, rfl⟩ := hends.resolve_right fun hfail => by
      have hneg : (-1 : Int) = data.length := hfail.symm.trans hret
      omega
    rw [List.take_length] at hout
    rw [deviceBehind_append, List.flatten_concat, ← List.append_assoc, ← hbefore]
    exact hout

/-- The printer on USB, when it never comes back once it is gone. -/
def usbLink (dev : UsbDevice) (hgood : dev.pipe.FailsForGood) : Link where
  answer := lastReturn dev
  arrived ds := (deviceBehind dev ds).pipe.out.drop dev.pipe.out.length
  in_order ds := by
    obtain ⟨got, hpre, hout, -⟩ := deviceBehind_unplugged hgood ds
    rw [hout, List.drop_left]
    exact hpre
  delivers ds hall := by
    rw [deviceBehind_answered dev ds hall, List.drop_left]
  dead ds ds' hne := by
    rw [deviceBehind_append, deviceBehind_dead ((deviceBehind_later hgood ds).failsForGood hgood)
      (dead_of_lastReturn hgood hne)]

/-- A printer that is unplugged behind its second transfer. -/
def unpluggedDevice : UsbDevice where
  xfer := List.replicate CHUNK_BYTES 0
  length_xfer := List.length_replicate
  pipe := {
    answer := fun n => if n < 2 then ⟨CHUNK_BYTES, 0, fun _ => by decide⟩ else
      ⟨0, -4, fun h => absurd h (by decide)⟩
    calls := 0
    out := [] }

theorem unpluggedDevice_failsForGood : unpluggedDevice.pipe.FailsForGood := by
  have hready (n : Nat) : (unpluggedDevice.pipe.answer n).ready = if n < 2 then CHUNK_BYTES else 0 := by
    show Transfer.ready (if n < 2 then _ else _) = _
    split_ifs <;> rfl
  intro k _ hk n hn
  rw [hready] at hk ⊢
  split_ifs at hk with hlt
  · exact absurd hk (by decide)
  · exact if_neg (by omega)

/-- A client that goes on with its page although its callbacks fail. -/
def sampleClient : Client := fun results =>
  match results.length with
  | 0 => some (.startPage sampleOptions)
  | 1 => some (.writeLine 0 (List.replicate 8 0))
  | _ => none

/-! ## The job over the link -/

/-- Whatever the link does, and whatever the client makes of it, the job comes
to an end, and what arrives is a prefix of the stream that a device accepting
everything gets.  The printer reads the first pages and bands of that stream,
unchanged, and nothing else.  If no write fails, the whole stream arrives. -/
theorem printed_over_link (host : Host) (heap : Heap UInt8) (options : PrOptions) (client : Client)
    (fuel : Nat) (link : Link) :
    let run := writesOf host heap options client fuel
    let whole := (printed host heap options client fuel .accepting).2.enc.sink.accepted
    (∃ a, AnsweredBy link.answer run a) ∧ ∀ a, AnsweredBy link.answer run a →
      link.arrived (run a) <+: whole ∧
      (walk (link.arrived (run a))).records <+: (walk whole).records ∧
      ((∀ n < (run a).length, a n = 0) → link.arrived (run a) = whole) := by
  intro run whole
  have hcausal := writesOf_causal host heap options client fuel
  have hwhole : whole = (run fun _ => 0).flatten := accepted_printed host heap options client fuel
  refine ⟨hcausal.exists_answered link.answer, fun a ha => ?_⟩
  have hfront : link.arrived (run a) <+: whole := by
    rw [hwhole]
    exact link.arrived_prefix hcausal ha
  refine ⟨hfront, records_prefix hfront, fun hall => ?_⟩
  have hsame : run a = run fun _ => 0 := hcausal.eq_of_agree hall
  have harrived : link.arrived (run a) = (run a).flatten :=
    link.delivers (run a) fun k hk => (ha k hk).symm.trans (hall k hk)
  rw [harrived, hsame, hwhole]

theorem printed_over_unplugged :
    let run := writesOf sampleHost zeroHeap sampleOptions sampleClient 2
    let whole :=
      (printed sampleHost zeroHeap sampleOptions sampleClient 2 .accepting).2.enc.sink.accepted
    let link := usbLink unpluggedDevice unpluggedDevice_failsForGood
    ∃ a, AnsweredBy link.answer run a ∧ link.arrived (run a) <+: whole ∧
      (walk (link.arrived (run a))).records <+: (walk whole).records ∧
      ((∀ n < (run a).length, a n = 0) → link.arrived (run a) = whole) := by
  intro run whole link
  obtain ⟨⟨a, ha⟩, hall⟩ := printed_over_link sampleHost zeroHeap sampleOptions sampleClient 2 link
  exact ⟨a, ha, hall a ha⟩

end Airbridge.App
