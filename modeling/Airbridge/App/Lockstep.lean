import Airbridge.App.Session
import Airbridge.Qpdl.Lockstep

/-!
# The raster callbacks over two devices

A callback learns about the device from the answers to its writes only
(`Lockstep` of the encoder, carried to the callbacks).  Two print jobs in the
same state, over devices that agree on the first answers, return the same
results and offer the same data up to the write behind these answers.
-/

namespace Airbridge.App

open Airbridge.Qpdl Airbridge.Halftone Memory

/-! ## Two jobs -/

/-- The job over another sink. -/
def JobT.withSink (j : JobT) (s : Sink) : JobT := { j with enc := { j.enc with sink := s } }

/-- The jobs are in the same state but for the sinks of their encoders. -/
structure JobInStep (n : Nat) (j k : JobT) : Prop where
  rest : j = k.withSink j.enc.sink
  same : SameCalls n j.enc.sink k.enc.sink

/-- A callback on either side: both return the same and stay in step, or the
sinks have come apart. -/
def JobTwin (n : Nat) (r s : Bool × JobT) : Prop :=
  r.1 = s.1 ∧ JobInStep n r.2 s.2 ∨ Apart n r.2.enc s.2.enc

/-- A callback that touches the sink by writes only, and learns about it from
its answers only. -/
structure JobFaithful (n : Nat) (callback : JobT → Bool × JobT) : Prop where
  twin {j k : JobT} : JobInStep n j k → JobTwin n (callback j) (callback k)
  writes (j : JobT) : Writes j.enc (callback j).2.enc

/-- An update of the job that neither looks at the sink nor changes it. -/
def JobBlind (g : JobT → JobT) : Prop := ∀ j s, g (j.withSink s) = (g j).withSink s

variable {n : Nat}

theorem JobBlind.sink_eq {g : JobT → JobT} (h : JobBlind g) (j : JobT) :
    (g j).enc.sink = j.enc.sink := by
  have hsink := congrArg (fun j => j.enc.sink) (h j j.enc.sink)
  exact hsink

theorem JobFaithful.update {callback : JobT → Bool × JobT} (h : JobFaithful n callback)
    {g : JobT → JobT} (hg : JobBlind g) : JobFaithful n fun j => callback (g j) := by
  refine ⟨fun {j k} hin => h.twin ⟨?_, ?_⟩, fun j => ?_⟩
  · rw [hg.sink_eq, ← hg, ← hin.rest]
  · rw [hg.sink_eq, hg.sink_eq]
    exact hin.same
  · exact Writes.trans (Writes.of_eq (hg.sink_eq j)) (h.writes (g j))

theorem JobFaithful.const (ok : Bool) : JobFaithful n fun j => (ok, j) :=
  ⟨fun hin => .inl ⟨rfl, hin⟩, fun j => Writes.refl j.enc⟩

theorem JobFaithful.ite {c : JobT → Prop} [DecidablePred c] {callback callback' : JobT → Bool × JobT}
    (h : JobFaithful n callback) (h' : JobFaithful n callback')
    (hc : ∀ j s, c (j.withSink s) = c j) :
    JobFaithful n fun j => if c j then callback j else callback' j := by
  refine ⟨fun {j k} hin => ?_, fun j => ?_⟩
  · have hiff : c j ↔ c k := by
      rw [hin.rest, hc]
    by_cases hk : c k
    · rw [if_pos hk, if_pos (hiff.mpr hk)]
      exact h.twin hin
    · rw [if_neg hk, if_neg (fun hj => hk (hiff.mp hj))]
      exact h'.twin hin
  · split_ifs
    · exact h.writes j
    · exact h'.writes j

/-- What is made of the results of a call of the encoder on either side. -/
theorem JobTwin.of_twin {r s : Int × Encoder} (h : Twin n r s) {g : Int × Encoder → Bool × JobT}
    (henc : ∀ r, (g r).2.enc = r.2)
    (hg : ∀ rc e t, g (rc, { e with sink := t }) = ((g (rc, e)).1, (g (rc, e)).2.withSink t)) :
    JobTwin n (g r) (g s) := by
  rcases h with ⟨hcode, hrest, hsame⟩ | hapart
  · have hr : g r = ((g s).1, (g s).2.withSink r.2.sink) := by
      obtain ⟨rc, e⟩ := r
      dsimp only at hcode hrest ⊢
      subst hcode
      conv_lhs => rw [hrest, hg]
    refine .inl ⟨by rw [hr], ?_, ?_⟩
    · rw [henc, hr]
    · rw [henc, henc]
      exact hsame
  · refine .inr ?_
    rw [henc, henc]
    exact hapart

/-- A call of the encoder, and what the callback makes of its result. -/
theorem JobFaithful.call {α : Type} {c : α → Encoder → Int × Encoder}
    (h : ∀ a, Faithful n (c a)) {v : JobT → α} (hv : ∀ j s, v (j.withSink s) = v j)
    {g : JobT → Int × Encoder → Bool × JobT} (henc : ∀ j r, (g j r).2.enc = r.2)
    (hg : ∀ j s rc e t, g (j.withSink s) (rc, { e with sink := t }) =
      ((g j (rc, e)).1, (g j (rc, e)).2.withSink t)) :
    JobFaithful n fun j => g j (c (v j) j.enc) := by
  refine ⟨fun {j k} hin => ?_, fun j => ?_⟩
  · have hrest : j.enc = { k.enc with sink := j.enc.sink } := congrArg JobT.enc hin.rest
    have hvj : v j = v k := by rw [hin.rest, hv]
    have hgj (r : Int × Encoder) : g j r = g k r := by
      have hr := hg k j.enc.sink r.1 r.2 r.2.sink
      rw [← hin.rest] at hr
      have hk := hg k k.enc.sink r.1 r.2 r.2.sink
      exact hr.trans hk.symm
    rw [hvj, hgj]
    exact JobTwin.of_twin ((h (v k)).twin ⟨hrest, hin.same⟩) (henc k) (hg k k.enc.sink)
  · rw [henc]
    exact (h (v j)).writes j.enc

/-! ## The start of a page -/

theorem pageBuffers_enc (j : JobT) (rasterWidth width : Nat) (e : Encoder) :
    pageBuffers { j with enc := e } rasterWidth width =
      ((pageBuffers j rasterWidth width).1,
        { (pageBuffers j rasterWidth width).2 with enc := e }) := by
  unfold pageBuffers
  dsimp only
  split_ifs <;> rfl

theorem pageMemory_enc (j : JobT) (e : Encoder) :
    pageMemory { j with enc := e } = ((pageMemory j).1, { (pageMemory j).2 with enc := e }) := by
  unfold pageMemory
  dsimp only
  rw [pageBuffers_enc]
  dsimp only
  split_ifs <;> rfl

theorem preparePage_enc (j : JobT) (h : CupsHeader) (e : Encoder) :
    preparePage { j with enc := e } h =
      ((preparePage j h).1, { (preparePage j h).2 with enc := e }) := by
  unfold preparePage
  dsimp only
  cases h.pixelFormat with
  | none => rfl
  | some fmt =>
    dsimp only
    split_ifs
    · rfl
    · rfl
    · exact pageMemory_enc
        { j with
          linesIn := 0
          rasterWidth := h.cupsWidth
          fmt := fmt
          geo := (jobmapGeometry j.media 600 h.cupsWidth h.cupsHeight).2 } e

theorem preparePage_blind (h : CupsHeader) : JobBlind fun j => (preparePage j h).2 := by
  intro j s
  have hsame := (preparePage_sameJob j h).enc_eq
  show (preparePage { j with enc := { j.enc with sink := s } } h).2 = (preparePage j h).2.withSink s
  rw [preparePage_enc, JobT.withSink, hsame]

/-- The part of `cb_rstartpage` behind the preparation. -/
def JobT.startPage (j : JobT) : Bool × JobT :=
  let r := qpdlBeginPage j.enc j.geo.width j.workspace
  if r.1 ≠ 0 then (false, { j with enc := r.2 }) else (true, { j with enc := r.2, pageOpen := true })

theorem startPage_faithful : JobFaithful n JobT.startPage := by
  refine JobFaithful.call (v := fun j => (j.geo.width, j.workspace))
    (c := fun a e => qpdlBeginPage e a.1 a.2) (fun a => beginPage_faithful a.1 a.2)
    (fun _ _ => rfl)
    (g := fun j r => if r.1 ≠ 0 then (false, { j with enc := r.2 })
      else (true, { j with enc := r.2, pageOpen := true })) ?_ ?_
  · intro j r
    split_ifs <;> rfl
  · intro j s rc e t
    dsimp only
    split_ifs <;> rfl

theorem cbRstartpage_faithful (options : PrOptions) :
    JobFaithful n fun j => cbRstartpage j options := by
  unfold cbRstartpage
  refine JobFaithful.ite (JobFaithful.const false) ?_ fun _ _ => rfl
  refine JobFaithful.ite ((JobFaithful.const false).update (preparePage_blind options.header))
    (startPage_faithful.update (preparePage_blind options.header)) fun j s => ?_
  show ((!(preparePage { j with enc := { j.enc with sink := s } } options.header).1) = true) = _
  rw [preparePage_enc]

/-! ## Lines and the end of a page -/

theorem cbRwriteline_faithful (y : Nat) (line : Bytes) :
    JobFaithful n fun j => cbRwriteline j y line := by
  have hcall : JobFaithful n fun j =>
      let r := qpdlWriteLine j.enc j.bits
      if r.1 ≠ 0 then (false, j.encoded r.2)
      else (true, { j.encoded r.2 with linesIn := j.linesIn + 1 }) := by
    refine JobFaithful.call (v := JobT.bits) (c := fun bits e => qpdlWriteLine e bits)
      writeLine_faithful (fun _ _ => rfl)
      (g := fun j r => if r.1 ≠ 0 then (false, j.encoded r.2)
        else (true, { j.encoded r.2 with linesIn := j.linesIn + 1 })) ?_ ?_
    · intro j r
      split_ifs <;> rfl
    · intro j s rc e t
      dsimp only
      split_ifs <;> rfl
  unfold cbRwriteline
  refine JobFaithful.ite (JobFaithful.const false) ?_ fun _ _ => rfl
  refine JobFaithful.ite (JobFaithful.const true) ?_ fun _ _ => rfl
  exact hcall.update (g := fun j => convertLine j y line) fun _ _ => rfl

theorem cbRendpage_faithful : JobFaithful n cbRendpage := by
  have hcall : JobFaithful n fun j =>
      let r := qpdlEndPage j.enc
      (decide (r.1 = 0), j.encoded r.2) :=
    JobFaithful.call (v := fun _ => ()) (c := fun _ => qpdlEndPage) (fun _ => endPage_faithful)
      (fun _ _ => rfl) (g := fun j r => (decide (r.1 = 0), j.encoded r.2)) (fun _ _ => rfl)
      fun _ _ _ _ _ => rfl
  unfold cbRendpage
  refine JobFaithful.ite (JobFaithful.const false) ?_ fun _ _ => rfl
  exact hcall.update (g := fun j => { j with pageOpen := false }) fun _ _ => rfl

/-! ## The end of a job -/

theorem cancelPage_faithful : JobFaithful n cancelPage :=
  JobFaithful.ite cbRendpage_faithful (JobFaithful.const true) fun _ _ => rfl

/-- The part of `cb_rendjob` behind the open page: `ok` says how its end went. -/
theorem closeJob_faithful (ok : Bool) : JobFaithful n fun j =>
    if j.jobOpen then
      let r := qpdlEndJob j.enc
      (if r.1 ≠ 0 then false else ok, { j with jobOpen := false, enc := r.2 })
    else (ok, j) := by
  refine JobFaithful.ite ?_ (JobFaithful.const ok) fun _ _ => rfl
  exact JobFaithful.call (v := fun _ => ()) (c := fun _ => qpdlEndJob) (fun _ => endJob_faithful)
    (fun _ _ => rfl)
    (g := fun j r => (if r.1 ≠ 0 then false else ok, { j with jobOpen := false, enc := r.2 }))
    (fun _ _ => rfl) fun _ _ _ _ _ => rfl

/-- What follows on either side gets the same result. -/
theorem JobTwin.bind {r s : Bool × JobT} (h : JobTwin n r s) {next : Bool → JobT → Bool × JobT}
    (hnext : ∀ ok, JobFaithful n (next ok)) : JobTwin n (next r.1 r.2) (next s.1 s.2) := by
  rcases h with ⟨hok, hin⟩ | hapart
  · rw [hok]
    exact (hnext _).twin hin
  · exact .inr (hapart.writes ((hnext _).writes _) ((hnext _).writes _))

/-- One callback behind the other, which gets the result of the first. -/
theorem JobFaithful.bind {first : JobT → Bool × JobT} {next : Bool → JobT → Bool × JobT}
    (h : JobFaithful n first) (h' : ∀ ok, JobFaithful n (next ok)) :
    JobFaithful n fun j => next (first j).1 (first j).2 :=
  ⟨fun hin => (h.twin hin).bind h', fun j => (h.writes j).trans ((h' _).writes _)⟩

theorem cbRendjob_faithful : JobFaithful n cbRendjob :=
  cancelPage_faithful.bind closeJob_faithful

end Airbridge.App
