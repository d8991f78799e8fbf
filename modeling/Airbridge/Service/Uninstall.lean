import Airbridge.Cups.Queues
import Airbridge.Service.Install

/-!
# The queue an uninstall removes

An uninstall removes the queue that the inspection took for the installer's.
The inspection knows it by its device URI alone, and by the default name and
port; of several it keeps the last.
-/

namespace Airbridge.Service

open Airbridge.Qpdl (ascii)
open Airbridge.Cups
open CString (fit formatInt decimal isDigit)

/-! ## The scan of an inspection -/

/-- DNS-SD URIs carry `%20` for a space. -/
def percentSpaces (s : CString) : CString :=
  s.flatMap fun c => if c = 32 then ascii "%20" else [c]

def needleDnssd : CString := percentSpaces (fit 256 (SERVICE_PRINTER_NAME ++ ascii "._ipp"))

def needleLocal : CString :=
  fit 64 (ascii "localhost:" ++ formatInt SERVICE_PORT ++ ascii "/ipp/print")

/-- The device URI contains one of the two needles. -/
def PointsAtUs (q : CupsQueue) : Prop :=
  needleDnssd <:+: q.deviceUri ∨ needleLocal <:+: q.deviceUri

instance (q : CupsQueue) : Decidable (PointsAtUs q) := inferInstanceAs (Decidable (_ ∨ _))

/-- What the scan of the queues sets. -/
structure QueueScan where
  vendorQueue : Bool
  ourQueue : Bool
  ourQueueName : CString
deriving Repr, DecidableEq

/-- One queue of the scan. -/
def scanStep (s : QueueScan) (q : CupsQueue) : QueueScan :=
  if q.name = VENDOR_QUEUE then { s with vendorQueue := true }
  else if PointsAtUs q then { s with ourQueue := true, ourQueueName := fit 128 q.name }
  else s

/-- The loop over the array of queues with `left` entries still to read, which
has no result when it leaves the array. -/
def scanQueues (s : QueueScan) : List CupsQueue → Nat → Option QueueScan
  | _, 0 => some s
  | [], _ + 1 => none
  | q :: queues, left + 1 => scanQueues (scanStep s q) queues left

def ServiceInfo.withScan (found : ServiceInfo) (s : QueueScan) : ServiceInfo :=
  { found with
    vendorQueue := s.vendorQueue
    ourQueue := s.ourQueue
    ourQueueName := s.ourQueueName }

/-- `m2022_service_inspect` as far as it reads the queues; `found` holds what
the other checks found. -/
def inspect (found : ServiceInfo) (dests : List Dest) : Option ServiceInfo :=
  let (queues, nq) := cupsQueues dests 32
  (scanQueues ⟨false, false, []⟩ queues nq).map found.withScan

theorem scanQueues_eq (s : QueueScan) (queues : List CupsQueue) (n : Nat) :
    scanQueues s queues n =
      if n ≤ queues.length then some ((queues.take n).foldl scanStep s) else none := by
  induction queues generalizing s n with
  | nil =>
    cases n with
    | zero => rfl
    | succ n => rfl
  | cons q queues ih =>
    cases n with
    | zero => rfl
    | succ n =>
      rw [scanQueues, ih, List.length_cons, List.take_succ_cons, List.foldl_cons]
      simp only [Nat.add_le_add_iff_right]

/-- What the scan of all queues sets. -/
def scanOf (dests : List Dest) : QueueScan :=
  (queuesOf dests).foldl scanStep ⟨false, false, []⟩

/-- The inspection leaves the array when there are more queues than it holds. -/
theorem inspect_eq (found : ServiceInfo) (dests : List Dest) :
    inspect found dests =
      if (queuesOf dests).length ≤ 32 then some (found.withScan (scanOf dests)) else none := by
  unfold inspect
  rw [cupsQueues_eq]
  dsimp only
  rw [scanQueues_eq]
  by_cases hroom : (queuesOf dests).length ≤ 32
  · rw [List.take_of_length_le hroom, if_pos (Nat.le_refl _), if_pos hroom, List.take_length]
    rfl
  · rw [if_neg hroom, if_neg]
    · rfl
    · rw [List.length_take]
      omega

/-- The scan keeps the last queue that points at the printer. -/
theorem foldl_scanStep (s : QueueScan) (queues : List CupsQueue) :
    ((∀ q ∈ queues, q.name ≠ VENDOR_QUEUE → ¬PointsAtUs q) ∧
      (queues.foldl scanStep s).ourQueue = s.ourQueue ∧
      (queues.foldl scanStep s).ourQueueName = s.ourQueueName) ∨
    ∃ q ∈ queues, q.name ≠ VENDOR_QUEUE ∧ PointsAtUs q ∧
      (queues.foldl scanStep s).ourQueue = true ∧
      (queues.foldl scanStep s).ourQueueName = fit 128 q.name := by
  induction queues generalizing s with
  | nil => exact .inl ⟨fun q hq => absurd hq List.not_mem_nil, rfl, rfl⟩
  | cons q queues ih =>
    rw [List.foldl_cons]
    rcases ih (scanStep s q) with ⟨hnone, hour, hname⟩ | ⟨t, ht, hrest⟩
    · rw [hour, hname]
      unfold scanStep
      split_ifs with hvendor hpoints
      · refine .inl ⟨fun t ht => ?_, rfl, rfl⟩
        rcases List.mem_cons.mp ht with rfl | ht
        · exact fun hne => absurd hvendor hne
        · exact hnone t ht
      · exact .inr ⟨q, List.mem_cons_self, hvendor, hpoints, rfl, rfl⟩
      · refine .inl ⟨fun t ht => ?_, rfl, rfl⟩
        rcases List.mem_cons.mp ht with rfl | ht
        · exact fun _ => hpoints
        · exact hnone t ht
    · exact .inr ⟨t, List.mem_cons_of_mem _ ht, hrest⟩

/-! ## The URI of the installer's queue -/

theorem servicePort_pos (p : Option ServiceParams) : 0 < servicePort p := by
  unfold servicePort
  split
  · split_ifs with hport
    · exact hport
    · decide
  · decide

theorem isDigit_of_mem_portText {p : Option ServiceParams} {b : UInt8} (h : b ∈ portText p) :
    isDigit b = true := by
  have hmem : b ∈ formatInt (servicePort p) := List.mem_of_mem_take h
  rw [formatInt, if_neg (Int.not_lt.mpr (Int.le_of_lt (servicePort_pos p)))] at hmem
  exact CString.isDigit_of_mem_decimal hmem

theorem formatInt_port : formatInt SERVICE_PORT = ascii "8000" := by
  decide +kernel

theorem portText_default (p : Option ServiceParams) :
    portText p = ascii "8000" ↔ servicePort p = SERVICE_PORT := by
  rw [portText, CString.fit_eq_iff (by decide), ← formatInt_port]
  exact ⟨CString.formatInt_inj, congrArg formatInt⟩

/-- The only colons of the URI stand behind the scheme and behind the host. -/
theorem colon_queueUri {p : Option ServiceParams} {k : Nat} (h : (queueUri p)[k]? = some 58) :
    k = 3 ∨ k = 15 := by
  have hfront : ∀ k < 16, (ascii "ipp://localhost:")[k]? = some 58 → k = 3 ∨ k = 15 := by
    decide +kernel
  have hback : ∀ b ∈ ascii "/ipp/print", b ≠ 58 := by
    decide +kernel
  have hlen : (ascii "ipp://localhost:").length = 16 := rfl
  rw [queueUri_eq, List.append_assoc] at h
  by_cases hk : k < 16
  · rw [List.getElem?_append_left (by omega)] at h
    exact hfront k hk h
  · rw [List.getElem?_append_right (by omega)] at h
    rcases List.mem_append.mp (List.mem_of_getElem? h) with hmem | hmem
    · exact absurd (isDigit_of_mem_portText hmem) (by decide)
    · exact absurd rfl (hback 58 hmem)

/-- The needle for the local queue is in the URI for the default port only. -/
theorem needleLocal_queueUri (p : Option ServiceParams) :
    needleLocal <:+: queueUri p ↔ servicePort p = SERVICE_PORT := by
  have hneedle : needleLocal = ascii "localhost:" ++ ascii "8000/ipp/print" := by
    decide +kernel
  rw [← portText_default]
  constructor
  · rintro ⟨a, b, heq⟩
    have hcolon : (queueUri p)[a.length + 9]? = some 58 := by
      rw [← heq, List.append_assoc, List.getElem?_append_right (by omega),
        Nat.add_sub_cancel_left, hneedle]
      rfl
    have hlen : a.length = 6 := by
      rcases colon_queueUri hcolon with h | h <;> omega
    rw [queueUri_eq, hneedle] at heq
    have hdrop := congrArg (List.drop 6) heq
    rw [List.append_assoc, List.drop_left' hlen, List.append_assoc, List.append_assoc] at hdrop
    have hrest : ascii "8000/ipp/print" ++ b = portText p ++ ascii "/ipp/print" :=
      List.append_cancel_left (show ascii "localhost:" ++ _ = ascii "localhost:" ++ _ from hdrop)
    have hdigits := congrArg (List.takeWhile isDigit) hrest
    rw [List.takeWhile_append_of_pos fun b hb => isDigit_of_mem_portText hb] at hdigits
    have hleft : List.takeWhile isDigit (ascii "8000/ipp/print" ++ b) = ascii "8000" := rfl
    have hright : List.takeWhile isDigit (ascii "/ipp/print") = [] := rfl
    rw [hleft, hright, List.append_nil] at hdigits
    exact hdigits.symm
  · intro hport
    rw [queueUri_eq, hport, hneedle]
    exact ⟨ascii "ipp://", [], rfl⟩

/-- The needle for DNS-SD is never in it: it has a percent sign. -/
theorem needleDnssd_queueUri (p : Option ServiceParams) : ¬needleDnssd <:+: queueUri p := by
  intro hinfix
  have hneedle : (37 : UInt8) ∈ needleDnssd := by
    decide +kernel
  have hmem : 37 ∈ queueUri p := hinfix.subset hneedle
  rw [queueUri_eq, List.append_assoc] at hmem
  rcases List.mem_append.mp hmem with hmem | hmem
  · exact absurd hmem (by decide +kernel)
  · rcases List.mem_append.mp hmem with hmem | hmem
    · exact absurd (isDigit_of_mem_portText hmem) (by decide)
    · exact absurd hmem (by decide +kernel)

/-! ## What an uninstall removes -/

/-- The step removes the queue. -/
def RemovesQueue (name : CString) (s : Step) : Prop :=
  s.kind = .run ∧ s.argv = [ascii "lpadmin", ascii "-x", name]

/-- The steps in front of the removal of the queue and behind it do not run
`lpadmin`. -/
theorem not_removesQueue {info : ServiceInfo} {o : Option PlanOptions} {name : CString} {s : Step}
    (h : s ∈ stopSteps info ∨ s ∈ clearSteps info o) : ¬RemovesQueue name s := by
  have hhead : s.argv.head? ≠ some (ascii "lpadmin") := by
    rcases h with h | h
    · unfold stopSteps at h
      split_ifs at h <;> revert s <;> decide +kernel
    · unfold clearSteps restoreVendorSteps purgeSteps at h
      split_ifs at h <;> revert s <;> decide +kernel
  rintro ⟨-, hargv⟩
  rw [hargv] at hhead
  exact hhead rfl

/-- An uninstall removes the queue the inspection found, when the marker is
there. -/
theorem removes_iff {info : ServiceInfo} {o : Option PlanOptions} {plan : List Step}
    (hplan : uninstallPlan info o = .ok plan) (hlen : info.ourQueueName.length ≤ 127)
    (name : CString) : (∃ s ∈ plan, RemovesQueue name s) ↔
      info.queueMarker = true ∧ info.ourQueue = true ∧ info.ourQueueName = name := by
  have hargv : packArgs 0 0 [ascii "lpadmin", ascii "-x", info.ourQueueName] =
      [ascii "lpadmin", ascii "-x", info.ourQueueName] := by
    have hroom : 0 + ((ascii "lpadmin").length + 1) + ((ascii "-x").length + 1) +
        (info.ourQueueName.length + 1) ≤ STEP_ARGBUF := by
      show 0 + (7 + 1) + (2 + 1) + _ ≤ 1024
      omega
    rw [packArgs_cons (by decide) (by decide), packArgs_cons (by decide) (by decide),
      packArgs_cons (by decide) hroom]
    rfl
  rw [uninstallPlan_ok hplan]
  constructor
  · rintro ⟨s, hs, hremoves⟩
    rcases List.mem_append.mp hs with hs | hs
    · rcases List.mem_append.mp hs with hs | hs
      · exact absurd hremoves (not_removesQueue (o := o) (.inl hs))
      · unfold removeQueueSteps at hs
        split_ifs at hs with hfound
        · rcases List.mem_cons.mp hs with rfl | hs
          · have hname := hargv.symm.trans hremoves.2
            exact ⟨hfound.1, hfound.2, by simpa using hname⟩
          · rw [List.mem_singleton.mp hs] at hremoves
            exact absurd (show StepKind.remove = .run from hremoves.1) (by decide)
        · exact absurd hs List.not_mem_nil
    · exact absurd hremoves (not_removesQueue (.inr hs))
  · rintro ⟨hmarker, hour, rfl⟩
    refine ⟨(runStep (ascii "remove the queue the installer created")
        [ascii "lpadmin", ascii "-x", info.ourQueueName]).ignored, ?_, rfl, hargv⟩
    refine List.mem_append_left _ (List.mem_append_right _ ?_)
    rw [removeQueueSteps, if_pos ⟨hmarker, hour⟩]
    exact List.mem_cons_self

/-! ## The queue of an install among others -/

/-- The destinations of a Mac on which an install with the parameters `p`
created its queue, in the order in which CUPS lists them. -/
structure InstalledQueue (p : Option ServiceParams) (before : List Dest) (ours : Dest)
    (after : List Dest) : Prop where
  name : ours.name = SERVICE_QUEUE
  queue : ours.instanceName = none
  uri : ours.option (ascii "device-uri") = some (queueUri p)
  others : ∀ d ∈ before ++ after, d.instanceName = none → d.name ≠ SERVICE_QUEUE

section
variable {p : Option ServiceParams} {before after : List Dest} {ours : Dest}

theorem InstalledQueue.pointsAtUs (h : InstalledQueue p before ours after) :
    PointsAtUs (queueOf ours) ↔ servicePort p = SERVICE_PORT := by
  have huri : (queueOf ours).deviceUri = queueUri p := by
    show fit 512 ((ours.option (ascii "device-uri")).getD []) = queueUri p
    rw [h.uri, Option.getD_some]
    have hlen : (queueUri p).length ≤ 127 := CString.length_fit_le 128 _
    exact CString.fit_eq (by omega)
  unfold PointsAtUs
  rw [huri, needleLocal_queueUri]
  exact or_iff_right (needleDnssd_queueUri p)

theorem InstalledQueue.keptName (h : InstalledQueue p before ours after) :
    fit 128 (queueOf ours).name = SERVICE_QUEUE := by
  show fit 128 (fit 128 ours.name) = SERVICE_QUEUE
  rw [h.name]
  decide

/-- No other queue has the name. -/
theorem InstalledQueue.otherName (h : InstalledQueue p before ours after) {q : CupsQueue}
    (hq : q ∈ queuesOf before ∨ q ∈ queuesOf after) : fit 128 q.name ≠ SERVICE_QUEUE := by
  have hmem : q ∈ queuesOf (before ++ after) := by
    rw [queuesOf_append]
    exact List.mem_append.mpr hq
  obtain ⟨d, hd, hinstance, rfl⟩ := mem_queuesOf.mp hmem
  have hroom : SERVICE_QUEUE.length + 1 < 128 := by
    decide
  intro hname
  rw [CString.fit_eq_iff hroom] at hname
  exact h.others d hd hinstance ((CString.fit_eq_iff hroom).mp hname)

/-- The scan finds the queue of the install if and only if it points at the
printer by a needle and none behind it does. -/
theorem scan_ours (h : InstalledQueue p before ours after) :
    ((scanOf (before ++ ours :: after)).ourQueue = true ∧
        (scanOf (before ++ ours :: after)).ourQueueName = SERVICE_QUEUE) ↔
      servicePort p = SERVICE_PORT ∧
        ∀ q ∈ queuesOf after, q.name ≠ VENDOR_QUEUE → ¬PointsAtUs q := by
  have hvendor : (queueOf ours).name ≠ VENDOR_QUEUE := by
    show fit 128 ours.name ≠ VENDOR_QUEUE
    rw [h.name]
    decide
  have hscan : scanOf (before ++ ours :: after) =
      (queuesOf after).foldl scanStep (scanStep (scanOf before) (queueOf ours)) := by
    rw [scanOf, queuesOf_append, queuesOf_cons h.queue, List.foldl_append, List.foldl_cons]
    rfl
  rw [← h.pointsAtUs, hscan]
  rcases foldl_scanStep (scanStep (scanOf before) (queueOf ours)) (queuesOf after) with
    ⟨hnone, hour, hname⟩ | ⟨q, hq, hne, hpoints, -, hname⟩
  · rw [hour, hname]
    unfold scanStep
    rw [if_neg hvendor]
    by_cases hours : PointsAtUs (queueOf ours)
    · rw [if_pos hours]
      exact iff_of_true ⟨rfl, h.keptName⟩ ⟨hours, hnone⟩
    · rw [if_neg hours]
      refine iff_of_false ?_ fun hboth => hours hboth.1
      rintro ⟨hfound, hqueue⟩
      rcases foldl_scanStep ⟨false, false, []⟩ (queuesOf before) with
        ⟨-, hfalse, -⟩ | ⟨q, hq, -, -, -, hlast⟩
      · exact absurd (hfalse.symm.trans hfound) Bool.false_ne_true
      · exact h.otherName (.inl hq) (hlast.symm.trans hqueue)
  · refine iff_of_false ?_ fun hboth => hboth.2 q hq hne hpoints
    rintro ⟨-, hqueue⟩
    exact h.otherName (.inr hq) (hname.symm.trans hqueue)

end

/-- The name that the scan keeps fits the record. -/
theorem length_scanName (dests : List Dest) : (scanOf dests).ourQueueName.length ≤ 127 := by
  unfold scanOf
  rcases foldl_scanStep ⟨false, false, []⟩ (queuesOf dests) with
    ⟨-, -, hname⟩ | ⟨q, -, -, -, -, hname⟩
  · rw [hname]
    exact Nat.zero_le _
  · rw [hname]
    exact CString.length_fit_le 128 _

/-- From what an inspection found an uninstall removes the installer's queue
and no other. -/
def RemovesOurs (inspected : Option ServiceInfo) (o : Option PlanOptions) : Prop :=
  ∃ info plan, inspected = some info ∧ uninstallPlan info o = .ok plan ∧
    (∃ s ∈ plan, RemovesQueue SERVICE_QUEUE s) ∧
    ∀ name, (∃ s ∈ plan, RemovesQueue name s) → name = SERVICE_QUEUE

/-- An uninstall removes the queue of the install, and no other, if and only if
the install used the default port, the queues fit the array of the inspection
and no queue listed behind it is taken for it. -/
theorem uninstall_queue_iff {p : Option ServiceParams} {before after : List Dest} {ours : Dest}
    (hours : InstalledQueue p before ours after) {found : ServiceInfo}
    (hmarker : found.queueMarker = true)
    (hinstalled : ¬(found.plistExists = false ∧ found.binaryInstalled = false ∧
      found.userExists = false)) (o : Option PlanOptions) :
    RemovesOurs (inspect found (before ++ ours :: after)) o ↔
      servicePort p = SERVICE_PORT ∧ (queuesOf (before ++ ours :: after)).length ≤ 32 ∧
        ∀ q ∈ queuesOf after, q.name ≠ VENDOR_QUEUE → ¬PointsAtUs q := by
  have hlen := length_scanName (before ++ ours :: after)
  rw [and_left_comm, ← scan_ours hours, inspect_eq]
  by_cases hroom : (queuesOf (before ++ ours :: after)).length ≤ 32
  · rw [if_pos hroom]
    constructor
    · rintro ⟨info, plan, hinfo, hplan, hremoves, -⟩
      obtain rfl := Option.some_inj.mp hinfo
      obtain ⟨-, hour, hname⟩ := (removes_iff hplan hlen SERVICE_QUEUE).mp hremoves
      exact ⟨hroom, hour, hname⟩
    · rintro ⟨-, hour, hname⟩
      have hplan : uninstallPlan (found.withScan (scanOf (before ++ ours :: after))) o = .ok _ :=
        if_neg hinstalled
      refine ⟨_, _, rfl, hplan, ?_, fun name hremoves => ?_⟩
      · exact (removes_iff hplan hlen SERVICE_QUEUE).mpr ⟨hmarker, hour, hname⟩
      · obtain ⟨-, -, heq⟩ := (removes_iff hplan hlen name).mp hremoves
        exact heq.symm.trans hname
  · rw [if_neg hroom]
    refine iff_of_false ?_ fun hboth => hroom hboth.1
    rintro ⟨info, plan, hinfo, -⟩
    exact absurd hinfo (by simp)

/-- A Mac with the service installed and the marker in place. -/
def installedMac : ServiceInfo :=
  { freshMac with
    userExists := true
    binaryInstalled := true
    plistExists := true
    launchd := ⟨true, true, 4711⟩
    queueMarker := true }

/-- A queue with a device URI. -/
def destAt (name uri : CString) : Dest where
  name := name
  instanceName := none
  isDefault := 0
  option := fun key => if key = ascii "device-uri" then some uri else none

/-- A queue that a user added for the printer. -/
def userDest : Dest :=
  destAt (ascii "Samsung_M2022_2") (ascii "dnssd://Samsung%20M2022._ipp._tcp.local./?uuid=1")

theorem destAt_installed (p : Option ServiceParams) {before after : List Dest}
    (hothers : ∀ d ∈ before ++ after, d.name ≠ SERVICE_QUEUE) :
    InstalledQueue p before (destAt SERVICE_QUEUE (queueUri p)) after where
  name := rfl
  queue := rfl
  uri := by
    show (if ascii "device-uri" = ascii "device-uri" then some (queueUri p) else none) = _
    exact if_pos rfl
  others := fun d hd _ => hothers d hd

/-- A queue for another printer. -/
def officeDest : Dest := destAt (ascii "Office") (ascii "ipp://office.local:8000/ipp/print")

/-- The queue of an install with the defaults, between one that a user added for
the printer and those of the vendor and of another printer. -/
theorem uninstall_queue_among :
    RemovesOurs (inspect installedMac ([userDest] ++ destAt SERVICE_QUEUE (queueUri none) ::
      [destAt VENDOR_QUEUE (ascii "usb://Samsung/M2022"), officeDest])) none := by
  have hours : InstalledQueue none [userDest] (destAt SERVICE_QUEUE (queueUri none))
      [destAt VENDOR_QUEUE (ascii "usb://Samsung/M2022"), officeDest] := by
    refine destAt_installed none fun d hd => ?_
    simp only [List.cons_append, List.nil_append, List.mem_cons, List.not_mem_nil, or_false] at hd
    rcases hd with rfl | rfl | rfl <;> decide +kernel
  have hothers : ∀ q ∈ queuesOf [destAt VENDOR_QUEUE (ascii "usb://Samsung/M2022"), officeDest],
      q.name ≠ VENDOR_QUEUE → ¬PointsAtUs q := by
    decide +kernel
  exact (uninstall_queue_iff hours rfl (by decide) none).mpr ⟨rfl, by decide, hothers⟩

/-- An install on port 8001, and a user's queue listed behind the one of an
install with the defaults. -/
theorem uninstall_misses :
    (InstalledQueue (some ⟨none, 8001⟩) [] (destAt SERVICE_QUEUE (queueUri (some ⟨none, 8001⟩))) [] ∧
      ¬RemovesOurs
        (inspect installedMac [destAt SERVICE_QUEUE (queueUri (some ⟨none, 8001⟩))]) none) ∧
    InstalledQueue none [] (destAt SERVICE_QUEUE (queueUri none)) [userDest] ∧
      ¬RemovesOurs
        (inspect installedMac [destAt SERVICE_QUEUE (queueUri none), userDest]) none := by
  refine ⟨⟨destAt_installed _ fun d hd => absurd hd List.not_mem_nil, ?_⟩,
    destAt_installed _ fun d hd => ?_, ?_⟩
  · rintro ⟨info, plan, hinfo, hplan, hremoves, -⟩
    have hfound : (inspect installedMac
        [destAt SERVICE_QUEUE (queueUri (some ⟨none, 8001⟩))]).map
          (fun info => (info.ourQueue, info.ourQueueName)) = some (false, []) := by
      decide +kernel
    rw [hinfo] at hfound
    obtain ⟨hour, hname⟩ := Prod.mk.inj (Option.some_inj.mp hfound)
    have hlen : info.ourQueueName.length ≤ 127 := by
      rw [hname]
      exact Nat.zero_le _
    obtain ⟨-, htrue, -⟩ := (removes_iff hplan hlen SERVICE_QUEUE).mp hremoves
    exact Bool.false_ne_true (hour.symm.trans htrue)
  · rw [List.mem_singleton.mp hd]
    decide
  · rintro ⟨info, plan, hinfo, hplan, hremoves, -⟩
    have hfound : (inspect installedMac [destAt SERVICE_QUEUE (queueUri none), userDest]).map
        ServiceInfo.ourQueueName = some (ascii "Samsung_M2022_2") := by
      decide +kernel
    rw [hinfo] at hfound
    have hname : info.ourQueueName = ascii "Samsung_M2022_2" := Option.some_inj.mp hfound
    have hlen : info.ourQueueName.length ≤ 127 := by
      rw [hname]
      decide
    obtain ⟨-, -, hqueue⟩ := (removes_iff hplan hlen SERVICE_QUEUE).mp hremoves
    exact absurd (hname.symm.trans hqueue) (by decide)

end Airbridge.Service
