import Airbridge.Service.Install

/-!
# The backup of the vendor queue

An install removes the vendor queue behind the steps that back it up.  To
restore the queue an uninstall reads two of the files they write, the PPD and
the device URI.  The copy of the PPD is only planned when the inspection found
a PPD, and a failure to save the URI is ignored, so a removal can go without
either.
-/

namespace Airbridge.Service

open Airbridge.Qpdl (ascii)
open CString (fit formatInt)

/-! ## Removals -/

/-- The step removes the vendor queue. -/
def RemovesVendor (s : Step) : Prop := s.Runs [ascii "lpadmin", ascii "-x", VENDOR_QUEUE]

instance (s : Step) : Decidable (RemovesVendor s) := inferInstanceAs (Decidable (_ ∧ _))

theorem RemovesVendor.irreversible {s : Step} (h : RemovesVendor s) : Irreversible s := by
  have hargs : [ascii "lpadmin", ascii "-x"] <+: [ascii "lpadmin", ascii "-x", VENDOR_QUEUE] :=
    ⟨[VENDOR_QUEUE], rfl⟩
  exact .inr (.inr (.inl ⟨h.1, hargs.trans h.2⟩))

/-- The two files that the restore command reads. -/
theorem restore_reads (info : ServiceInfo) : ∀ s ∈ restoreVendorSteps info,
    ∃ command ∈ s.argv, ppdBackupStep.path <:+: command ∧
      SERVICE_BACKUP_DIR ++ ascii "/device-uri.txt" <:+: command := by
  intro s hs
  unfold restoreVendorSteps at hs
  split_ifs at hs
  · rw [List.mem_singleton.mp hs]
    decide +kernel
  · exact absurd hs List.not_mem_nil

/-- In front of every removal of the vendor queue its PPD and its device URI
were saved. -/
def BackedUp (attempt : Nat → Nat → Int) (done : List (Plan.Done Step)) : Prop :=
  ∀ d ∈ done, RemovesVendor d.step →
    (∃ i < d.index, Carried attempt done i ppdBackupStep) ∧
      ∃ i < d.index, Carried attempt done i uriBackupStep

/-- What stands behind the vendor steps. -/
def afterVendor (info : ServiceInfo) (p : Option ServiceParams) (o : Option PlanOptions) :
    List Step :=
  serviceSteps p ++ queueSteps info p ++ testPageSteps info o ++ [installedNote]

theorem installPlan_vendor {info : ServiceInfo} {p : Option ServiceParams}
    {o : Option PlanOptions} {plan : List Step} (h : installPlan info p o = .ok plan) :
    plan = beforeProbe info ++ probeStep :: (vendorSteps info o ++ afterVendor info p o) := by
  rw [installPlan_ok h, afterProbe, afterVendor]
  simp only [List.append_assoc]

/-- Behind the vendor steps the vendor queue is left alone. -/
theorem afterVendor_keeps (info : ServiceInfo) (p : Option ServiceParams)
    (o : Option PlanOptions) : ∀ s ∈ afterVendor info p o, ¬RemovesVendor s := by
  intro s hs
  have hkind {t : Step} {k : StepKind} (ht : t.kind = k) (hk : k ≠ .run) : ¬RemovesVendor t :=
    fun hremoves => hk (ht.symm.trans hremoves.1)
  simp only [afterVendor, List.mem_append, List.mem_singleton] at hs
  rcases hs with ((hs | hs) | hs) | rfl
  · simp only [serviceSteps, List.mem_cons, List.not_mem_nil, or_false] at hs
    rcases hs with rfl | rfl | rfl | rfl
    · exact hkind (k := .write) rfl (by decide)
    · exact hkind (k := .write) rfl (by decide)
    · decide +kernel
    · exact hkind (k := .waitIpp) rfl (by decide)
  · unfold queueSteps at hs
    split_ifs at hs
    · exact absurd hs List.not_mem_nil
    · simp only [List.mem_cons, List.not_mem_nil, or_false] at hs
      rcases hs with rfl | rfl
      · rintro ⟨-, hargs⟩
        rw [addQueueStep, runStep_argv, packArgs_cons (by decide) (by decide),
          packArgs_cons (by decide) (by decide), List.cons_prefix_cons,
          List.cons_prefix_cons] at hargs
        exact absurd hargs.2.1 (by decide)
      · exact hkind rfl (by decide)
  · unfold testPageSteps at hs
    by_cases htest : o.any PlanOptions.testPage = true
    · rw [if_pos htest] at hs
      rw [List.mem_singleton.mp hs]
      intro hremoves
      have hirreversible : Irreversible (runStep (ascii "print a test page") (ascii "lp" :: _)) :=
        RemovesVendor.irreversible hremoves
      exact not_irreversible_run (by decide) (by decide) (by decide) (by decide) hirreversible
    · rw [if_neg htest] at hs
      exact absurd hs List.not_mem_nil
  · exact hkind rfl (by decide)

/-! ## How far an install gets -/

/-- How many steps stand in front of the USB check. -/
def stepsBeforeProbe (info : ServiceInfo) : Nat :=
  (if info.launchd.loaded then 1 else 0) + (if info.userExists then 0 else 10) + 8

/-- Every step in front of the USB check succeeds, bar the stop of a loaded
service, and so does the check on one of its six attempts. -/
def UsbProved (info : ServiceInfo) (attempt : Nat → Nat → Int) : Prop :=
  (∀ i < stepsBeforeProbe info, (info.launchd.loaded = true → i ≠ 0) → attempt i 0 = 0) ∧
    ∃ k < 6, attempt (stepsBeforeProbe info) k = 0

/-- The removal of the vendor queue is planned, and nothing in front of it ends
the run. -/
def RemovalReached (info : ServiceInfo) (o : Option PlanOptions) (attempt : Nat → Nat → Int) :
    Prop :=
  info.vendorQueue = true ∧ keepsVendor o = false ∧ UsbProved info attempt ∧
    (info.vendorPpd = true → attempt (stepsBeforeProbe info + 1) 0 = 0)

/-- A step with one attempt, whose failure ends the run. -/
def Step.Once (s : Step) : Prop :=
  s.ignoreFailure = false ∧ s.kind ≠ .note ∧ attempts s = 1

instance (s : Step) : Decidable s.Once := inferInstanceAs (Decidable (_ ∧ _))

theorem Step.Once.passes_iff {s : Step} (hs : s.Once) (attempt : Nat → Nat → Int) (i : Nat) :
    Plan.Passes (fun i s => stepRc (attempt i) s) Step.ignoreFailure i s ↔ attempt i 0 = 0 := by
  obtain ⟨hignore, hnote, honce⟩ := hs
  rw [Service.passes_iff, Succeeds, honce]
  constructor
  · intro h
    obtain ⟨k, hk, hzero⟩ := (h hignore).resolve_left hnote
    obtain rfl : k = 0 := by omega
    exact hzero
  · exact fun h _ => .inr ⟨0, Nat.one_pos, h⟩

/-- In front of the USB check only the stop of a loaded service may fail. -/
theorem beforeProbe_once {info : ServiceInfo} {i : Nat} {s : Step}
    (h : (beforeProbe info)[i]? = some s) :
    (s.ignoreFailure = true ∧ info.launchd.loaded = true ∧ i = 0) ∨
      (s.Once ∧ (info.launchd.loaded = true → i ≠ 0)) := by
  have honce : ∀ t ∈ (if info.userExists then [] else
      userSteps (fit 16 (formatInt info.freeUid))) ++ directorySteps ++ [binaryStep info],
      t.Once := by
    intro t ht
    have hdscl (text : CString) (args : List CString) : (dsclStep text args).Once :=
      ⟨rfl, by rintro ⟨⟩, rfl⟩
    simp only [List.mem_append, List.mem_singleton] at ht
    rcases ht with (ht | ht) | rfl
    · split_ifs at ht
      · exact absurd ht List.not_mem_nil
      · simp only [userSteps, List.mem_cons, List.not_mem_nil, or_false] at ht
        rcases ht with rfl | rfl | rfl | rfl | rfl | rfl | rfl | rfl | rfl | rfl <;>
          exact hdscl _ _
    · have hall : ∀ t ∈ directorySteps, t.Once := by
        decide +kernel
      exact hall t ht
    · exact ⟨rfl, by rintro ⟨⟩, rfl⟩
  rw [beforeProbe, List.append_assoc, List.append_assoc, ← List.append_assoc _ directorySteps] at h
  by_cases hloaded : info.launchd.loaded = true
  · rw [if_pos hloaded] at h
    cases i with
    | zero =>
      obtain rfl : bootoutStep _ = s := Option.some_inj.mp h
      exact .inl ⟨rfl, hloaded, rfl⟩
    | succ i => exact .inr ⟨honce s (List.mem_of_getElem? h), fun _ => Nat.succ_ne_zero i⟩
  · rw [if_neg hloaded] at h
    exact .inr ⟨honce s (List.mem_of_getElem? h), fun h => absurd h hloaded⟩

/-- The USB check and what stands in front of it pass if and only if the USB
access is proved. -/
theorem passesTo_probe (info : ServiceInfo) (back : List Step) (attempt : Nat → Nat → Int) :
    Plan.PassesTo (fun i s => stepRc (attempt i) s) Step.ignoreFailure 0
        (beforeProbe info ++ probeStep :: back) (stepsBeforeProbe info + 1) ↔
      UsbProved info attempt := by
  have hlen : (beforeProbe info).length = stepsBeforeProbe info := length_beforeProbe info
  have hprobe : (beforeProbe info ++ probeStep :: back)[stepsBeforeProbe info]? =
      some probeStep := by
    rw [← hlen, List.getElem?_append_right (Nat.le_refl _), Nat.sub_self]
    rfl
  have hsucceeds : Plan.Passes (fun i s => stepRc (attempt i) s) Step.ignoreFailure
      (stepsBeforeProbe info) probeStep ↔ ∃ k < 6, attempt (stepsBeforeProbe info) k = 0 := by
    rw [passes_iff]
    exact ⟨fun h => (h rfl).resolve_left (by decide), fun h _ => .inr h⟩
  rw [Plan.passesTo_add_one hprobe, hsucceeds]
  refine and_congr_left fun _ => ⟨fun h i hi hloaded => ?_, fun h i hi s hs => ?_⟩
  · have hlt : i < (beforeProbe info).length := by omega
    have hget := List.getElem?_eq_getElem hlt
    have hpass := Plan.PassesTo.passes h hi ((List.getElem?_append_left hlt).trans hget)
    rcases beforeProbe_once hget with ⟨-, hload, hzero⟩ | ⟨honce, -⟩
    · exact absurd hzero (hloaded hload)
    · exact (honce.passes_iff attempt i).mp hpass
  · rw [List.getElem?_append_left (by omega)] at hs
    rw [Nat.zero_add]
    rcases beforeProbe_once hs with ⟨hignore, -, -⟩ | ⟨honce, hne⟩
    · exact .inr hignore
    · exact (honce.passes_iff attempt i).mpr (h i hi hne)

/-! ## Plans that remove the vendor queue -/

/-- The places behind the USB check. -/
theorem getElem?_afterProbe (info : ServiceInfo) (back : List Step) (j : Nat) :
    (beforeProbe info ++ probeStep :: back)[stepsBeforeProbe info + 1 + j]? = back[j]? := by
  have hlen : (beforeProbe info).length = stepsBeforeProbe info := length_beforeProbe info
  rw [List.getElem?_append_right (by omega), hlen, Nat.add_assoc, Nat.add_sub_cancel_left,
    Nat.add_comm 1 j, List.getElem?_cons_succ]

/-- A step that only stands behind the USB check. -/
theorem afterProbe_of_irreversible {info : ServiceInfo} {back : List Step} {i : Nat} {s : Step}
    (h : (beforeProbe info ++ probeStep :: back)[i]? = some s) (hs : Irreversible s) :
    ∃ j, i = stepsBeforeProbe info + 1 + j ∧ back[j]? = some s := by
  have hlen : (beforeProbe info).length = stepsBeforeProbe info := length_beforeProbe info
  rw [← List.singleton_append, ← List.append_assoc] at h
  obtain ⟨j, hi, hj⟩ := Plan.getElem?_behind h (by
    intro hmem
    rcases List.mem_append.mp hmem with hmem | hmem
    · exact beforeProbe_reversible info s hmem hs
    · exact probeStep_reversible (List.mem_singleton.mp hmem ▸ hs))
  rw [List.length_append, List.length_singleton, hlen] at hi
  exact ⟨j, hi, hj⟩

/-- The only removal stands behind the backups. -/
theorem removal_index {info : ServiceInfo} {saves back : List Step} {i : Nat} {s : Step}
    (h : (beforeProbe info ++ probeStep :: (saves ++ removeVendorStep :: back))[i]? = some s)
    (hsaves : ∀ t ∈ saves, ¬RemovesVendor t) (hback : ∀ t ∈ back, ¬RemovesVendor t)
    (hs : RemovesVendor s) : i = stepsBeforeProbe info + 1 + saves.length := by
  obtain ⟨j, rfl, hj⟩ := afterProbe_of_irreversible h hs.irreversible
  obtain ⟨k, rfl, hk⟩ := Plan.getElem?_behind hj fun hmem => hsaves s hmem hs
  cases k with
  | zero => rfl
  | succ k => exact absurd hs (hback s (List.mem_of_getElem? hk))

theorem uriBackup_passes (attempt : Nat → Nat → Int) (i : Nat) :
    Plan.Passes (fun i s => stepRc (attempt i) s) Step.ignoreFailure i uriBackupStep := .inr rfl

theorem optionsBackup_passes (attempt : Nat → Nat → Int) (i : Nat) :
    Plan.Passes (fun i s => stepRc (attempt i) s) Step.ignoreFailure i optionsBackupStep :=
  .inr rfl

theorem ppdBackup_once : ppdBackupStep.Once := by decide

theorem succeeds_uriBackup (attempt : Nat → Int) :
    Succeeds attempt uriBackupStep ↔ attempt 0 = 0 := by
  constructor
  · intro h
    obtain ⟨k, hk, hzero⟩ := h.resolve_left (by decide)
    obtain rfl : k = 0 := Nat.lt_one_iff.mp hk
    exact hzero
  · exact fun h => .inr ⟨0, Nat.one_pos, h⟩

/-- The steps that back the vendor queue up. -/
def vendorSaves (info : ServiceInfo) : List Step :=
  (if info.vendorPpd then [ppdBackupStep] else []) ++ [uriBackupStep, optionsBackupStep]

theorem vendorSaves_keep (info : ServiceInfo) : ∀ s ∈ vendorSaves info, ¬RemovesVendor s := by
  have hsaves : ∀ s ∈ [ppdBackupStep, uriBackupStep, optionsBackupStep], ¬RemovesVendor s := by
    decide +kernel
  intro s hs
  unfold vendorSaves at hs
  split_ifs at hs
  · exact hsaves s hs
  · exact hsaves s (List.mem_cons_of_mem _ hs)

/-- The PPD is saved if the inspection found one. -/
theorem ppdBackup_index {info : ServiceInfo} {j : Nat} :
    (vendorSaves info)[j]? = some ppdBackupStep ↔ info.vendorPpd = true ∧ j = 0 := by
  have huri : uriBackupStep ≠ ppdBackupStep := by
    decide +kernel
  have hoptions : optionsBackupStep ≠ ppdBackupStep := by
    decide +kernel
  unfold vendorSaves
  split_ifs with hppd
  · rcases j with _ | _ | _ | j <;> simp [hppd, huri, hoptions]
  · rcases j with _ | _ | j <;> simp [hppd, huri, hoptions]

/-- The device URI is saved behind the PPD. -/
theorem uriBackup_index {info : ServiceInfo} {j : Nat} :
    (vendorSaves info)[j]? = some uriBackupStep ↔ j = if info.vendorPpd then 1 else 0 := by
  have hppd : ppdBackupStep ≠ uriBackupStep := by
    decide +kernel
  have hoptions : optionsBackupStep ≠ uriBackupStep := by
    decide +kernel
  unfold vendorSaves
  split_ifs
  · rcases j with _ | _ | _ | j <;> simp [hppd, hoptions]
  · rcases j with _ | _ | j <;> simp [hoptions]

/-- The removal is reached if and only if the USB access is proved and a PPD
that was found is copied. -/
theorem passesTo_removal (info : ServiceInfo) (back : List Step) (attempt : Nat → Nat → Int) :
    Plan.PassesTo (fun i s => stepRc (attempt i) s) Step.ignoreFailure 0
        (beforeProbe info ++ probeStep :: (vendorSaves info ++ removeVendorStep :: back))
        (stepsBeforeProbe info + 1 + (vendorSaves info).length) ↔
      UsbProved info attempt ∧
        (info.vendorPpd = true → attempt (stepsBeforeProbe info + 1) 0 = 0) := by
  have hplace := getElem?_afterProbe info (vendorSaves info ++ removeVendorStep :: back)
  unfold vendorSaves at hplace ⊢
  split_ifs at hplace ⊢ with hppd
  · show Plan.PassesTo _ _ 0 _ (stepsBeforeProbe info + 1 + 3) ↔ _
    rw [Plan.passesTo_add_one (hplace 2), Plan.passesTo_add_one (hplace 1),
      Plan.passesTo_add_one (hplace 0), passesTo_probe,
      and_iff_left (optionsBackup_passes attempt _), and_iff_left (uriBackup_passes attempt _),
      ppdBackup_once.passes_iff]
    exact and_congr_right fun _ => ⟨fun hcopied _ => hcopied, fun hcopied => hcopied hppd⟩
  · show Plan.PassesTo _ _ 0 _ (stepsBeforeProbe info + 1 + 2) ↔ _
    rw [Plan.passesTo_add_one (hplace 1), Plan.passesTo_add_one (hplace 0), passesTo_probe,
      and_iff_left (optionsBackup_passes attempt _), and_iff_left (uriBackup_passes attempt _)]
    exact (and_iff_left fun h => absurd h hppd).symm

/-- Without a vendor queue to remove nothing is removed. -/
theorem vendorSteps_keep {info : ServiceInfo} {o : Option PlanOptions}
    (h : ¬(info.vendorQueue = true ∧ keepsVendor o = false)) :
    ∀ s ∈ vendorSteps info o, ¬RemovesVendor s := by
  intro s hs
  unfold vendorSteps at hs
  rw [if_neg h] at hs
  split_ifs at hs
  · rw [List.mem_singleton.mp hs]
    decide +kernel
  · exact absurd hs List.not_mem_nil

section
variable {info : ServiceInfo} {p : Option ServiceParams} {o : Option PlanOptions}
  {plan : List Step} {attempt : Nat → Nat → Int}

/-- An install plan that removes the vendor queue. -/
theorem installPlan_removal (hplan : installPlan info p o = .ok plan)
    (hvendor : info.vendorQueue = true ∧ keepsVendor o = false) :
    plan = beforeProbe info ++ probeStep ::
      (vendorSaves info ++ removeVendorStep :: afterVendor info p o) := by
  rw [installPlan_vendor hplan, vendorSteps, if_pos hvendor, vendorSaves]
  simp only [List.append_assoc, List.cons_append, List.nil_append]

/-- A removal that is carried out was planned. -/
theorem removal_planned (hplan : installPlan info p o = .ok plan) {i : Nat} {s : Step}
    (hstep : plan[i]? = some s) (hremoves : RemovesVendor s) :
    info.vendorQueue = true ∧ keepsVendor o = false := by
  by_contra hkeep
  rw [installPlan_vendor hplan] at hstep
  obtain ⟨j, -, hj⟩ := afterProbe_of_irreversible hstep hremoves.irreversible
  rcases List.mem_append.mp (List.mem_of_getElem? hj) with hmem | hmem
  · exact vendorSteps_keep hkeep _ hmem hremoves
  · exact afterVendor_keeps info p o _ hmem hremoves

/-- The places of the backups in such a plan. -/
theorem getElem?_saves (hplan : installPlan info p o = .ok plan)
    (hvendor : info.vendorQueue = true ∧ keepsVendor o = false) {j : Nat}
    (hj : j < (vendorSaves info).length) :
    plan[stepsBeforeProbe info + 1 + j]? = (vendorSaves info)[j]? := by
  rw [installPlan_removal hplan hvendor, getElem?_afterProbe, List.getElem?_append_left hj]

/-- A backup in front of the removal stands among those places. -/
theorem saves_of_irreversible (hplan : installPlan info p o = .ok plan)
    (hvendor : info.vendorQueue = true ∧ keepsVendor o = false) {i : Nat} {s : Step}
    (hi : i < stepsBeforeProbe info + 1 + (vendorSaves info).length)
    (hget : plan[i]? = some s) (hs : Irreversible s) :
    ∃ j, i = stepsBeforeProbe info + 1 + j ∧ (vendorSaves info)[j]? = some s := by
  rw [installPlan_removal hplan hvendor] at hget
  obtain ⟨j, rfl, hj⟩ := afterProbe_of_irreversible hget hs
  rw [List.getElem?_append_left (by omega)] at hj
  exact ⟨j, rfl, hj⟩

/-- What a removal shows of the steps in front of it. -/
theorem removal_facts (hplan : installPlan info p o = .ok plan) {d : Plan.Done Step}
    (hd : d ∈ (execute attempt plan).done) (hremoves : RemovesVendor d.step) :
    RemovalReached info o attempt ∧
      (∃ e ∈ (execute attempt plan).done, e.index < d.index ∧
        e.index = stepsBeforeProbe info + 1 + (if info.vendorPpd then 1 else 0) ∧
        e.step = uriBackupStep) ∧
      (info.vendorPpd = true → ∃ i < d.index,
        Carried attempt (execute attempt plan).done i ppdBackupStep) := by
  obtain ⟨hstep, -, hpass⟩ := Plan.mem_run.mp hd
  have hvendor := removal_planned hplan hstep hremoves
  have hindex : d.index = stepsBeforeProbe info + 1 + (vendorSaves info).length :=
    removal_index (installPlan_removal hplan hvendor ▸ hstep) (vendorSaves_keep info)
      (afterVendor_keeps info p o) hremoves
  have hsave {j : Nat} {s : Step} (hj : (vendorSaves info)[j]? = some s) :
      stepsBeforeProbe info + 1 + j < d.index ∧
        ⟨stepsBeforeProbe info + 1 + j, s, stepRc (attempt (stepsBeforeProbe info + 1 + j)) s⟩ ∈
          (execute attempt plan).done := by
    have hlt : j < (vendorSaves info).length := (List.getElem?_eq_some_iff.mp hj).1
    have hbefore : stepsBeforeProbe info + 1 + j < d.index := by omega
    exact ⟨hbefore, Plan.done_before hd hbefore ((getElem?_saves hplan hvendor hlt).trans hj)⟩
  rw [hindex, installPlan_removal hplan hvendor, passesTo_removal] at hpass
  obtain ⟨husb, hcopy⟩ := hpass
  refine ⟨⟨hvendor.1, hvendor.2, husb, hcopy⟩, ?_, fun hppd => ?_⟩
  · obtain ⟨hlt, hdone⟩ := hsave (uriBackup_index.mpr rfl)
    exact ⟨_, hdone, hlt, rfl, rfl⟩
  · obtain ⟨hlt, hdone⟩ := hsave (ppdBackup_index.mpr ⟨hppd, rfl⟩)
    exact ⟨_, hlt, _, hdone, rfl, rfl, .inr ⟨0, Nat.one_pos, hcopy hppd⟩⟩

/-- When the removal is reached it is carried out, and the backups stand only at
their places. -/
theorem removal_of_reached (hplan : installPlan info p o = .ok plan)
    (h : RemovalReached info o attempt) :
    ∃ d ∈ (execute attempt plan).done, RemovesVendor d.step ∧
      (∀ i < d.index, plan[i]? = some ppdBackupStep → info.vendorPpd = true) ∧
      ∀ i < d.index, plan[i]? = some uriBackupStep →
        i = stepsBeforeProbe info + 1 + if info.vendorPpd then 1 else 0 := by
  obtain ⟨hqueue, hkeep, husb, hcopy⟩ := h
  have hvendor : info.vendorQueue = true ∧ keepsVendor o = false := ⟨hqueue, hkeep⟩
  have hremoves : RemovesVendor removeVendorStep := by
    decide +kernel
  have hplace : plan[stepsBeforeProbe info + 1 + (vendorSaves info).length]? =
      some removeVendorStep := by
    rw [installPlan_removal hplan hvendor, getElem?_afterProbe,
      List.getElem?_append_right (Nat.le_refl _), Nat.sub_self]
    rfl
  have hpass := (passesTo_removal info (afterVendor info p o) attempt).mpr ⟨husb, hcopy⟩
  rw [← installPlan_removal hplan hvendor] at hpass
  refine ⟨_, Plan.done_at hplace hpass, hremoves, fun i hi hget => ?_, fun i hi hget => ?_⟩
  · obtain ⟨j, -, hj⟩ := saves_of_irreversible hplan hvendor hi hget irreversible_backups.1
    exact (ppdBackup_index.mp hj).1
  · obtain ⟨j, rfl, hj⟩ := saves_of_irreversible hplan hvendor hi hget irreversible_backups.2.1
    rw [uriBackup_index.mp hj]

/-- Every removal goes behind a backup if and only if an install that gets as
far found a PPD and saved the device URI. -/
theorem backedUp_iff (hplan : installPlan info p o = .ok plan) :
    BackedUp attempt (execute attempt plan).done ↔
      (RemovalReached info o attempt →
        info.vendorPpd = true ∧ attempt (stepsBeforeProbe info + 2) 0 = 0) := by
  constructor
  · intro hbacked hreached
    obtain ⟨d, hd, hremoves, hppd, huri⟩ := removal_of_reached hplan hreached
    obtain ⟨⟨i, hi, e, he, rfl, hestep, -⟩, k, hk, f, hf, rfl, hfstep, hsucceeds⟩ :=
      hbacked d hd hremoves
    have hget := (Plan.mem_run.mp he).1
    have hget' := (Plan.mem_run.mp hf).1
    rw [hestep] at hget
    rw [hfstep] at hget'
    have hfound := hppd e.index hi hget
    rw [huri f.index hk hget', if_pos hfound, succeeds_uriBackup] at hsucceeds
    exact ⟨hfound, hsucceeds⟩
  · intro h d hd hremoves
    obtain ⟨hreached, ⟨e, he, hlt, hindex, hstep⟩, hppd⟩ := removal_facts hplan hd hremoves
    obtain ⟨hfound, hsaved⟩ := h hreached
    rw [if_pos hfound] at hindex
    refine ⟨hppd hfound, e.index, hlt, e, he, rfl, hstep, ?_⟩
    rw [hindex, succeeds_uriBackup]
    exact hsaved

end

/-- Behind every removal of the vendor queue the step for its device URI was
carried out, and the PPD was copied if the inspection found one; both succeeded
unless an install that gets as far found no PPD or failed to save the URI. -/
theorem vendor_backup (info : ServiceInfo) (p : Option ServiceParams) (o : Option PlanOptions)
    (plan : List Step) (hplan : installPlan info p o = .ok plan) (attempt : Nat → Nat → Int) :
    let r := execute attempt plan
    (∀ d ∈ r.done, RemovesVendor d.step →
      (∃ e ∈ r.done, e.index < d.index ∧ e.step = uriBackupStep) ∧
      (info.vendorPpd = true → ∃ i < d.index, Carried attempt r.done i ppdBackupStep)) ∧
    (BackedUp attempt r.done ↔
      (RemovalReached info o attempt →
        info.vendorPpd = true ∧ attempt (stepsBeforeProbe info + 2) 0 = 0)) := by
  refine ⟨fun d hd hremoves => ?_, backedUp_iff hplan⟩
  obtain ⟨-, ⟨e, he, hlt, -, hstep⟩, hppd⟩ := removal_facts hplan hd hremoves
  exact ⟨⟨e, he, hlt, hstep⟩, hppd⟩

/-- A Mac with the vendor queue, with or without its PPD. -/
def vendorMac (ppd : Bool) : ServiceInfo := { freshMac with vendorQueue := true, vendorPpd := ppd }

theorem vendorMac_plan (ppd : Bool) : installPlan (vendorMac ppd) none none =
    .ok (planOf (beforeProbe (vendorMac ppd) ++ probeStep ::
      afterProbe (vendorMac ppd) none none)) := by
  cases ppd <;> rfl

theorem vendor_backup_withPpd : ∃ plan, installPlan (vendorMac true) none none = .ok plan ∧
    BackedUp (fun _ _ => 0) (execute (fun _ _ => 0) plan).done := by
  refine ⟨_, vendorMac_plan true, ?_⟩
  obtain ⟨-, hbacked⟩ := vendor_backup _ _ _ _ (vendorMac_plan true) fun _ _ => 0
  exact hbacked.mpr fun _ => ⟨rfl, rfl⟩

/-- No PPD, or a device URI that could not be saved. -/
theorem vendor_removed_unsaved :
    (∃ plan, installPlan (vendorMac false) none none = .ok plan ∧
      ¬BackedUp (fun _ _ => 0) (execute (fun _ _ => 0) plan).done) ∧
    ∃ plan, installPlan (vendorMac true) none none = .ok plan ∧
      ¬BackedUp (fun i _ => if i = 20 then 1 else 0)
        (execute (fun i _ => if i = 20 then 1 else 0) plan).done := by
  refine ⟨⟨_, vendorMac_plan false, ?_⟩, _, vendorMac_plan true, ?_⟩
  · rw [backedUp_iff (vendorMac_plan false)]
    intro h
    have hreached : RemovalReached (vendorMac false) none fun _ _ => 0 :=
      ⟨rfl, rfl, ⟨fun _ _ _ => rfl, 0, by decide, rfl⟩, fun _ => rfl⟩
    exact absurd (h hreached).1 (by decide)
  · rw [backedUp_iff (vendorMac_plan true)]
    intro h
    have hreached : RemovalReached (vendorMac true) none fun i _ => if i = 20 then 1 else 0 := by
      refine ⟨rfl, rfl, ⟨fun i hi _ => if_neg ?_, 0, by decide, rfl⟩, fun _ => rfl⟩
      have hlt : i < 18 := hi
      omega
    exact absurd (h hreached).2 (by decide)

end Airbridge.Service
