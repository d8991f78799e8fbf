import Airbridge.Service.Execute

/-!
# What an install does in which order

The USB check stands in front of everything that cannot be taken back.
-/

namespace Airbridge.Service

open Airbridge.Qpdl (ascii)
open CString (fit formatInt)

/-! ## Kinds of steps -/

/-- The step runs a command whose arguments begin so. -/
def Step.Runs (s : Step) (args : List CString) : Prop := s.kind = .run ∧ args <+: s.argv

instance (s : Step) (args : List CString) : Decidable (s.Runs args) :=
  inferInstanceAs (Decidable (_ ∧ _))

/-- The steps that back up the vendor queue (its PPD, and the shell commands for
its URI and options) or remove it, write the launchd job, bootstrap the service
or create a queue. -/
def Irreversible (s : Step) : Prop :=
  (s.kind = .copy ∧
      s.path = SERVICE_BACKUP_DIR ++ ascii "/" ++ VENDOR_QUEUE ++ ascii ".ppd") ∨
    s.Runs [ascii "sh", ascii "-c"] ∨
    s.Runs [ascii "lpadmin", ascii "-x"] ∨
    (s.kind = .write ∧ s.path = SERVICE_PLIST) ∨
    s.Runs [ascii "launchctl", ascii "bootstrap"] ∨
    s.Runs [ascii "lpadmin", ascii "-p"]

instance (s : Step) : Decidable (Irreversible s) := inferInstanceAs (Decidable (_ ∨ _))

theorem irreversible_backups : Irreversible ppdBackupStep ∧ Irreversible uriBackupStep ∧
    Irreversible optionsBackupStep ∧ Irreversible removeVendorStep ∧ Irreversible bootstrapStep := by
  decide +kernel

/-- A command with another first argument is none of these. -/
theorem not_irreversible_run {text arg : CString} {args : List CString}
    (hlen : arg.length < STEP_ARGBUF)
    (hsh : arg ≠ ascii "sh") (hlpadmin : arg ≠ ascii "lpadmin")
    (hlaunchctl : arg ≠ ascii "launchctl") : ¬Irreversible (runStep text (arg :: args)) := by
  have hargv : (runStep text (arg :: args)).argv =
      arg :: packArgs 1 (0 + (arg.length + 1)) args := by
    rw [runStep_argv, packArgs_cons (by decide) (by omega)]
  have hruns {first second : CString} (hne : arg ≠ first) :
      ¬(runStep text (arg :: args)).Runs [first, second] := by
    rintro ⟨-, hargs⟩
    rw [hargv, List.cons_prefix_cons] at hargs
    exact hne hargs.1.symm
  rintro (⟨hkind, -⟩ | h | h | ⟨hkind, -⟩ | h | h)
  · exact absurd (show StepKind.run = .copy from hkind) (by decide)
  · exact hruns hsh h
  · exact hruns hlpadmin h
  · exact absurd (show StepKind.run = .write from hkind) (by decide)
  · exact hruns hlaunchctl h
  · exact hruns hlpadmin h

/-- Nothing in front of the USB check is irreversible. -/
theorem beforeProbe_reversible (info : ServiceInfo) :
    ∀ s ∈ beforeProbe info, ¬Irreversible s := by
  intro s hs
  have hdscl (text : CString) (args : List CString) : ¬Irreversible (dsclStep text args) :=
    not_irreversible_run (by decide) (by decide) (by decide) (by decide)
  simp only [beforeProbe, List.mem_append, List.mem_singleton] at hs
  rcases hs with ((hs | hs) | hs) | rfl
  · split_ifs at hs
    · rw [List.mem_singleton.mp hs]
      decide +kernel
    · exact absurd hs List.not_mem_nil
  · split_ifs at hs
    · exact absurd hs List.not_mem_nil
    · simp only [userSteps, List.mem_cons, List.not_mem_nil, or_false] at hs
      rcases hs with rfl | rfl | rfl | rfl | rfl | rfl | rfl | rfl | rfl | rfl <;> exact hdscl _ _
  · have hall : ∀ s ∈ directorySteps, ¬Irreversible s := by
      decide +kernel
    exact hall s hs
  · have hpath : fit 512 SERVICE_BINARY ≠
        SERVICE_BACKUP_DIR ++ ascii "/" ++ VENDOR_QUEUE ++ ascii ".ppd" := by
      decide +kernel
    have hkind : (binaryStep info).kind = .copy := rfl
    rintro (⟨-, hbackup⟩ | ⟨hrun, -⟩ | ⟨hrun, -⟩ | ⟨hwrite, -⟩ | ⟨hrun, -⟩ | ⟨hrun, -⟩)
    · exact hpath hbackup
    · exact absurd (hkind.symm.trans hrun) (by decide)
    · exact absurd (hkind.symm.trans hrun) (by decide)
    · exact absurd (hkind.symm.trans hwrite) (by decide)
    · exact absurd (hkind.symm.trans hrun) (by decide)
    · exact absurd (hkind.symm.trans hrun) (by decide)

theorem probeStep_reversible : ¬Irreversible probeStep := by decide +kernel

/-- The steps that start the service. -/
def Bootstraps (s : Step) : Prop := s.Runs [ascii "launchctl", ascii "bootstrap"]

instance (s : Step) : Decidable (Bootstraps s) := inferInstanceAs (Decidable (_ ∧ _))

theorem Bootstraps.irreversible {s : Step} (h : Bootstraps s) : Irreversible s :=
  .inr (.inr (.inr (.inr (.inl h))))

theorem vendorSteps_not_bootstrap (info : ServiceInfo) (o : Option PlanOptions) :
    ∀ s ∈ vendorSteps info o, ¬Bootstraps s := by
  have hbackup : ∀ s ∈ [ppdBackupStep, uriBackupStep, optionsBackupStep, removeVendorStep],
      ¬Bootstraps s := by
    decide +kernel
  intro s hs
  unfold vendorSteps at hs
  split_ifs at hs with h1 h2 h3
  · exact hbackup s hs
  · exact hbackup s (List.mem_cons_of_mem _ hs)
  · rw [List.mem_singleton.mp hs]
    decide +kernel
  · exact absurd hs List.not_mem_nil

/-! ## The order of an install -/

/-- A step that was carried out and succeeded on one of its attempts. -/
def Carried (attempt : Nat → Nat → Int) (done : List (Plan.Done Step)) (i : Nat) (s : Step) :
    Prop :=
  ∃ e ∈ done, e.index = i ∧ e.step = s ∧ Succeeds (attempt i) s

/-- What only stands behind a step that must succeed is carried out only after
that step was carried out and succeeded. -/
theorem carried_of_behind {attempt : Nat → Nat → Int} {front back : List Step} {g : Step}
    {P : Step → Prop} (hfatal : g.ignoreFailure = false) (hfront : ∀ s ∈ front, ¬P s) (hg : ¬P g)
    {d : Plan.Done Step} (hd : d ∈ (execute attempt (front ++ g :: back)).done) (hP : P d.step) :
    front.length < d.index ∧
      Carried attempt (execute attempt (front ++ g :: back)).done front.length g := by
  obtain ⟨e, he, hindex, hlt, hstep, hrc⟩ := Plan.guarded hfront hg hd hP
  obtain ⟨-, hresult, -⟩ := Plan.mem_run.mp he
  have hzero : stepRc (attempt e.index) e.step = 0 := hresult.symm.trans (hrc hfatal)
  rw [hindex, hstep] at hzero
  exact ⟨by omega, e, he, hindex, hstep, (stepRc_eq_zero _ _).mp hzero⟩

/-- An install plan, split at the copy of the binary. -/
theorem installPlan_binary {info : ServiceInfo} {p : Option ServiceParams}
    {o : Option PlanOptions} {plan : List Step} (h : installPlan info p o = .ok plan) :
    ∃ front, plan = front ++ binaryStep info :: probeStep :: afterProbe info p o ∧
      (∀ s ∈ front, ¬Irreversible s) ∧
      (info.launchd.loaded = true →
        front[0]? = some (bootoutStep (ascii "stop the running service"))) := by
  refine ⟨(if info.launchd.loaded then [bootoutStep (ascii "stop the running service")] else []) ++
    (if info.userExists then [] else userSteps (fit 16 (formatInt info.freeUid))) ++
    directorySteps, ?_, ?_, ?_⟩
  · rw [installPlan_ok h, beforeProbe, List.append_assoc _ [binaryStep info]]
    rfl
  · intro s hs
    exact beforeProbe_reversible info s (List.mem_append_left _ hs)
  · intro hloaded
    rw [if_pos hloaded]
    rfl

/-- An install plan, split at the launchd job. -/
theorem installPlan_plist {info : ServiceInfo} {p : Option ServiceParams}
    {o : Option PlanOptions} {plan : List Step} (h : installPlan info p o = .ok plan) :
    ∃ front back, plan = front ++ plistStep p :: back ∧ ∀ s ∈ front, ¬Bootstraps s := by
  refine ⟨beforeProbe info ++ probeStep :: vendorSteps info o,
    (serviceSteps p).tail ++ queueSteps info p ++ testPageSteps info o ++ [installedNote], ?_, ?_⟩
  · have hservice : serviceSteps p = plistStep p :: (serviceSteps p).tail := rfl
    rw [installPlan_ok h, afterProbe, hservice]
    simp only [List.append_assoc, List.cons_append, List.tail_cons]
  · intro s hs
    rcases List.mem_append.mp hs with hs | hs
    · exact fun hboot => beforeProbe_reversible info s hs hboot.irreversible
    · rcases List.mem_cons.mp hs with rfl | hs
      · exact fun hboot => probeStep_reversible hboot.irreversible
      · exact vendorSteps_not_bootstrap info o s hs

/-- Nothing irreversible happens before the USB check succeeded as the service
user; the service is started only behind the copy of the binary, in front of
which a loaded service was booted out, and behind the launchd job; and the
return value tells the first step that failed, behind which nothing was carried
out. -/
theorem install_ordered (info : ServiceInfo) (p : Option ServiceParams) (o : Option PlanOptions)
    (plan : List Step) (hplan : installPlan info p o = .ok plan) (attempt : Nat → Nat → Int) :
    let r := execute attempt plan
    (∀ d ∈ r.done, Irreversible d.step →
      ∃ i < d.index, Carried attempt r.done i probeStep ∧ ∃ k < 6, attempt i k = 0) ∧
    (∀ d ∈ r.done, Bootstraps d.step →
      (∃ i < d.index, Carried attempt r.done i (plistStep p)) ∧
      ∃ i < d.index, Carried attempt r.done i (binaryStep info) ∧
        (info.launchd.loaded = true →
          ∃ e ∈ r.done, e.index < i ∧ e.step = bootoutStep (ascii "stop the running service"))) ∧
    (r.ret = 0 ↔
      ∀ i s, plan[i]? = some s → s.ignoreFailure = false → Succeeds (attempt i) s) ∧
    ∀ i, r.ret = i + 1 →
      (∃ s, plan[i]? = some s ∧ s.ignoreFailure = false ∧ ¬Succeeds (attempt i) s) ∧
      (∀ j < i, ∀ s, plan[j]? = some s → s.ignoreFailure = false → Succeeds (attempt j) s) ∧
      ∀ d ∈ r.done, d.index ≤ i := by
  intro r
  obtain ⟨front, hbinary, hfront, hbootout⟩ := installPlan_binary hplan
  obtain ⟨before, after, hjob, hbefore⟩ := installPlan_plist hplan
  refine ⟨?_, ?_, ?_, ?_⟩
  · intro d hd hirreversible
    show ∃ i < d.index, Carried attempt (execute attempt plan).done i probeStep ∧ _
    have hd : d ∈ (execute attempt plan).done := hd
    rw [installPlan_ok hplan] at hd ⊢
    obtain ⟨hlt, hcarried⟩ := carried_of_behind rfl (beforeProbe_reversible info)
      probeStep_reversible hd hirreversible
    refine ⟨_, hlt, hcarried, ?_⟩
    obtain ⟨-, -, -, -, hsucceeds⟩ := hcarried
    exact hsucceeds.resolve_left (by decide)
  · intro d hd hboot
    have hd : d ∈ (execute attempt plan).done := hd
    refine ⟨?_, ?_⟩
    · show ∃ i < d.index, Carried attempt (execute attempt plan).done i (plistStep p)
      rw [hjob] at hd ⊢
      have hplist : ¬Bootstraps (plistStep p) := fun h =>
        absurd (show StepKind.write = .run from h.1) (by decide)
      obtain ⟨hlt, hcarried⟩ := carried_of_behind rfl hbefore hplist hd hboot
      exact ⟨_, hlt, hcarried⟩
    · show ∃ i < d.index, Carried attempt (execute attempt plan).done i (binaryStep info) ∧
        (info.launchd.loaded = true → ∃ e ∈ (execute attempt plan).done, _)
      rw [hbinary] at hd ⊢
      have hcopy : ¬Bootstraps (binaryStep info) := fun h =>
        absurd (show StepKind.copy = .run from h.1) (by decide)
      obtain ⟨hlt, hcarried⟩ := carried_of_behind rfl
        (fun s hs hboot => hfront s hs hboot.irreversible) hcopy hd hboot
      refine ⟨_, hlt, hcarried, fun hloaded => ?_⟩
      have hfirst := hbootout hloaded
      have hpos : 0 < front.length := (List.getElem?_eq_some_iff.mp hfirst).1
      rw [← List.getElem?_append_left hpos] at hfirst
      exact ⟨_, Plan.done_before hd (Nat.lt_trans hpos hlt) hfirst, hpos, rfl⟩
  · show (execute attempt plan).ret = 0 ↔ _
    rw [execute, Plan.ret_eq_zero]
    exact forall_congr' fun i => forall_congr' fun s =>
      imp_congr_right fun _ => passes_iff attempt i s
  · intro i hret
    obtain ⟨s, hs, hpass, hfail⟩ := Plan.ret_eq_succ.mp hret
    rw [passes_iff, Classical.not_imp] at hfail
    refine ⟨⟨s, hs, hfail⟩, fun j hj t ht => ?_, fun d hd => ?_⟩
    · exact (passes_iff attempt j t).mp (hpass.passes hj ht)
    · have hne : r.ret ≠ 0 := by omega
      have hlt : d.index < r.ret := Plan.done_le_ret hd hne
      omega

/-- A Mac with the printer on USB and nothing installed. -/
def freshMac : ServiceInfo where
  root := true
  userExists := false
  userUid := 0
  userGid := 0
  freeUid := 300
  binaryInstalled := false
  plistExists := false
  launchd := ⟨false, false, 0⟩
  usbPrinter := true
  vendorQueue := false
  vendorPpd := false
  vendorDriver := false
  ourQueue := false
  ourQueueName := []
  backupExists := false
  queueMarker := false
  supportDir := false
  spoolDir := false
  logDir := false
  stateFile := false
  logFile := false
  selfPath := ascii "/tmp/m2022-airbridge"

theorem install_ordered_fresh :
    ∃ plan, installPlan freshMac none none = .ok plan ∧
      ∀ d ∈ (execute (fun _ _ => 0) plan).done, Bootstraps d.step →
        ∃ i < d.index, Carried (fun _ _ => 0) (execute (fun _ _ => 0) plan).done i
          (plistStep none) := by
  have hplan : installPlan freshMac none none =
      .ok (planOf (beforeProbe freshMac ++ probeStep :: afterProbe freshMac none none)) := rfl
  refine ⟨_, hplan, fun d hd hboot => ?_⟩
  obtain ⟨-, hbootstraps, -⟩ :=
    install_ordered freshMac none none _ hplan fun _ _ => 0
  exact (hbootstraps d hd hboot).1

end Airbridge.Service
