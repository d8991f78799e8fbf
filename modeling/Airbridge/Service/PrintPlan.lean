import Airbridge.Lib.ShellWords
import Airbridge.Service.RemoveVendor
import Airbridge.Service.Uninstall

/-!
# What a dry run shows

`m2022_plan_print` (`service.c`) writes the steps of a plan as lines of a shell
script.  A run writes the line of each step before it carries it out, and then
that it tries again or has failed.  The line of a command reads back as its
arguments, bar one: the command that restores the vendor queue has a `$` and
double quotes of its own.
-/

namespace Airbridge.Service

open Airbridge.Qpdl (ascii ascii_ofList)
open CString (fit formatInt)
open ShellWords (words Quoted ordinary actsFirst actsQuoted)

/-! ## The lines -/

/-- `%04o`. -/
def octal4 (n : Nat) : CString :=
  let digits := (Nat.toDigits 8 n).map fun c => UInt8.ofNat c.toNat
  List.replicate (4 - digits.length) 48 ++ digits

/-- An argument behind a blank. -/
def printArg (a : CString) : CString :=
  if 39 ∈ a then ascii " \"" ++ a ++ ascii "\""
  else if 32 ∈ a ∨ a = [] then ascii " '" ++ a ++ ascii "'"
  else ascii " " ++ a

/-- The arguments of a command as `print_step` writes them. -/
def commandText (s : Step) : CString := s.argv.flatMap printArg

/-- `print_step`. -/
def printStep (s : Step) : CString :=
  match s.kind with
  | .run => ascii "+" ++ commandText s ++ ascii "\n"
  | .write =>
    ascii "+ write " ++ s.path ++ ascii " (" ++ formatInt s.content.length ++ ascii " bytes, mode "
      ++ octal4 s.mode ++ ascii ")\n"
  | .mkdir =>
    ascii "+ mkdir -p '" ++ s.path ++ ascii "' (mode " ++ octal4 s.mode
      ++ (if s.owner = [] then [] else ascii ", owner ") ++ s.owner ++ ascii ")\n"
  | .copy =>
    ascii "+ cp '" ++ s.src ++ ascii "' '" ++ s.path ++ ascii "' (mode " ++ octal4 s.mode
      ++ ascii ")\n"
  | .remove => ascii "+ rm -f '" ++ s.path ++ ascii "'\n"
  | .waitIpp => ascii "+ wait for IPP on localhost:" ++ formatInt s.port ++ ascii "\n"
  | .note => ascii "# " ++ s.text ++ ascii "\n"

/-- The lines of `m2022_plan_print`: in front of a step that is not a note, what
it is for. -/
def planPrint (plan : List Step) : List CString :=
  plan.flatMap fun s =>
    if s.kind = .note then [printStep s]
    else [ascii "# " ++ s.text ++ ascii "\n", printStep s]

/-! ### The output of a run -/

/-- What the loop that runs a command again writes, from attempt `k` on with
`left` attempts left and `rc` the result of the last. -/
def retryPrint (attempt : Nat → Int) : Nat → Nat → Int → List CString
  | 0, _, _ => []
  | left + 1, k, rc =>
    if rc ≠ 0 then ascii "  (retrying)\n" :: retryPrint attempt left (k + 1) (attempt k) else []

/-- What a run writes of a step whose result is not zero. -/
def failurePrint (s : Step) : CString :=
  if s.ignoreFailure then ascii "  (failed, continuing: " ++ s.text ++ ascii ")\n"
  else ascii "failed: " ++ s.text ++ ascii "\n"

/-- What a run writes behind the line of a step that it carries out. -/
def outcomePrint (attempt : Nat → Int) (s : Step) : List CString :=
  (if s.kind = .run then retryPrint attempt s.retries 1 (attempt 0) else [])
    ++ (if stepRc attempt s ≠ 0 then [failurePrint s] else [])

/-- The lines of `m2022_service_execute`. -/
def executePrint (attempt : Nat → Nat → Int) (plan : List Step) : List CString :=
  (execute attempt plan).done.flatMap fun d =>
    printStep d.step :: outcomePrint (attempt d.index) d.step

/-- A line that begins with `+` or `#`, as that of a step does. -/
def isStepLine (line : CString) : Bool := line.head? = some 43 || line.head? = some 35

theorem isStepLine_printStep (s : Step) : isStepLine (printStep s) = true := by
  unfold printStep
  cases s.kind <;> rfl

theorem retryPrint_noStep (attempt : Nat → Int) (left k : Nat) (rc : Int) :
    ∀ line ∈ retryPrint attempt left k rc, isStepLine line = false := by
  induction left generalizing k rc with
  | zero => exact fun _ hline => absurd hline List.not_mem_nil
  | succ left ih =>
    rw [retryPrint]
    split_ifs
    · exact List.forall_mem_cons.mpr ⟨rfl, ih (k + 1) (attempt k)⟩
    · exact fun _ hline => absurd hline List.not_mem_nil

theorem outcomePrint_noStep (attempt : Nat → Int) (s : Step) :
    ∀ line ∈ outcomePrint attempt s, isStepLine line = false := by
  have hfailure : isStepLine (failurePrint s) = false := by
    unfold failurePrint
    split_ifs <;> rfl
  intro line hline
  rcases List.mem_append.mp hline with hline | hline
  · split_ifs at hline
    · exact retryPrint_noStep attempt s.retries 1 (attempt 0) line hline
    · exact absurd hline List.not_mem_nil
  · split_ifs at hline
    · rw [List.mem_singleton.mp hline]
      exact hfailure
    · exact absurd hline List.not_mem_nil

/-- The lines of steps in what a run writes are those of the steps it carries
out. -/
theorem stepLines_executePrint (attempt : Nat → Nat → Int) (plan : List Step) :
    (executePrint attempt plan).filter isStepLine =
      ((execute attempt plan).done.map (·.step)).map printStep := by
  have hone (d : Plan.Done Step) :
      (printStep d.step :: outcomePrint (attempt d.index) d.step).filter isStepLine =
        [printStep d.step] := by
    have hrest : (outcomePrint (attempt d.index) d.step).filter isStepLine = [] :=
      List.filter_eq_nil_iff.mpr fun line hline => by
        rw [outcomePrint_noStep _ _ line hline]
        exact Bool.false_ne_true
    rw [List.filter_cons_of_pos (isStepLine_printStep d.step), hrest]
  rw [executePrint, List.filter_flatMap, List.map_map]
  simp only [hone]
  exact List.map_eq_flatMap.symm

/-! ## Reading a command back -/

/-- The quotes that `printArg` chooses do for the argument. -/
def Quotable (a : CString) : Prop :=
  if 39 ∈ a then a.all (fun c => c ≠ 34 && !actsQuoted c) = true
  else if 32 ∈ a ∨ a = [] then True
  else (a.all ordinary && !a.head?.any actsFirst) = true

instance (a : CString) : Decidable (Quotable a) := inferInstanceAs (Decidable (ite _ _ _))

theorem printArg_quoted {a : CString} (h : Quotable a) :
    ∃ text, printArg a = 32 :: text ∧ Quoted text a := by
  unfold Quotable at h
  unfold printArg
  split_ifs at h ⊢ with hquote hblank
  · refine ⟨_, rfl, .double fun c hc => ?_⟩
    simpa using List.all_eq_true.mp h c hc
  · exact ⟨_, rfl, .single hquote⟩
  · cases a with
    | nil => exact absurd (.inr rfl) hblank
    | cons b word =>
      simp only [Bool.and_eq_true, Bool.not_eq_true', List.all_eq_true] at h
      exact ⟨_, rfl, .bare h.2 h.1⟩

theorem commandText_reads {s : Step} (h : ∀ a ∈ s.argv, Quotable a) :
    words (commandText s) = some s.argv := by
  have hquoted (args : List CString) (hargs : ∀ a ∈ args, Quotable a) :
      ∃ texts, args.flatMap printArg = texts.flatMap (32 :: ·) ∧
        List.Forall₂ Quoted texts args := by
    induction args with
    | nil => exact ⟨[], rfl, .nil⟩
    | cons a args ih =>
      obtain ⟨text, hprint, hquoted⟩ := printArg_quoted (hargs a List.mem_cons_self)
      obtain ⟨texts, hprints, hall⟩ := ih fun b hb => hargs b (List.mem_cons_of_mem a hb)
      refine ⟨text :: texts, ?_, .cons hquoted hall⟩
      rw [List.flatMap_cons, List.flatMap_cons, hprint, hprints]
  obtain ⟨texts, hprints, hall⟩ := hquoted s.argv h
  rw [commandText, hprints]
  exact ShellWords.words_line hall

/-! ## The commands of the plans -/

/-- A step whose line reads back, if it has a command. -/
def Reads (s : Step) : Prop := s.kind = .run → ∀ a ∈ s.argv, Quotable a

instance (s : Step) : Decidable (Reads s) := inferInstanceAs (Decidable (_ → _))

/-- A step that stores only arguments that can be quoted. -/
theorem reads_runStep (text : CString) {args : List CString} (h : ∀ a ∈ args, Quotable a) :
    Reads (runStep text args) := by
  have hpack (args : List CString) (n used : Nat) : ∀ a ∈ packArgs n used args, a ∈ args := by
    induction args generalizing n used with
    | nil => exact fun a ha => ha
    | cons arg args ih =>
      intro a ha
      rw [packArgs] at ha
      split_ifs at ha
      · exact absurd ha List.not_mem_nil
      · rcases List.mem_cons.mp ha with rfl | ha
        · exact List.mem_cons_self
        · exact List.mem_cons_of_mem arg (ih _ _ a ha)
      · exact absurd ha List.not_mem_nil
  exact fun _ a ha => h a (hpack args 0 0 a ha)

/-- A text without blanks and quotes, of characters that stand for themselves. -/
theorem quotable_of_ordinary {a : CString} (h : ∀ c ∈ a, ordinary c = true ∧ actsFirst c = false) :
    Quotable a := by
  have hquote : 39 ∉ a := fun hmem => absurd (h 39 hmem).1 (by decide)
  unfold Quotable
  rw [if_neg hquote]
  split_ifs with hblank
  cases a with
  | nil => exact absurd (.inr rfl) hblank
  | cons b word =>
    simp only [Bool.and_eq_true, Bool.not_eq_true', List.all_eq_true]
    exact ⟨fun c hc => (h c hc).1, (h b List.mem_cons_self).2⟩

theorem ordinary_digit {b : UInt8} (h : CString.isDigit b = true) :
    ordinary b = true ∧ actsFirst b = false := by
  simp only [CString.isDigit, Bool.and_eq_true, decide_eq_true_eq, UInt8.le_iff_toNat_le] at h
  have hne {c : UInt8} (hc : c.toNat < 48 ∨ 57 < c.toNat) : b ≠ c := by
    rintro rfl
    exact hc.elim (fun hlow => absurd h.1 (Nat.not_le.mpr hlow))
      fun hhigh => absurd h.2 (Nat.not_le.mpr hhigh)
  simp [ordinary, actsFirst, ShellWords.acts, ShellWords.isBlank, hne]

theorem ordinary_formatInt {n : Int} {c : UInt8} (hc : c ∈ formatInt n) :
    ordinary c = true ∧ actsFirst c = false := by
  unfold formatInt at hc
  split_ifs at hc
  · rcases List.mem_cons.mp hc with rfl | hc
    · decide
    · exact ordinary_digit (CString.isDigit_of_mem_decimal hc)
  · exact ordinary_digit (CString.isDigit_of_mem_decimal hc)

theorem quotable_formatInt (n : Int) (size : Nat) : Quotable (fit size (formatInt n)) :=
  quotable_of_ordinary fun _ hc => ordinary_formatInt (List.mem_of_mem_take hc)

/-! ### What is the same in every plan -/

/-- The commands without a name, a number or a port in them. -/
def fixedSteps : List Step :=
  bootoutStep [] :: probeStep :: uriBackupStep :: optionsBackupStep :: removeVendorStep ::
    bootstrapStep :: driverBackupStep :: directorySteps ++ purgeSteps installedMac ++
    afterDriverBackup { freshMac with vendorQueue := true }

/-- The arguments beside a name, a number or a port. -/
def fixedArgs : List CString :=
  [ ascii "dscl", ascii ".", ascii "-create", ascii "/Groups/" ++ SERVICE_USER,
    ascii "/Users/" ++ SERVICE_USER, ascii "PrimaryGroupID", ascii "UniqueID", ascii "RealName",
    ascii "M2022 AirBridge", ascii "UserShell", ascii "/usr/bin/false", ascii "NFSHomeDirectory",
    SERVICE_SUPPORT_DIR, ascii "IsHidden", ascii "1", ascii "lpadmin", ascii "-p", SERVICE_QUEUE,
    ascii "-E", ascii "-v", ascii "-m", ascii "everywhere", ascii "-D", SERVICE_PRINTER_NAME,
    ascii "-L", ascii "USB", ascii "lp", ascii "-d", ascii "/usr/share/cups/data/testprint",
    ascii "-x" ]

/-- They can be quoted, but for the command that restores the vendor queue: its
line does not read back. -/
theorem fixed_reads :
    (∀ s ∈ fixedSteps, Reads s) ∧ (∀ a ∈ fixedArgs, Quotable a) ∧
      (ascii "ipp://localhost:" ++ ascii "/ipp/print").all (fun c => ordinary c && !actsFirst c) ∧
      ∀ s ∈ restoreVendorSteps { installedMac with backupExists := true },
        words (commandText s) = none := by
  simp only [fixedSteps, bootoutStep, probeStep, uriBackupStep, optionsBackupStep, removeVendorStep,
    bootstrapStep, driverBackupStep, directorySteps, purgeSteps, afterDriverBackup,
    deleteDriverStep, deletePpdsStep, fixedArgs, restoreVendorSteps, serviceOwner, SERVICE_LABEL,
    SERVICE_USER, SERVICE_BINARY, SERVICE_PLIST, SERVICE_SUPPORT_DIR, SERVICE_BACKUP_DIR,
    SERVICE_SPOOL_DIR, SERVICE_LOG_DIR, SERVICE_LOG_FILE, SERVICE_PRINTER_NAME, SERVICE_QUEUE,
    VENDOR_QUEUE, VENDOR_DRIVER_DIR, VENDOR_PPD_DIR, VENDOR_CACHE_DIR, VENDOR_RECEIPT,
    VENDOR_BACKUP_TAR]
  repeat rw [ascii_ofList]
  decide +kernel

theorem quotable_fixed {a : CString} (h : a ∈ fixedArgs) : Quotable a := fixed_reads.2.1 a h

theorem quotable_queueUri (p : Option ServiceParams) : Quotable (queueUri p) := by
  have hends := fixed_reads.2.2.1
  simp only [List.all_eq_true, Bool.and_eq_true, Bool.not_eq_true'] at hends
  refine quotable_of_ordinary fun c hc => ?_
  rw [queueUri_eq] at hc
  rcases List.mem_append.mp hc with hc | hc
  · rcases List.mem_append.mp hc with hc | hc
    · exact hends c (List.mem_append_left _ hc)
    · exact ordinary_formatInt (List.mem_of_mem_take hc)
  · exact hends c (List.mem_append_right _ hc)

/-- A command of fixed arguments and of others that can be quoted. -/
theorem reads_of_fixed (text : CString) {args : List CString}
    (h : ∀ a ∈ args, a ∉ fixedArgs → Quotable a) : Reads (runStep text args) :=
  reads_runStep text fun a ha => (em (a ∈ fixedArgs)).elim quotable_fixed (h a ha)

/-! ### The plans -/

theorem userSteps_reads {uid : CString} (huid : Quotable uid) : ∀ s ∈ userSteps uid, Reads s := by
  simp only [userSteps, dsclStep, List.forall_mem_cons, List.not_mem_nil, false_imp_iff,
    implies_true, and_true]
  refine ⟨?_, ?_, ?_, ?_, ?_, ?_, ?_, ?_, ?_, ?_⟩
  all_goals
    refine reads_of_fixed _ fun a ha hfixed => ?_
    simp only [fixedArgs, List.mem_append, List.mem_cons, List.not_mem_nil, or_false, not_or]
      at ha hfixed
    grind

theorem beforeProbe_reads (info : ServiceInfo) : ∀ s ∈ beforeProbe info, Reads s := by
  intro s hs
  simp only [beforeProbe, List.mem_append, List.mem_singleton] at hs
  rcases hs with ((hs | hs) | hs) | rfl
  · split_ifs at hs
    · rw [List.mem_singleton.mp hs]
      exact fixed_reads.1 (bootoutStep []) (by simp [fixedSteps])
    · exact absurd hs List.not_mem_nil
  · split_ifs at hs
    · exact absurd hs List.not_mem_nil
    · exact userSteps_reads (quotable_formatInt info.freeUid 16) s hs
  · exact fixed_reads.1 s (by simp [fixedSteps, hs])
  · exact StepKind.noConfusion

theorem afterProbe_reads {info : ServiceInfo} {p : Option ServiceParams} (o : Option PlanOptions)
    (hname : Quotable (printerName p)) (hqueue : Quotable info.ourQueueName) :
    ∀ s ∈ afterProbe info p o, Reads s := by
  intro s hs
  simp only [afterProbe, List.mem_append, List.mem_singleton] at hs
  rcases hs with (((hs | hs) | hs) | hs) | rfl
  · have hfixed : s.kind = .run → s ∈ fixedSteps := by
      unfold vendorSteps at hs
      split_ifs at hs
      all_goals
        simp only [List.mem_append, List.mem_cons, List.not_mem_nil, or_false, false_or] at hs
      · rcases hs with rfl | rfl | rfl | rfl
        · exact StepKind.noConfusion
        all_goals simp [fixedSteps]
      · rcases hs with rfl | rfl | rfl <;> simp [fixedSteps]
      · rw [hs]
        exact StepKind.noConfusion
    exact fun hrun => fixed_reads.1 s (hfixed hrun) hrun
  · simp only [serviceSteps, List.mem_cons, List.not_mem_nil, or_false] at hs
    rcases hs with rfl | rfl | rfl | rfl
    · exact StepKind.noConfusion
    · exact StepKind.noConfusion
    · exact fixed_reads.1 _ (by simp [fixedSteps])
    · exact StepKind.noConfusion
  · unfold queueSteps at hs
    split_ifs at hs
    · exact absurd hs List.not_mem_nil
    · simp only [List.mem_cons, List.not_mem_nil, or_false] at hs
      rcases hs with rfl | rfl
      · refine reads_of_fixed _ fun a ha hfixed => ?_
        have huri := quotable_queueUri p
        simp only [fixedArgs, List.mem_cons, List.not_mem_nil, or_false, not_or] at ha hfixed
        grind
      · exact StepKind.noConfusion
  · unfold testPageSteps at hs
    by_cases htest : o.any PlanOptions.testPage = true
    · rw [if_pos htest] at hs
      rw [List.mem_singleton.mp hs]
      refine reads_of_fixed (ascii "print a test page") fun a ha hfixed => ?_
      simp only [fixedArgs, List.mem_cons, List.not_mem_nil, or_false, not_or] at ha hfixed
      grind
    · rw [if_neg htest] at hs
      exact absurd hs List.not_mem_nil
  · exact StepKind.noConfusion

theorem installPlan_reads {info : ServiceInfo} {p : Option ServiceParams} {o : Option PlanOptions}
    {plan : List Step} (hplan : installPlan info p o = .ok plan) (hname : Quotable (printerName p))
    (hqueue : Quotable info.ourQueueName) : ∀ s ∈ plan, Reads s := by
  rw [installPlan_ok hplan]
  intro s hs
  rcases List.mem_append.mp hs with hs | hs
  · exact beforeProbe_reads info s hs
  · rcases List.mem_cons.mp hs with rfl | hs
    · exact fixed_reads.1 _ (by simp [fixedSteps])
    · exact afterProbe_reads o hname hqueue s hs

theorem uninstallPlan_reads {info : ServiceInfo} {o : Option PlanOptions} {plan : List Step}
    (hplan : uninstallPlan info o = .ok plan) (hqueue : Quotable info.ourQueueName) :
    ∀ s ∈ plan, s ∉ restoreVendorSteps info → Reads s := by
  rw [uninstallPlan_ok hplan]
  intro s hs hrestore
  simp only [stopSteps, removeQueueSteps, clearSteps, List.mem_append, List.mem_cons,
    List.not_mem_nil, or_false] at hs
  rcases hs with ((hs | rfl | rfl) | hs) | (hs | rfl) | hs
  · split_ifs at hs
    · rw [List.mem_singleton.mp hs]
      exact fixed_reads.1 (bootoutStep []) (by simp [fixedSteps])
    · exact absurd hs List.not_mem_nil
  · exact StepKind.noConfusion
  · exact StepKind.noConfusion
  · split_ifs at hs
    · rcases List.mem_cons.mp hs with rfl | hs
      · refine reads_of_fixed (ascii "remove the queue the installer created") fun a ha hfixed => ?_
        simp only [fixedArgs, List.mem_cons, List.not_mem_nil, or_false, not_or] at ha hfixed
        grind
      · rw [List.mem_singleton.mp hs]
        exact StepKind.noConfusion
    · exact absurd hs List.not_mem_nil
  · exact absurd hs hrestore
  · exact StepKind.noConfusion
  · split_ifs at hs
    · refine fixed_reads.1 s (List.mem_append_left _ (List.mem_append_right _ ?_))
      unfold purgeSteps at hs ⊢
      rcases List.mem_append.mp hs with hs | hs
      · exact List.mem_append_left _ hs
      · split_ifs at hs
        · exact List.mem_append_right _ hs
        · exact absurd hs List.not_mem_nil
    · rw [List.mem_singleton.mp hs]
      exact StepKind.noConfusion

theorem removeVendorPlan_reads {info : ServiceInfo} {plan : List Step}
    (hplan : removeVendorPlan info = .ok plan) : ∀ s ∈ plan, Reads s := by
  rw [removeVendorPlan_ok hplan]
  intro s hs
  simp only [List.mem_cons] at hs
  rcases hs with rfl | rfl | rfl | hs
  · exact StepKind.noConfusion
  · exact StepKind.noConfusion
  · exact fixed_reads.1 _ (by simp [fixedSteps])
  · refine fixed_reads.1 s (List.mem_append_right _ ?_)
    unfold afterDriverBackup at hs ⊢
    rcases List.mem_append.mp hs with hs | hs
    · split_ifs at hs
      · exact List.mem_append_left _ hs
      · exact absurd hs List.not_mem_nil
    · exact List.mem_append_right _ hs

/-! ## A dry run and a run -/

/-- A plan that one of the commands makes. -/
def Planned (info : ServiceInfo) (p : Option ServiceParams) (o : Option PlanOptions)
    (plan : List Step) : Prop :=
  installPlan info p o = .ok plan ∨ uninstallPlan info o = .ok plan ∨
    removeVendorPlan info = .ok plan

/-- The line of the restore command does not read back. -/
theorem restore_unread {info : ServiceInfo} {s : Step} (hs : s ∈ restoreVendorSteps info) :
    words (commandText s) = none := by
  refine fixed_reads.2.2.2 s ?_
  unfold restoreVendorSteps at hs ⊢
  split_ifs at hs
  · exact hs
  · exact absurd hs List.not_mem_nil

/-- A dry run shows the commands of a run, when the names in it can be quoted:
the line of each command reads back as its arguments, but for the one that
restores the vendor queue; and the lines of steps that a run writes are a front
part of those that a dry run shows. -/
theorem dryRun_shows {info : ServiceInfo} {p : Option ServiceParams} {o : Option PlanOptions}
    {plan : List Step} (hplan : Planned info p o plan) (hname : Quotable (printerName p))
    (hqueue : Quotable info.ourQueueName) :
    (∀ s ∈ plan, s.kind = .run →
      (words (commandText s) = some s.argv ↔ s ∉ restoreVendorSteps info)) ∧
    (plan.map printStep).Sublist (planPrint plan) ∧
    ∀ attempt, (executePrint attempt plan).filter isStepLine <+: plan.map printStep := by
  refine ⟨fun s hs hrun => ?_, ?_, fun attempt => ?_⟩
  · by_cases hrestore : s ∈ restoreVendorSteps info
    · rw [restore_unread hrestore]
      exact iff_of_false (by simp) (not_not_intro hrestore)
    · refine iff_of_true (commandText_reads ?_) hrestore
      rcases hplan with hplan | hplan | hplan
      · exact installPlan_reads hplan hname hqueue s hs hrun
      · exact uninstallPlan_reads hplan hqueue s hs hrestore hrun
      · exact removeVendorPlan_reads hplan s hs hrun
  · clear hplan
    induction plan with
    | nil => exact List.Sublist.slnil
    | cons s plan ih =>
      rw [List.map_cons, planPrint, List.flatMap_cons]
      split_ifs
      · exact ih.cons_cons _
      · exact (ih.cons_cons _).cons _
  · rw [stepLines_executePrint]
    exact (Plan.steps_prefix (fun i s => stepRc (attempt i) s) Step.ignoreFailure plan).map printStep

/-- The uninstall of a Mac with the vendor queue backed up, whose restore command
is the exception. -/
theorem dryRun_shows_restore :
    let info := { installedMac with backupExists := true }
    ∃ plan, uninstallPlan info none = .ok plan ∧
      ∀ s ∈ plan, s.kind = .run →
        (words (commandText s) = some s.argv ↔ s ∉ restoreVendorSteps info) := by
  intro info
  have hplan : uninstallPlan info none = .ok (planOf (stopSteps info ++ removeQueueSteps info ++
      clearSteps info none)) := rfl
  have hname : Quotable (printerName none) := quotable_fixed (by simp [fixedArgs, printerName])
  have hqueue : Quotable info.ourQueueName :=
    quotable_of_ordinary fun _ hc => absurd hc List.not_mem_nil
  exact ⟨_, hplan, (dryRun_shows (.inr (.inl hplan)) hname hqueue).1⟩

end Airbridge.Service
