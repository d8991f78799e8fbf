import Airbridge.Service.Install

/-!
# Removing the vendor driver

`m2022_service_remove_vendor_plan` (`service.c`) deletes the driver package of
the vendor behind a backup of it.
-/

namespace Airbridge.Service

open Airbridge.Qpdl (ascii)

def VENDOR_DRIVER_DIR : CString := ascii "/Library/Printers/Samsung"
def VENDOR_PPD_DIR : CString := ascii "/Library/Printers/PPDs/Contents/Resources"
def VENDOR_CACHE_DIR : CString := ascii "/Library/Caches/com.sec.printer"
def VENDOR_RECEIPT : CString := ascii "com.samsung.PrinterDriverInstaller.pkg"
def VENDOR_BACKUP_TAR : CString := SERVICE_BACKUP_DIR ++ ascii "/vendor-driver.tar.gz"

/-! ## The plan -/

def backupDirStep (info : ServiceInfo) : Step :=
  mkdirStep SERVICE_BACKUP_DIR 0o750 (if info.userExists then serviceOwner else [])

/-- The archive of the driver directory and of the PPDs whose names begin like
the vendor's. -/
def driverBackupStep : Step :=
  runStep (ascii "back up the driver files and PPDs") [ascii "sh", ascii "-c",
    ascii "cd / && find " ++ VENDOR_PPD_DIR
      ++ ascii "/. -maxdepth 1 -name 'Samsung *' -print0 | tar czf '" ++ VENDOR_BACKUP_TAR
      ++ ascii "' --null -T - " ++ VENDOR_DRIVER_DIR]

def deleteDriverStep : Step :=
  runStep (ascii "delete the driver files") [ascii "rm", ascii "-rf", VENDOR_DRIVER_DIR]

def deletePpdsStep : Step :=
  runStep (ascii "delete the Samsung PPDs")
    [ascii "sh", ascii "-c", ascii "rm -f '" ++ VENDOR_PPD_DIR ++ ascii "/Samsung '*"]

/-- What stands behind the backup. -/
def afterDriverBackup (info : ServiceInfo) : List Step :=
  (if info.vendorQueue then
    [(runStep (ascii "remove the Samsung queue")
      [ascii "lpadmin", ascii "-x", VENDOR_QUEUE]).ignored]
  else []) ++
  [ deleteDriverStep,
    deletePpdsStep,
    (runStep (ascii "delete the driver cache") [ascii "rm", ascii "-rf", VENDOR_CACHE_DIR]).ignored,
    (runStep (ascii "forget the package receipt")
      [ascii "pkgutil", ascii "--forget", VENDOR_RECEIPT]).ignored,
    noteStep (ascii "restore with: sudo tar xzf '" ++ VENDOR_BACKUP_TAR ++ ascii "' -C /") ]

def removingNote : Step :=
  noteStep (ascii "removing Samsung's driver package (Intel-only, unusable after macOS 28); "
    ++ ascii "a backup is made first")

/-- `m2022_service_remove_vendor_plan`, or why there is none. -/
def removeVendorPlan (info : ServiceInfo) : Except CString (List Step) :=
  if info.vendorDriver = false then
    .error (ascii "no Samsung driver package at " ++ VENDOR_DRIVER_DIR)
  else
    .ok (planOf (removingNote :: backupDirStep info :: driverBackupStep :: afterDriverBackup info))

theorem removeVendorPlan_ok {info : ServiceInfo} {plan : List Step}
    (h : removeVendorPlan info = .ok plan) :
    plan = removingNote :: backupDirStep info :: driverBackupStep :: afterDriverBackup info := by
  have hlen : (removingNote :: backupDirStep info :: driverBackupStep ::
      afterDriverBackup info).length ≤ PLAN_MAX := by
    unfold afterDriverBackup
    split_ifs <;> simp [PLAN_MAX]
  unfold removeVendorPlan at h
  split_ifs at h
  rw [← planOf_eq hlen]
  exact (Except.ok.inj h).symm

/-! ## The order of a removal -/

/-- A command other than the backup: each of them deletes something. -/
def Deletes (s : Step) : Prop := s.kind = .run ∧ s.argv ≠ driverBackupStep.argv

instance (s : Step) : Decidable (Deletes s) := inferInstanceAs (Decidable (_ ∧ _))

/-- The front in the pattern of a script `rm -f 'FRONT'*`. -/
def patternFront (script : CString) : Option CString :=
  if ascii "rm -f '" <+: script then
    let front := (script.drop 7).takeWhile (· ≠ 39)
    if script = ascii "rm -f '" ++ front ++ ascii "'*" then some front else none
  else none

/-- How every path begins that a command removes: `rm -rf` removes its operand
and what is below it, and a script the files that its pattern matches.  Other
commands are given no path to remove. -/
def removedFront : List CString → Option CString
  | [cmd, option, arg] =>
    if cmd = ascii "rm" ∧ option = ascii "-rf" then some arg
    else if cmd = ascii "sh" ∧ option = ascii "-c" then patternFront arg
    else none
  | _ => none

/-- A command that is not given a path: the queue goes by its name, and the
receipt by that of its package. -/
def RemovesByName (s : Step) : Prop :=
  s.argv = [ascii "lpadmin", ascii "-x", VENDOR_QUEUE] ∨
    s.argv = [ascii "pkgutil", ascii "--forget", VENDOR_RECEIPT]

instance (s : Step) : Decidable (RemovesByName s) := inferInstanceAs (Decidable (_ ∨ _))

theorem removed_afterDriverBackup (info : ServiceInfo) :
    ∀ s ∈ afterDriverBackup info, Deletes s →
      RemovesByName s ∨
        ∃ front, removedFront s.argv = some front ∧ ¬front <+: VENDOR_BACKUP_TAR := by
  have hcheck : ∀ vendorQueue, ∀ s ∈ afterDriverBackup { freshMac with vendorQueue := vendorQueue },
      Deletes s → RemovesByName s ∨
        ((removedFront s.argv).any fun front => !front.isPrefixOf VENDOR_BACKUP_TAR) = true := by
    decide +kernel
  intro s hs hdeletes
  refine (hcheck info.vendorQueue s hs hdeletes).imp_right fun hany => ?_
  obtain ⟨front, hfront, hno⟩ := (Option.any_eq_true _ _).mp hany
  refine ⟨front, hfront, fun hprefix => ?_⟩
  rw [List.isPrefixOf_iff_prefix.mpr hprefix] at hno
  exact Bool.false_ne_true hno

/-- In a run that returns zero every step is carried out and succeeds, but for
those that may fail. -/
theorem carried_of_ret {attempt : Nat → Nat → Int} {plan : List Step}
    (hret : (execute attempt plan).ret = 0) {s : Step} (hs : s ∈ plan)
    (hfatal : s.ignoreFailure = false) :
    ∃ i, Carried attempt (execute attempt plan).done i s := by
  obtain ⟨i, hi⟩ := List.getElem?_of_mem hs
  have hpass := Plan.ret_eq_zero.mp hret
  have hdone := Plan.done_at hi fun j _ t ht => by
    rw [Nat.zero_add]
    exact hpass j t ht
  exact ⟨i, _, hdone, rfl, rfl, (passes_iff attempt i s).mp (hpass i s hi) hfatal⟩

/-- A run that gets to a deletion has made the directory and the archive first,
and one that returns zero has deleted the driver and its PPDs.  The paths that a
deletion removes, by its operand or by the pattern of its script, begin in
another way than that of the archive. -/
theorem removeVendor_saved (info : ServiceInfo) (plan : List Step)
    (hplan : removeVendorPlan info = .ok plan) (attempt : Nat → Nat → Int) :
    let r := execute attempt plan
    (∀ d ∈ r.done, Deletes d.step →
      ∃ i j, i < j ∧ j < d.index ∧ Carried attempt r.done i (backupDirStep info) ∧
        Carried attempt r.done j driverBackupStep) ∧
    (r.ret = 0 → (∃ i, Carried attempt r.done i deleteDriverStep) ∧
      ∃ i, Carried attempt r.done i deletePpdsStep) ∧
    ∀ s ∈ plan, Deletes s →
      RemovesByName s ∨ ∃ front, removedFront s.argv = some front ∧ ¬front <+: VENDOR_BACKUP_TAR := by
  have hnote : removingNote.kind ≠ .run := by
    decide
  have hmkdir : (backupDirStep info).kind ≠ .run := StepKind.noConfusion
  obtain rfl := removeVendorPlan_ok hplan
  refine ⟨fun d hd hdeletes => ?_, fun hret => ⟨?_, ?_⟩, ?_⟩
  · have hfront : ∀ s ∈ [removingNote, backupDirStep info], ¬Deletes s := by
      intro s hs hdeletes
      rcases List.mem_cons.mp hs with rfl | hs
      · exact hnote hdeletes.1
      · rw [List.mem_singleton.mp hs] at hdeletes
        exact hmkdir hdeletes.1
    have hbefore : ∀ s ∈ [removingNote], s.kind ≠ .run := by
      intro s hs
      rw [List.mem_singleton.mp hs]
      exact hnote
    have hfatal : driverBackupStep.ignoreFailure = false := rfl
    have hmkdirFatal : (backupDirStep info).ignoreFailure = false := rfl
    have hbackupStays : ¬Deletes driverBackupStep := fun h => h.2 rfl
    obtain ⟨hlt, hbackup⟩ := carried_of_behind hfatal hfront hbackupStays hd hdeletes
    obtain ⟨-, hdir⟩ := carried_of_behind hmkdirFatal hbefore hmkdir hd hdeletes.1
    exact ⟨1, 2, Nat.one_lt_two, hlt, hdir, hbackup⟩
  · exact carried_of_ret hret (by simp [afterDriverBackup]) rfl
  · exact carried_of_ret hret (by simp [afterDriverBackup]) rfl
  · intro s hs hdeletes
    have hafter : s ∈ afterDriverBackup info := by
      simp only [List.mem_cons] at hs
      rcases hs with rfl | rfl | rfl | hs
      · exact absurd hdeletes.1 hnote
      · exact absurd hdeletes.1 hmkdir
      · exact absurd rfl hdeletes.2
      · exact hs
    exact removed_afterDriverBackup info s hafter hdeletes

/-- A Mac with the vendor's driver and queue, on which every step succeeds. -/
theorem removeVendor_saved_mac :
    let info := { freshMac with vendorDriver := true, vendorQueue := true }
    ∃ plan, removeVendorPlan info = .ok plan ∧
      ∀ d ∈ (execute (fun _ _ => 0) plan).done, Deletes d.step →
        ∃ i j, i < j ∧ j < d.index ∧
          Carried (fun _ _ => 0) (execute (fun _ _ => 0) plan).done i (backupDirStep info) ∧
          Carried (fun _ _ => 0) (execute (fun _ _ => 0) plan).done j driverBackupStep := by
  intro info
  have hplan : removeVendorPlan info = .ok (planOf (removingNote :: backupDirStep info ::
      driverBackupStep :: afterDriverBackup info)) := rfl
  exact ⟨_, hplan, (removeVendor_saved info _ hplan fun _ _ => 0).1⟩

end Airbridge.Service
