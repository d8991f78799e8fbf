import Airbridge.Service.Plist

/-!
# The install and uninstall plans

A plan is a list of steps, built from an inspection of the machine
(`service.c`).  `add_step` drops what does not fit the plan; the bounds below
show that neither plan ever gets there.
-/

namespace Airbridge.Service

open Airbridge.Qpdl (ascii)
open CString (fit formatInt atoi)

/-! ## Inspections -/

/-- `m2022_launchd_state_t`. -/
structure LaunchdState where
  loaded : Bool
  running : Bool
  pid : Int
deriving Repr, DecidableEq

/-- `m2022_service_info_t`. -/
structure ServiceInfo where
  root : Bool
  userExists : Bool
  userUid : Int
  userGid : Int
  freeUid : Int
  binaryInstalled : Bool
  plistExists : Bool
  launchd : LaunchdState
  usbPrinter : Bool
  vendorQueue : Bool
  vendorPpd : Bool
  vendorDriver : Bool
  ourQueue : Bool
  ourQueueName : CString
  backupExists : Bool
  queueMarker : Bool
  supportDir : Bool
  spoolDir : Bool
  logDir : Bool
  stateFile : Bool
  logFile : Bool
  selfPath : CString
deriving Repr, DecidableEq

/-- `m2022_plan_options_t`. -/
structure PlanOptions where
  purge : Bool
  keepVendor : Bool
  testPage : Bool
deriving Repr, DecidableEq

/-! ## Steps -/

/-- `m2022_step_kind_t`. -/
inductive StepKind where
  | run
  | write
  | mkdir
  | copy
  | remove
  | waitIpp
  | note
deriving Repr, DecidableEq

/-- `m2022_step_t`. -/
structure Step where
  kind : StepKind
  text : CString
  argv : List CString := []
  path : CString := []
  src : CString := []
  owner : CString := []
  mode : Nat := 0
  content : CString := []
  port : Int := 0
  ignoreFailure : Bool := false
  retries : Nat := 0
deriving Repr, DecidableEq

def PLAN_MAX : Nat := 48
def STEP_MAX_ARGS : Nat := 16
/-- The size of `argbuf`. -/
def STEP_ARGBUF : Nat := 1024

/-- The arguments that `add_run` stores, with `n` stored so far in `used`
bytes: it stops at the first that does not fit. -/
def packArgs (n used : Nat) : List CString → List CString
  | [] => []
  | arg :: args =>
    if n + 1 < STEP_MAX_ARGS then
      if used + (arg.length + 1) > STEP_ARGBUF then []
      else arg :: packArgs (n + 1) (used + (arg.length + 1)) args
    else []

theorem packArgs_cons {n used : Nat} {arg : CString} {args : List CString}
    (hn : n + 1 < STEP_MAX_ARGS) (hroom : used + (arg.length + 1) ≤ STEP_ARGBUF) :
    packArgs n used (arg :: args) = arg :: packArgs (n + 1) (used + (arg.length + 1)) args := by
  rw [packArgs, if_pos hn, if_neg (Nat.not_lt.mpr hroom)]

/-- Arguments that fit are all stored. -/
theorem packArgs_eq_self {n used : Nat} {args : List CString} (hn : n + args.length < STEP_MAX_ARGS)
    (hroom : used + (args.map fun arg => arg.length + 1).sum ≤ STEP_ARGBUF) :
    packArgs n used args = args := by
  induction args generalizing n used with
  | nil => rfl
  | cons arg args ih =>
    rw [List.length_cons] at hn
    rw [List.map_cons, List.sum_cons] at hroom
    rw [packArgs_cons (by omega) (by omega), ih (by omega) (by omega)]

/-- A step as `add_step` leaves it. -/
def newStep (kind : StepKind) (text : CString) : Step := { kind := kind, text := fit 160 text }

/-- The step of `add_run`. -/
def runStep (text : CString) (args : List CString) : Step :=
  { newStep .run text with argv := packArgs 0 0 args }

@[simp] theorem runStep_argv (text : CString) (args : List CString) :
    (runStep text args).argv = packArgs 0 0 args := rfl

/-- The step of `add_write`. -/
def writeStep (text path content : CString) (mode : Nat) : Step :=
  { newStep .write text with
    path := fit 512 path
    content := content
    mode := mode }

/-- The step of `add_mkdir`. -/
def mkdirStep (path : CString) (mode : Nat) (owner : CString) : Step :=
  { newStep .mkdir (fit 200 (ascii "create " ++ path)) with
    path := fit 512 path
    owner := fit 64 owner
    mode := mode }

/-- The step of `add_copy`. -/
def copyStep (text src path : CString) (mode : Nat) : Step :=
  { newStep .copy text with
    src := fit 1024 src
    path := fit 512 path
    mode := mode }

/-- The step of `add_remove`. -/
def removeStep (path : CString) : Step :=
  { newStep .remove (fit 200 (ascii "remove " ++ path)) with path := fit 512 path }

/-- The step of `add_note`. -/
def noteStep (text : CString) : Step := newStep .note text

/-- `s->ignore_failure = true`. -/
def Step.ignored (s : Step) : Step := { s with ignoreFailure := true }

/-- `add_step`. -/
def addStep (plan : List Step) (s : Step) : List Step :=
  if plan.length ≥ PLAN_MAX then plan else plan ++ [s]

/-- Steps added one after the other to an empty plan. -/
def planOf (steps : List Step) : List Step := steps.foldl addStep []

/-! ## Install -/

def serviceOwner : CString := SERVICE_USER ++ ascii ":" ++ SERVICE_USER

def keepsVendor (o : Option PlanOptions) : Bool := o.any PlanOptions.keepVendor

/-- Stopping a loaded service. -/
def bootoutStep (text : CString) : Step :=
  (runStep text [ascii "launchctl", ascii "bootout", ascii "system/" ++ SERVICE_LABEL]).ignored

/-- A `dscl . -create` of the service user or group. -/
def dsclStep (text : CString) (args : List CString) : Step :=
  runStep text ([ascii "dscl", ascii ".", ascii "-create"] ++ args)

/-- The group and the hidden user. -/
def userSteps (uid : CString) : List Step :=
  let group := ascii "/Groups/" ++ SERVICE_USER
  let user := ascii "/Users/" ++ SERVICE_USER
  [ dsclStep (ascii "create the service group") [group],
    dsclStep (ascii "group id") [group, ascii "PrimaryGroupID", uid],
    dsclStep (ascii "group name") [group, ascii "RealName", ascii "M2022 AirBridge"],
    dsclStep (ascii "create the hidden service user") [user],
    dsclStep (ascii "user id") [user, ascii "UniqueID", uid],
    dsclStep (ascii "user group") [user, ascii "PrimaryGroupID", uid],
    dsclStep (ascii "no login shell") [user, ascii "UserShell", ascii "/usr/bin/false"],
    dsclStep (ascii "home is the support directory")
      [user, ascii "NFSHomeDirectory", SERVICE_SUPPORT_DIR],
    dsclStep (ascii "user name") [user, ascii "RealName", ascii "M2022 AirBridge"],
    dsclStep (ascii "hidden from the login window") [user, ascii "IsHidden", ascii "1"] ]

/-- The directories and the log file. -/
def directorySteps : List Step :=
  [ mkdirStep SERVICE_SUPPORT_DIR 0o750 serviceOwner,
    mkdirStep SERVICE_BACKUP_DIR 0o750 serviceOwner,
    mkdirStep SERVICE_SPOOL_DIR 0o700 serviceOwner,
    mkdirStep SERVICE_LOG_DIR 0o755 serviceOwner,
    runStep (ascii "create the log file") [ascii "touch", SERVICE_LOG_FILE],
    runStep (ascii "owned by the service user") [ascii "chown", serviceOwner, SERVICE_LOG_FILE],
    runStep (ascii "readable by everyone") [ascii "chmod", ascii "644", SERVICE_LOG_FILE] ]

def binaryStep (info : ServiceInfo) : Step :=
  copyStep (ascii "install the binary") info.selfPath SERVICE_BINARY 0o755

/-- The USB check as the service user, tried six times. -/
def probeStep : Step :=
  { runStep (ascii "check that the service user can open the printer")
      [ascii "sudo", ascii "-u", SERVICE_USER, SERVICE_BINARY, ascii "probe", ascii "--quiet"] with
    retries := 5 }

def ppdBackupStep : Step :=
  copyStep (ascii "back up the Samsung queue's PPD") VENDOR_PPD
    (SERVICE_BACKUP_DIR ++ ascii "/" ++ VENDOR_QUEUE ++ ascii ".ppd") 0o644

def uriBackupStep : Step :=
  (runStep (ascii "back up the Samsung queue's device URI") [ascii "sh", ascii "-c",
    ascii "lpstat -v " ++ VENDOR_QUEUE ++ ascii " | sed 's/^.*: //' > '" ++ SERVICE_BACKUP_DIR
      ++ ascii "/device-uri.txt'"]).ignored

def optionsBackupStep : Step :=
  (runStep (ascii "back up the Samsung queue's options") [ascii "sh", ascii "-c",
    ascii "lpoptions -p " ++ VENDOR_QUEUE ++ ascii " -l > '" ++ SERVICE_BACKUP_DIR
      ++ ascii "/lpoptions.txt'"]).ignored

def removeVendorStep : Step :=
  runStep (ascii "remove the Samsung queue (one USB owner, ADR-006)")
    [ascii "lpadmin", ascii "-x", VENDOR_QUEUE]

/-- The vendor queue is backed up and removed, or kept when asked. -/
def vendorSteps (info : ServiceInfo) (o : Option PlanOptions) : List Step :=
  if info.vendorQueue = true ∧ keepsVendor o = false then
    (if info.vendorPpd then [ppdBackupStep] else []) ++
      [uriBackupStep, optionsBackupStep, removeVendorStep]
  else if info.vendorQueue then
    [noteStep (ascii "keeping the Samsung queue as asked; do not print to both at once")]
  else []

def plistStep (p : Option ServiceParams) : Step :=
  writeStep (ascii "write the launchd job") SERVICE_PLIST (servicePlist p 4096) 0o644

def bootstrapStep : Step :=
  runStep (ascii "start the service")
    [ascii "launchctl", ascii "bootstrap", ascii "system", SERVICE_PLIST]

/-- The port as `snprintf(port, sizeof port, "%d", ...)` prints it. -/
def portText (p : Option ServiceParams) : CString := fit 16 (formatInt (servicePort p))

/-- The launchd job is written and started. -/
def serviceSteps (p : Option ServiceParams) : List Step :=
  [ plistStep p,
    writeStep (ascii "rotate the log with newsyslog") SERVICE_NEWSYSLOG (serviceNewsyslog 256) 0o644,
    bootstrapStep,
    { newStep .waitIpp (ascii "wait for the printer to answer IPP") with
      port := atoi (portText p) } ]

def queueUri (p : Option ServiceParams) : CString :=
  fit 128 (ascii "ipp://localhost:" ++ portText p ++ ascii "/ipp/print")

theorem queueUri_eq (p : Option ServiceParams) :
    queueUri p = ascii "ipp://localhost:" ++ portText p ++ ascii "/ipp/print" := by
  have hport : (portText p).length ≤ 15 := CString.length_fit_le 16 _
  have hfront : (ascii "ipp://localhost:").length = 16 := rfl
  have hback : (ascii "/ipp/print").length = 10 := rfl
  refine CString.fit_eq ?_
  rw [List.length_append, List.length_append, hfront, hback]
  omega

def addQueueStep (p : Option ServiceParams) : Step :=
  runStep (ascii "add the printer to this Mac (driverless queue)")
    [ascii "lpadmin", ascii "-p", SERVICE_QUEUE, ascii "-E", ascii "-v", queueUri p, ascii "-m",
      ascii "everywhere", ascii "-D", printerName p, ascii "-L", ascii "USB"]

/-- A queue is created unless one points at the printer. -/
def queueSteps (info : ServiceInfo) (p : Option ServiceParams) : List Step :=
  if info.ourQueue then []
  else
    [ addQueueStep p,
      writeStep (ascii "remember that the installer created the queue") SERVICE_QUEUE_MARKER
        (ascii "created by m2022-airbridge install\n") 0o644 ]

def testPageSteps (info : ServiceInfo) (o : Option PlanOptions) : List Step :=
  if o.any PlanOptions.testPage then
    [(runStep (ascii "print a test page") [ascii "lp", ascii "-d",
      if info.ourQueue then info.ourQueueName else SERVICE_QUEUE,
      ascii "/usr/share/cups/data/testprint"]).ignored]
  else []

def installedNote : Step :=
  noteStep (ascii "installed; `m2022-airbridge doctor` checks everything, `status` and `logs` "
    ++ ascii "watch it")

/-- What stands in front of the USB check. -/
def beforeProbe (info : ServiceInfo) : List Step :=
  (if info.launchd.loaded then [bootoutStep (ascii "stop the running service")] else []) ++
    (if info.userExists then [] else userSteps (fit 16 (formatInt info.freeUid))) ++
    directorySteps ++ [binaryStep info]

/-- What stands behind the USB check. -/
def afterProbe (info : ServiceInfo) (p : Option ServiceParams) (o : Option PlanOptions) :
    List Step :=
  vendorSteps info o ++ serviceSteps p ++ queueSteps info p ++ testPageSteps info o ++
    [installedNote]

/-- `m2022_service_install_plan`, or why there is none. -/
def installPlan (info : ServiceInfo) (p : Option ServiceParams) (o : Option PlanOptions) :
    Except CString (List Step) :=
  if info.usbPrinter = false then
    .error (ascii "no Samsung SL-M2022 (04e8:3321) on USB; switch it on and "
      ++ ascii "connect it, then run install again")
  else if info.userExists = false ∧ info.freeUid = 0 then
    .error (ascii "no free UID between " ++ formatInt SERVICE_UID_MIN ++ ascii " and "
      ++ formatInt SERVICE_UID_MAX ++ ascii " for the service user")
  else if info.selfPath = [] then
    .error (ascii "cannot find this executable to install it")
  else .ok (planOf (beforeProbe info ++ probeStep :: afterProbe info p o))

/-! ## Uninstall -/

/-- Removing the queue the inspection found, when the marker says that the
installer created one. -/
def removeQueueSteps (info : ServiceInfo) : List Step :=
  if info.queueMarker = true ∧ info.ourQueue = true then
    [ (runStep (ascii "remove the queue the installer created")
        [ascii "lpadmin", ascii "-x", info.ourQueueName]).ignored,
      removeStep SERVICE_QUEUE_MARKER ]
  else []

def restoreVendorSteps (info : ServiceInfo) : List Step :=
  if info.backupExists = true ∧ info.vendorQueue = false then
    [(runStep (ascii "restore the Samsung queue from the backup (needs the vendor driver)")
      [ascii "sh", ascii "-c",
        ascii "lpadmin -p " ++ VENDOR_QUEUE ++ ascii " -E -v \"$(cat '" ++ SERVICE_BACKUP_DIR
          ++ ascii "/device-uri.txt')\" -P '" ++ SERVICE_BACKUP_DIR ++ ascii "/" ++ VENDOR_QUEUE
          ++ ascii ".ppd'"]).ignored]
  else []

def purgeSteps (info : ServiceInfo) : List Step :=
  [ runStep (ascii "remove the spool") [ascii "rm", ascii "-rf", SERVICE_SPOOL_DIR],
    runStep (ascii "remove the logs") [ascii "rm", ascii "-rf", SERVICE_LOG_DIR],
    runStep (ascii "remove state, backups and the support directory")
      [ascii "rm", ascii "-rf", SERVICE_SUPPORT_DIR] ] ++
    (if info.userExists then
      [ runStep (ascii "delete the service user")
          [ascii "dscl", ascii ".", ascii "-delete", ascii "/Users/" ++ SERVICE_USER],
        (runStep (ascii "delete the service group")
          [ascii "dscl", ascii ".", ascii "-delete", ascii "/Groups/" ++ SERVICE_USER]).ignored ]
    else [])

/-- What stands in front of the removal of the queue. -/
def stopSteps (info : ServiceInfo) : List Step :=
  (if info.launchd.loaded then [bootoutStep (ascii "stop the service")] else []) ++
    [removeStep SERVICE_PLIST, removeStep SERVICE_NEWSYSLOG]

/-- What stands behind it. -/
def clearSteps (info : ServiceInfo) (o : Option PlanOptions) : List Step :=
  restoreVendorSteps info ++ [removeStep SERVICE_BINARY] ++
    (if o.any PlanOptions.purge then purgeSteps info
    else
      [noteStep (ascii "kept the state, logs, backups and the service user (uninstall --purge "
        ++ ascii "removes them)")])

/-- `m2022_service_uninstall_plan`, or why there is none. -/
def uninstallPlan (info : ServiceInfo) (o : Option PlanOptions) : Except CString (List Step) :=
  if info.plistExists = false ∧ info.binaryInstalled = false ∧ info.userExists = false then
    .error (ascii "nothing is installed")
  else .ok (planOf (stopSteps info ++ removeQueueSteps info ++ clearSteps info o))

/-! ## The plans fit -/

/-- Up to the size of a plan nothing is dropped. -/
theorem planOf_eq {steps : List Step} (h : steps.length ≤ PLAN_MAX) : planOf steps = steps := by
  have hfold : ∀ (plan steps : List Step), plan.length + steps.length ≤ PLAN_MAX →
      steps.foldl addStep plan = plan ++ steps := by
    intro plan steps
    induction steps generalizing plan with
    | nil => exact fun _ => (List.append_nil plan).symm
    | cons s steps ih =>
      intro hle
      rw [List.length_cons] at hle
      have hadd : addStep plan s = plan ++ [s] := if_neg (by omega)
      rw [List.foldl_cons, hadd, ih (plan ++ [s]) (by simpa using by omega)]
      simp
  exact hfold [] steps (by simpa using h)

theorem length_beforeProbe (info : ServiceInfo) :
    (beforeProbe info).length = (if info.launchd.loaded then 1 else 0) +
      (if info.userExists then 0 else 10) + 8 := by
  unfold beforeProbe
  rw [List.length_append, List.length_append, List.length_append]
  split_ifs <;> rfl

theorem length_afterProbe_le (info : ServiceInfo) (p : Option ServiceParams)
    (o : Option PlanOptions) : (afterProbe info p o).length ≤ 12 := by
  have hvendor : (vendorSteps info o).length ≤ 4 := by
    unfold vendorSteps
    split_ifs <;> simp
  have hqueue : (queueSteps info p).length ≤ 2 := by
    unfold queueSteps
    split_ifs <;> simp
  have htest : (testPageSteps info o).length ≤ 1 := by
    unfold testPageSteps
    split_ifs <;> simp
  have hservice : (serviceSteps p).length = 4 := rfl
  unfold afterProbe
  simp only [List.length_append, List.length_singleton]
  omega

/-- An install plan has the USB check between its two parts. -/
theorem installPlan_ok {info : ServiceInfo} {p : Option ServiceParams} {o : Option PlanOptions}
    {plan : List Step} (h : installPlan info p o = .ok plan) :
    plan = beforeProbe info ++ probeStep :: afterProbe info p o := by
  have hlen : (beforeProbe info ++ probeStep :: afterProbe info p o).length ≤ PLAN_MAX := by
    have hbefore := length_beforeProbe info
    have hafter := length_afterProbe_le info p o
    rw [List.length_append, List.length_cons, hbefore]
    show _ ≤ 48
    split_ifs <;> omega
  unfold installPlan at h
  split_ifs at h
  rw [← planOf_eq hlen]
  exact (Except.ok.inj h).symm

theorem uninstallPlan_ok {info : ServiceInfo} {o : Option PlanOptions} {plan : List Step}
    (h : uninstallPlan info o = .ok plan) :
    plan = stopSteps info ++ removeQueueSteps info ++ clearSteps info o := by
  have hstop : (stopSteps info).length ≤ 3 := by
    unfold stopSteps
    split_ifs <;> decide
  have hqueue : (removeQueueSteps info).length ≤ 2 := by
    unfold removeQueueSteps
    split_ifs <;> simp
  have hclear : (clearSteps info o).length ≤ 7 := by
    unfold clearSteps restoreVendorSteps purgeSteps
    split_ifs <;> decide
  have hlen : (stopSteps info ++ removeQueueSteps info ++ clearSteps info o).length ≤ PLAN_MAX := by
    rw [List.length_append, List.length_append]
    show _ ≤ 48
    omega
  unfold uninstallPlan at h
  split_ifs at h
  rw [← planOf_eq hlen]
  exact (Except.ok.inj h).symm

end Airbridge.Service
