import Airbridge.Service.Install
import Airbridge.Service.XmlEscape
import Mathlib.Tactic.Linarith

/-!
# One name and one port

The name given to an install goes into the launchd job through `xml_escape`,
which has 256 bytes, and into the arguments of the queue step through
`add_run`, which has 1024.  The job keeps the whole name exactly when the
escaped text of all but its last byte is shorter than 250 bytes
(`xmlDecode_xmlEscape_iff`); a name that fits there fits the arguments too.
-/

namespace Airbridge.Service

open Airbridge.Qpdl (ascii ascii_ofList)
open CString (fit formatInt atoi decimal strstr)

/-! ## The arguments in a job -/

/-- The text that the program arguments of a job have behind an option. -/
def jobArgument (job option : CString) : Option CString :=
  let mark := option ++ ascii "</string>\n\t\t<string>"
  (strstr job mark).map fun s => (s.drop mark.length).takeWhile fun b => b != 60

theorem length_formatInt_port {p : Option ServiceParams} (hport : servicePort p < 2 ^ 31) :
    formatInt (servicePort p) = decimal (servicePort p).natAbs ∧
      (formatInt (servicePort p)).length ≤ 10 := by
  have hpos : 0 < servicePort p := by
    unfold servicePort
    split
    · split_ifs with h
      · exact h
      · decide
    · decide
  have hdecimal : formatInt (servicePort p) = decimal (servicePort p).natAbs := by
    rw [formatInt, if_neg (by omega)]
  refine ⟨hdecimal, ?_⟩
  rw [hdecimal]
  exact CString.length_decimal_le (by decide) (by omega)

/-- The digits of the port are neither a dash nor the start of a tag. -/
theorem not_mem_port {p : Option ServiceParams} (hport : servicePort p < 2 ^ 31) :
    45 ∉ formatInt (servicePort p) ∧ 60 ∉ formatInt (servicePort p) := by
  rw [(length_formatInt_port hport).1]
  constructor
  · intro hmem
    exact absurd (CString.isDigit_of_mem_decimal hmem) (by decide)
  · intro hmem
    exact absurd (CString.isDigit_of_mem_decimal hmem) (by decide)

theorem jobArgument_skip {option skipped : CString}
    (h : CString.neverBegins (option ++ ascii "</string>\n\t\t<string>") skipped = true)
    (s : CString) : jobArgument (skipped ++ s) option = jobArgument s option := by
  rw [jobArgument, CString.strstr_skip_of_neverBegins h]
  rfl

theorem jobArgument_found {option value : CString} (hvalue : 60 ∉ value) (back : CString) :
    jobArgument ((option ++ ascii "</string>\n\t\t<string>") ++
      (value ++ (ascii "</string>\n" ++ back))) option = some value := by
  have htag : (ascii "</string>\n" ++ back).takeWhile (fun b => b != 60) = [] := rfl
  have hall : ∀ b ∈ value, (b != 60) = true := by
    intro b hb
    rw [bne_iff_ne]
    rintro rfl
    exact hvalue hb
  rw [jobArgument, CString.strstr_append, Option.map_some, List.drop_left,
    List.takeWhile_append_of_pos hall, htag, List.append_nil]

/-- The port and the name in a job, which is never cut. -/
theorem jobArgument_servicePlist {p : Option ServiceParams} (hport : servicePort p < 2 ^ 31) :
    jobArgument (servicePlist p 4096) (ascii "--port") = some (formatInt (servicePort p)) ∧
      jobArgument (servicePlist p 4096) (ascii "--name") =
        some (xmlEscape 256 0 (printerName p)) := by
  have hdash : CString.neverBegins (ascii "--name" ++ ascii "</string>\n\t\t<string>")
      (formatInt (servicePort p)) = true := by
    repeat rw [ascii_ofList]
    exact CString.neverBegins_of_not_mem (c := 45) rfl (not_mem_port hport).1
  have hportMark : ascii "\t\t<string>--port</string>\n\t\t<string>" =
      ascii "\t\t<string>" ++ (ascii "--port" ++ ascii "</string>\n\t\t<string>") := by
    repeat rw [ascii_ofList]
    rfl
  have hnameMark : ascii "\t\t<string>--name</string>\n\t\t<string>" =
      ascii "\t\t<string>" ++ (ascii "--name" ++ ascii "</string>\n\t\t<string>") := by
    repeat rw [ascii_ofList]
    rfl
  have hport10 := (length_formatInt_port hport).2
  have hname := length_xmlEscape_le 256 0 (printerName p)
  have hempty : (servicePlist (some ⟨some [], 1⟩) 4096).length < 4095 - 266 := by
    simp only [servicePlist, SERVICE_LABEL, SERVICE_BINARY, SERVICE_SPOOL_DIR, SERVICE_LOG_FILE,
      SERVICE_LOG_DIR, SERVICE_STATE_FILE, SERVICE_SUPPORT_DIR, SERVICE_USER]
    repeat rw [ascii_ofList]
    decide +kernel
  unfold servicePlist at hempty ⊢
  dsimp only at hempty ⊢
  rw [CString.fit_eq]
  rotate_left
  · simp only [fit, List.length_take] at hempty
    have hless := (min_lt_iff.mp hempty).resolve_left (by decide)
    simp only [List.length_append] at hless ⊢
    linarith
  simp only [List.append_assoc, SERVICE_LABEL, SERVICE_BINARY, SERVICE_SPOOL_DIR, SERVICE_LOG_FILE,
    SERVICE_LOG_DIR, SERVICE_STATE_FILE, SERVICE_SUPPORT_DIR, SERVICE_USER]
  constructor
  · simp (disch := (repeat rw [ascii_ofList]); decide +kernel) only [jobArgument_skip]
    rw [hportMark, List.append_assoc (ascii "\t\t<string>"),
      jobArgument_skip (by (repeat rw [ascii_ofList]); decide +kernel)]
    exact jobArgument_found (not_mem_port hport).2 _
  · simp (disch := (repeat rw [ascii_ofList]); decide +kernel) only [jobArgument_skip]
    rw [jobArgument_skip hdash]
    simp (disch := (repeat rw [ascii_ofList]); decide +kernel) only [jobArgument_skip]
    rw [hnameMark, List.append_assoc (ascii "\t\t<string>"),
      jobArgument_skip (by (repeat rw [ascii_ofList]); decide +kernel)]
    exact jobArgument_found (not_mem_xmlEscape _ _ _) _

/-! ## The steps that carry the name or the port -/

def Step.WritesJob (s : Step) : Prop := s.kind = .write ∧ s.path = SERVICE_PLIST

def Step.AddsQueue (s : Step) : Prop := s.Runs [ascii "lpadmin", ascii "-p"]

/-- The step writes the launchd job, waits for the printer or creates the
queue. -/
def Step.Carries (s : Step) : Prop := s.WritesJob ∨ s.kind = .waitIpp ∨ s.AddsQueue

instance (s : Step) : Decidable s.WritesJob := inferInstanceAs (Decidable (_ ∧ _))

instance (s : Step) : Decidable s.AddsQueue := inferInstanceAs (Decidable (s.Runs _))

instance (s : Step) : Decidable s.Carries := inferInstanceAs (Decidable (_ ∨ _))

/-- The name and one port are in all the places of a plan: the launchd job, the
wait step, and the queue step with all of its arguments. -/
structure Arrives (name : CString) (port : Int) (plan : List Step) : Prop where
  job : ∃ s ∈ plan, s.WritesJob
  wait : ∃ s ∈ plan, s.kind = .waitIpp
  queue : ∃ s ∈ plan, s.AddsQueue
  job_name : ∀ s ∈ plan, s.WritesJob →
    (jobArgument s.content (ascii "--name")).map xmlDecode = some name
  job_port : ∀ s ∈ plan, s.WritesJob →
    jobArgument s.content (ascii "--port") = some (formatInt port)
  wait_port : ∀ s ∈ plan, s.kind = .waitIpp → s.port = port
  queue_argv : ∀ s ∈ plan, s.AddsQueue → s.argv =
    [ascii "lpadmin", ascii "-p", SERVICE_QUEUE, ascii "-E", ascii "-v",
      ascii "ipp://localhost:" ++ formatInt port ++ ascii "/ipp/print", ascii "-m",
      ascii "everywhere", ascii "-D", name, ascii "-L", ascii "USB"]

def waitStep (p : Option ServiceParams) : Step :=
  { newStep .waitIpp (ascii "wait for the printer to answer IPP") with port := atoi (portText p) }

theorem not_carries {s : Step} (hirreversible : ¬Irreversible s) (hkind : s.kind ≠ .waitIpp) :
    ¬s.Carries := by
  rintro (hjob | hwait | hqueue)
  · exact hirreversible (.inr (.inr (.inr (.inl hjob))))
  · exact hkind hwait
  · exact hirreversible (.inr (.inr (.inr (.inr (.inr hqueue)))))

theorem beforeProbe_kind (info : ServiceInfo) : ∀ s ∈ beforeProbe info, s.kind ≠ .waitIpp := by
  intro s hs
  have hdscl (text : CString) (args : List CString) : (dsclStep text args).kind ≠ .waitIpp := by
    simp [dsclStep, runStep, newStep]
  simp only [beforeProbe, List.mem_append, List.mem_singleton] at hs
  rcases hs with ((hs | hs) | hs) | rfl
  · split_ifs at hs
    · rw [List.mem_singleton.mp hs]
      decide
    · exact absurd hs List.not_mem_nil
  · split_ifs at hs
    · exact absurd hs List.not_mem_nil
    · simp only [userSteps, List.mem_cons, List.not_mem_nil, or_false] at hs
      rcases hs with rfl | rfl | rfl | rfl | rfl | rfl | rfl | rfl | rfl | rfl <;> exact hdscl _ _
  · have hall : ∀ s ∈ directorySteps, s.kind ≠ .waitIpp := by decide +kernel
    exact hall s hs
  · simp [binaryStep, copyStep, newStep]

theorem vendorSteps_not_carries (info : ServiceInfo) (o : Option PlanOptions) :
    ∀ s ∈ vendorSteps info o, ¬s.Carries := by
  have hbackup : ∀ s ∈ [ppdBackupStep, uriBackupStep, optionsBackupStep, removeVendorStep],
      ¬s.Carries := by
    decide +kernel
  intro s hs
  unfold vendorSteps at hs
  split_ifs at hs with h1 h2 h3
  · exact hbackup s hs
  · exact hbackup s (List.mem_cons_of_mem _ hs)
  · rw [List.mem_singleton.mp hs]
    decide +kernel
  · exact absurd hs List.not_mem_nil

theorem testPageSteps_not_carries (info : ServiceInfo) (o : Option PlanOptions) :
    ∀ s ∈ testPageSteps info o, ¬s.Carries := by
  intro s hs
  by_cases htest : o.any PlanOptions.testPage = true
  · rw [testPageSteps, if_pos htest, List.mem_singleton] at hs
    rw [hs]
    refine not_carries ?_ (by simp [Step.ignored, runStep, newStep])
    have hlp : ascii "lp" ≠ ascii "sh" ∧ ascii "lp" ≠ ascii "lpadmin" ∧
        ascii "lp" ≠ ascii "launchctl" ∧ (ascii "lp").length < STEP_ARGBUF := by
      decide
    exact @not_irreversible_run (ascii "print a test page") _ _ hlp.2.2.2 hlp.1 hlp.2.1 hlp.2.2.1
  · rw [testPageSteps, if_neg htest] at hs
    exact absurd hs List.not_mem_nil

/-- What carries the name or the port is one of three steps. -/
theorem carries_cases {info : ServiceInfo} {p : Option ServiceParams} {o : Option PlanOptions}
    {s : Step} (hs : s ∈ beforeProbe info ++ probeStep :: afterProbe info p o)
    (h : s.Carries) : s = plistStep p ∨ s = waitStep p ∨ s = addQueueStep p := by
  simp only [afterProbe, List.mem_append, List.mem_cons, List.not_mem_nil, or_false] at hs
  rcases hs with hs | rfl | (((hs | hs) | hs) | hs) | rfl
  · exact absurd h (not_carries (beforeProbe_reversible info s hs) (beforeProbe_kind info s hs))
  · exact absurd h (by decide +kernel)
  · exact absurd h (vendorSteps_not_carries info o s hs)
  · simp only [serviceSteps, List.mem_cons, List.not_mem_nil, or_false] at hs
    rcases hs with rfl | rfl | rfl | rfl
    · exact .inl rfl
    · exact absurd h (by decide +kernel)
    · exact absurd h (by decide +kernel)
    · exact .inr (.inl rfl)
  · unfold queueSteps at hs
    split_ifs at hs
    · exact absurd hs List.not_mem_nil
    · simp only [List.mem_cons, List.not_mem_nil, or_false] at hs
      rcases hs with rfl | rfl
      · exact .inr (.inr rfl)
      · exact absurd h (by decide +kernel)
  · exact absurd h (testPageSteps_not_carries info o s hs)
  · exact absurd h (by decide +kernel)

@[simp] theorem writeStep_kind (text path content : CString) (mode : Nat) :
    (writeStep text path content mode).kind = .write := rfl

@[simp] theorem writeStep_content (text path content : CString) (mode : Nat) :
    (writeStep text path content mode).content = content := rfl

@[simp] theorem writeStep_path (text path content : CString) (mode : Nat) :
    (writeStep text path content mode).path = fit 512 path := rfl

/-- The kinds of the three steps tell them apart. -/
theorem carries_kinds (p : Option ServiceParams) :
    (plistStep p).WritesJob ∧ (waitStep p).kind = .waitIpp ∧ (addQueueStep p).kind = .run ∧
      (plistStep p).kind = .write := by
  have hkind : (plistStep p).kind = .write := writeStep_kind _ _ _ _
  have hpath : (plistStep p).path = fit 512 SERVICE_PLIST := writeStep_path _ _ _ _
  refine ⟨⟨hkind, ?_⟩, rfl, rfl, hkind⟩
  rw [hpath]
  decide +kernel

theorem plistStep_content (p : Option ServiceParams) :
    (plistStep p).content = servicePlist p 4096 := writeStep_content _ _ _ _

/-! ## The queue step -/

theorem portText_eq {p : Option ServiceParams} (hport : servicePort p < 2 ^ 31) :
    portText p = formatInt (servicePort p) := by
  have hlen := (length_formatInt_port hport).2
  exact CString.fit_eq (by omega)

/-- With a name that is not too long the arguments are complete. -/
theorem addQueueStep_argv {p : Option ServiceParams} (hname : (printerName p).length ≤ 250) :
    (addQueueStep p).argv =
      [ascii "lpadmin", ascii "-p", SERVICE_QUEUE, ascii "-E", ascii "-v", queueUri p, ascii "-m",
        ascii "everywhere", ascii "-D", printerName p, ascii "-L", ascii "USB"] := by
  have huri : (queueUri p).length ≤ 127 := CString.length_fit_le 128 _
  have hfixed : ([ascii "lpadmin", ascii "-p", SERVICE_QUEUE, ascii "-E", ascii "-v", ascii "-m",
      ascii "everywhere", ascii "-D", ascii "-L", ascii "USB"].map fun arg => arg.length + 1).sum =
        55 := by
    decide
  apply packArgs_eq_self
  · simp [STEP_MAX_ARGS]
  · simp only [List.map_cons, List.map_nil, List.sum_cons, List.sum_nil] at hfixed ⊢
    show _ ≤ 1024
    linarith

/-! ## One name and one port -/

theorem xmlDecode_job_iff (p : Option ServiceParams) (hport : servicePort p < 2 ^ 31) :
    (jobArgument (plistStep p).content (ascii "--name")).map xmlDecode = some (printerName p) ↔
      escapedLength (printerName p).dropLast < 250 := by
  rw [plistStep_content, (jobArgument_servicePlist hport).2, Option.map_some, Option.some_inj,
    xmlDecode_xmlEscape_iff]
  constructor
  · rintro (hnil | hfits)
    · rw [hnil]
      decide
    · omega
  · intro hfits
    right
    omega

/-- A name that fits arrives, with the port, in every place. -/
theorem arrives_of_fits {info : ServiceInfo} {p : Option ServiceParams} {o : Option PlanOptions}
    {plan : List Step} (hplan : installPlan info p o = .ok plan) (hqueue : info.ourQueue = false)
    (hport : servicePort p < 2 ^ 31) (hfits : escapedLength (printerName p).dropLast < 250) :
    Arrives (printerName p) (servicePort p) plan := by
  have hsteps := installPlan_ok hplan
  have hlen : (printerName p).length ≤ 250 := by
    have hle := length_le_escapedLength (printerName p).dropLast
    rw [List.length_dropLast] at hle
    omega
  have hargv := addQueueStep_argv hlen
  have hport_text := portText_eq hport
  obtain ⟨hjob, hwait, hrun, hwrite⟩ := carries_kinds p
  have hqueues : (addQueueStep p).AddsQueue := by
    refine ⟨hrun, ?_⟩
    rw [hargv]
    exact ⟨_, rfl⟩
  have hmem {s : Step} (hs : s ∈ serviceSteps p ++ queueSteps info p) : s ∈ plan := by
    rw [hsteps, afterProbe]
    simp only [List.mem_append, List.mem_cons] at hs ⊢
    tauto
  have honly {s : Step} (hs : s ∈ plan) (hcarries : s.Carries) :
      s = plistStep p ∨ s = waitStep p ∨ s = addQueueStep p := by
    rw [hsteps] at hs
    exact carries_cases hs hcarries
  have hplist {s : Step} (hs : s ∈ plan) (h : s.WritesJob) : s = plistStep p := by
    rcases honly hs (.inl h) with rfl | rfl | rfl
    · rfl
    · exact absurd (hwait.symm.trans h.1) (by decide)
    · exact absurd (hrun.symm.trans h.1) (by decide)
  have hadds {s : Step} (hs : s ∈ plan) (h : s.AddsQueue) : s = addQueueStep p := by
    rcases honly hs (.inr (.inr h)) with rfl | rfl | rfl
    · exact absurd (hwrite.symm.trans h.1) (by decide)
    · exact absurd (hwait.symm.trans h.1) (by decide)
    · rfl
  refine ⟨⟨plistStep p, hmem ?_, hjob⟩, ⟨waitStep p, hmem ?_, hwait⟩,
    ⟨addQueueStep p, hmem ?_, hqueues⟩, ?_, ?_, ?_, ?_⟩
  · simp [serviceSteps]
  · simp [serviceSteps, waitStep]
  · simp [queueSteps, hqueue]
  · intro s hs h
    rw [hplist hs h]
    exact (xmlDecode_job_iff p hport).mpr hfits
  · intro s hs h
    rw [hplist hs h, plistStep_content, (jobArgument_servicePlist hport).1]
  · intro s hs h
    rcases honly hs (.inr (.inl h)) with rfl | rfl | rfl
    · exact absurd (hwrite.symm.trans h) (by decide)
    · show atoi (portText p) = servicePort p
      rw [hport_text, CString.atoi_formatInt]
    · exact absurd (hrun.symm.trans h) (by decide)
  · intro s hs h
    rw [hadds hs h, hargv, queueUri_eq, hport_text]

/-- A name that is whole in the job fits. -/
theorem fits_of_arrives {info : ServiceInfo} {p : Option ServiceParams} {o : Option PlanOptions}
    {plan : List Step} {port : Int} (hplan : installPlan info p o = .ok plan)
    (hport : servicePort p < 2 ^ 31) (h : Arrives (printerName p) port plan) :
    escapedLength (printerName p).dropLast < 250 := by
  have hmem : plistStep p ∈ plan := by
    rw [installPlan_ok hplan, afterProbe]
    simp [serviceSteps]
  exact (xmlDecode_job_iff p hport).mp (h.job_name _ hmem (carries_kinds p).1)

/-- In an install plan that creates a queue, the printer name is what the
launchd job passes behind `--name`, with its entities decoded, and what the
complete arguments of the queue step have between `-D` and `-L USB`, and one
port is in the job, in the wait step and in the queue URI, exactly when the
escaped text of all but the last byte of the name is shorter than 250 bytes. -/
theorem installPlan_arrives_iff (info : ServiceInfo) (name : CString) (port : Int)
    (o : Option PlanOptions) (plan : List Step) (hport : port < 2 ^ 31)
    (hplan : installPlan info (some ⟨some name, port⟩) o = .ok plan)
    (hqueue : info.ourQueue = false) :
    (∃ used, Arrives name used plan) ↔ escapedLength name.dropLast < 250 := by
  have hused : servicePort (some ⟨some name, port⟩) < 2 ^ 31 := by
    unfold servicePort
    dsimp only
    split_ifs
    · exact hport
    · decide
  constructor
  · intro ⟨used, harrives⟩
    exact fits_of_arrives hplan hused harrives
  · intro hfits
    exact ⟨_, arrives_of_fits hplan hqueue hused hfits⟩

theorem installPlan_fresh (name : CString) (port : Int) :
    installPlan freshMac (some ⟨some name, port⟩) none = .ok (planOf (beforeProbe freshMac ++
      probeStep :: afterProbe freshMac (some ⟨some name, port⟩) none)) := by
  have hself : freshMac.selfPath ≠ [] := by decide
  rw [installPlan, if_neg (by decide), if_neg (by decide), if_neg hself]

/-- A name with all three entities. -/
theorem installPlan_arrives_study :
    ∃ plan, installPlan freshMac (some ⟨some (ascii "Study <Laser> & Co"), 8100⟩) none = .ok plan ∧
      ∃ used, Arrives (ascii "Study <Laser> & Co") used plan :=
  ⟨_, installPlan_fresh _ _,
    (installPlan_arrives_iff freshMac (ascii "Study <Laser> & Co") 8100 none _ (by decide)
      (installPlan_fresh _ _) rfl).mpr (by decide)⟩

/-- Of a name of 251 letters the launchd job has 250. -/
theorem installPlan_long_name :
    ∃ plan, installPlan freshMac (some ⟨some (List.replicate 251 97), 8100⟩) none = .ok plan ∧
      ∀ used, ¬Arrives (List.replicate 251 97) used plan := by
  refine ⟨_, installPlan_fresh _ _, ?_⟩
  intro used harrives
  have hfits := fits_of_arrives (installPlan_fresh (List.replicate 251 97) 8100) (by decide) harrives
  revert hfits
  decide +kernel

end Airbridge.Service
