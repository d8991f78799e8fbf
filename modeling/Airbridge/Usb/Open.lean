import Airbridge.Lib.Resources
import Airbridge.Usb.DeviceUri

/-!
# Opening a printer

`m2022_usb_open` (`usb.c`) walks the devices of libusb, keeps the first one that
matches open, and takes it if no other one matches.  `usbdev_open` (`usbdev.c`)
does so for a device URI.

Next to what they return, the functions here list their calls that acquire or
release something: the context of libusb, the device list, a configuration
descriptor, the handle of a device, and the two blocks of an open printer.  A
claimed interface goes with its handle, and so is not listed.

* `usbOpen_dev_iff`: a printer is opened exactly when it is the only one that
  matches, and nothing fails on the way.
* `usbOpen_perm`: the order of the devices does not matter.
* `usbOpen_leads` and `usbClose_leads`: wherever an opening fails, all is
  released, and nothing twice; behind one that succeeds its printer holds what
  closing it releases.
-/

namespace Airbridge.Usb

open Resources

/-! ## The walk that keeps a device open -/

inductive Resource where
  | context
  | deviceList
  | config
  /-- The handle of a device, by its place in the list. -/
  | handle (i : Nat)
  /-- The `m2022_usb_device_t`. -/
  | device
  /-- Its staging buffer. -/
  | xfer
deriving Repr, DecidableEq

abbrev Calls := List (Use Resource)

/-- `describe` reads a configuration descriptor and frees it. -/
def configCalls (dev : LibusbDevice) : Calls :=
  match dev.descriptor with
  | .error _ => []
  | .ok _ =>
    match dev.activeConfig.orElseLazy fun _ => dev.config with
    | .error _ => []
    | .ok _ => [.acquire .config, .release .config]

/-- The state of the loop in `enumerate`, with `*opened` and the calls so far. -/
structure Walk where
  next : Nat := 0
  enumeration : Enumeration := {}
  opened : Option (Nat × UsbInfo) := none
  calls : Calls := []
deriving Repr, DecidableEq

/-- The device becomes `*opened`. -/
def keeps (m : Option UsbMatch) (keepOpen : Bool) (w : Walk) (dev : LibusbDevice)
    (info : UsbInfo) : Bool :=
  usbMatches m info && keepOpen && w.opened.isNone && dev.opens

/-- `enumerateStep` with its calls. -/
def walkStep (m : Option UsbMatch) (max : Nat) (keepOpen : Bool) (w : Walk) (dev : LibusbDevice) :
    Walk :=
  let w' := { w with
    next := w.next + 1
    enumeration := enumerateStep m max keepOpen w.enumeration dev
    calls := w.calls ++ configCalls dev }
  match printerInfo dev with
  | none => w'
  | some info =>
    if !dev.opens then w'
    else if keeps m keepOpen w dev info then
      { w' with
        opened := some (w.next, info)
        calls := w'.calls ++ [.acquire (.handle w.next)] }
    else
      { w' with
        calls := w'.calls ++ [.acquire (.handle w.next), .release (.handle w.next)] }

/-- `enumerate` behind the answer of libusb: the calls include the device list
itself. -/
def walk (m : Option UsbMatch) (max : Nat) (keepOpen : Bool) (list : List LibusbDevice) : Walk :=
  let w := list.foldl (walkStep m max keepOpen) {}
  { w with calls := .acquire .deviceList :: (w.calls ++ [.release .deviceList]) }

/-! ## Opening and closing -/

abbrev USB_ENOTFOUND : Int := -1000

abbrev USB_EAMBIGUOUS : Int := -1001

abbrev LIBUSB_ERROR_ACCESS : Int := -3

abbrev LIBUSB_ERROR_NO_MEM : Int := -11

/-- What the calls of `m2022_usb_open` answer: libusb for the interface of a
device, and the allocator for the two blocks. -/
structure UsbHost where
  libusb : Libusb
  claimInterface : UsbInfo → Int
  setAltSetting : UsbInfo → Int
  calloc : Bool
  malloc : Bool

/-- `m2022_usb_device_t`: the handle and the record. -/
structure OpenDevice where
  handle : Nat
  info : UsbInfo
deriving Repr, DecidableEq

structure OpenResult where
  rc : Int
  dev : Option OpenDevice
  calls : Calls
deriving Repr, DecidableEq

/-- The calls for the two blocks. -/
def deviceCalls (host : UsbHost) : Calls :=
  if !host.calloc then []
  else if !host.malloc then [.acquire .device, .release .device]
  else [.acquire .device, .acquire .xfer]

/-- `m2022_usb_open` from the claim on, for the handle that was kept. -/
def claimDevice (host : UsbHost) (o : Nat × UsbInfo) : OpenResult :=
  let rc := host.claimInterface o.2
  let rc := if rc = 0 ∧ o.2.altSetting ≠ 0 then host.setAltSetting o.2 else rc
  let closing : Calls := [.release (.handle o.1), .release .context]
  if rc ≠ 0 then ⟨rc, none, closing⟩
  else if host.calloc && host.malloc then ⟨0, some ⟨o.1, o.2⟩, deviceCalls host⟩
  else ⟨LIBUSB_ERROR_NO_MEM, none, deviceCalls host ++ closing⟩

/-- `m2022_usb_open`. -/
def usbOpen (host : UsbHost) (m : UsbMatch) : OpenResult :=
  if host.libusb.init ≠ 0 then ⟨host.libusb.init, none, []⟩
  else
    let e : Int × Walk := match host.libusb.deviceList with
      | .error rc => (rc, {})
      | .ok list => (0, walk (some m) 0 true list)
    let calls := .acquire .context :: e.2.calls
    let count := e.2.enumeration.found
    let rc := if e.1 = 0 ∧ count = 0 then USB_ENOTFOUND
      else if e.1 = 0 ∧ count > 1 then USB_EAMBIGUOUS
      else if e.1 = 0 ∧ e.2.opened = none then LIBUSB_ERROR_ACCESS
      else e.1
    match e.2.opened with
    -- the code is an error by now
    | none => ⟨rc, none, calls ++ [.release .context]⟩
    | some o =>
      if rc ≠ 0 then ⟨rc, none, calls ++ [.release (.handle o.1), .release .context]⟩
      else
        let r := claimDevice host o
        { r with calls := calls ++ r.calls }

/-- `m2022_usb_close`. -/
def usbClose (dev : OpenDevice) : Calls :=
  [.release (.handle dev.handle), .release .context, .release .xfer, .release .device]

/-! ## What the walk finds -/

/-- The record of a device that matches, with whether it opens. -/
def matched (m : UsbMatch) (dev : LibusbDevice) : Option (Bool × UsbInfo) :=
  match printerInfo dev with
  | none => none
  | some info => if usbMatches (some m) info then some (dev.opens, info) else none

/-- The loop of `m2022_usb_open` behind the devices `seen`. -/
structure Walked (m : UsbMatch) (seen : List LibusbDevice) (w : Walk) : Prop where
  next_eq : w.next = seen.length
  found_eq : w.enumeration.found = (seen.filterMap (matched m)).length
  opened_eq : w.opened.map Prod.snd = ((seen.filterMap (matched m)).find? Prod.fst).map Prod.snd
  opened_at : ∀ o ∈ w.opened, ∃ dev, seen[o.1]? = some dev ∧ matched m dev = some (true, o.2)

theorem Walked.step {m : UsbMatch} {seen : List LibusbDevice} {w : Walk} (h : Walked m seen w)
    (dev : LibusbDevice) : Walked m (seen ++ [dev]) (walkStep (some m) 0 true w dev) := by
  have hplace : ∀ o ∈ w.opened, ∃ dev', (seen ++ [dev])[o.1]? = some dev' ∧
      matched m dev' = some (true, o.2) := by
    intro o ho
    obtain ⟨dev', hat, hmatched⟩ := h.opened_at o ho
    have hlt : o.1 < seen.length := (List.getElem?_eq_some_iff.mp hat).1
    exact ⟨dev', by rw [List.getElem?_append_left hlt, hat], hmatched⟩
  have hnext : w.next + 1 = (seen ++ [dev]).length := by simp [h.next_eq]
  unfold walkStep
  cases hinfo : printerInfo dev with
  | none =>
    have hmatched : matched m dev = none := by simp [matched, hinfo]
    refine ⟨hnext, ?_, ?_, hplace⟩
    · simp [enumerateStep, hinfo, hmatched, h.found_eq]
    · simp [hmatched, h.opened_eq]
  | some info =>
    cases hmatches : usbMatches (some m) info with
    | false =>
      have hmatched : matched m dev = none := by simp [matched, hinfo, hmatches]
      have hkeeps : keeps (some m) true w dev info = false := by simp [keeps, hmatches]
      dsimp only
      rw [hkeeps, if_neg Bool.false_ne_true]
      split_ifs
      all_goals
        refine ⟨hnext, ?_, ?_, hplace⟩
        · simp [enumerateStep, hinfo, hmatches, hmatched, h.found_eq]
        · simp [hmatched, h.opened_eq]
    | true =>
      have hmatched : matched m dev = some (dev.opens, info) := by simp [matched, hinfo, hmatches]
      have hfound : (enumerateStep (some m) 0 true w.enumeration dev).found =
          ((seen ++ [dev]).filterMap (matched m)).length := by
        simp [enumerateStep, hinfo, hmatches, hmatched, h.found_eq]
      have hfind := h.opened_eq
      cases hopens : dev.opens with
      | false =>
        dsimp only
        refine ⟨hnext, hfound, ?_, hplace⟩
        simp [hmatched, hopens, List.find?_append, hfind]
      | true =>
        have hkeeps : keeps (some m) true w dev info = w.opened.isNone := by
          simp [keeps, hmatches, hopens]
        dsimp only
        rw [hkeeps]
        cases hold : w.opened with
        | none =>
          rw [hold] at hfind
          refine ⟨hnext, hfound, ?_, fun o ho => ?_⟩
          · have hnone : (seen.filterMap (matched m)).find? Prod.fst = none :=
              Option.map_eq_none_iff.mp hfind.symm
            rw [List.filterMap_append, List.find?_append, hnone]
            simp [hmatched, hopens]
          · obtain rfl := Option.some_inj.mp ho
            exact ⟨dev, by simp [h.next_eq], by rw [hmatched, hopens]⟩
        | some o =>
          rw [hold] at hfind
          rw [hold] at hplace
          refine ⟨hnext, hfound, ?_, hplace⟩
          obtain ⟨q, hq, hqo⟩ := Option.map_eq_some_iff.mp hfind.symm
          rw [List.filterMap_append, List.find?_append, hq]
          exact congrArg some hqo.symm

theorem walked (m : UsbMatch) (list : List LibusbDevice) :
    Walked m list (walk (some m) 0 true list) := by
  have hrun : ∀ list seen w, Walked m seen w →
      Walked m (seen ++ list) (list.foldl (walkStep (some m) 0 true) w) := by
    intro list
    induction list with
    | nil =>
      intro seen w h
      rwa [List.append_nil]
    | cons dev list ih =>
      intro seen w h
      have hrest := ih (seen ++ [dev]) _ (h.step dev)
      rwa [List.append_assoc] at hrest
  have hstart : Walked m [] {} := ⟨rfl, rfl, rfl, fun o ho => absurd ho (Option.not_mem_none o)⟩
  have hend := hrun list [] {} hstart
  exact ⟨hend.next_eq, hend.found_eq, hend.opened_eq, hend.opened_at⟩

/-! ## What is opened -/

/-- The claim goes well, and there is memory. -/
def Claims (host : UsbHost) (info : UsbInfo) : Prop :=
  host.claimInterface info = 0 ∧ (info.altSetting ≠ 0 → host.setAltSetting info = 0) ∧
    host.calloc = true ∧ host.malloc = true

theorem claimDevice_cases (host : UsbHost) (o : Nat × UsbInfo) :
    (Claims host o.2 ∧ claimDevice host o =
        ⟨0, some ⟨o.1, o.2⟩, [.acquire .device, .acquire .xfer]⟩) ∨
      (¬Claims host o.2 ∧ (claimDevice host o).rc ≠ 0 ∧ (claimDevice host o).dev = none ∧
        ∃ calls, (calls = [] ∨ calls = [.acquire .device, .release .device]) ∧
          (claimDevice host o).calls = calls ++ [.release (.handle o.1), .release .context]) := by
  unfold Claims claimDevice deviceCalls
  cases hcalloc : host.calloc <;> cases hmalloc : host.malloc <;> dsimp only <;> split_ifs <;>
    simp_all

/-- What opening comes to for the devices that match: the code, and the record
of the printer. -/
def openOutcome (host : UsbHost) : List (Bool × UsbInfo) → Int × Option UsbInfo
  | [] => (USB_ENOTFOUND, none)
  | [(opens, info)] =>
    if opens then ((claimDevice host (0, info)).rc, (claimDevice host (0, info)).dev.map (·.info))
    else (LIBUSB_ERROR_ACCESS, none)
  | _ :: _ :: _ => (USB_EAMBIGUOUS, none)

theorem usbOpen_outcome {host : UsbHost} {list : List LibusbDevice} (hinit : host.libusb.init = 0)
    (hlist : host.libusb.deviceList = .ok list) (m : UsbMatch) :
    ((usbOpen host m).rc, (usbOpen host m).dev.map (·.info)) =
      openOutcome host (list.filterMap (matched m)) := by
  have h := walked m list
  have hfound := h.found_eq
  have hopened := h.opened_eq
  unfold usbOpen
  rw [hinit, hlist, if_neg (not_not_intro rfl)]
  dsimp only
  generalize list.filterMap (matched m) = found at hfound hopened
  generalize walk (some m) 0 true list = w at hfound hopened
  match found with
  | [] =>
    have hnone : w.opened = none := Option.map_eq_none_iff.mp hopened
    rw [hnone, hfound]
    rfl
  | [(false, info)] =>
    have hnone : w.opened = none := Option.map_eq_none_iff.mp hopened
    rw [hnone, hfound]
    rfl
  | [(true, info)] =>
    obtain ⟨o, ho, rfl⟩ := Option.map_eq_some_iff.mp hopened
    have hsame : ((claimDevice host o).rc, (claimDevice host o).dev.map (·.info)) =
        ((claimDevice host (0, o.2)).rc, (claimDevice host (0, o.2)).dev.map (·.info)) := by
      unfold claimDevice
      dsimp only
      split_ifs <;> rfl
    rw [ho, hfound]
    exact hsame
  | _ :: _ :: rest =>
    rw [hfound]
    cases w.opened with
    | none => simp [openOutcome]
    | some o => simp [openOutcome]

/-- The order in which libusb lists the devices does not matter: the code is the
same, and so is the printer. -/
theorem usbOpen_perm {host : UsbHost} {list list' : List LibusbDevice}
    (hinit : host.libusb.init = 0) (hlist : host.libusb.deviceList = .ok list)
    (hperm : list.Perm list') (m : UsbMatch) :
    let r := usbOpen host m
    let r' := usbOpen { host with libusb := ⟨0, .ok list'⟩ } m
    r.rc = r'.rc ∧ r.dev.map (·.info) = r'.dev.map (·.info) := by
  intro r r'
  have h : (r.rc, r.dev.map (·.info)) = openOutcome host (list.filterMap (matched m)) :=
    usbOpen_outcome hinit hlist m
  have h' : (r'.rc, r'.dev.map (·.info)) = openOutcome host (list'.filterMap (matched m)) := by
    refine (usbOpen_outcome rfl rfl m).trans ?_
    cases list'.filterMap (matched m) with
    | nil => rfl
    | cons q found => cases found <;> rfl
  have hfound := hperm.filterMap (matched m)
  have houtcome : openOutcome host (list.filterMap (matched m)) =
      openOutcome host (list'.filterMap (matched m)) := by
    generalize list.filterMap (matched m) = found at hfound
    generalize list'.filterMap (matched m) = found' at hfound
    match found, found' with
    | [], found' => rw [hfound.nil_eq]
    | [q], found' => rw [List.singleton_perm.mp hfound]
    | _ :: _ :: _, [] => exact absurd hfound.length_eq (by simp)
    | _ :: _ :: _, [q] => exact absurd hfound.length_eq (by simp)
    | _ :: _ :: _, _ :: _ :: _ => rfl
  rw [← Prod.mk.injEq, h, h', houtcome]

/-- A printer with this serial number. -/
def printerWith (serial : CString) : LibusbDevice where
  descriptor := .ok ⟨0x04E8, 0x3321, 0x0100, 1, 2, 3⟩
  activeConfig := .ok ⟨[[⟨0, 0, LIBUSB_CLASS_PRINTER, 1, 2, [⟨0x02, 0x01, 512⟩]⟩]]⟩
  config := .error (-5)
  busNumber := 1
  deviceAddress := 4
  opens := true
  string := fun index => if index = 3 then some serial else none

/-- Two of them. -/
def twoPrinters : UsbHost where
  libusb := ⟨0, .ok [printerWith [65], printerWith [66]]⟩
  claimInterface := fun _ => 0
  setAltSetting := fun _ => 0
  calloc := true
  malloc := true

theorem usbOpen_perm_two :
    let r := usbOpen twoPrinters ⟨0x04E8, 0x3321, [66]⟩
    let r' := usbOpen { twoPrinters with libusb := ⟨0, .ok [printerWith [66], printerWith [65]]⟩ }
      ⟨0x04E8, 0x3321, [66]⟩
    r.rc = r'.rc ∧ r.dev.map (·.info) = r'.dev.map (·.info) :=
  usbOpen_perm rfl rfl (List.Perm.swap _ _ _) _

/-- The place of the only element that is found. -/
theorem place_unique {α β : Type*} {f : α → Option β} {l : List α}
    (h : (l.filterMap f).length = 1) {i j : Nat} {a b : α} (hi : l[i]? = some a)
    (ha : (f a).isSome) (hj : l[j]? = some b) (hb : (f b).isSome) : i = j := by
  induction l generalizing i j with
  | nil => simp at hi
  | cons c l ih =>
    cases hc : f c with
    | none =>
      rw [List.filterMap_cons_none hc] at h
      have hne (k : Nat) (e : α) (hk : (c :: l)[k]? = some e) (he : (f e).isSome) : k ≠ 0 := by
        rintro rfl
        rw [List.getElem?_cons_zero, Option.some_inj] at hk
        rw [← hk, hc] at he
        exact absurd he (by simp)
      obtain ⟨i, rfl⟩ := Nat.exists_eq_succ_of_ne_zero (hne i a hi ha)
      obtain ⟨j, rfl⟩ := Nat.exists_eq_succ_of_ne_zero (hne j b hj hb)
      exact congrArg Nat.succ (ih h (by simpa using hi) (by simpa using hj))
    | some y =>
      rw [List.filterMap_cons_some hc, List.length_cons, Nat.add_eq_right] at h
      have hrest := List.filterMap_eq_nil_iff.mp (List.length_eq_zero_iff.mp h)
      have hzero (k : Nat) (e : α) (hk : (c :: l)[k]? = some e) (he : (f e).isSome) : k = 0 := by
        by_contra hne
        obtain ⟨k, rfl⟩ := Nat.exists_eq_succ_of_ne_zero hne
        rw [List.getElem?_cons_succ] at hk
        rw [hrest e (List.mem_of_getElem? hk)] at he
        exact absurd he (by simp)
      rw [hzero i a hi ha, hzero j b hj hb]

/-- A printer is opened if and only if it is the only one that matches, it
opens, and the claim and the allocations go well.  The code says so. -/
theorem usbOpen_dev_iff {host : UsbHost} {list : List LibusbDevice} (hinit : host.libusb.init = 0)
    (hlist : host.libusb.deviceList = .ok list) (m : UsbMatch) :
    (∀ d, (usbOpen host m).dev = some d ↔
      (∃ dev, list[d.handle]? = some dev ∧ matched m dev = some (true, d.info)) ∧
        (list.filterMap (matched m)).length = 1 ∧ Claims host d.info) ∧
      ((usbOpen host m).rc = 0 ↔ (usbOpen host m).dev.isSome) := by
  have h := walked m list
  have hfound := h.found_eq
  have hopened := h.opened_eq
  have hplace := h.opened_at
  unfold usbOpen
  rw [hinit, hlist, if_neg (not_not_intro rfl)]
  dsimp only
  generalize walk (some m) 0 true list = w at hfound hopened hplace
  rw [hfound]
  cases ho : w.opened with
  | none =>
    rw [ho] at hopened
    have hnone := List.find?_eq_none.mp (Option.map_eq_none_iff.mp hopened.symm)
    constructor
    · intro d
      refine iff_of_false (by simp) ?_
      rintro ⟨⟨dev, hdev, hmatched⟩, -⟩
      have hmem := List.mem_filterMap.mpr ⟨dev, List.mem_of_getElem? hdev, hmatched⟩
      exact hnone _ hmem rfl
    · refine iff_of_false ?_ (by simp)
      split_ifs <;> simp_all
  | some o =>
    obtain ⟨dev, hdev, hmatched⟩ := hplace o ho
    have hmem := List.mem_filterMap.mpr ⟨dev, List.mem_of_getElem? hdev, hmatched⟩
    have hpos : (list.filterMap (matched m)).length ≠ 0 :=
      (List.length_pos_of_mem hmem).ne'
    by_cases hone : (list.filterMap (matched m)).length = 1
    · have hrc : ¬(list.filterMap (matched m)).length > 1 := by omega
      have honly (d : OpenDevice) (hd : ∃ dev, list[d.handle]? = some dev ∧
          matched m dev = some (true, d.info)) : d = ⟨o.1, o.2⟩ := by
        obtain ⟨dev', hdev', hmatched'⟩ := hd
        have hsame := place_unique hone hdev (by rw [hmatched]; rfl) hdev' (by rw [hmatched']; rfl)
        rw [← hsame, hdev, Option.some_inj] at hdev'
        rw [← hdev', hmatched, Option.some_inj, Prod.mk.injEq] at hmatched'
        obtain ⟨handle, info⟩ := d
        rw [hsame, hmatched'.2]
      simp only [hpos, hrc, and_false, if_false]
      rcases claimDevice_cases host o with ⟨hclaims, hresult⟩ | ⟨hclaims, hrc', hresult, -⟩
      · rw [hresult]
        refine ⟨fun d => ⟨fun hd => ?_, fun hd => ?_⟩, by simp⟩
        · obtain rfl := Option.some_inj.mp hd
          exact ⟨⟨dev, hdev, hmatched⟩, hone, hclaims⟩
        · rw [honly d hd.1]
          rfl
      · rw [hresult]
        refine ⟨fun d => iff_of_false (by simp) ?_, iff_of_false (by simpa using hrc') (by simp)⟩
        rintro ⟨hd, -, hclaims'⟩
        rw [honly d hd] at hclaims'
        exact hclaims hclaims'
    · have hmany : (list.filterMap (matched m)).length > 1 := by omega
      simp only [hpos, hmany, hone, and_false, if_false, and_self, if_true, ne_eq]
      exact ⟨fun d => by simp, by simp⟩

theorem usbOpen_dev_iff_two :
    let m : UsbMatch := ⟨0x04E8, 0x3321, [66]⟩
    let list := [printerWith [65], printerWith [66]]
    (∀ d, (usbOpen twoPrinters m).dev = some d ↔
      (∃ dev, list[d.handle]? = some dev ∧ matched m dev = some (true, d.info)) ∧
        (list.filterMap (matched m)).length = 1 ∧ Claims twoPrinters d.info) ∧
      ((usbOpen twoPrinters m).rc = 0 ↔ (usbOpen twoPrinters m).dev.isSome) :=
  usbOpen_dev_iff rfl rfl _

/-! ## What is held -/

/-- The handle that the walk left open. -/
def keptHandle : Option (Nat × UsbInfo) → Finset Resource
  | none => ∅
  | some o => {.handle o.1}

/-- What an open printer holds. -/
def heldDevice : Option OpenDevice → Finset Resource
  | none => ∅
  | some d => {.context, .handle d.handle, .device, .xfer}

theorem configCalls_lead (dev : LibusbDevice) {held : Finset Resource} (h : .config ∉ held) :
    Leads held (configCalls dev) held := by
  unfold configCalls
  split
  · exact .nil held
  · split
    · exact .nil held
    · exact Leads.bracket h h (.nil _)

/-- The handle of a device that is passed by. -/
theorem visit_handle (i : Nat) {held : Finset Resource} (h : .handle i ∉ held) :
    Leads held [.acquire (.handle i), .release (.handle i)] held :=
  Leads.bracket h h (.nil _)

section
variable (m : Option UsbMatch) (max : Nat) (keepOpen : Bool) {base : Finset Resource}

/-- One device: the walk holds the handle it keeps, and no other. -/
theorem walkStep_leads {w : Walk} (hconfig : Resource.config ∉ base)
    (hhandle : ∀ i, Resource.handle i ∉ base)
    (hlt : ∀ o ∈ w.opened, o.1 < w.next) (h : Leads base w.calls (base ∪ keptHandle w.opened))
    (dev : LibusbDevice) :
    let w' := walkStep m max keepOpen w dev
    Leads base w'.calls (base ∪ keptHandle w'.opened) ∧ (∀ o ∈ w'.opened, o.1 < w'.next) ∧
      (keepOpen = false → w.opened = none → w'.opened = none) := by
  have hheld : .config ∉ base ∪ keptHandle w.opened := by
    cases w.opened <;> simp [keptHandle, hconfig]
  have hfresh : .handle w.next ∉ base ∪ keptHandle w.opened := by
    cases ho : w.opened with
    | none => simp [keptHandle, hhandle]
    | some o =>
      have hne : w.next ≠ o.1 := (hlt o ho).ne'
      simp [keptHandle, hhandle, hne]
  have hdescribed := h.append (configCalls_lead dev hheld)
  have hlater : ∀ o ∈ w.opened, o.1 < w.next + 1 := fun o ho => Nat.lt_succ_of_lt (hlt o ho)
  unfold walkStep
  cases printerInfo dev with
  | none => exact ⟨hdescribed, hlater, fun _ ho => ho⟩
  | some info =>
    dsimp only
    split_ifs with hopens hkeeps
    · exact ⟨hdescribed, hlater, fun _ ho => ho⟩
    · unfold keeps at hkeeps
      simp only [Bool.and_eq_true, Option.isNone_iff_eq_none] at hkeeps
      obtain ⟨⟨⟨-, hkeep⟩, hnone⟩, -⟩ := hkeeps
      refine ⟨hdescribed.append (.acquire hfresh ?_), fun o ho => ?_, fun hno => ?_⟩
      · rw [hnone, Finset.insert_eq, Finset.union_comm]
        show Leads (base ∪ ∅ ∪ {Resource.handle w.next}) [] (base ∪ {Resource.handle w.next})
        rw [Finset.union_empty]
        exact .nil _
      · rw [← Option.some_inj.mp ho]
        exact Nat.lt_succ_self w.next
      · rw [hno] at hkeep
        exact absurd hkeep Bool.false_ne_true
    · exact ⟨hdescribed.append (visit_handle w.next hfresh), hlater, fun _ ho => ho⟩

theorem walkSteps_lead (hconfig : Resource.config ∉ base) (hhandle : ∀ i, Resource.handle i ∉ base)
    (list : List LibusbDevice) {w : Walk} (hlt : ∀ o ∈ w.opened, o.1 < w.next)
    (h : Leads base w.calls (base ∪ keptHandle w.opened))
    (hnone : keepOpen = false → w.opened = none) :
    let w' := list.foldl (walkStep m max keepOpen) w
    Leads base w'.calls (base ∪ keptHandle w'.opened) ∧ (keepOpen = false → w'.opened = none) := by
  induction list generalizing w with
  | nil => exact ⟨h, hnone⟩
  | cons dev list ih =>
    obtain ⟨hstep, hlt', hkept⟩ := walkStep_leads m max keepOpen hconfig hhandle hlt h dev
    exact ih hlt' hstep fun hkeep => hkept hkeep (hnone hkeep)

/-- The walk leaves the handle of `*opened`, and nothing where it keeps no
device open. -/
theorem walk_leads (hconfig : Resource.config ∉ base) (hhandle : ∀ i, Resource.handle i ∉ base)
    (hlist : Resource.deviceList ∉ base) (list : List LibusbDevice) :
    Leads base (walk m max keepOpen list).calls
        (base ∪ keptHandle (walk m max keepOpen list).opened) ∧
      (keepOpen = false → (walk m max keepOpen list).opened = none) := by
  have hstart : Leads (insert Resource.deviceList base) ({} : Walk).calls
      (insert Resource.deviceList base ∪ keptHandle ({} : Walk).opened) := by
    simpa [keptHandle] using Leads.nil (insert Resource.deviceList base)
  obtain ⟨hloop, hnone⟩ := walkSteps_lead m max keepOpen
    (by simp [hconfig]) (by simp [hhandle]) list
    (fun o ho => absurd ho (Option.not_mem_none o)) hstart fun _ => rfl
  refine ⟨Leads.bracket hlist ?_ (by rwa [Finset.insert_union] at hloop), hnone⟩
  show Resource.deviceList ∉ base ∪ keptHandle (list.foldl (walkStep m max keepOpen) {}).opened
  cases (list.foldl (walkStep m max keepOpen) {}).opened <;> simp [keptHandle, hlist]

end

/-- The end of an opening that fails with a handle. -/
theorem closing_leads (i : Nat) :
    Leads {Resource.context, Resource.handle i} [.release (.handle i), .release .context] ∅ := by
  refine .release (by simp) (.release (by simp) ?_)
  have hrest : (({Resource.context, Resource.handle i} : Finset Resource).erase
      (Resource.handle i)).erase Resource.context = ∅ := by
    ext r
    simp only [Finset.mem_erase, Finset.mem_insert, Finset.mem_singleton, Finset.notMem_empty]
    tauto
  rw [hrest]
  exact .nil ∅

theorem claimDevice_leads (host : UsbHost) (o : Nat × UsbInfo) :
    Leads {Resource.context, Resource.handle o.1} (claimDevice host o).calls
      (heldDevice (claimDevice host o).dev) := by
  rcases claimDevice_cases host o with ⟨-, h⟩ | ⟨-, -, hdev, calls, hblocks, hcalls⟩
  · rw [h]
    refine .acquire (by simp) (.acquire (by simp) ?_)
    have hheld : insert Resource.xfer
        (insert Resource.device {Resource.context, Resource.handle o.1}) =
          heldDevice (some ⟨o.1, o.2⟩) := by
      ext r
      simp only [heldDevice, Finset.mem_insert, Finset.mem_singleton]
      tauto
    rw [hheld]
    exact .nil _
  · rw [hcalls, hdev]
    refine Leads.append ?_ (closing_leads o.1)
    rcases hblocks with rfl | rfl
    · exact .nil _
    · exact Leads.bracket (by simp) (by simp) (.nil _)

/-- Behind `m2022_usb_open` all is released but what its printer holds. -/
theorem usbOpen_leads (host : UsbHost) (m : UsbMatch) :
    Leads ∅ (usbOpen host m).calls (heldDevice (usbOpen host m).dev) := by
  have hcontext : Leads {Resource.context} [.release .context] ∅ :=
    .release (by simp) (.nil ∅)
  unfold usbOpen
  split_ifs with hinit
  · exact .nil ∅
  cases hlist : host.libusb.deviceList with
  | error rc => exact .acquire (by simp) hcontext
  | ok list =>
    obtain ⟨hwalk, -⟩ := walk_leads (some m) 0 true (show Resource.config ∉ {Resource.context} by simp)
      (by simp) (by simp) list
    dsimp only
    generalize walk (some m) 0 true list = w at hwalk
    cases ho : w.opened with
    | none =>
      rw [ho] at hwalk
      exact .acquire (by simp) (hwalk.append hcontext)
    | some o =>
      rw [ho] at hwalk
      have hkept : Leads {Resource.context} w.calls {Resource.context, Resource.handle o.1} := hwalk
      dsimp only
      split_ifs
      all_goals
        first
        | exact .acquire (by simp) (hkept.append (claimDevice_leads host o))
        | exact .acquire (by simp) (hkept.append (closing_leads o.1))

theorem usbClose_leads (d : OpenDevice) : Leads (heldDevice (some d)) (usbClose d) ∅ := by
  refine .release (by simp [heldDevice]) (.release (by simp [heldDevice])
    (.release (by simp [heldDevice]) (.release (by simp [heldDevice]) ?_)))
  have hrest : ((((heldDevice (some d)).erase (Resource.handle d.handle)).erase
      Resource.context).erase Resource.xfer).erase Resource.device = ∅ := by
    ext r
    simp only [heldDevice, Finset.mem_erase, Finset.mem_insert, Finset.mem_singleton,
      Finset.notMem_empty]
    tauto
  rw [hrest]
  exact .nil ∅

/-! ## The device scheme -/

/-- `usbdev_open`; no result for a URI it does not take. -/
def usbdevOpen (host : UsbHost) (uri : CString) : Option OpenResult :=
  (parseUri uri 128).map (usbOpen host)

/-- The descriptors alone give no serial number. -/
theorem serial_describe {dev : LibusbDevice} {dd : DeviceDescriptor} {info : UsbInfo}
    (h : describe dev dd = .ok info) : info.serial = [] := by
  have hstep (info : UsbInfo) (ep : EndpointDescriptor) :
      (endpointStep info ep).serial = info.serial := by
    unfold endpointStep
    split_ifs <;> rfl
  have hfold (eps : List EndpointDescriptor) (info : UsbInfo) :
      (eps.foldl endpointStep info).serial = info.serial := by
    induction eps generalizing info with
    | nil => rfl
    | cons ep eps ih => rw [List.foldl_cons, ih, hstep]
  unfold describe at h
  split at h
  · exact absurd h (by simp)
  · split at h
    next found hfound =>
      obtain ⟨id, -, hsetting⟩ := List.exists_of_findSome?_eq_some hfound
      unfold describeSetting at hsetting
      dsimp only at hsetting
      split_ifs at hsetting
      rw [← Except.ok.inj h, ← Option.some_inj.mp hsetting, hfold]
    · exact absurd h (by simp)

theorem length_serial_le {dev : LibusbDevice} {info : UsbInfo} (h : printerInfo dev = some info) :
    info.serial.length ≤ 127 := by
  unfold printerInfo at h
  cases hdd : dev.descriptor with
  | error rc =>
    rw [hdd] at h
    exact absurd h (by simp)
  | ok dd =>
    rw [hdd] at h
    dsimp only at h
    cases hinfo : describe dev dd with
    | error rc =>
      rw [hinfo] at h
      exact absurd h (by simp)
    | ok record =>
      rw [hinfo] at h
      dsimp only at h
      split_ifs at h with hopens
      · rw [← Option.some_inj.mp h]
        exact (copyString_spec dev dd.iSerialNumber USB_STR_MAX).2
      · rw [← Option.some_inj.mp h, serial_describe hinfo]
        exact Nat.zero_le 127

/-- The URI that the device scheme offers for a printer opens this printer, or
none: it is opened if and only if no other printer has its ids and its serial
number, it opens, and the claim and the allocations go well. -/
theorem usbdevOpen_listed {host : UsbHost} {list : List LibusbDevice} (hinit : host.libusb.init = 0)
    (hlist : host.libusb.deviceList = .ok list) {info : UsbInfo} (hinfo : info ∈ host.libusb.printers)
    (hserial : ∀ b ∈ info.serial, endsSerial b = false) :
    ∃ r, usbdevOpen host (makeUri info 256) = some r ∧
      (∀ d, r.dev = some d → d.info = info) ∧
      (r.dev.isSome ↔
        list.filterMap (matched ⟨info.vid, info.pid, info.serial⟩) = [(true, info)] ∧
          Claims host info) := by
  unfold Libusb.printers at hinfo
  rw [hinit, hlist, if_neg (not_not_intro rfl)] at hinfo
  obtain ⟨dev, hdev, hprinter⟩ := List.mem_filterMap.mp hinfo
  have hmatch : parseUri (makeUri info 256) 128 = some ⟨info.vid, info.pid, info.serial⟩ := by
    rw [parseUri_makeUri (length_serial_le hprinter), List.takeWhile_eq_self_iff.mpr]
    intro b hb
    rw [hserial b hb, Bool.not_false]
  have hself : matched ⟨info.vid, info.pid, info.serial⟩ dev = some (dev.opens, info) := by
    simp [matched, hprinter, usbMatches]
  have hmem : (dev.opens, info) ∈ list.filterMap (matched ⟨info.vid, info.pid, info.serial⟩) :=
    List.mem_filterMap.mpr ⟨dev, hdev, hself⟩
  have houtcome := usbOpen_outcome hinit hlist ⟨info.vid, info.pid, info.serial⟩
  refine ⟨_, by rw [usbdevOpen, hmatch, Option.map_some], ?_⟩
  generalize usbOpen host ⟨info.vid, info.pid, info.serial⟩ = r at houtcome
  generalize list.filterMap (matched ⟨info.vid, info.pid, info.serial⟩) = found at hmem houtcome
  obtain ⟨-, hrecord⟩ := Prod.ext_iff.mp houtcome
  dsimp only at hrecord
  rcases found with _ | ⟨⟨opens, record⟩, _ | ⟨q, rest⟩⟩
  · exact absurd hmem List.not_mem_nil
  · obtain ⟨rfl, rfl⟩ := Prod.ext_iff.mp (List.mem_singleton.mp hmem)
    cases hopens : dev.opens with
    | false =>
      rw [openOutcome, hopens, if_neg Bool.false_ne_true] at hrecord
      rw [Option.map_eq_none_iff.mp hrecord]
      exact ⟨fun d hd => absurd hd (by simp), by simp⟩
    | true =>
      rw [openOutcome, hopens, if_pos rfl] at hrecord
      rcases claimDevice_cases host (0, info) with ⟨hclaims, hresult⟩ | ⟨hclaims, -, hresult, -⟩
      · rw [hresult] at hrecord
        obtain ⟨d, hd, hinfo'⟩ := Option.map_eq_some_iff.mp hrecord
        rw [hd]
        refine ⟨fun d' hd' => ?_, iff_of_true rfl ⟨rfl, hclaims⟩⟩
        rw [← Option.some_inj.mp hd']
        exact hinfo'
      · rw [hresult] at hrecord
        rw [Option.map_eq_none_iff.mp hrecord]
        exact ⟨fun d hd => absurd hd (by simp), iff_of_false (by simp) fun h => hclaims h.2⟩
  · rw [Option.map_eq_none_iff.mp hrecord]
    exact ⟨fun d hd => absurd hd (by simp), by simp⟩

theorem usbdevOpen_listed_two : ∃ info r, info ∈ twoPrinters.libusb.printers ∧
    usbdevOpen twoPrinters (makeUri info 256) = some r ∧
    (∀ d, r.dev = some d → d.info = info) ∧
    (r.dev.isSome ↔ [printerWith [65], printerWith [66]].filterMap
      (matched ⟨info.vid, info.pid, info.serial⟩) = [(true, info)] ∧ Claims twoPrinters info) := by
  have hinfo : (⟨0x04E8, 0x3321, 0x0100, 1, 4, 0, 0, 2, 0x01, 0, 512, [], [], [66]⟩ : UsbInfo) ∈
      twoPrinters.libusb.printers := by decide
  have hserial : ∀ b ∈ ([66] : CString), endsSerial b = false := by
    intro b hb
    rw [List.mem_singleton.mp hb]
    rfl
  obtain ⟨r, hopen, hdev⟩ := usbdevOpen_listed rfl rfl hinfo hserial
  exact ⟨_, r, hinfo, hopen, hdev⟩

end Airbridge.Usb
