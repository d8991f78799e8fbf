import Airbridge.Qpdl.Truncation
import Airbridge.Usb.Open
import Airbridge.Usb.Write

/-!
# Sending a file to the printer

`cmd_send` (`cmd_send.c`) opens the printer, writes a printer-native file with
one write, and closes the printer.  What the user reads on the terminal is left
out, but for the number of bytes written.
-/

namespace Airbridge.Cli

open Airbridge.Qpdl Airbridge.Usb Resources

/-- The options of `cmd_send` but for the timeout, which is for the endpoint. -/
structure SendOptions where
  usbMatch : UsbMatch
  dryRun : Bool

structure SendResult where
  exit : Int
  /-- What `*written` holds. -/
  written : Nat
  calls : Calls
  /-- The device behind the write. -/
  dev : UsbDevice

/-- `cmd_send` of what `read_file` returns; `dev` is the printer it opens.  No
result when it uses a printer that is not there. -/
def cmdSend (host : UsbHost) (dev : UsbDevice) (o : SendOptions) (file : Option Bytes) :
    Option SendResult :=
  match file with
  | none => some ⟨2, 0, [], dev⟩
  | some data =>
    let opened := usbOpen host o.usbMatch
    if opened.rc ≠ 0 then some ⟨3, 0, opened.calls, dev⟩
    else
      match opened.dev with
      | none => none
      | some d =>
        let calls := opened.calls ++ usbClose d
        if o.dryRun then some ⟨0, 0, calls, dev⟩
        else
          let r := usbWrite dev data 0 data.length
          some ⟨if r.1 = 0 then 0 else 4, r.2.1, calls, r.2.2⟩

/-- The code of `m2022_usb_open` is zero if and only if there is a printer. -/
theorem usbOpen_rc (host : UsbHost) (m : UsbMatch) :
    (usbOpen host m).rc = 0 ↔ (usbOpen host m).dev.isSome := by
  -- without a handle the code is an error, also when the walk went well
  have hcode (rc : Int) (w : Walk) (hnone : w.opened = none) :
      (if rc = 0 ∧ w.enumeration.found = 0 then USB_ENOTFOUND
        else if rc = 0 ∧ w.enumeration.found > 1 then USB_EAMBIGUOUS
        else if rc = 0 ∧ w.opened = none then LIBUSB_ERROR_ACCESS else rc) ≠ 0 := by
    split_ifs with h0 h1 h2
    · decide
    · decide
    · decide
    · exact fun hzero => h2 ⟨hzero, hnone⟩
  unfold usbOpen
  split_ifs with hinit
  · exact iff_of_false hinit (by simp)
  cases host.libusb.deviceList with
  | error rc => exact iff_of_false (hcode rc {} rfl) (by simp)
  | ok list =>
    dsimp only
    generalize walk (some m) 0 true list = w at *
    cases hopened : w.opened with
    | none =>
      have hrc := hcode 0 w hopened
      rw [hopened] at hrc
      exact iff_of_false hrc (by simp)
    | some opened =>
      have hclaim (rc : Int) (calls calls' : Calls) :
          let r : OpenResult := if rc ≠ 0 then ⟨rc, none, calls⟩
            else { claimDevice host opened with calls := calls' }
          r.rc = 0 ↔ r.dev.isSome := by
        dsimp only
        split_ifs with hrc
        · exact iff_of_false hrc (by simp)
        · rcases claimDevice_cases host opened with ⟨-, hresult⟩ | ⟨-, hfail, hnone, -⟩
          · rw [hresult]
            exact iff_of_true rfl rfl
          · rw [hnone]
            exact iff_of_false hfail (by simp)
      exact hclaim _ _ _

/-- Each run of `cmd_send` releases all it acquires, writes the first bytes of
the file and says how many, and the printer reads the first pages and bands of
the file and nothing else.  The exit status zero without `--dry-run` means that
the printer has the whole file, and with it that it has nothing. -/
theorem cmdSend_exact (host : UsbHost) (dev : UsbDevice) (o : SendOptions) (file : Option Bytes) :
    ∃ r, cmdSend host dev o file = some r ∧ Leads ∅ r.calls ∅ ∧
      let got := (file.getD []).take r.written
      r.dev.pipe.out = dev.pipe.out ++ got ∧
      (walk got).records <+: (walk (file.getD [])).records ∧
      (r.exit = 2 ↔ file = none) ∧
      (r.exit = 3 ↔ file ≠ none ∧ (usbOpen host o.usbMatch).rc ≠ 0) ∧
      (r.exit = 0 → got = if o.dryRun then [] else file.getD []) := by
  have hopens := usbOpen_rc host o.usbMatch
  have hheld := usbOpen_leads host o.usbMatch
  cases file with
  | none =>
    exact ⟨_, rfl, .nil ∅, (List.append_nil _).symm, List.prefix_refl _, by simp, by simp, by simp⟩
  | some data =>
    unfold cmdSend
    generalize usbOpen host o.usbMatch = opened at hopens hheld
    dsimp only
    cases hdev : opened.dev with
    | none =>
      have hrc : opened.rc ≠ 0 := fun hzero => by
        have hsome := hopens.mp hzero
        rw [hdev] at hsome
        exact absurd hsome (by simp)
      rw [hdev] at hheld
      rw [if_pos hrc]
      refine ⟨_, rfl, hheld, (List.append_nil _).symm, records_prefix (List.take_prefix 0 data),
        by simp, by simpa using hrc, by simp⟩
    | some d =>
      have hrc : opened.rc = 0 := hopens.mpr (by rw [hdev]; rfl)
      rw [hdev] at hheld
      rw [if_neg (not_not_intro hrc)]
      dsimp only
      cases hdry : o.dryRun with
      | true =>
        exact ⟨_, rfl, hheld.append (usbClose_leads d), (List.append_nil _).symm,
          records_prefix (List.take_prefix 0 data), by simp, by simpa using hrc, fun _ => rfl⟩
      | false =>
        obtain ⟨hle, haccepted⟩ := usbWrite_accepted (p := 0) dev (Nat.zero_add data.length).le
        have hfull := usbWriteLoop_full data 0 data.length 0 0 dev
        have hout := haccepted.out
        unfold Buffer.load at hout
        rw [Nat.zero_add, Nat.sub_zero, List.drop_zero] at hout
        refine ⟨_, rfl, hheld.append (usbClose_leads d), hout,
          records_prefix (List.take_prefix _ data), ?_, ?_, ?_⟩
        · show ((if (usbWrite dev data 0 data.length).1 = 0 then 0 else 4 : Int) = 2 ↔ _)
          split_ifs <;> simp
        · show ((if (usbWrite dev data 0 data.length).1 = 0 then 0 else 4 : Int) = 3 ↔ _)
          split_ifs <;> simp [hrc]
        · intro hexit
          have hzero : (usbWrite dev data 0 data.length).1 = 0 := by
            by_contra hne
            exact absurd ((if_neg hne).symm.trans hexit) (by decide)
          exact List.take_of_length_le (hfull hzero)

end Airbridge.Cli
