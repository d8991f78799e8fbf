import Airbridge.Usb.List

/-!
# The device URI

`parse_uri` (`usbdev.c`) takes the ids and the serial number out of the URI
that PAPPL hands back to `usbdev_open`.  It reads the serial number up to a
`&` or a `/`.  `make_uri` prints the serial number as the device has it, so
the URI of a device selects that device exactly when its serial number has
neither of the two.
-/

namespace Airbridge.Usb

open Airbridge.Qpdl (ascii)
open CString (fit strstr scanHex)

/-! ## Reading a URI -/

/-- The two conversions `%4x:%4x`. -/
def scanIds (p : CString) : Option (UInt32 × UInt32) :=
  match scanHex 4 p with
  | none => none
  | some (vid, rest) =>
    match rest with
    | 58 :: rest => (scanHex 4 rest).map fun pid => (vid, pid.1)
    | _ => none

/-- What ends a serial number in a URI. -/
def endsSerial (b : UInt8) : Bool := b == 38 || b == 47

/-- `parse_uri`.  Ids that are left out are 0, and so is the serial number
empty. -/
def parseUri (uri : CString) (serialSize : Nat) : Option UsbMatch :=
  match strstr uri (ascii "://") with
  | none => none
  | some p =>
    let p := p.drop 3
    let ids := (scanIds p).getD (0, 0)
    let serial := match strstr p (ascii "serial=") with
      | none => []
      | some q => fit serialSize ((q.drop 7).takeWhile fun b => !endsSerial b)
    some { vid := ids.1.toUInt16, pid := ids.2.toUInt16, serial := serial }

/-! ## The printed ids -/

theorem length_hex4 (n : UInt16) : (hex4 n).length = 4 := rfl

theorem hexDigit_spec {n : Nat} (h : n < 16) :
    CString.isHexDigit (hexDigit n) = true ∧ CString.hexDigitValue (hexDigit n) = n := by
  interval_cases n <;> decide

theorem isHexDigit_hex4 (n : UInt16) : ∀ b ∈ hex4 n, CString.isHexDigit b = true := by
  intro b hb
  obtain ⟨d, hd, rfl⟩ := List.mem_map.mp hb
  have hlt := n.toNat_lt
  simp only [List.mem_cons, List.not_mem_nil, or_false] at hd
  have hd16 : d < 16 := by omega
  exact (hexDigit_spec hd16).1

theorem hexValue_hex4 (n : UInt16) : CString.hexValue (hex4 n) = n.toNat := by
  have hlt := n.toNat_lt
  simp only [CString.hexValue, hex4, List.map_cons, List.map_nil, List.foldl_cons, List.foldl_nil]
  rw [(hexDigit_spec (by omega)).2, (hexDigit_spec (by omega)).2, (hexDigit_spec (by omega)).2,
    (hexDigit_spec (by omega)).2]
  omega

/-- A printed id is read back. -/
theorem scanHex_hex4 (n : UInt16) (s : CString) :
    scanHex 4 (hex4 n ++ s) = some (n.toUInt32, s) := by
  have hne : hex4 n ≠ [] := List.cons_ne_nil _ _
  have h := CString.scanHex_digits hne (isHexDigit_hex4 n) s
  rw [length_hex4, hexValue_hex4] at h
  rw [h, ← UInt16.toNat_toUInt32, UInt32.ofNat_toNat]

theorem scanIds_hex4 (vid pid : UInt16) (s : CString) :
    scanIds (hex4 vid ++ 58 :: (hex4 pid ++ s)) = some (vid.toUInt32, pid.toUInt32) := by
  simp only [scanIds, scanHex_hex4, Option.map_some]

/-- The letter that begins `serial=` is none of the digits. -/
theorem not_mem_hex4 (n : UInt16) : 115 ∉ hex4 n := by
  intro hmem
  exact absurd (isHexDigit_hex4 n 115 hmem) (by decide)

/-! ## A printed URI -/

/-- The URI of a device is printed whole. -/
theorem makeUri_eq {info : UsbInfo} (hlen : info.serial.length ≤ 127) :
    makeUri info 256 = USBDEV_SCHEME ++ (ascii "://" ++
      (hex4 info.vid ++ 58 :: (hex4 info.pid ++ 63 :: (ascii "serial=" ++ info.serial)))) := by
  have hcolon : ascii ":" = [58] := by decide
  have hquery : ascii "?serial=" = 63 :: ascii "serial=" := by decide
  have hmark : (ascii "serial=").length = 7 := by decide
  have hscheme : (USBDEV_SCHEME ++ ascii "://").length = 11 := by decide
  unfold makeUri
  rw [CString.fit_eq]
  · simp [hcolon, hquery]
  · simp only [hcolon, hquery, List.length_append, length_hex4, List.length_cons,
      List.length_nil, hmark] at hscheme ⊢
    omega

/-- What is read of the URI of a device. -/
theorem parseUri_makeUri {info : UsbInfo} (hlen : info.serial.length ≤ 127) :
    parseUri (makeUri info 256) 128 =
      some ⟨info.vid, info.pid, info.serial.takeWhile fun b => !endsSerial b⟩ := by
  have hfit : (info.serial.takeWhile fun b => !endsSerial b).length < 128 := by
    have := (List.takeWhile_sublist (l := info.serial) fun b => !endsSerial b).length_le
    omega
  have hscheme : strstr (makeUri info 256) (ascii "://") = some (ascii "://" ++
      (hex4 info.vid ++ 58 :: (hex4 info.pid ++ 63 :: (ascii "serial=" ++ info.serial)))) := by
    rw [makeUri_eq hlen, ← CString.strstr_append]
    exact CString.strstr_skip (c := 58) (by decide) (by decide) _
  have hserial : strstr (hex4 info.vid ++ 58 :: (hex4 info.pid ++ 63 ::
      (ascii "serial=" ++ info.serial))) (ascii "serial=") =
        some (ascii "serial=" ++ info.serial) := by
    have hskipped : 115 ∉ hex4 info.vid ++ 58 :: (hex4 info.pid ++ [63]) := by
      simp [not_mem_hex4]
    have hfirst : (ascii "serial=").head? = some 115 := by decide
    have hskip := CString.strstr_skip hfirst hskipped (ascii "serial=" ++ info.serial)
    rw [CString.strstr_append] at hskip
    simpa using hskip
  have hids := scanIds_hex4 info.vid info.pid (63 :: (ascii "serial=" ++ info.serial))
  have hdrop : (ascii "://" ++ (hex4 info.vid ++ 58 :: (hex4 info.pid ++ 63 ::
      (ascii "serial=" ++ info.serial)))).drop 3 = hex4 info.vid ++ 58 :: (hex4 info.pid ++ 63 ::
        (ascii "serial=" ++ info.serial)) := List.drop_left' (by decide)
  have hvalue : (ascii "serial=" ++ info.serial).drop 7 = info.serial :=
    List.drop_left' (by decide)
  unfold parseUri
  rw [hscheme]
  dsimp only
  rw [hdrop, hids, hserial]
  dsimp only
  rw [hvalue, CString.fit_eq hfit]
  simp

/-! ## The device that a URI selects -/

theorem usbMatches_iff {vid pid : UInt16} {serial : CString} (hvid : vid ≠ 0) (hpid : pid ≠ 0)
    (hserial : serial ≠ []) (info : UsbInfo) :
    usbMatches (some ⟨vid, pid, serial⟩) info = true ↔
      info.vid = vid ∧ info.pid = pid ∧ info.serial = serial := by
  simp only [usbMatches, hvid, hpid, hserial, decide_false, Bool.false_or, Bool.and_eq_true,
    decide_eq_true_eq]
  tauto

/-- The URI of a device with nonzero ids and a serial number of up to 127
characters gives its ids and its serial number, and so selects it alone,
exactly when the serial number has neither a `&` nor a `/`. -/
theorem parseUri_makeUri_selects_iff (info : UsbInfo) (hvid : info.vid ≠ 0) (hpid : info.pid ≠ 0)
    (hserial : info.serial ≠ []) (hlen : info.serial.length ≤ 127) :
    (∃ m, parseUri (makeUri info 256) 128 = some m ∧ m.vid = info.vid ∧ m.pid = info.pid ∧
      m.serial = info.serial ∧ ∀ other : UsbInfo, usbMatches (some m) other = true ↔
        other.vid = info.vid ∧ other.pid = info.pid ∧ other.serial = info.serial) ↔
      38 ∉ info.serial ∧ 47 ∉ info.serial := by
  have hends : (info.serial.takeWhile fun b => !endsSerial b) = info.serial ↔
      38 ∉ info.serial ∧ 47 ∉ info.serial := by
    rw [List.takeWhile_eq_self_iff]
    constructor
    · intro hall
      constructor
      · intro hmem
        exact absurd (hall 38 hmem) (by decide)
      · intro hmem
        exact absurd (hall 47 hmem) (by decide)
    · intro ⟨hamp, hslash⟩ b hb
      have h38 : b ≠ 38 := fun heq => hamp (heq ▸ hb)
      have h47 : b ≠ 47 := fun heq => hslash (heq ▸ hb)
      simp [endsSerial, h38, h47]
  rw [parseUri_makeUri hlen, ← hends]
  constructor
  · intro ⟨m, hm, _, _, hm_serial, _⟩
    rw [← Option.some_inj.mp hm] at hm_serial
    exact hm_serial
  · intro hwhole
    rw [hwhole]
    exact ⟨_, rfl, rfl, rfl, rfl, usbMatches_iff hvid hpid hserial⟩

/-- The device of the comment above `parse_uri`. -/
theorem parseUri_makeUri_selects_m2022 :
    let info : UsbInfo := ⟨0x04e8, 0x3321, 0, 1, 1, 0, 0, 2, 1, 0x82, 64, [], [],
      ascii "ZF45B8GF3C01YSD"⟩
    ∃ m, parseUri (makeUri info 256) 128 = some m ∧ m.vid = info.vid ∧ m.pid = info.pid ∧
      m.serial = info.serial ∧ ∀ other : UsbInfo, usbMatches (some m) other = true ↔
        other.vid = info.vid ∧ other.pid = info.pid ∧ other.serial = info.serial := by
  intro info
  have hserial : info.serial = ascii "ZF45B8GF3C01YSD" := rfl
  refine (parseUri_makeUri_selects_iff info (by decide) (by decide) ?_ ?_).mpr ?_
  · rw [hserial]
    decide
  · rw [hserial]
    decide
  · rw [hserial]
    decide

/-- The serial number `AB/12` is read as `AB`, which selects another device. -/
theorem parseUri_makeUri_slash :
    let info : UsbInfo := ⟨0x04e8, 0x3321, 0, 1, 1, 0, 0, 2, 1, 0x82, 64, [], [], ascii "AB/12"⟩
    parseUri (makeUri info 256) 128 = some ⟨0x04e8, 0x3321, ascii "AB"⟩ ∧
      usbMatches (parseUri (makeUri info 256) 128) info = false ∧
      usbMatches (parseUri (makeUri info 256) 128) { info with serial := ascii "AB" } = true := by
  decide +kernel

end Airbridge.Usb
