import Airbridge.Lib.CString
import Airbridge.Qpdl.Records

/-!
# The files of the service

Where the installed pieces live, and the two files the installer writes for
launchd and newsyslog (`service.h` and the pure part of `service.c`).
-/

namespace Airbridge.Service

open Airbridge.Qpdl (ascii)
open CString (fit formatInt)

/-! ## Names and paths -/

def SERVICE_LABEL : CString := ascii "com.m2022airbridge.daemon"
def SERVICE_USER : CString := ascii "_m2022airbridge"
def SERVICE_BINARY : CString := ascii "/usr/local/bin/m2022-airbridge"
def SERVICE_PLIST : CString := ascii "/Library/LaunchDaemons/" ++ SERVICE_LABEL ++ ascii ".plist"
def SERVICE_SUPPORT_DIR : CString := ascii "/Library/Application Support/M2022AirBridge"
def SERVICE_BACKUP_DIR : CString := SERVICE_SUPPORT_DIR ++ ascii "/backup"
def SERVICE_STATE_FILE : CString := SERVICE_SUPPORT_DIR ++ ascii "/state.conf"
def SERVICE_QUEUE_MARKER : CString := SERVICE_SUPPORT_DIR ++ ascii "/queue-created-by-installer"
def SERVICE_SPOOL_DIR : CString := ascii "/var/spool/m2022-airbridge"
def SERVICE_LOG_DIR : CString := ascii "/Library/Logs/M2022AirBridge"
def SERVICE_LOG_FILE : CString := SERVICE_LOG_DIR ++ ascii "/m2022-airbridge.log"
def SERVICE_NEWSYSLOG : CString := ascii "/etc/newsyslog.d/" ++ SERVICE_LABEL ++ ascii ".conf"
def SERVICE_PORT : Int := 8000
def SERVICE_PRINTER_NAME : CString := ascii "Samsung M2022"
def SERVICE_QUEUE : CString := ascii "Samsung_M2022"
def VENDOR_QUEUE : CString := ascii "Samsung_M2020_Series"
def VENDOR_PPD : CString := ascii "/etc/cups/ppd/" ++ VENDOR_QUEUE ++ ascii ".ppd"
def SERVICE_UID_MIN : Int := 300
def SERVICE_UID_MAX : Int := 499

/-! ## Parameters -/

/-- `m2022_service_params_t`; a null name or a port that is not positive stands
for the default. -/
structure ServiceParams where
  printerName : Option CString
  port : Int
deriving Repr, DecidableEq

def printerName (p : Option ServiceParams) : CString :=
  (p.bind ServiceParams.printerName).getD SERVICE_PRINTER_NAME

def servicePort (p : Option ServiceParams) : Int :=
  match p with
  | some p => if p.port > 0 then p.port else SERVICE_PORT
  | none => SERVICE_PORT

/-! ## The launchd job -/

/-- The entity for a character that needs one. -/
def xmlEntity (c : UInt8) : Option CString :=
  if c = 38 then some (ascii "&amp;")
  else if c = 60 then some (ascii "&lt;")
  else if c = 62 then some (ascii "&gt;")
  else none

/-- `xml_escape` into a buffer of `size` bytes, `n` of them in use; it stops
where another entity might not fit. -/
def xmlEscape (size n : Nat) : CString → CString
  | [] => []
  | c :: s =>
    if n + 6 < size then
      let rep := (xmlEntity c).getD [c]
      rep ++ xmlEscape size (n + rep.length) s
    else []

/-- `m2022_service_plist` into a buffer of `size` bytes. -/
def servicePlist (p : Option ServiceParams) (size : Nat) : CString :=
  let name := xmlEscape 256 0 (printerName p)
  fit size <|
    ascii "<?xml version=\"1.0\" encoding=\"UTF-8\"?>\n"
    ++ ascii "<!DOCTYPE plist PUBLIC \"-//Apple//DTD PLIST 1.0//EN\" "
    ++ ascii "\"http://www.apple.com/DTDs/PropertyList-1.0.dtd\">\n"
    ++ ascii "<plist version=\"1.0\">\n"
    ++ ascii "<dict>\n"
    ++ ascii "\t<key>Label</key>\n\t<string>" ++ SERVICE_LABEL ++ ascii "</string>\n"
    ++ ascii "\t<key>ProgramArguments</key>\n"
    ++ ascii "\t<array>\n"
    ++ ascii "\t\t<string>" ++ SERVICE_BINARY ++ ascii "</string>\n"
    ++ ascii "\t\t<string>server</string>\n"
    ++ ascii "\t\t<string>--spool</string>\n\t\t<string>" ++ SERVICE_SPOOL_DIR
    ++ ascii "</string>\n"
    ++ ascii "\t\t<string>--log</string>\n\t\t<string>" ++ SERVICE_LOG_FILE ++ ascii "</string>\n"
    ++ ascii "\t\t<string>--state</string>\n\t\t<string>" ++ SERVICE_STATE_FILE
    ++ ascii "</string>\n"
    ++ ascii "\t\t<string>--port</string>\n\t\t<string>" ++ formatInt (servicePort p)
    ++ ascii "</string>\n"
    ++ ascii "\t\t<string>--name</string>\n\t\t<string>" ++ name ++ ascii "</string>\n"
    ++ ascii "\t</array>\n"
    ++ ascii "\t<key>UserName</key>\n\t<string>" ++ SERVICE_USER ++ ascii "</string>\n"
    ++ ascii "\t<key>GroupName</key>\n\t<string>" ++ SERVICE_USER ++ ascii "</string>\n"
    ++ ascii "\t<key>RunAtLoad</key>\n\t<true/>\n"
    ++ ascii "\t<key>KeepAlive</key>\n\t<true/>\n"
    ++ ascii "\t<key>ThrottleInterval</key>\n\t<integer>5</integer>\n"
    ++ ascii "\t<key>ProcessType</key>\n\t<string>Background</string>\n"
    ++ ascii "\t<key>EnvironmentVariables</key>\n"
    ++ ascii "\t<dict>\n\t\t<key>HOME</key>\n\t\t<string>" ++ SERVICE_SUPPORT_DIR
    ++ ascii "</string>\n"
    ++ ascii "\t</dict>\n"
    ++ ascii "\t<key>StandardOutPath</key>\n\t<string>" ++ SERVICE_LOG_DIR
    ++ ascii "/launchd.log</string>\n"
    ++ ascii "\t<key>StandardErrorPath</key>\n\t<string>" ++ SERVICE_LOG_DIR
    ++ ascii "/launchd.log</string>\n"
    ++ ascii "</dict>\n"
    ++ ascii "</plist>\n"

/-- `m2022_service_newsyslog` into a buffer of `size` bytes. -/
def serviceNewsyslog (size : Nat) : CString :=
  fit size <|
    SERVICE_LOG_FILE ++ ascii "\t" ++ SERVICE_USER ++ ascii ":" ++ SERVICE_USER
    ++ ascii "\t644\t5\t5000\t*\tJ\n"

end Airbridge.Service
