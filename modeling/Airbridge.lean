import Airbridge.App.Agreement
import Airbridge.App.Link
import Airbridge.App.PageBuffers
import Airbridge.App.Pipeline
import Airbridge.App.Printfile
import Airbridge.Cli.DecodeSafety
import Airbridge.Cli.Pages
import Airbridge.Cli.Probe
import Airbridge.Cli.Reencode
import Airbridge.Cli.Send
import Airbridge.Common.Json
import Airbridge.Common.Pnm
import Airbridge.Halftone.Conserve
import Airbridge.Halftone.Levels
import Airbridge.Halftone.Mirror
import Airbridge.Halftone.Reset
import Airbridge.Halftone.Screens
import Airbridge.Qpdl.ByteOrder
import Airbridge.Qpdl.Canonical
import Airbridge.Qpdl.Capacity
import Airbridge.Qpdl.Corruption
import Airbridge.Qpdl.EncoderState
import Airbridge.Qpdl.Grammar
import Airbridge.Qpdl.Greedy
import Airbridge.Qpdl.LineLoss
import Airbridge.Qpdl.TableChoice
import Airbridge.Qpdl.Tiling
import Airbridge.Service.Backup
import Airbridge.Service.CopyFile
import Airbridge.Service.Names
import Airbridge.Service.PrintPlan
import Airbridge.Usb.Ieee1284
import Airbridge.Usb.Program
import Airbridge.Usb.Unplug
