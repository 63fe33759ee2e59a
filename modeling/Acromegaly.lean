import Acromegaly.Found.Machine
import Acromegaly.Model.Config
import Acromegaly.Model.Controller
import Acromegaly.Motion.Steps
import Acromegaly.Motion.Safety
import Acromegaly.Model.Services
import Acromegaly.Found.Rounding
import Acromegaly.Wire.Direction
import Acromegaly.Found.Bytes
import Acromegaly.Model.M45pe
import Acromegaly.Found.Publisher
import Acromegaly.Model.App
import Acromegaly.Publish.Mailbox
import Acromegaly.Model.Firmware
import Acromegaly.Publish.FinalUpdate
import Acromegaly.Motion.Quiet
import Acromegaly.Wire.Pending
import Acromegaly.Wire.Received
import Acromegaly.Motion.Termination
import Acromegaly.Motion.Calibration
import Acromegaly.Wire.PositionReport
import Acromegaly.Publish.Persistence
import Acromegaly.Motion.Rest
import Acromegaly.Motion.Stall
import Acromegaly.Motion.Accounting
import Acromegaly.Found.Lockstep
import Acromegaly.Motion.Desk
import Acromegaly.Motion.Projection
import Acromegaly.Motion.Standstill
import Acromegaly.Motion.Tracking
import Acromegaly.Model.MainLoop
import Acromegaly.Publish.Interrupted
import Acromegaly.Publish.Pace
import Acromegaly.Found.Codec
import Acromegaly.Found.History
import Acromegaly.Wire.Protocol
import Acromegaly.Publish.Telemetry
import Acromegaly.Publish.Lives
import Acromegaly.Publish.Lossless
