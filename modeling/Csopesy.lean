import Csopesy.Bytes
import Csopesy.Transition
import Csopesy.LineDiscipline
import Csopesy.Parameters
import Csopesy.Interpreter
import Csopesy.LineEditor
import Csopesy.Terminal
import Csopesy.Renderer
import Csopesy.FrameGeometry
import Csopesy.Cli
import Csopesy.Scrolling
import Csopesy.Scheduler
import Csopesy.Session
import Csopesy.Cadence
import Csopesy.Trimming
import Csopesy.Reading
import Csopesy.Numbers
import Csopesy.Grammar
import Csopesy.Startup
import Csopesy.RefreshSetting
import Csopesy.ValidParameters
import Csopesy.Independence
import Csopesy.Layout
import Csopesy.Resize
import Csopesy.Monitor
import Csopesy.ConsoleApp
import Csopesy.ConsoleAppInvariants
import Csopesy.Echo
import Csopesy.WakeUp
import Csopesy.Wakes
import Csopesy.Stopping
import Csopesy.Shutdown
import Csopesy.PollTimeout
import Csopesy.PosixWrite
import Csopesy.RawMode
import Csopesy.Win32Input
import Csopesy.PosixInput
import Csopesy.PromptRow
import Csopesy.ConfigLayout
import Csopesy.Machine
import Csopesy.FrameSafety
import Csopesy.Application
import Csopesy.InputLoop
import Csopesy.Termination
import Csopesy.Response
import Csopesy.TwoModes
import Csopesy.Screen
import Csopesy.Display
import Csopesy.Win32RawMode
import Csopesy.Main
import Csopesy.Races
import Csopesy.Win32Write
import Csopesy.Delivery
import Csopesy.FrameRate
import Csopesy.Ticker
import Csopesy.SettingsRoundTrip
import Csopesy.Lifetime
import Csopesy.IdleWakeups
import Csopesy.Transcript
