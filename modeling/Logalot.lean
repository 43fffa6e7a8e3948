import Logalot.AdminSound
import Logalot.AlertConfigSound
import Logalot.AlertQuerySound
import Logalot.AlertRaceSound
import Logalot.CallbackRunSound
import Logalot.CallbacksSound
import Logalot.CoercionSound
import Logalot.ColdPagesSound
import Logalot.ColdRowsSound
import Logalot.CursorsSound
import Logalot.HandleSound
import Logalot.InsertsSound
import Logalot.InvitesSound
import Logalot.KeyRunsSound
import Logalot.LabelsSound
import Logalot.LimitersSound
import Logalot.LocatedSearch
import Logalot.LogSearchSound
import Logalot.LogTailRowsSound
import Logalot.MailSound
import Logalot.OverridesSound
import Logalot.PanelSeriesSound
import Logalot.PartitionRunsSound
import Logalot.PurgeCountSound
import Logalot.ReturnTo
import Logalot.SavedBatchSound
import Logalot.SessionErrorsSound
import Logalot.SessionReadsSound
import Logalot.SigninSound
import Logalot.TailSound
import Logalot.TierWindowsSound
import Logalot.TieredPagesSound
import Logalot.TokenFormatsSound
import Logalot.TokenTxSound
import Logalot.WebCookiesSound
