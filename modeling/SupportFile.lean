import SupportFile.ApiTest.Lemmas.BrokenUpload
import SupportFile.ApiTest.Lemmas.Discard
import SupportFile.ApiTest.Lemmas.Drain
import SupportFile.ApiTest.Lemmas.Expiry
import SupportFile.ApiTest.Lemmas.Flush
import SupportFile.ApiTest.Lemmas.Form
import SupportFile.ApiTest.Lemmas.Progress
import SupportFile.ApiTest.Lemmas.Session
import SupportFile.ApiTest.Lemmas.Target
import SupportFile.CustomJs.Lemmas.Clicks
import SupportFile.CustomJs.Lemmas.FormToJson
import SupportFile.CustomJs.Lemmas.GenerateUUID
import SupportFile.CustomJs.Lemmas.Header
import SupportFile.CustomJs.Lemmas.Page
import SupportFile.CustomJs.Lemmas.SiftBasedOnColumn
import SupportFile.CustomJs.Lemmas.SortOnTheadClick
import SupportFile.Gfw.Lemmas.Config
import SupportFile.Gfw.Lemmas.Machine
import SupportFile.Gfw.Lemmas.Ports
import SupportFile.JQuery.Lemmas.RoundTrip
import SupportFile.MySql.Lemmas.Agree
import SupportFile.MySql.Lemmas.CteUp
import SupportFile.MySql.Lemmas.DataManipulation
import SupportFile.MySql.Lemmas.Dual
import SupportFile.MySql.Lemmas.Median
import SupportFile.MySql.Lemmas.Path
import SupportFile.MySql.Lemmas.Session
import SupportFile.SampleShell.Lemmas.Foreign
import SupportFile.SampleShell.Lemmas.Install
import SupportFile.SampleShell.Lemmas.Provision
import SupportFile.SampleShell.Lemmas.Recorded
import SupportFile.SampleShell.Lemmas.StopAll
