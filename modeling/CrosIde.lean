import CrosIde.Misc.JsMap
import CrosIde.Misc.JsDate
import CrosIde.CommonUtil.JobManager
import CrosIde.CommonUtil.Mutex
import CrosIde.CommonUtil.CacheOnSuccess
import CrosIde.CommonUtil.Exec
import CrosIde.Ui.BgTaskStatus
import CrosIde.Ui.Coverage
import CrosIde.CppCodeCompletion.Ebuild
import CrosIde.CppCodeCompletion.RemoveCache
import CrosIde.CppCodeCompletion.ArtifactPath
import CrosIde.CppCodeCompletion.Generate
import CrosIde.CppCodeCompletion.StatusBar
import CrosIde.CppCodeCompletion.MaybeGenerate
import CrosIde.Gerrit.GerritComments
import CrosIde.Watchers.ProductWatcher
import CrosIde.Watchers.Activation
import CrosIde.RegExp.Matcher
import CrosIde.OwnersLinks
import CrosIde.Gtest.Parser
import CrosIde.Gtest.Googletest
import CrosIde.Gtest.Filter
import CrosIde.DeviceManagement.Sessions
import CrosIde.DeviceManagement.Picker
import CrosIde.Misc.Path
import CrosIde.CommonUtil.PathWalks
import CrosIde.Packages.FromFilepath
import CrosIde.Packages.EnsureGenerated
