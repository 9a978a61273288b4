import TxTestTool.Fake.Progress
import TxTestTool.Monitor.Fetching
import TxTestTool.Monitored.Theorems
import TxTestTool.Runner.Clock
import TxTestTool.Runner.LogPath
import TxTestTool.Runner.Reports
import TxTestTool.Runner.Stopping
import TxTestTool.Scenario.ChainSpec
import TxTestTool.Scenario.Pipeline
import TxTestTool.Sink.Cached
import TxTestTool.Sink.Connect
