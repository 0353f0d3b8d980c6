import NewsProject.Await.Script
import NewsProject.Commands.Watchlist
import NewsProject.Config.Loader
import NewsProject.Dedup.Race
import NewsProject.Feeds.Sina
import NewsProject.Push.Burst
import NewsProject.Quotes.BarTable
import NewsProject.Quotes.Chain
import NewsProject.Quotes.Rsi
import NewsProject.Rules.Compile
import NewsProject.Rules.Naive
import NewsProject.Scheduler.Alone
import NewsProject.Scheduler.Audience
import NewsProject.Scheduler.Ceiling
import NewsProject.Scheduler.Digest
import NewsProject.Scheduler.FirstParty
import NewsProject.Scheduler.Isolation
import NewsProject.Scheduler.Recovery
import NewsProject.Scheduler.Spending
import NewsProject.Scheduler.Watermark
import NewsProject.Watcher.Counting
import NewsProject.Watcher.Cycle
import NewsProject.Watcher.Preview
import NewsProject.Watcher.PriorDays
import NewsProject.Watcher.Reload
import NewsProject.Quotes.Macd
import NewsProject.Watcher.Limits
import NewsProject.Ranking
import NewsProject.JsonText
import NewsProject.Push.Pushers
import NewsProject.Watcher.ScanRanker
import NewsProject.Llm.Entities
import NewsProject.Push.Accepted
import NewsProject.Scrapers.Factory
import NewsProject.Watcher.Message
import NewsProject.Watcher.FailSafe
import NewsProject.Backtrack
import NewsProject.Llm.ParseJson
import NewsProject.Bits
import NewsProject.Hashing
import NewsProject.Commands.Migrate
import NewsProject.Storage.Entities
import NewsProject.Observability.Alert
import NewsProject.Await.Expand
import NewsProject.Storage.Metrics
import NewsProject.Scheduler.Metrics
import NewsProject.Await.Protocol
import NewsProject.Scheduler.Pause
import NewsProject.Scrapers.Rows
import NewsProject.Scheduler.Repoll
import NewsProject.Scheduler.Blocked
import NewsProject.Llm.Budget
import NewsProject.Scheduler.PushRecord
import NewsProject.Scheduler.PushAlerts
import NewsProject.Scheduler.Reasons
import NewsProject.Push.Factory
import NewsProject.Watcher.Hours
import NewsProject.Watcher.MarketScan
import NewsProject.Scheduler.DigestHistory
import NewsProject.Scheduler.DigestService
import NewsProject.Scheduler.Backlog
