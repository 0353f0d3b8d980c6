/-
# NewsProject.Scrapers.Fetch — what the scrapers return

`fetch` of every scraper that `build_registry` can register, over what its source answers (`Site`).  The loops are those
of `NewsProject.Scrapers.Rows`; here are the columns and fields each scraper reads, the links it makes up where the
source has none, and the exceptions it raises itself.

`fetch_follows` is about polling a source twice: an unchanged answer, fetched again with a later watermark, gives the
articles of before that are not older than it.
-/
import NewsProject.Scrapers.Factory
import NewsProject.Scrapers.Rows

namespace NewsProject

namespace Scrapers

open ScraperFactory (Scraper)

/-! ## What is outside -/

/-- An entry of feedparser: its fields, and its parsed times as instants. -/
structure Entry where
  fields : JsonObj
  times : List (String × Option Int)

/-- An element with the class `news-link`: two of its attributes, empty when they are missing, and the stripped text of
its `news-title`. -/
structure NewsLink where
  href : String
  dataTime : String
  title : String

/-- A response of httpx. -/
structure Reply where
  status : Int
  contentType : String
  text : String
  json : Except PyExc Json

/-- A data frame: its rows under their labels. -/
abbrev Frame : Type := List (String × JsonObj)

/-- What the sources answer during a fetch. -/
structure Site where
  /-- A function of akshare, or `news` of tushare, and its arguments. -/
  frame : String → List String → Except PyExc Frame
  get : String → List (String × String) → Dict String String → Except PyExc Reply
  post : String → List (String × String) → Except PyExc Reply
  /-- `feedparser.parse(url).entries`. -/
  feed : String → Except PyExc (List Entry)
  /-- `Ticker(t).news`. -/
  tickerNews : String → Except PyExc (List Json)
  /-- The articles endpoint of wallstreetcn: a channel and a limit. -/
  wallstreet : String → Nat → Except PyExc Json

structure Web extends Libs where
  /-- `feedparser.parse(text).entries`. -/
  entries : String → List Entry
  /-- `BeautifulSoup(text, "html.parser").select(".news-link")`. -/
  newsLinks : String → List NewsLink
  /-- `isinstance(e, httpx.HTTPError)`. -/
  isHttpError : PyExc → Bool
  /-- The text of an `HTTPStatusError`. -/
  statusText : Int → String

/-- `resp.raise_for_status()`; a server error is one of the transient exceptions. -/
def raiseForStatus (web : Web) (resp : Reply) : Except PyExc Unit :=
  if 200 ≤ resp.status ∧ resp.status < 300 then .ok ()
  else .error ⟨if 500 ≤ resp.status then .transient else .other, web.statusText resp.status⟩

/-- A stripped part of a cookie string. -/
def cookie (part : String) : Option (String × String) :=
  if '=' ∈ part.toList then
    some (strip (String.ofList (part.toList.takeWhile (· ≠ '='))),
      strip (String.ofList ((part.toList.dropWhile (· ≠ '=')).drop 1)))
  else none

/-- `parse_cookie_string`. -/
def parseCookieString (s : String) : Dict String String :=
  Dict.ofList ((s.toList.splitOn ';').filterMap (fun part => cookie (strip (String.ofList part))))

section Sources

variable (web : Web) (site : Site) (now : Int) (since : PyDateTime)

/-! ## Data frames -/

/-- `if not j: continue` and the time of what is left. -/
def ifGiven (time : Json → Except PyExc Int) (j : Json) : Except PyExc (Option Int) :=
  if j.truthy then (time j).map some else .ok none

/-- The rows of the `stock_info_global_*` functions. -/
def akshareGlobalRow (sourceId bodyCol : String) : RowReader (String × JsonObj) where
  stamp row := ifGiven web.timestamp (field row.2 "发布时间")
  draft row _ := do
    let link ← stripped row.2 "链接"
    let body ← stripped row.2 bodyCol
    let head ← stripped row.2 "标题"
    let title := if head ≠ "" then head else strPrefix 80 body
    if link = "" ∨ title = "" then pure none
    else pure (some ⟨link, title, orNull body, [("provider", .str ("akshare_" ++ sourceId))]⟩)

/-- `AkshareGlobalScraper`. -/
def akshareGlobal (outlet : Outlet) (bodyCol callable : String) : Except PyExc (List RawArticle) := do
  let df ← site.frame callable []
  (akshareGlobalRow web outlet.sourceId bodyCol).readAll web.toLibs outlet now since df

def cjzcEm : Except PyExc (List RawArticle) :=
  akshareGlobal web site now since ⟨"cjzc_em", .cn⟩ "摘要" "stock_info_cjzc_em"

def eastmoneyGlobal : Except PyExc (List RawArticle) :=
  akshareGlobal web site now since ⟨"eastmoney_global", .cn⟩ "摘要" "stock_info_global_em"

def thsGlobal : Except PyExc (List RawArticle) :=
  akshareGlobal web site now since ⟨"ths_global", .cn⟩ "内容" "stock_info_global_ths"

def futuGlobal : Except PyExc (List RawArticle) :=
  akshareGlobal web site now since ⟨"futu_global", .us⟩ "内容" "stock_info_global_futu"

/-- The first 12 digits of `hashlib.sha1(s.encode("utf-8")).hexdigest()`. -/
def digest12 (s : String) : String := strPrefix 12 (web.sha1 s)

def sinaGlobalRow : RowReader (String × JsonObj) where
  stamp row := ifGiven web.timestamp (field row.2 "时间")
  draft row ts := do
    let body ← stripped row.2 "内容"
    if body = "" then pure none
    else
      -- there is no canonical link, so one is made up
      let link := "https://finance.sina.com.cn/7x24/" ++ web.strftime "%Y%m%dT%H%M%S" ts ++ "/" ++ digest12 web body
      pure (some ⟨link, strPrefix 80 body, .str body, [("provider", .str "akshare_sina")]⟩)

def sinaGlobal : Except PyExc (List RawArticle) := do
  let df ← site.frame "stock_info_global_sina" []
  (sinaGlobalRow web).readAll web.toLibs ⟨"sina_global", .cn⟩ now since df

def caixinTelegramRow : RowReader (String × JsonObj) where
  stamp row :=
    let datePart := field row.2 "发布日期"
    let timePart := field row.2 "发布时间"
    if isNone datePart || isNone timePart then .ok none else (web.combine datePart timePart).map some
  draft row ts := do
    let title ← stripped row.2 "标题"
    let body ← stripped row.2 "内容"
    let displayTitle := if title ≠ "" then title else strPrefix 80 body
    if displayTitle = "" then pure none
    else
      let link := "https://www.cls.cn/telegraph/" ++ web.strftime "%Y%m%dT%H%M%S" ts ++ "/" ++ digest12 web displayTitle
      pure (some ⟨link, displayTitle, orNull body, [("provider", .str "akshare_cls")]⟩)

def caixinTelegram : Except PyExc (List RawArticle) := do
  let df ← site.frame "stock_info_global_cls" ["全部"]
  (caixinTelegramRow web).readAll web.toLibs ⟨"caixin_telegram", .cn⟩ now since df

/-- `beijing_yesterday`, as the number of the day. -/
def beijingYesterday (now : Int) : Int := utcDate (now + hours 8 - hours 24)

/-- Half past seven in the evening of the day, Beijing time. -/
def broadcastTime (day : Int) : Int := day * 86400000000 + hours 19 + 30 * 60000000 - hours 8

/-- The segments of a broadcast have one time, which is compared before the loop. -/
def cctvNewsRow (dateStr : String) (row : String × JsonObj) : Except PyExc (Option Draft) := do
  let title ← stripped row.2 "title"
  let body ← stripped row.2 "content"
  if title = "" then pure none
  else
    let link := "https://tv.cctv.com/lm/xwlb/day/" ++ dateStr ++ ".shtml#seg" ++ row.1
    pure (some ⟨link, title, orNull body, [("provider", .str "akshare_cctv"), ("date", .str dateStr)]⟩)

def cctvNews : Except PyExc (List RawArticle) := do
  let day := beijingYesterday now
  let dateStr := web.strftime "%Y%m%d" (day * 86400000000)
  let df ← site.frame "news_cctv" [dateStr]
  let ts := broadcastTime day
  if ts < since.instant then pure []
  else df.filterMapM (fun row => do append web.toLibs ⟨"cctv_news", .cn⟩ now ts (← cctvNewsRow dateStr row))

def akshareNewsRow (ticker : String) : RowReader (String × JsonObj) where
  stamp row := (web.timestamp (field row.2 "发布时间")).map some
  draft row _ :=
    let str (j : Json) : String := j.pyStr web.builtins
    let link := str (orElse (field row.2 "链接") (orElse (field row.2 "文章链接") (.str "")))
    let title := str (orElse (field row.2 "标题") (orElse (field row.2 "新闻标题") (.str "")))
    let body := str (orElse (field row.2 "内容") (orElse (field row.2 "新闻内容") (.str "")))
    .ok (if link = "" then none else some ⟨link, title, orNull body, [("ticker", .str ticker)]⟩)

def akshareNews (tickers : List String) : Except PyExc (List RawArticle) :=
  concatM (fun t => do
    let df ← site.frame "stock_news_em" [t]
    (akshareNewsRow web t).readAll web.toLibs ⟨"akshare_news", .cn⟩ now since df) tickers

/-- `row.get("title") or row["content"][:60]`. -/
def titleOrExcerpt (row : JsonObj) : Except PyExc Json :=
  if (field row "title").truthy then .ok (field row "title") else do slice 60 (← row.item "content")

def tushareNewsRow (src : String) : RowReader (String × JsonObj) where
  stamp row := do
    let ts ← web.timestamp (← row.2.item "datetime")
    pure (some ts)
  draft row _ := do
    let title ← titleOrExcerpt row.2
    let content ← row.2.item "content"
    let stamp ← row.2.item "datetime"
    let str (j : Json) : String := j.pyStr web.builtins
    let link := "https://tushare.local/" ++ src ++ "/" ++ strPrefix 16 (web.sha1 (str stamp ++ str content))
    pure (some ⟨link, str title, .str (str content), [("src", .str src)]⟩)

/-- What `pro.news` answers for the last hour. -/
def tushareAnswer (src : String) : Except PyExc Frame :=
  site.frame "news" [src, web.strftime "%Y-%m-%d %H:%M:%S" (now - hours 1), web.strftime "%Y-%m-%d %H:%M:%S" now]

def tushareNews (src : String) : Except PyExc (List RawArticle) := do
  let df ← tushareAnswer web site now src
  (tushareNewsRow web src).readAll web.toLibs ⟨"tushare_news", .cn⟩ now since df

/-! ## Feeds -/

/-- The characters of `re.sub(r"<[^>]+>", "", text)`, where `tag` is what follows a `<` that may open a tag. -/
def dropTags : List Char → Option (List Char) → List Char
  | [], none => []
  | [], some tag => '<' :: tag.reverse
  | c :: rest, none => if c = '<' then dropTags rest (some []) else c :: dropTags rest none
  | c :: rest, some [] => if c = '>' then '<' :: '>' :: dropTags rest none else dropTags rest (some [c])
  | c :: rest, some (d :: tag) => if c = '>' then dropTags rest none else dropTags rest (some (c :: d :: tag))

/-- `_strip_html`. -/
def stripHtml (text : String) : String := strip (String.ofList (dropTags text.toList none))

/-- The value `re.sub` works on. -/
def subject : Json → Except PyExc String
  | .str s => .ok s
  | _ => .error ⟨.typeError, "expected string or bytes-like object"⟩

/-- `entry.get(name)` of a parsed time. -/
def timeOf (e : Entry) (name : String) : Option Int := (e.times.lookup name).getD none

def kr36Row : RowReader Entry where
  stamp e := .ok (timeOf e "published_parsed")
  draft e _ := do
    let title ← stripped e.fields "title"
    let link ← stripped e.fields "link"
    if title = "" ∨ link = "" then pure none
    else do
      let summary ← subject (orElse (field e.fields "summary") (.str ""))
      pure (some ⟨link, title, orNull (strPrefix 1000 (stripHtml summary)), [("provider", .str "rss_36kr")]⟩)

def kr36 : Except PyExc (List RawArticle) := do
  let entries ← site.feed "https://36kr.com/feed"
  (kr36Row).readAll web.toLibs ⟨"kr36", .cn⟩ now since entries

/-- `e.name` of an entry. -/
def attr (fields : JsonObj) (name : String) : Except PyExc Json :=
  match fields.get? name with
  | some j => .ok j
  | none => .error ⟨.attributeError, "object has no attribute '" ++ name ++ "'"⟩

/-- `datetime(*e.name[:6])`. -/
def timeAttribute (e : Entry) (name : String) : Except PyExc Int :=
  match e.times.lookup name with
  | some (some ts) => .ok ts
  | some none => .error ⟨.typeError, "'NoneType' object is not subscriptable"⟩
  | none => .error ⟨.attributeError, "object has no attribute '" ++ name ++ "'"⟩

def secEdgarRow (cik : String) : RowReader Entry where
  stamp e := (timeAttribute e "updated_parsed").map some
  draft e _ := do
    let link ← text "encode" (← attr e.fields "link")
    let title ← text "strip" (← attr e.fields "title")
    let id ← attr e.fields "id"
    pure (some ⟨link, title, field e.fields "summary", [("cik", .str cik), ("id", id)]⟩)

def secEdgar (ciks : List String) : Except PyExc (List RawArticle) :=
  concatM (fun cik => do
    let resp ← site.get ("https://www.sec.gov/cgi-bin/browse-edgar?action=getcompany&CIK=" ++ cik ++
      "&type=&dateb=&owner=include&count=20&output=atom") [] Dict.empty
    raiseForStatus web resp
    (secEdgarRow cik).readAll web.toLibs ⟨"sec_edgar", .us⟩ now since (web.entries resp.text)) ciks

/-! ## JSON -/

def finnhubRow : RowReader Json where
  stamp item := do
    let ts ← epoch web.toLibs seconds (← subscript "datetime" item)
    pure (some ts)
  draft item _ := do
    let link ← text "encode" (← subscript "url" item)
    let title ← text "strip" (← subscript "headline" item)
    let o ← item.asObj
    let id ← o.item "id"
    let source ← o.item "source"
    pure (some ⟨link, title, field o "summary", [("finnhub_id", id), ("source", source)]⟩)

/-- The tickers are not asked for. -/
def finnhub (token category : String) : Except PyExc (List RawArticle) := do
  let resp ← site.get "https://finnhub.io/api/v1/news" [("category", category), ("token", token)] Dict.empty
  raiseForStatus web resp
  let data ← resp.json
  (finnhubRow web).readAll web.toLibs ⟨"finnhub", .us⟩ now since (← data.iter)

def yfinanceNewsRow (ticker : String) : RowReader Json where
  stamp item := do
    let ts ← epoch web.toLibs seconds (← subscript "providerPublishTime" item)
    pure (some ts)
  draft item _ := do
    let link ← text "encode" (← subscript "link" item)
    let title ← text "strip" (← subscript "title" item)
    let o ← item.asObj
    pure (some ⟨link, title, .null, [("ticker", .str ticker), ("publisher", o.getD "publisher" (.str ""))]⟩)

def yfinanceNews (tickers : List String) : Except PyExc (List RawArticle) :=
  concatM (fun t => do
    let news ← site.tickerNews t
    (yfinanceNewsRow web t).readAll web.toLibs ⟨"yfinance_news", .us⟩ now since news) tickers

/-- `(payload.get("data") or {}).get("items") or []`. -/
def wallstreetItems (payload : Json) : Except PyExc (List Json) := do
  let o ← payload.asObj
  let data ← (orElse (field o "data") (.obj [])).asObj
  (orElse (field data "items") (.arr [])).iter

def wallstreetCnRow : RowReader Json where
  stamp it := do
    let o ← it.asObj
    ifGiven (epoch web.toLibs seconds) (field o "display_time")
  draft it _ := do
    let o ← it.asObj
    let title ← stripped o "title"
    let link ← stripped o "uri"
    let body ← stripped o "content_short"
    if title = "" ∨ link = "" then pure none
    else pure (some ⟨link, title, orNull body, [("id", field o "id"), ("channel", .str "global")]⟩)

/-- An error of httpx is answered with no articles. -/
def wallstreetCn : Except PyExc (List RawArticle) :=
  match site.wallstreet "global" 30 with
  | .error e => if web.isHttpError e then .ok [] else .error e
  | .ok payload => do
      (wallstreetCnRow web).readAll web.toLibs ⟨"wallstreetcn", .us⟩ now since (← wallstreetItems payload)

def juchaoRow : RowReader Json where
  stamp ann := do
    let ts ← epoch web.toLibs milliseconds (← subscript "announcementTime" ann)
    pure (some ts)
  draft ann _ := do
    let link ← concat "http://static.cninfo.com.cn/" (← subscript "adjunctUrl" ann)
    let name ← subscript "secName" ann
    let headline ← subscript "announcementTitle" ann
    let id ← subscript "announcementId" ann
    let code ← subscript "secCode" ann
    pure (some ⟨link, name.pyStr web.builtins ++ " " ++ headline.pyStr web.builtins, .null,
      [("ann_id", id), ("code", code)]⟩)

def juchao (tickers : List String) : Except PyExc (List RawArticle) :=
  concatM (fun ticker => do
    let resp ← site.post "http://www.cninfo.com.cn/new/hisAnnouncement/query"
      [("stock", ticker), ("tabName", "fulltext"), ("pageSize", "30"), ("pageNum", "1")]
    raiseForStatus web resp
    let data ← (← resp.json).asObj
    let announcements ← (orElse (field data "announcements") (.arr [])).iter
    (juchaoRow web).readAll web.toLibs ⟨"juchao", .cn⟩ now since announcements) tickers

/-! ## The two that look out for being blocked -/

/-- `XueqiuScraper._symbol`. -/
def symbol (ticker : String) : String :=
  match ticker.toList with
  | '6' :: _ => "SH" ++ ticker
  | '0' :: _ => "SZ" ++ ticker
  | '3' :: _ => "SZ" ++ ticker
  | _ => ticker

def xueqiuRow (ticker : String) : RowReader Json where
  stamp item := do
    let ts ← epoch web.toLibs milliseconds (← subscript "created_at" item)
    pure (some ts)
  draft item _ := do
    let link ← concat "https://xueqiu.com" (← subscript "target" item)
    let o ← item.asObj
    let head ← if (field o "title").truthy then pure (field o "title") else slice 80 (o.getD "description" (.str ""))
    let title ← text "strip" head
    let id ← o.item "id"
    pure (some ⟨link, title, field o "description", [("id", id), ("ticker", .str ticker)]⟩)

/-- The checks of a response before its list is read: who is blocked is told so in one of three ways. -/
def xueqiuList (resp : Reply) : Except PyExc (List Json) := do
  if resp.status = 401 ∨ resp.status = 403 then throw ⟨.antiCrawlError, "xueqiu blocked"⟩
  raiseForStatus web resp
  if !contains "application/json" resp.contentType then
    throw ⟨.antiCrawlError, "xueqiu returned non-JSON (" ++ strPrefix 60 resp.contentType ++ ")"⟩
  let data ← (← resp.json).asObj
  if !isZero (data.getD "error_code" (.num (some 0))) then
    throw ⟨.antiCrawlError, "xueqiu error_code=" ++ (field data "error_code").pyStr web.builtins ++ " desc=" ++
      (field data "error_description").pyStr web.builtins⟩
  (data.getD "list" (.arr [])).iter

def xueqiu (tickers : List String) (cookies : String) : Except PyExc (List RawArticle) :=
  concatM (fun t => do
    let resp ← site.get ("https://xueqiu.com/v4/statuses/stock_timeline.json?symbol_id=" ++ symbol t ++ "&count=20") []
      (parseCookieString cookies)
    let items ← xueqiuList web resp
    (xueqiuRow web t).readAll web.toLibs ⟨"xueqiu", .cn⟩ now since items) tickers

def thsRow (ticker : String) : RowReader NewsLink where
  stamp a :=
    if a.href = "" ∨ a.dataTime = "" then .ok none
    else (epoch web.toLibs seconds (.str a.dataTime)).map some
  draft a _ :=
    let link := if "http".toList <+: a.href.toList then a.href else "https://news.10jqka.com.cn" ++ a.href
    .ok (if a.title = "" then none else some ⟨link, a.title, .null, [("ticker", .str ticker)]⟩)

/-- The checks of a page before its links are read. -/
def thsLinks (resp : Reply) : Except PyExc (List NewsLink) := do
  if resp.status = 401 ∨ resp.status = 403 then throw ⟨.antiCrawlError, "ths blocked"⟩
  raiseForStatus web resp
  if strip resp.text = "" then throw ⟨.antiCrawlError, "ths returned empty body"⟩
  if contains "登录" resp.text ∨ contains "captcha" resp.text.toLower then
    throw ⟨.antiCrawlError, "ths returned login/captcha page"⟩
  pure (web.newsLinks resp.text)

def ths (tickers : List String) (cookies : String) : Except PyExc (List RawArticle) :=
  concatM (fun ticker => do
    let resp ← site.get ("https://news.10jqka.com.cn/" ++ ticker ++ "/list.shtml") [] (parseCookieString cookies)
    let links ← thsLinks web resp
    (thsRow web ticker).readAll web.toLibs ⟨"ths", .cn⟩ now since links) tickers

/-! ## All of them -/

/-- The scrapers without arguments, by their ids. -/
def marketWide (id : String) : Except PyExc (List RawArticle) :=
  if id = "caixin_telegram" then caixinTelegram web site now since
  else if id = "eastmoney_global" then eastmoneyGlobal web site now since
  else if id = "ths_global" then thsGlobal web site now since
  else if id = "sina_global" then sinaGlobal web site now since
  else if id = "cjzc_em" then cjzcEm web site now since
  else if id = "cctv_news" then cctvNews web site now since
  else if id = "futu_global" then futuGlobal web site now since
  else if id = "wallstreetcn" then wallstreetCn web site now since
  else if id = "kr36" then kr36 web site now since
  else .error ⟨.keyError, "'" ++ id ++ "'"⟩

/-- `scraper.fetch(since)`. -/
def fetch : Scraper → Except PyExc (List RawArticle)
  | .finnhub token _ category => finnhub web site now since token category
  | .secEdgar ciks => secEdgar web site now since ciks
  | .yfinanceNews tickers => yfinanceNews web site now since tickers
  | .akshareNews tickers => akshareNews web site now since tickers
  | .juchao tickers => juchao web site now since tickers
  | .xueqiu tickers cookies => xueqiu web site now since tickers cookies
  | .ths tickers cookies => ths web site now since tickers cookies
  | .tushareNews src => tushareNews web site now since src
  | .marketWide id => marketWide web site now since id

end Sources

/-! ## Fetching again -/

/-- The source answers the requests of the second fetch as it answered those of the first one.  The requests of
`tushare_news` and `cctv_news` depend on the time. -/
def Unchanged (web : Web) (site site' : Site) (now now' : Int) : Scraper → Prop
  | .tushareNews src => tushareAnswer web site' now' src = tushareAnswer web site now src
  | .marketWide id => site' = site ∧ (id = "cctv_news" → beijingYesterday now' = beijingYesterday now)
  | _ => site' = site

section Again

variable {web : Web} {site : Site} {now now' : Int} {since since' : PyDateTime}

theorem akshareGlobal_follows (hsince : since.instant ≤ since'.instant) (outlet : Outlet) (bodyCol callable : String) :
    Follows (stillNew now' since') (akshareGlobal web site now since outlet bodyCol callable)
      (akshareGlobal web site now' since' outlet bodyCol callable) :=
  Follows.bind (fun df _ => RowReader.readAll_follows _ hsince df)

/-- The broadcast of one evening is returned as a whole or not at all. -/
theorem cctvNews_follows (hsince : since.instant ≤ since'.instant) (hday : beijingYesterday now' = beijingYesterday now) :
    Follows (stillNew now' since') (cctvNews web site now since) (cctvNews web site now' since') := by
  unfold cctvNews
  rw [hday]
  refine Follows.bind ?_
  intro df _
  by_cases hold' : broadcastTime (beijingYesterday now) < since'.instant
  · rw [if_pos hold']
    by_cases hold : broadcastTime (beijingYesterday now) < since.instant
    · rw [if_pos hold]
      exact Follows.nil
    · rw [if_neg hold]
      intro ys hys
      -- every segment has the time of the broadcast, which the later limit leaves out
      have hdrop : ∀ art ∈ ys, stillNew now' since' art = none := by
        refine forall_of_filterMapM ?_ hys
        intro row art hart
        obtain ⟨d, -, happend⟩ := except_bind_ok hart
        obtain ⟨d', hd'⟩ := append_eq_some happend
        rw [stillNew, (rawArticle_eq_ok hd' now).2, instant_utcNow, if_pos hold']
      rw [List.filterMap_eq_nil_iff.mpr hdrop]
      rfl
  · have hold : ¬ broadcastTime (beijingYesterday now) < since.instant :=
      fun h => hold' (lt_of_lt_of_le h hsince)
    rw [if_neg hold', if_neg hold]
    exact Follows.filterMapM (fun row => RowFollows.bind (fun d _ => append_follows hold' d)) df

theorem wallstreetCn_follows (hsince : since.instant ≤ since'.instant) :
    Follows (stillNew now' since') (wallstreetCn web site now since) (wallstreetCn web site now' since') := by
  unfold wallstreetCn
  cases site.wallstreet "global" 30 with
  | error e =>
      by_cases he : web.isHttpError e = true
      · simp only [he, if_true]
        exact Follows.nil
      · simp only [he]
        exact Follows.error
  | ok payload => exact Follows.bind (fun items _ => RowReader.readAll_follows _ hsince items)

theorem marketWide_follows (hsince : since.instant ≤ since'.instant) (id : String)
    (hday : id = "cctv_news" → beijingYesterday now' = beijingYesterday now) :
    Follows (stillNew now' since') (marketWide web site now since id) (marketWide web site now' since' id) := by
  unfold marketWide
  split_ifs with _ _ _ _ _ hcctv
  · exact Follows.bind (fun df _ => RowReader.readAll_follows _ hsince df)
  · exact akshareGlobal_follows hsince _ _ _
  · exact akshareGlobal_follows hsince _ _ _
  · exact Follows.bind (fun df _ => RowReader.readAll_follows _ hsince df)
  · exact akshareGlobal_follows hsince _ _ _
  · exact cctvNews_follows hsince (hday hcctv)
  · exact akshareGlobal_follows hsince _ _ _
  · exact wallstreetCn_follows hsince
  · exact Follows.bind (fun entries _ => RowReader.readAll_follows _ hsince entries)
  · exact Follows.error

/-- **Fetching again.**  When a source answers as it did before, a later fetch with a later watermark returns, in the same
order, exactly those articles of the earlier fetch that are not older than the new watermark. -/
theorem fetch_follows {site' : Site} (s : Scraper) (hsince : since.instant ≤ since'.instant)
    (hunchanged : Unchanged web site site' now now' s) :
    Follows (stillNew now' since') (fetch web site now since s) (fetch web site' now' since' s) := by
  cases s with
  | finnhub token tickers category =>
      cases hunchanged
      exact Follows.bind (fun resp _ => Follows.bind (fun _ _ => Follows.bind (fun data _ => Follows.bind (fun items _ =>
        RowReader.readAll_follows _ hsince items))))
  | secEdgar ciks =>
      cases hunchanged
      exact Follows.concatM (fun cik => Follows.bind (fun resp _ => Follows.bind (fun _ _ =>
        RowReader.readAll_follows _ hsince _))) ciks
  | yfinanceNews tickers =>
      cases hunchanged
      exact Follows.concatM (fun t => Follows.bind (fun news _ => RowReader.readAll_follows _ hsince news)) tickers
  | akshareNews tickers =>
      cases hunchanged
      exact Follows.concatM (fun t => Follows.bind (fun df _ => RowReader.readAll_follows _ hsince df)) tickers
  | juchao tickers =>
      cases hunchanged
      exact Follows.concatM (fun t => Follows.bind (fun resp _ => Follows.bind (fun _ _ => Follows.bind (fun json _ =>
        Follows.bind (fun data _ => Follows.bind (fun items _ => RowReader.readAll_follows _ hsince items)))))) tickers
  | xueqiu tickers cookies =>
      cases hunchanged
      exact Follows.concatM (fun t => Follows.bind (fun resp _ => Follows.bind (fun items _ =>
        RowReader.readAll_follows _ hsince items))) tickers
  | ths tickers cookies =>
      cases hunchanged
      exact Follows.concatM (fun t => Follows.bind (fun resp _ => Follows.bind (fun links _ =>
        RowReader.readAll_follows _ hsince links))) tickers
  | tushareNews src =>
      intro arts harts
      obtain ⟨df, hdf, hread⟩ := except_bind_ok harts
      show tushareNews web site' now' since' src = _
      unfold tushareNews
      rw [show tushareAnswer web site' now' src = .ok df from Eq.trans hunchanged hdf]
      exact RowReader.readAll_follows _ hsince df arts hread
  | marketWide id =>
      obtain ⟨rfl, hday⟩ := hunchanged
      exact marketWide_follows hsince id hday

end Again

/-! ## The labels of the articles -/

/-- `source_id` and `market` of the class of a scraper. -/
def outlet : Scraper → Outlet
  | .marketWide id => ⟨id, if id = "futu_global" ∨ id = "wallstreetcn" then .us else .cn⟩
  | .tushareNews _ => ⟨"tushare_news", .cn⟩
  | .finnhub _ _ _ => ⟨"finnhub", .us⟩
  | .secEdgar _ => ⟨"sec_edgar", .us⟩
  | .yfinanceNews _ => ⟨"yfinance_news", .us⟩
  | .akshareNews _ => ⟨"akshare_news", .cn⟩
  | .juchao _ => ⟨"juchao", .cn⟩
  | .xueqiu _ _ => ⟨"xueqiu", .cn⟩
  | .ths _ _ => ⟨"ths", .cn⟩

theorem outlet_sourceId (s : Scraper) : (outlet s).sourceId = s.sourceId := by
  cases s <;> rfl

section Labels

variable {web : Web} {site : Site} {now : Int} {since : PyDateTime} {arts : List RawArticle}

theorem cctvNews_genuine (h : cctvNews web site now since = .ok arts) :
    ∀ art ∈ arts, Genuine web.toLibs ⟨"cctv_news", .cn⟩ now since art := by
  obtain ⟨df, -, hread⟩ := except_bind_ok h
  by_cases hold : broadcastTime (beijingYesterday now) < since.instant
  · rw [if_pos hold] at hread
    cases hread
    exact List.forall_mem_nil _
  · rw [if_neg hold] at hread
    refine forall_of_filterMapM ?_ hread
    intro row art hart
    obtain ⟨d, -, happend⟩ := except_bind_ok hart
    obtain ⟨d', hraw⟩ := append_eq_some happend
    exact genuine_rawArticle (not_lt.mp hold) hraw

theorem wallstreetCn_genuine (h : wallstreetCn web site now since = .ok arts) :
    ∀ art ∈ arts, Genuine web.toLibs ⟨"wallstreetcn", .us⟩ now since art := by
  unfold wallstreetCn at h
  cases hanswer : site.wallstreet "global" 30 with
  | error e =>
      rw [hanswer] at h
      by_cases he : web.isHttpError e = true
      · simp only [he, if_true] at h
        cases h
        exact List.forall_mem_nil _
      · simp only [he] at h
        cases h
  | ok payload =>
      rw [hanswer] at h
      obtain ⟨items, -, hread⟩ := except_bind_ok h
      exact RowReader.readAll_genuine hread

theorem marketWide_genuine {id : String} (h : marketWide web site now since id = .ok arts) :
    ∀ art ∈ arts, Genuine web.toLibs (outlet (.marketWide id)) now since art := by
  unfold marketWide at h
  split_ifs at h with h₁ h₂ h₃ h₄ h₅ h₆ h₇ h₈ h₉
  · obtain ⟨df, -, hread⟩ := except_bind_ok h
    subst h₁
    exact RowReader.readAll_genuine hread
  · obtain ⟨df, -, hread⟩ := except_bind_ok h
    subst h₂
    exact RowReader.readAll_genuine hread
  · obtain ⟨df, -, hread⟩ := except_bind_ok h
    subst h₃
    exact RowReader.readAll_genuine hread
  · obtain ⟨df, -, hread⟩ := except_bind_ok h
    subst h₄
    exact RowReader.readAll_genuine hread
  · obtain ⟨df, -, hread⟩ := except_bind_ok h
    subst h₅
    exact RowReader.readAll_genuine hread
  · subst h₆
    exact cctvNews_genuine h
  · obtain ⟨df, -, hread⟩ := except_bind_ok h
    subst h₇
    exact RowReader.readAll_genuine hread
  · subst h₈
    exact wallstreetCn_genuine h
  · obtain ⟨entries, -, hread⟩ := except_bind_ok h
    subst h₉
    exact RowReader.readAll_genuine hread

/-- Every article of a fetch is labelled by its scraper. -/
theorem fetch_genuine {s : Scraper} (h : fetch web site now since s = .ok arts) :
    ∀ art ∈ arts, Genuine web.toLibs (outlet s) now since art := by
  cases s with
  | finnhub token tickers category =>
      obtain ⟨resp, -, h⟩ := except_bind_ok h
      obtain ⟨_, -, h⟩ := except_bind_ok h
      obtain ⟨data, -, h⟩ := except_bind_ok h
      obtain ⟨items, -, hread⟩ := except_bind_ok h
      exact RowReader.readAll_genuine hread
  | secEdgar ciks =>
      refine forall_of_concatM ?_ h
      intro cik bs h
      obtain ⟨resp, -, h⟩ := except_bind_ok h
      obtain ⟨_, -, hread⟩ := except_bind_ok h
      exact RowReader.readAll_genuine hread
  | yfinanceNews tickers =>
      refine forall_of_concatM ?_ h
      intro t bs h
      obtain ⟨news, -, hread⟩ := except_bind_ok h
      exact RowReader.readAll_genuine hread
  | akshareNews tickers =>
      refine forall_of_concatM ?_ h
      intro t bs h
      obtain ⟨df, -, hread⟩ := except_bind_ok h
      exact RowReader.readAll_genuine hread
  | juchao tickers =>
      refine forall_of_concatM ?_ h
      intro t bs h
      obtain ⟨resp, -, h⟩ := except_bind_ok h
      obtain ⟨_, -, h⟩ := except_bind_ok h
      obtain ⟨json, -, h⟩ := except_bind_ok h
      obtain ⟨data, -, h⟩ := except_bind_ok h
      obtain ⟨items, -, hread⟩ := except_bind_ok h
      exact RowReader.readAll_genuine hread
  | xueqiu tickers cookies =>
      refine forall_of_concatM ?_ h
      intro t bs h
      obtain ⟨resp, -, h⟩ := except_bind_ok h
      obtain ⟨items, -, hread⟩ := except_bind_ok h
      exact RowReader.readAll_genuine hread
  | ths tickers cookies =>
      refine forall_of_concatM ?_ h
      intro t bs h
      obtain ⟨resp, -, h⟩ := except_bind_ok h
      obtain ⟨links, -, hread⟩ := except_bind_ok h
      exact RowReader.readAll_genuine hread
  | tushareNews src =>
      obtain ⟨df, -, hread⟩ := except_bind_ok h
      exact RowReader.readAll_genuine hread
  | marketWide id => exact marketWide_genuine h

end Labels

/-- **Fetching again.**  Every article of a fetch is labelled by its scraper; and when the source answers as it did before, a
later fetch with a later watermark returns, in the same order, exactly the articles of the earlier one that are not older
than the new watermark. -/
theorem fetch_again {web : Web} {site site' : Site} {now now' : Int} {since since' : PyDateTime} {s : Scraper}
    {arts : List RawArticle} (hsince : since.instant ≤ since'.instant) (hunchanged : Unchanged web site site' now now' s)
    (hfetch : fetch web site now since s = .ok arts) :
    (∀ art ∈ arts, art.source = s.sourceId ∧ Genuine web.toLibs (outlet s) now since art) ∧
      fetch web site' now' since' s = .ok (arts.filterMap (stillNew now' since')) := by
  refine ⟨fun art hart => ?_, fetch_follows s hsince hunchanged arts hfetch⟩
  have hgenuine := fetch_genuine hfetch art hart
  exact ⟨hgenuine.source.trans (outlet_sourceId s), hgenuine⟩

namespace SlowNews

def web : Web where
  builtins := { floatOfStr := fun _ => none, repr := fun _ => "" }
  intOfStr := fun _ => none
  sha1 := id
  simhash := fun _ => 0
  validate := fun link _ => .ok (link, none)
  timestamp := fun _ => .ok 0
  combine := fun _ _ => .ok 0
  strftime := fun _ _ => ""
  entries := fun _ => []
  newsLinks := fun _ => []
  isHttpError := fun _ => false
  statusText := fun _ => ""

/-- One ticker has one item. -/
def site : Site where
  frame := fun _ _ => .ok []
  get := fun _ _ _ => .ok ⟨200, "", "", .ok .null⟩
  post := fun _ _ => .ok ⟨200, "", "", .ok .null⟩
  feed := fun _ => .ok []
  tickerNews := fun _ =>
    .ok [.obj [("providerPublishTime", .num (some 0)), ("link", .str "https://b"), ("title", .str "b")]]
  wallstreet := fun _ _ => .ok (.obj [])

def scraper : Scraper := .yfinanceNews ["NVDA"]

/-- What it becomes when it is fetched at `now`. -/
def item (now : Int) : RawArticle where
  source := "yfinance_news"
  market := .us
  fetchedAt := utcNow now
  publishedAt := utcNow 0
  url := "https://b"
  urlHash := "https://b"
  title := "b"
  titleSimhash := 0
  body := none
  rawMeta := [("ticker", .str "NVDA"), ("publisher", .str "")]

theorem fetched (now : Int) : fetch web site now (utcNow 0) scraper = .ok [item now] := rfl

end SlowNews

open SlowNews in
/-- Ten microseconds later the item is returned once more; after the watermark 1 it is not. -/
theorem fetch_again_slowNews :
    (∀ art ∈ [item 0], art.source = scraper.sourceId ∧ Genuine web.toLibs (outlet scraper) 0 (utcNow 0) art) ∧
      fetch web site 10 (utcNow 1) scraper = .ok ([item 0].filterMap (stillNew 10 (utcNow 1))) :=
  fetch_again (by decide) rfl (fetched 0)

end Scrapers

end NewsProject
