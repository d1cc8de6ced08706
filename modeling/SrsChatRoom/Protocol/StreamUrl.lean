import SrsChatRoom.Protocol.HttpUri

/-!
# The URL of a stream (`srs_protocol_utility.cpp`)

`srs_discovery_tc_url` puts the URL of an RTMP connection and the name of the stream together, moves
the query behind the last slash, and parses what comes out. A URL that cannot be parsed is ignored:
nothing is set then. `srs_generate_rtmp_url` writes the URL for the next server, with the vhost at
the end of the query unless `vhost=` stands there already.

* `srsDiscoveryTcUrl`, `srsGenerateRtmpUrl` - the two functions;
* `Form.spell` - the ways to write the URL of a stream;
* `Form.Agrees` - the vhost, the app and the stream are found.
-/

namespace SrsChatRoom.Protocol.StreamUrl

open HttpUri (SrsHttpUri srsHttpUriInitialize defaultVhost rtmpHead)

/-- The characters of a URL. -/
abbrev Text : Type := TextStream.Text

/-! ## Code -/

def dottedWord : Text := ['.', '.', '.', 'v', 'h', 'o', 's', 't']

/-- `...vhost...` -/
def dotted : Text := dottedWord ++ ['.', '.', '.']

/-- `vhost=` -/
def vhostKey : Text := ['v', 'h', 'o', 's', 't', '=']

/-- `?vhost=` -/
def asQuery : Text := '?' :: vhostKey

def definstWord : Text := ['_', 'd', 'e', 'f', 'i', 'n', 's', 't', '_']

/-- `/_definst_` -/
def definst : Text := '/' :: definstWord

/-- `SRS_CONSTS_RTMP_DEFAULT_APP` -/
def defaultApp : Text := "__defaultApp__".toList

/-- Where a query or a fragment begins. -/
def isQueryMark (c : Char) : Bool := c = '?' || c = '#'

/-- `srs_discovery_tc_url`: a query in front of the last slash goes to the end. -/
def moveQuery (fullUrl : Text) : Text :=
  match SubText.splitLast '/' (fullUrl.dropWhile (! isQueryMark ·)) with
  | none => fullUrl
  | some (query, stream) => fullUrl.takeWhile (! isQueryMark ·) ++ ('/' :: stream ++ query)

/-- `srs_discovery_tc_url`: the URL that is parsed. -/
def standardUrl (tcUrl stream param : Text) : Text :=
  let slash :=
    if stream = [] then ['/'] else if stream.head? = some '/' then stream else '/' :: stream
  let query := if param = [] then [] else if param.head? = some '?' then param else '?' :: param
  let fullUrl := moveQuery (SubText.replace dotted asQuery tcUrl ++ slash ++ query)
  if definst <:+: fullUrl then SubText.replace definst [] fullUrl else fullUrl

/-- `srs_path_dirname` -/
def srsPathDirname (path : Text) : Text :=
  match SubText.splitLast '/' path with
  | none => ['.', '/']
  | some (dirname, _) => if dirname = [] then ['/'] else dirname

/-- `srs_path_basename` -/
def srsPathBasename (path : Text) : Text :=
  match SubText.splitLast '/' path with
  | none => path
  | some (_, basename) => if path.length = 1 then path else basename

/-- What `srs_discovery_tc_url` reads and sets. -/
structure TcUrl where
  schema : Text
  host : Text
  vhost : Text
  app : Text
  stream : Text
  port : ℕ
  param : Text

/-- The app in front of the stream, without its slash. -/
def appOf (path : Text) : Text :=
  let dirname := srsPathDirname path
  let app := if dirname.head? = some '/' then dirname.tail else dirname
  if app = [] then defaultApp else app

/-- The vhost that the query names. -/
def vhostInQuery (uri : SrsHttpUri) : Text :=
  let vhost := uri.getQueryByKey "vhost".toList
  if vhost = [] then uri.getQueryByKey "domain".toList else vhost

/-- The query and the fragment as they are kept. -/
def paramOf (uri : SrsHttpUri) : Text :=
  (if uri.query = [] then [] else '?' :: uri.query) ++
    (if uri.fragment = [] then [] else '#' :: uri.fragment)

/-- The vhost of the query unless it is the default one, or the vhost that is known, or the host. -/
def chooseVhost (inQuery known host : Text) : Text :=
  let vhost := if inQuery ≠ [] ∧ inQuery ≠ defaultVhost then inQuery else known
  if vhost = [] then host else vhost

/-- `srs_discovery_tc_url` -/
def srsDiscoveryTcUrl (tcUrl : Text) (r : TcUrl) : TcUrl :=
  match srsHttpUriInitialize (standardUrl tcUrl r.stream r.param) with
  | none => r
  | some uri =>
    { schema := uri.schema
      host := uri.host
      vhost := chooseVhost (vhostInQuery uri) r.vhost uri.host
      app := appOf uri.path
      stream := srsPathBasename uri.path
      port := uri.port
      param :=
        if '&' ∉ paramOf uri ∧ vhostInQuery uri = defaultVhost then [] else paramOf uri }

/-- `srs_is_ipv4` -/
def srsIsIpv4 (domain : Text) : Bool := domain.all fun ch => ch = '.' || ch.isDigit

/-- `srs_generate_stream_with_query`: the vhost that is put into the query. -/
def guessVhost (host vhost query : Text) : Text :=
  if vhostKey <:+: query then []
  else if vhost ≠ defaultVhost then vhost
  else if ! srsIsIpv4 host then host
  else []

/-- `srs_generate_stream_with_query`: the query without its vhost. -/
def removeVhost (query : Text) : Text :=
  match (SubText.splitFirst ('&' :: vhostKey) query).or (SubText.splitFirst vhostKey query) with
  | none => query
  | some (before, vhost) => before ++ vhost.tail.dropWhile (· ≠ '&')

/-- `srs_generate_stream_with_query`: the query behind the stream. -/
def streamQuery (host vhost param : Text) (withVhost : Bool) : Text :=
  let guess := guessVhost host vhost param
  let query := if guess ≠ [] then param ++ '&' :: vhostKey ++ guess else param
  let query := if withVhost then query else removeVhost query
  query.dropWhile fun c => c = '&' || c = '?'

/-- `srs_generate_stream_with_query` -/
def srsGenerateStreamWithQuery (host vhost stream param : Text) (withVhost : Bool) : Text :=
  let query := streamQuery host vhost param withVhost
  if query = [] then stream else stream ++ '?' :: query

/-- `srs_generate_rtmp_url` -/
def srsGenerateRtmpUrl (server : Text) (port : ℤ) (host vhost app stream param : Text) : Text :=
  rtmpHead ++ server ++ ':' :: TextStream.showInt port ++ '/' :: app ++
    '/' :: srsGenerateStreamWithQuery host vhost stream param true

/-! ## The ways to write a stream -/

/-- Letters, digits, dots, hyphens and underscores. -/
def isTokenChar (c : Char) : Bool := c.isAlphanum || c = '.' || c = '-' || c = '_'

/-- The words with a meaning of their own. -/
def reserved : List Text := [dottedWord, definstWord, defaultVhost]

/-- A host, a vhost, a part of an app or a stream. -/
structure Token where
  text : Text
  ne_nil : text ≠ []
  chars : ∀ c ∈ text, isTokenChar c = true
  free : ∀ w ∈ reserved, ¬ w <:+: text

/-- What a URL stands for; the app has one or more parts. -/
structure Target where
  vhost : Token
  app : Token
  more : List Token
  stream : Token

/-- Parts with a slash in front of each. -/
def pathText (segments : List Token) : Text := segments.flatMap fun t => '/' :: t.text

/-- The app without its first slash. -/
def Target.appText (t : Target) : Text := t.app.text ++ pathText t.more

/-- The part of a URL up to the last slash of its path, and what follows. -/
def splitAtPath (url : Text) : Text × Text :=
  match SubText.splitLast '/' (url.takeWhile (· ≠ '?')) with
  | none => (url, [])
  | some (tcUrl, stream) => (tcUrl, stream ++ url.dropWhile (· ≠ '?'))

inductive Form
  | vhostAsHost
  | inTcUrl (host : Token)
  | inDots (host : Token)
  | inStream (host : Token)
  | generated (server : Token) (port : ℤ) (host param : Text)

/-- The URL of the connection, and the stream. -/
def Form.spell (t : Target) : Form → Text × Text
  | vhostAsHost => (rtmpHead ++ t.vhost.text ++ '/' :: t.appText, t.stream.text)
  | inTcUrl host =>
    (rtmpHead ++ host.text ++ '/' :: t.appText ++ asQuery ++ t.vhost.text, t.stream.text)
  | inDots host =>
    (rtmpHead ++ host.text ++ '/' :: t.appText ++ dotted ++ t.vhost.text, t.stream.text)
  | inStream host =>
    (rtmpHead ++ host.text ++ '/' :: t.appText, t.stream.text ++ asQuery ++ t.vhost.text)
  | generated server port host param =>
    splitAtPath
      (srsGenerateRtmpUrl server.text port host t.vhost.text t.appText t.stream.text param)

/-- A request before its URL is looked at. -/
def fresh (stream : Text) : TcUrl := ⟨[], [], [], [], stream, 1935, []⟩

/-- What is found in a way to write a stream. -/
def Form.discovered (t : Target) (f : Form) : TcUrl :=
  srsDiscoveryTcUrl (f.spell t).1 (fresh (f.spell t).2)

/-- The vhost, the app and the stream are found. -/
def Form.Agrees (t : Target) (f : Form) : Prop :=
  (f.discovered t).vhost = t.vhost.text ∧ (f.discovered t).app = t.appText ∧
    (f.discovered t).stream = t.stream.text

end SrsChatRoom.Protocol.StreamUrl
