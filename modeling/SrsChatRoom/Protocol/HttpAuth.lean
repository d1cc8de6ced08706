import SrsChatRoom.Kernel.Base64Bits
import SrsChatRoom.Lib.Dict
import SrsChatRoom.Lib.Endings
import SrsChatRoom.Lib.SubText

/-!
# Authentication of the HTTP API (`SrsHttpAuthMux`)

A request for the API has to name the user and the password in its header `Authorization`, in
Base64 behind `Basic `. The mux looks for `Basic ` anywhere in the header, cuts it out, decodes what
is left, and splits the plaintext at each colon.

* `serveHttp_run` - which headers are let through;
* `answersRight_iff` - the two kinds of headers that are misread.
-/

namespace SrsChatRoom.Protocol.HttpAuth

open SrsChatRoom.Kernel.Base64

/-! ## Code -/

/-- A `std::string`. -/
abbrev Bytes := List UInt8

/-- `SRS_HTTP_AUTH_SCHEME_BASIC` -/
def srsHttpAuthSchemeBasic : Bytes := "Basic".toList.map Char.toUInt8

/-- `SRS_HTTP_AUTH_PREFIX_BASIC` -/
def srsHttpAuthPrefixBasic : Bytes := srsHttpAuthSchemeBasic ++ [' '.toUInt8]

/-- `SRS_CONSTS_HTTP_Unauthorized` -/
def srsConstsHttpUnauthorized : ℕ := 401

/-- The names of the two headers, and the part of the path. -/
def authorization : Bytes := "Authorization".toList.map Char.toUInt8

def wwwAuthenticate : Bytes := "WWW-Authenticate".toList.map Char.toUInt8

def apiPath : Bytes := "/api/".toList.map Char.toUInt8

def colon : UInt8 := ':'.toUInt8

/-- `srs_string_contains(str, flag)` -/
def srsStringContains (str flag : Bytes) : Bool := flag <:+: str

/-- `srs_erase_first_substr(str, erase_string)` -/
def srsEraseFirstSubstr (str eraseString : Bytes) : Bytes :=
  match SubText.splitFirst eraseString str with
  | some (front, rest) => front ++ rest.drop eraseString.length
  | none => str

/-- `ISrsHttpMessage`: the path, and the headers of the request. -/
structure ISrsHttpMessage where
  path : Bytes
  headers : Dict Bytes Bytes

/-- `header()->get(key)` -/
def ISrsHttpMessage.header (r : ISrsHttpMessage) (key : Bytes) : Bytes :=
  (r.headers.get? key).getD []

/-- The errors of `do_auth`: an own one with its message, or that of the decoder. -/
inductive AuthError
  | unauthorized (message : String)
  | decodeToken (si : ℕ)

/-- A program on the headers of the response. -/
abbrev Auth := Prog (Dict Bytes Bytes) AuthError

/-- `w->header()->set(key, value)` -/
def setHeader (key value : Bytes) : Auth Unit := Prog.modify fun h => h.set key value

/-- `srs_av_base64_decode(token, plaintext)` -/
def decodeToken (token : Bytes) : Auth Bytes := fun h =>
  match srsAvBase64Decode token [] with
  | .ok _ plaintext => .ok plaintext h
  | .err si _ => .err (.decodeToken si) h
  | .fault => .fault
  | .hang => .hang

/-- `SrsHttpAuthMux` -/
structure SrsHttpAuthMux where
  enabled : Bool
  username : Bytes
  password : Bytes

/-- The part of `SrsHttpAuthMux::do_auth` for the plaintext. -/
def checkPlaintext (m : SrsHttpAuthMux) (plaintext : Bytes) : Auth Unit :=
  match SubText.splitAll [colon] plaintext with
  | [user, pwd] =>
    if m.username ≠ user ∨ m.password ≠ pwd then do
      setHeader wwwAuthenticate srsHttpAuthSchemeBasic
      Prog.throw (.unauthorized "invalid token %s:%s")
    else return ()
  | _ => Prog.throw (.unauthorized "invalid token %s")

/-- The part of `SrsHttpAuthMux::do_auth` for the header of a request for the API. -/
def checkAuthorization (m : SrsHttpAuthMux) (auth : Bytes) : Auth Unit :=
  if auth = [] then do
    setHeader wwwAuthenticate srsHttpAuthSchemeBasic
    Prog.throw (.unauthorized "empty Authorization")
  else if !srsStringContains auth srsHttpAuthPrefixBasic then
    Prog.throw (.unauthorized "invalid auth %s, should start with %s")
  else
    let token := srsEraseFirstSubstr auth srsHttpAuthPrefixBasic
    if token = [] then Prog.throw (.unauthorized "empty token from auth %s")
    else do
      let plaintext ← decodeToken token
      checkPlaintext m plaintext

/-- `SrsHttpAuthMux::do_auth` -/
def doAuth (m : SrsHttpAuthMux) (r : ISrsHttpMessage) : Auth Unit :=
  if !m.enabled then return ()
  else if ¬ apiPath <:+: r.path then return ()
  else checkAuthorization m (r.header authorization)

/-- What a request comes to: the next handler, or a response with a status. -/
inductive Served
  | next
  | finalRequest (status : ℕ)
deriving DecidableEq

/-- `SrsHttpAuthMux::serve_http`, up to the next handler. -/
def serveHttp (m : SrsHttpAuthMux) (r : ISrsHttpMessage) : Auth Served := do
  let result ← Prog.attempt (doAuth m r)
  match result with
  | .ok _ => return .next
  | .error _ => return .finalRequest srsConstsHttpUnauthorized

/-! ## Specification -/

/-- A user and a password that are asked for. A name has no colon. -/
structure Credentials where
  username : Bytes
  password : Bytes
  noColon : colon ∉ username

namespace Credentials

def mux (c : Credentials) : SrsHttpAuthMux := ⟨true, c.username, c.password⟩

/-- `username:password` -/
def plaintext (c : Credentials) : Bytes := c.username ++ colon :: c.password

end Credentials

/-- A request for the API. -/
structure ApiRequest where
  message : ISrsHttpMessage
  api : apiPath <:+: message.path

def ApiRequest.auth (r : ApiRequest) : Bytes := r.message.header authorization

/-- The header is `Basic `, and behind it the credentials in Base64. -/
def HasCredentials (c : Credentials) (auth : Bytes) : Prop :=
  ∃ token, auth = srsHttpAuthPrefixBasic ++ token ∧ StandsFor token c.plaintext

/-- The request is let through exactly if its header has the credentials, and answered with 401
otherwise. -/
structure AnswersRight (c : Credentials) (r : ApiRequest) : Prop where
  accepts : HasCredentials c r.auth → ∀ w, ∃ w', serveHttp c.mux r.message w = .ok .next w'
  refuses : ¬ HasCredentials c r.auth →
    ∀ w, ∃ w', serveHttp c.mux r.message w = .ok (.finalRequest 401) w'

/-- The headers that are misread: the right one for a password with a colon, and for another
password one in which `Basic ` stands inside the token. -/
inductive Misread (c : Credentials) (auth : Bytes) : Prop
  | colon (token : Bytes) (header : auth = srsHttpAuthPrefixBasic ++ token)
      (right : StandsFor token c.plaintext) (password : HttpAuth.colon ∈ c.password)
  | inside (front token : Bytes) (ne_nil : front ≠ [])
      (header : auth = front ++ (srsHttpAuthPrefixBasic ++ token))
      (right : StandsFor (front ++ token) c.plaintext) (password : HttpAuth.colon ∉ c.password)

/-! ## The header -/

theorem space_not_mem {t x : Bytes} (h : StandsFor t x) : ' '.toUInt8 ∉ t := by
  intro hmem
  have hstrip : ' '.toUInt8 ∈ strip t := List.mem_filter.mpr ⟨hmem, by decide⟩
  cases h.isBase64.mem hstrip with
  | inl hletter =>
    rw [encoder_eq] at hletter
    exact absurd hletter (by decide)
  | inr hpad => exact absurd hpad (by decide)

variable {token : Bytes}

/-- A header with one space has one place where `Basic ` stands. -/
theorem cut_unique {front front' token' : Bytes} (h : ' '.toUInt8 ∉ front ++ token)
    (heq : front ++ (srsHttpAuthPrefixBasic ++ token) =
      front' ++ (srsHttpAuthPrefixBasic ++ token')) : front = front' ∧ token = token' := by
  rw [List.mem_append, not_or] at h
  have hscheme : ' '.toUInt8 ∉ srsHttpAuthSchemeBasic := by decide
  have hfront : ' '.toUInt8 ∉ front ++ srsHttpAuthSchemeBasic := by
    rw [List.mem_append, not_or]
    exact ⟨h.1, hscheme⟩
  have hsplit : (front ++ srsHttpAuthSchemeBasic) ++ ' '.toUInt8 :: token =
      (front' ++ srsHttpAuthSchemeBasic) ++ ' '.toUInt8 :: token' := by
    have hcons : ∀ a b : Bytes, a ++ (srsHttpAuthPrefixBasic ++ b) =
        (a ++ srsHttpAuthSchemeBasic) ++ ' '.toUInt8 :: b := by
      intro a b
      unfold srsHttpAuthPrefixBasic
      rw [List.append_assoc, List.append_assoc, List.singleton_append]
    rw [← hcons, ← hcons, heq]
  obtain ⟨hsame, -, htoken⟩ := (List.append_cons_inj_of_notMem hfront h.2).mp hsplit
  exact ⟨List.append_cancel_right hsame, htoken⟩

theorem standsFor_nil {x : Bytes} (h : StandsFor [] x) : x = [] := by
  obtain ⟨spare, -, hbits⟩ := h.bits
  have hnil : textBits [] = [] := rfl
  have hlength := congrArg List.length hbits
  rw [hnil, List.length_append, length_byteBits, List.length_nil] at hlength
  exact List.length_eq_zero_iff.mp (by omega)

/-- The headers that are let through. -/
def Accepted (m : SrsHttpAuthMux) (auth : Bytes) : Prop :=
  ∃ front token, SubText.splitFirst srsHttpAuthPrefixBasic auth =
      some (front, srsHttpAuthPrefixBasic ++ token) ∧
    StandsFor (front ++ token) (m.username ++ colon :: m.password) ∧
    colon ∉ m.username ∧ colon ∉ m.password

variable {m : SrsHttpAuthMux}

variable {plaintext : Bytes}

theorem checkPlaintext_ok (w : Dict Bytes Bytes)
    (h : SubText.splitAll [colon] plaintext = [m.username, m.password]) :
    checkPlaintext m plaintext w = .ok () w := by
  unfold checkPlaintext
  rw [h]
  dsimp only
  rw [if_neg (by simp)]
  rfl

theorem checkPlaintext_err (w : Dict Bytes Bytes)
    (h : SubText.splitAll [colon] plaintext ≠ [m.username, m.password]) :
    ∃ e w', checkPlaintext m plaintext w = .err e w' := by
  unfold checkPlaintext
  rcases hsplit : SubText.splitAll [colon] plaintext with _ | ⟨user, _ | ⟨pwd, _ | ⟨more, l⟩⟩⟩
  · exact ⟨_, _, rfl⟩
  · exact ⟨_, _, rfl⟩
  · have hne : m.username ≠ user ∨ m.password ≠ pwd := by
      by_contra hsame
      push Not at hsame
      exact h (by rw [hsplit, hsame.1, hsame.2])
    dsimp only
    rw [if_pos hne]
    exact ⟨_, _, rfl⟩
  · exact ⟨_, _, rfl⟩

theorem decodeToken_ok (w : Dict Bytes Bytes)
    (h : StandsFor token plaintext) : decodeToken token w = .ok plaintext w := by
  have hrun := (srsAvBase64Decode_iff token [] plaintext).mpr h
  unfold decodeToken
  rw [hrun, List.nil_append]

theorem decodeToken_err (w : Dict Bytes Bytes) (h : ∀ x, ¬ StandsFor token x) :
    ∃ e, decodeToken token w = .err e w := by
  rcases srsAvBase64Decode_cases token [] with ⟨-, x, hrun⟩ | ⟨-, e, left, hrun⟩
  · exact absurd ((srsAvBase64Decode_iff token [] x).mp hrun) (h x)
  · unfold decodeToken
    rw [hrun]
    exact ⟨_, rfl⟩

/-- Nothing is said about a header that is let through, and an error is returned for another one. -/
theorem checkAuthorization_run (m : SrsHttpAuthMux) (auth : Bytes) (w : Dict Bytes Bytes) :
    (Accepted m auth → checkAuthorization m auth w = .ok () w) ∧
      (¬ Accepted m auth → ∃ e w', checkAuthorization m auth w = .err e w') := by
  have hprefix : srsHttpAuthPrefixBasic ≠ [] := by decide
  unfold checkAuthorization
  by_cases hempty : auth = []
  · rw [if_pos hempty]
    refine ⟨fun h => ?_, fun _ => ⟨_, _, rfl⟩⟩
    obtain ⟨front, token, hsplit, -⟩ := h
    have hnil := (SubText.eq_of_splitFirst hsplit).1
    rw [hempty, List.nil_eq_append_iff, List.append_eq_nil_iff] at hnil
    exact absurd hnil.2.1 hprefix
  rw [if_neg hempty]
  cases hsplit : SubText.splitFirst srsHttpAuthPrefixBasic auth with
  | none =>
    have hnot : (!srsStringContains auth srsHttpAuthPrefixBasic) = true := by
      unfold srsStringContains
      rw [decide_eq_false (SubText.splitFirst_eq_none_iff.mp hsplit)]
      rfl
    rw [if_pos hnot]
    refine ⟨fun h => ?_, fun _ => ⟨_, _, rfl⟩⟩
    obtain ⟨front, token, hsome, -⟩ := h
    rw [hsplit] at hsome
    cases hsome
  | some parts =>
    obtain ⟨front, rest⟩ := parts
    obtain ⟨hauth, token, rfl⟩ := SubText.eq_of_splitFirst hsplit
    have hcontains : ¬ (!srsStringContains auth srsHttpAuthPrefixBasic) = true := by
      have hinfix : srsHttpAuthPrefixBasic <:+: auth :=
        ⟨front, token, by rw [hauth, List.append_assoc]⟩
      unfold srsStringContains
      rw [decide_eq_true hinfix]
      decide
    have herase : srsEraseFirstSubstr auth srsHttpAuthPrefixBasic = front ++ token := by
      unfold srsEraseFirstSubstr
      rw [hsplit]
      dsimp only
      rw [List.drop_left]
    have haccepted : Accepted m auth ↔
        StandsFor (front ++ token) (m.username ++ colon :: m.password) ∧
          colon ∉ m.username ∧ colon ∉ m.password := by
      constructor
      · rintro ⟨front', token', hsome, hstands⟩
        rw [hsplit] at hsome
        obtain ⟨rfl, heq⟩ := Prod.mk.inj (Option.some.inj hsome)
        rw [List.append_cancel_left heq]
        exact hstands
      · intro hstands
        exact ⟨front, token, hsplit, hstands⟩
    rw [if_neg hcontains, herase, haccepted]
    by_cases hnil : front ++ token = []
    · rw [if_pos hnil]
      refine ⟨fun h => ?_, fun _ => ⟨_, _, rfl⟩⟩
      rw [hnil] at h
      have hempty := standsFor_nil h.1
      simp at hempty
    rw [if_neg hnil]
    by_cases hdecodes : ∃ x, StandsFor (front ++ token) x
    · obtain ⟨x, hx⟩ := hdecodes
      rw [Prog.bind_ok (decodeToken_ok w hx)]
      have hsplits : SubText.splitAll [colon] x = [m.username, m.password] ↔
          StandsFor (front ++ token) (m.username ++ colon :: m.password) ∧
            colon ∉ m.username ∧ colon ∉ m.password := by
        rw [SubText.splitAll_eq_pair_iff]
        refine and_congr_left fun _ => ⟨fun heq => heq ▸ hx, fun h => hx.unique h⟩
      rw [← hsplits]
      exact ⟨checkPlaintext_ok w, checkPlaintext_err w⟩
    · push Not at hdecodes
      obtain ⟨e, herr⟩ := decodeToken_err w hdecodes
      rw [Prog.bind_err herr]
      exact ⟨fun h => absurd h.1 (hdecodes _), fun _ => ⟨_, _, rfl⟩⟩

/-! ## Requests -/

variable {c : Credentials} {r : ApiRequest}

/-- Other requests are not looked at, and none is without a user. -/
theorem serveHttp_passes {r : ISrsHttpMessage}
    (h : m.enabled = false ∨ ¬ apiPath <:+: r.path) (w : Dict Bytes Bytes) :
    serveHttp m r w = .ok .next w := by
  have hauth : doAuth m r w = .ok () w := by
    unfold doAuth
    cases h with
    | inl hdisabled =>
      rw [if_pos (by rw [hdisabled]; rfl)]
      rfl
    | inr hpath =>
      rw [if_pos hpath]
      split <;> rfl
  have hattempt : (doAuth m r).attempt w = .ok (.ok ()) w := by
    unfold Prog.attempt
    rw [hauth]
  unfold serveHttp
  rw [Prog.bind_ok hattempt]
  rfl

/-- A request for the API is let through exactly with a header that is accepted. -/
theorem serveHttp_run {r : ISrsHttpMessage} (henabled : m.enabled = true)
    (hapi : apiPath <:+: r.path) (w : Dict Bytes Bytes) :
    (Accepted m (r.header authorization) → serveHttp m r w = .ok .next w) ∧
      (¬ Accepted m (r.header authorization) →
        ∃ w', serveHttp m r w = .ok (.finalRequest 401) w') := by
  have hauth : doAuth m r = checkAuthorization m (r.header authorization) := by
    unfold doAuth
    rw [if_neg (by rw [henabled]; decide), if_neg (not_not.mpr hapi)]
  obtain ⟨hpass, hfail⟩ := checkAuthorization_run m (r.header authorization) w
  rw [← hauth] at hpass hfail
  unfold serveHttp
  constructor
  · intro haccepted
    have hattempt : (doAuth m r).attempt w = .ok (.ok ()) w := by
      unfold Prog.attempt
      rw [hpass haccepted]
    rw [Prog.bind_ok hattempt]
    rfl
  · intro hrefused
    obtain ⟨e, w', herr⟩ := hfail hrefused
    have hattempt : (doAuth m r).attempt w = .ok (.error e) w' := by
      unfold Prog.attempt
      rw [herr]
    rw [Prog.bind_ok hattempt]
    exact ⟨w', rfl⟩

/-- The requests that get to the next handler. -/
def LetThrough (m : SrsHttpAuthMux) (r : ISrsHttpMessage) : Prop :=
  m.enabled = true → apiPath <:+: r.path → Accepted m (r.header authorization)

/-- Every request gets either to the next handler or a 401, whatever the mux is set to. -/
theorem serveHttp_exact (m : SrsHttpAuthMux) (r : ISrsHttpMessage) (w : Dict Bytes Bytes) :
    LetThrough m r ∧ serveHttp m r w = .ok .next w ∨
      ¬ LetThrough m r ∧ ∃ w', serveHttp m r w = .ok (.finalRequest 401) w' := by
  by_cases hchecked : m.enabled = true ∧ apiPath <:+: r.path
  · have hiff : LetThrough m r ↔ Accepted m (r.header authorization) :=
      ⟨fun h => h hchecked.1 hchecked.2, fun h _ _ => h⟩
    obtain ⟨hpass, hfail⟩ := serveHttp_run hchecked.1 hchecked.2 w
    rw [hiff]
    exact (em _).imp (fun h => ⟨h, hpass h⟩) fun h => ⟨h, hfail h⟩
  · have hfree : m.enabled = false ∨ ¬ apiPath <:+: r.path := by
      rwa [← Bool.not_eq_true, ← not_and_or]
    exact .inl ⟨fun h h' => absurd ⟨h, h'⟩ hchecked, serveHttp_passes hfree w⟩

/-- `Basic ` may stand anywhere, and the password has no colon. -/
theorem accepted_iff {auth : Bytes} : Accepted c.mux auth ↔
    ∃ front token, auth = front ++ (srsHttpAuthPrefixBasic ++ token) ∧
      StandsFor (front ++ token) c.plaintext ∧ colon ∉ c.password := by
  constructor
  · rintro ⟨front, token, hsplit, hstands, -, hpassword⟩
    exact ⟨front, token, (SubText.eq_of_splitFirst hsplit).1, hstands, hpassword⟩
  · rintro ⟨front, token, hauth, hstands, hpassword⟩
    have hinfix : srsHttpAuthPrefixBasic <:+: auth :=
      ⟨front, token, by rw [hauth, List.append_assoc]⟩
    cases hsplit : SubText.splitFirst srsHttpAuthPrefixBasic auth with
    | none => exact absurd hinfix (SubText.splitFirst_eq_none_iff.mp hsplit)
    | some parts =>
      obtain ⟨front', rest⟩ := parts
      obtain ⟨hsame, token', rfl⟩ := SubText.eq_of_splitFirst hsplit
      obtain ⟨rfl, rfl⟩ := cut_unique (space_not_mem hstands) (hauth.symm.trans hsame)
      exact ⟨front, token, hsplit, hstands, c.noColon, hpassword⟩

/-- The request is answered right if its header is let through exactly with the credentials. -/
theorem answersRight_iff_accepted :
    AnswersRight c r ↔ (Accepted c.mux r.auth ↔ HasCredentials c r.auth) := by
  have hrun := serveHttp_run (m := c.mux) rfl r.api
  constructor
  · intro h
    constructor
    · intro haccepted
      by_contra hwithout
      obtain ⟨w', hrefused⟩ := h.refuses hwithout .empty
      rw [(hrun .empty).1 haccepted] at hrefused
      cases hrefused
    · intro hwith
      by_contra hnot
      obtain ⟨w', hrefused⟩ := (hrun .empty).2 hnot
      obtain ⟨w'', hpassed⟩ := h.accepts hwith .empty
      rw [hrefused] at hpassed
      cases hpassed
  · intro hiff
    exact ⟨fun hwith w => ⟨w, (hrun w).1 (hiff.mpr hwith)⟩,
      fun hwithout w => (hrun w).2 fun haccepted => hwithout (hiff.mp haccepted)⟩

theorem not_accepted_of_colon (h : colon ∈ c.password) {auth : Bytes} : ¬ Accepted c.mux auth := by
  rw [accepted_iff]
  rintro ⟨front, token, -, -, hpassword⟩
  exact hpassword h

/-- A header that is misread is answered wrong. -/
theorem not_answersRight (h : Misread c r.auth) : ¬ AnswersRight c r := by
  rw [answersRight_iff_accepted]
  intro hiff
  cases h with
  | colon token hheader hright hpassword =>
    exact not_accepted_of_colon hpassword (hiff.mpr ⟨token, hheader, hright⟩)
  | inside front token hne hheader hright hpassword =>
    have haccepted := accepted_iff.mpr ⟨front, token, hheader, hright, hpassword⟩
    obtain ⟨token', hauth, -⟩ := hiff.mp haccepted
    have hsame : front ++ (srsHttpAuthPrefixBasic ++ token) =
        [] ++ (srsHttpAuthPrefixBasic ++ token') := hheader.symm.trans hauth
    exact hne (cut_unique (space_not_mem hright) hsame).1

/-- Every request for the API is answered right but those with a header that is misread. -/
theorem answersRight_iff (c : Credentials) (r : ApiRequest) :
    AnswersRight c r ↔ ¬ Misread c r.auth := by
  constructor
  · exact fun hright hmisread => not_answersRight hmisread hright
  · intro hnot
    rw [answersRight_iff_accepted, accepted_iff]
    constructor
    · rintro ⟨front, token, hauth, hstands, hpassword⟩
      by_cases hfront : front = []
      · rw [hfront] at hauth hstands
        exact ⟨token, hauth, hstands⟩
      · exact absurd (.inside front token hfront hauth hstands hpassword) hnot
    · rintro ⟨token, hauth, hstands⟩
      refine ⟨[], token, hauth, hstands, fun hpassword => hnot ?_⟩
      exact .colon token hauth hstands hpassword

/-- A request for `/api/` with one header. -/
def requestWith (auth : String) : ApiRequest where
  message := ⟨apiPath, Dict.empty.set authorization (auth.toList.map Char.toUInt8)⟩
  api := List.infix_rfl

/-- `admin:a:b` -/
def withColon : Credentials where
  username := "admin".toList.map Char.toUInt8
  password := "a:b".toList.map Char.toUInt8
  noColon := by decide

/-- `admin:admin` -/
def withoutColon : Credentials where
  username := "admin".toList.map Char.toUInt8
  password := "admin".toList.map Char.toUInt8
  noColon := by decide

/-- The right header is refused, and one with `Basic ` inside the token is let through. -/
theorem headers_are_misread :
    ¬ AnswersRight withColon (requestWith "Basic YWRtaW46YTpi") ∧
      ¬ AnswersRight withoutColon (requestWith "YWRtBasic aW46YWRtaW4=") := by
  constructor
  · apply not_answersRight
    have htoken : StandsFor ("YWRtaW46YTpi".toList.map Char.toUInt8) withColon.plaintext := by
      rw [show "YWRtaW46YTpi".toList.map Char.toUInt8 = srsAvBase64Encode withColon.plaintext from
        by decide +kernel]
      exact standsFor_encode _
    exact .colon _ (by decide +kernel) htoken (by decide)
  · apply not_answersRight
    have htoken : StandsFor ("YWRt".toList.map Char.toUInt8 ++
        "aW46YWRtaW4=".toList.map Char.toUInt8) withoutColon.plaintext := by
      rw [show "YWRt".toList.map Char.toUInt8 ++ "aW46YWRtaW4=".toList.map Char.toUInt8 =
        srsAvBase64Encode withoutColon.plaintext from by decide +kernel]
      exact standsFor_encode _
    exact .inside _ _ (by decide) (by decide +kernel) htoken (by decide)

end SrsChatRoom.Protocol.HttpAuth
