import SrsChatRoom.Server.TokenListing

/-!
# Accounts and sessions (`auth.py`, `server_fastapi.py`)

`UserStore` with its file, registration and the two kinds of login, the middleware that puts the
identity of a request together, and logout. The table of users is keyed by the login identity; the
`username` inside a record is a display name, which a login may change while the key stays.

A handler does not await, so each is one step. What the business backend answers, the id `uuid4`
gives, the salt and the hash function are arguments. Of a record only what the code below reads is
modelled.
-/

namespace SrsChatRoom.Server.Accounts

open Auth (AuthError Token seconds)

/-! ## Strings -/

/-- `str.isspace`, for one character. -/
def isSpace (c : Char) : Bool :=
  (0x9 ≤ c.toNat ∧ c.toNat ≤ 0xd) ∨ (0x1c ≤ c.toNat ∧ c.toNat ≤ 0x20) ∨
    (0x2000 ≤ c.toNat ∧ c.toNat ≤ 0x200a) ∨
    c.toNat ∈ [0x85, 0xa0, 0x1680, 0x2028, 0x2029, 0x202f, 0x205f, 0x3000]

/-- `str.strip` -/
def strip (s : String) : String :=
  String.ofList ((s.toList.dropWhile isSpace).reverse.dropWhile isSpace).reverse

/-- `a or b`, where a missing string is empty. -/
def orElse (a b : String) : String := if a ≠ "" then a else b

/-- `USERNAME_RE` -/
def usernameRe (username : String) : Bool :=
  3 ≤ username.length && username.length ≤ 32 &&
    username.toList.all fun c => (c.isAlphanum && c.toNat < 128) || c = '_' || c = '-'

/-- `_CONTROL_RE` -/
def controlRe (s : String) : Bool := s.toList.any fun c => c.toNat < 0x20 || c.toNat = 0x7f

/-- `validate_user_name` -/
def validateUserName (raw : String) : Except AuthError String :=
  let s := strip raw
  if s = "" then .ok ""
  else if 64 < s.length then .error ⟨400, "user_name 长度超过 64"⟩
  else if controlRe s then .error ⟨400, "user_name 格式非法"⟩
  else .ok s

/-! ## `UserStore` -/

/-- A record. An account of the business backend has no password. -/
structure Record where
  username : String
  userId : String
  roomId : Option String
  role : String
  salt : String
  passwordHash : String
deriving DecidableEq

/-- `_users` and the file it is flushed to. -/
structure UserStore where
  users : Dict String Record
  file : Option (Dict String Record)

namespace UserStore

/-- `_load` -/
def load (file : Option (Dict String Record)) : UserStore := ⟨file.getD Dict.empty, file⟩

/-- `_flush` -/
def flush (s : UserStore) : UserStore := { s with file := some s.users }

/-- A record is put at a key, or changed there. -/
def put (s : UserStore) (key : String) (record : Record) : UserStore :=
  { s with users := s.users.set key record }

/-- `register`, where `userId` is `"user_"` and what `uuid4` gives. -/
def register (pbkdf2 : String → String → String) (s : UserStore)
    (username password salt userId : String) : Except AuthError (UserStore × Record) :=
  if ¬ usernameRe (strip username) then
    .error ⟨400, "用户名必须为 3-32 位字母/数字/下划线/连字符"⟩
  else if password.length < 6 ∨ 128 < password.length then
    .error ⟨400, "密码长度需在 6-128 之间"⟩
  else if s.users.contains (strip username) then .error ⟨409, "用户名已存在"⟩
  else
    let record : Record := ⟨strip username, userId, none, "member", salt, pbkdf2 password salt⟩
    .ok ((s.put (strip username) record).flush, record)

/-- The fields that `verify` fills in where they are missing. -/
def completed (record : Record) (userId : String) : Record :=
  { record with userId := orElse record.userId userId, role := orElse record.role "member" }

/-- `verify` -/
def verify (pbkdf2 : String → String → String) (s : UserStore)
    (username password userId : String) : UserStore × Except AuthError Record :=
  match s.users.get? (strip username) with
  | none => (s, .error ⟨401, "用户名或密码错误"⟩)
  | some record =>
    if record.passwordHash = "" then (s, .error ⟨401, "用户名或密码错误"⟩)
    else if pbkdf2 password record.salt ≠ record.passwordHash then
      (s, .error ⟨401, "用户名或密码错误"⟩)
    else if completed record userId = record then (s, .ok record)
    else ((s.put (strip username) (completed record userId)).flush, .ok (completed record userId))

/-- `update_username` -/
def updateUsername (s : UserStore) (userId newUsername : String) : UserStore × Bool :=
  match s.users.entries.find? fun e => e.2.userId = userId with
  | none => (s, false)
  | some (oldUsername, record) =>
    if oldUsername = strip newUsername then (s, true)
    else ((s.put oldUsername { record with username := strip newUsername }).flush, true)

/-- `set_room` -/
def setRoom (s : UserStore) (username : String) (roomId : Option String) : UserStore :=
  match s.users.get? username with
  | none => s
  | some record => (s.put username { record with roomId := roomId }).flush

/-- `set_role` -/
def setRole (s : UserStore) (username role : String) : UserStore :=
  match s.users.get? username with
  | none => s
  | some record => (s.put username { record with role := role }).flush

/-- `get_or_create_from_external` -/
def getOrCreateFromExternal (s : UserStore) (username userId : String) : UserStore × Record :=
  match s.users.get? username with
  | some record => (s, record)
  | none =>
    let record : Record := ⟨username, userId, none, "member", "", ""⟩
    ((s.put username record).flush, record)

end UserStore

/-! ## Login -/

/-- What the business backend says about a user. -/
structure ExtData where
  username : String
  nickname : String
  userNo : String
  userId : Option String
  id : Option String

/-- The login identity of an external user. -/
def ExtData.identity (ext : ExtData) : String :=
  strip (orElse ext.username (orElse ext.nickname (orElse ext.userNo
    (ext.userId.getD (ext.id.getD "")))))

/-- `biz_user_name` -/
def ExtData.bizUserName (ext : ExtData) : String := strip (orElse ext.nickname ext.username)

/-- `LoginRequest` -/
structure LoginRequest where
  externalToken : String
  username : String
  password : String
  userName : String

/-- A login gives the record and the name for the token, or an error. -/
abbrev LoginResult := Except AuthError (Record × String)

/-- The display name of an external login goes to the record at the key, unless it is there. -/
def applyName (s : UserStore) (username : String) (record : Record) (finalUserName : String) :
    UserStore × Record :=
  if finalUserName ≠ "" ∧ record.username ≠ finalUserName then
    match s.updateUsername record.userId finalUserName with
    | (s, true) =>
      (s.put username { record with username := finalUserName },
        { record with username := finalUserName })
    | (s, false) => (s, record)
  else (s, record)

/-- `auth_login` with an external token. -/
def loginExternal (s : UserStore) (ext : ExtData) (userName userId : String) :
    UserStore × LoginResult :=
  if ext.identity = "" then (s, .error ⟨500, "业务后端返回的用户信息缺少身份字段"⟩)
  else
    match validateUserName userName with
    | .error e => (s, .error e)
    | .ok clientUserName =>
      let created := s.getOrCreateFromExternal ext.identity userId
      let finalUserName := orElse clientUserName (orElse ext.bizUserName created.2.userId)
      let named := applyName created.1 ext.identity created.2 finalUserName
      (named.1, .ok (named.2, finalUserName))

/-- `auth_login` with a password. -/
def loginInternal (pbkdf2 : String → String → String) (s : UserStore)
    (username password userName userId : String) : UserStore × LoginResult :=
  match s.verify pbkdf2 username password userId with
  | (s, .error e) => (s, .error e)
  | (s, .ok record) =>
    match validateUserName userName with
    | .error e => (s, .error e)
    | .ok clientUserName =>
      if clientUserName ≠ "" ∧ record.username ≠ clientUserName then
        ((s.put (strip username) { record with username := clientUserName }).flush,
          .ok ({ record with username := clientUserName }, clientUserName))
      else (s, .ok (record, orElse clientUserName (orElse record.username record.userId)))

/-- `auth_login`, where `ext` is what `verify_external_token` returns or raises. -/
def authLogin (pbkdf2 : String → String → String) (s : UserStore) (req : LoginRequest)
    (ext : Except AuthError ExtData) (userId : String) : UserStore × LoginResult :=
  if req.externalToken ≠ "" then
    match ext with
    | .error e => (s, .error e)
    | .ok ext => loginExternal s ext req.userName userId
  else if req.username = "" ∨ req.password = "" then
    (s, .error ⟨400, "需要提供 external_token 或 username+password"⟩)
  else loginInternal pbkdf2 s req.username req.password req.userName userId

/-! ## Tokens and the middleware -/

/-- The payload of a token. -/
structure Payload extends Token where
  uid : String
  name : String
  room : Option String
  role : String
deriving DecidableEq

/-- What the middleware puts into `request.state`. -/
structure Identity where
  username : String
  name : String
  userId : String
  roomId : Option String
  role : String
  jti : String
  iat : ℕ
  exp : ℕ
deriving DecidableEq

/-- The identity from the account that was found, if any. The room is the one that `user_manager`
has the user in, then the account's, then the token's. -/
def identityFrom (account : Option Record) (p : Payload) (liveRoom : Option String) : Identity where
  username := p.sub
  name := orElse ((account.map Record.username).getD "") (orElse p.name p.sub)
  userId := p.uid
  roomId :=
    match liveRoom with
    | some room => some room
    | none =>
      if (account.bind Record.roomId).getD "" ≠ "" then account.bind Record.roomId else p.room
  role := orElse ((account.map Record.role).getD "") p.role
  jti := p.jti
  iat := p.iat
  exp := p.exp

/-- The account the middleware looks up. -/
def accountOf (users : Dict String Record) (p : Payload) : Option Record :=
  if p.sub ≠ "" then users.get? p.sub else none

/-- What `dispatch` puts together for a valid token. -/
def identity (users : Dict String Record) (p : Payload) (liveRoom : Option String) : Identity :=
  identityFrom (accountOf users p) p liveRoom

/-- The server: the tokens with their revocation, the users, and the payloads issued so far. -/
structure World where
  auth : Auth.World
  store : UserStore
  sessions : List Payload

/-- The first start, at any time. -/
def World.init (now : ℕ) : World := ⟨Auth.World.init now, UserStore.load none, []⟩

/-- `verify_token` accepts the token. -/
def Accepted (w : World) (p : Payload) : Prop := Auth.Accepted w.auth p.toToken

/-- `ApiAuthMiddleware.dispatch` -/
def dispatch (w : World) (p : Payload) (liveRoom : Option String) : Except AuthError Identity :=
  (Auth.verifyToken w.auth.store w.auth.now (.signed p.toToken)).map fun _ =>
    identity w.store.users p liveRoom

/-- `issue_token` for a record. -/
def issueToken (w : World) (record : Record) (name jti : String) : Option World :=
  (Auth.step w.auth (.issue record.username jti)).map fun auth =>
    { w with
      auth := auth
      sessions := ⟨w.auth.newToken record.username jti, record.userId,
        orElse name record.username, record.roomId, record.role⟩ :: w.sessions }

/-- `auth_logout` with the identity of the request. -/
def logoutWith (w : World) (p : Payload) (state : Identity) : Option World :=
  if state.jti = "" then some w
  else (Auth.step w.auth (.revokeJti p.toToken)).map fun auth => { w with auth := auth }

/-- `auth_logout` -/
def authLogout (w : World) (p : Payload) (liveRoom : Option String) : Option World :=
  (dispatch w p liveRoom).toOption.elim (some w) (logoutWith w p)

/-- The name that `auth_logout_all` takes from the request. -/
def ownName (username : String) (state : Identity) : Except AuthError String :=
  if state.username = "" then .error ⟨401, "not authenticated"⟩
  else if orElse (strip username) state.username ≠ state.username then
    .error ⟨403, "只能撤销自己的 token"⟩
  else .ok (orElse (strip username) state.username)

/-- The name whose tokens `auth_logout_all` revokes. -/
def logoutTarget (w : World) (p : Payload) (liveRoom : Option String) (username : String) :
    Except AuthError String :=
  (dispatch w p liveRoom).bind (ownName username)

/-- `revoke_user_all` in the server. -/
def revokeAll (w : World) (target : String) : Option World :=
  (Auth.step w.auth (.revokeUserAll target)).map fun auth => { w with auth := auth }

/-- `auth_logout_all` -/
def authLogoutAll (w : World) (p : Payload) (liveRoom : Option String) (username : String) :
    Option World :=
  (logoutTarget w p liveRoom username).toOption.elim (some w) (revokeAll w)

/-! ## The system -/

/-- What can happen. -/
inductive Action
  | tick (now : ℕ)
  | register (username password salt userId jti : String)
  | login (req : LoginRequest) (ext : Except AuthError ExtData) (userId jti : String)
  | logout (p : Payload) (liveRoom : Option String)
  | logoutAll (p : Payload) (liveRoom : Option String) (username : String)
  | updateUsername (userId newUsername : String)
  | setRole (username role : String)
  | setRoom (username : String) (roomId : Option String)
  | restart

/-- `uuid4` gives a user id that no account has. -/
def Fresh (w : World) (userId : String) : Prop :=
  userId ≠ "" ∧ ∀ e ∈ w.store.users.entries, e.2.userId ≠ userId

instance (w : World) (userId : String) : Decidable (Fresh w userId) :=
  inferInstanceAs (Decidable (_ ∧ _))

/-- `auth_register` -/
def stepRegister (pbkdf2 : String → String → String) (w : World)
    (username password salt userId jti : String) : Option World :=
  match w.store.register pbkdf2 username password salt userId with
  | .error _ => some w
  | .ok (store, record) => issueToken { w with store := store } record "" jti

/-- `auth_login` with the token it issues. -/
def stepLogin (pbkdf2 : String → String → String) (w : World) (req : LoginRequest)
    (ext : Except AuthError ExtData) (userId jti : String) : Option World :=
  match authLogin pbkdf2 w.store req ext userId with
  | (store, .error _) => some { w with store := store }
  | (store, .ok (record, name)) => issueToken { w with store := store } record name jti

/-- The next state, when the action is possible. Only issued tokens can be presented. -/
def step (pbkdf2 : String → String → String) (w : World) : Action → Option World
  | .tick now => (Auth.step w.auth (.tick now)).map fun auth => { w with auth := auth }
  | .register username password salt userId jti =>
    if Fresh w userId then stepRegister pbkdf2 w username password salt userId jti else none
  | .login req ext userId jti =>
    if Fresh w userId then stepLogin pbkdf2 w req ext userId jti else none
  | .logout p liveRoom => if p ∈ w.sessions then authLogout w p liveRoom else none
  | .logoutAll p liveRoom username =>
    if p ∈ w.sessions then authLogoutAll w p liveRoom username else none
  | .updateUsername userId newUsername =>
    some { w with store := (w.store.updateUsername userId newUsername).1 }
  | .setRole username role => some { w with store := w.store.setRole username role }
  | .setRoom username roomId => some { w with store := w.store.setRoom username roomId }
  | .restart => (Auth.step w.auth .restart).map fun auth =>
      { w with auth := auth, store := UserStore.load w.store.file }

end SrsChatRoom.Server.Accounts
