import Mathlib.Logic.Function.Basic
import Heimdall.Backend.Responses
import Heimdall.Backend.Sessions

/-!
# Tabs of a browser

A tab keeps its session in memory; the storage of the browser and its cookies are shared by all
tabs. Requests are answered later and in any order, other clients use the server in between, and
a tab that is loaded again forgets everything. The router lets a tab see a page by what the tab
knows of its session.
-/
namespace Backend.Sessions
open Js

/-- The answer to a sign-in that is accepted. -/
def signedIn (cfg : Config) (expireTime : ℕ) (s : Sessions) (event : SessionEvent) :
    Option (ℕ × Token) :=
  let answer (user : User) := (user.id, AuthnService.login expireTime s.now user)
  match event with
  | .login email password =>
      match AuthnService.validateUser cfg s.tables email password with
      | .ok (some user) => some (answer user)
      | _ => none
  | .external email firstName lastName creationMethod randomPass salt =>
      (AuthnService.validateOrCreateUser cfg s.tables email firstName lastName creationMethod
        randomPass salt).map fun (_, user) => answer user
  | _ => none

/-- The request for a user; it reads no tags. -/
def findUserById (s : Sessions) (bearer : Option Token) (id : ℕ) : Except HttpError UserDto := do
  let user ← Lib.orThrow (s.caller bearer) .unauthorized
  UsersController.findUserById ⟨s.tables, [], 1⟩ user id

/-- The row that an accepted update answers with. -/
def updateUser (cfg : Config) (s : Sessions) (bearer : Option Token) (id : ℕ) (body : JsVal)
    (salt : ℕ) : Except HttpError UserDto := do
  let db ← handle cfg s.tables ⟨s.subject bearer, .updateUser id body, salt, s.now⟩
  let user ← findByPkBang db id
  return UserDto.of user

end Backend.Sessions

namespace Remote
open Js Backend

inductive Route where
  | results | compare | home | groups | login | signup | admin
  deriving DecidableEq

namespace Route

def requiresAuth : Route → Bool
  | .login | .signup => false
  | _ => true

def requiresAdmin : Route → Bool
  | .admin => true
  | _ => false

end Route

/-- A token and the key of its user, as the storage and the cookies keep them. -/
structure Stored where
  accessToken : Option Token
  userID : Option ℕ

/-- What the pages ask about the user; the key is empty before a session. -/
structure UserInfo where
  id : Option ℕ
  role : JsString

inductive Ask where
  | user (id : ℕ)
  | updateUser (id : ℕ) (body : JsVal) (salt : ℕ)

/-- A request on its way, with the header that it was sent with. -/
structure Sent where
  authorization : Option Token
  ask : Ask

/-- An answer on its way back. -/
inductive Answer where
  | login (userID : ℕ) (accessToken : Token)
  | user (data : UserDto)
  | userFailed
  | updated (data : UserDto)
  | updateFailed

/-- The token of a session that is answered. -/
def Answer.session : Answer → Option Token
  | .login _ accessToken => some accessToken
  | _ => none

structure Page where
  loading : Bool
  serverMode : Bool
  token : Option Token
  authorization : Option Token
  userInfo : UserInfo
  route : Option Route
  sent : List Sent
  answers : List Answer

def Page.fresh : Page := ⟨true, false, none, none, ⟨none, []⟩, none, [], []⟩

structure Browser where
  server : Sessions
  storage : Stored
  cookies : Stored
  pages : ℕ → Page

namespace Page
variable (page : Page)

/-- The guard of the router: where it sends a tab instead. -/
def beforeEach (target : Route) : Option Route :=
  if target.requiresAuth && page.serverMode && page.token.isNone then some .login
  else if target.requiresAdmin && decide (page.userInfo.role ≠ js "admin") then some .home
  else none

/-- The page that is shown; the guard sends a tab on at most twice. -/
def settle (target : Route) : Route :=
  match page.beforeEach target with
  | none => target
  | some next => (page.beforeEach next).getD next

end Page

namespace Browser
variable (b : Browser) (tab : ℕ)

def setPage (page : Page) : Browser := { b with pages := Function.update b.pages tab page }

def SET_TOKEN (newToken : Token) : Browser :=
  { b.setPage tab { b.pages tab with token := some newToken, authorization := some newToken } with
    storage := { b.storage with accessToken := some newToken } }

def SET_USERID (newID : ℕ) : Browser :=
  { b.setPage tab { b.pages tab with userInfo := { (b.pages tab).userInfo with id := some newID } }
    with storage := { b.storage with userID := some newID } }

def send (ask : Ask) : Browser :=
  b.setPage tab
    { b.pages tab with sent := (b.pages tab).sent ++ [⟨(b.pages tab).authorization, ask⟩] }

/-- Nothing is asked without a key, and the start is over. -/
def GetUserInfo : Browser :=
  match (b.pages tab).userInfo.id with
  | some id => b.send tab (.user id)
  | none => b.setPage tab { b.pages tab with loading := false }

/-- The session is cleared from the storage and the tab is loaded again. -/
def Logout : Browser := { b.setPage tab Page.fresh with storage := ⟨none, none⟩ }

def handleLogin (userID : ℕ) (accessToken : Token) : Browser :=
  ((b.SET_USERID tab userID).SET_TOKEN tab accessToken).GetUserInfo tab

/-- The server is found: the stored session is taken over, or else the one of the cookies. -/
def startSession : Browser :=
  let token := b.storage.accessToken.or b.cookies.accessToken
  let userID := b.storage.userID.or b.cookies.userID
  let b := { b.setPage tab { b.pages tab with serverMode := true } with cookies := ⟨none, none⟩ }
  let b := match token with
    | some token => b.SET_TOKEN tab token
    | none => b
  let b := match userID with
    | some userID => b.SET_USERID tab userID
    | none => b
  b.GetUserInfo tab

def CheckForServer (found : Bool) : Browser :=
  if (b.pages tab).loading then
    if found then b.startSession tab
    else b.setPage tab { b.pages tab with loading := false }
  else b

/-- The answer to a request that reaches the server, and the server afterwards. -/
def serve (cfg : Config) (expireTime : ℕ) (s : Sessions) (sent : Sent) : Sessions × Answer :=
  match sent.ask with
  | .user id =>
      (s, match s.findUserById sent.authorization id with
        | .ok data => .user data
        | .error _ => .userFailed)
  | .updateUser id body salt =>
      (s.step cfg expireTime (.call sent.authorization (.updateUser id body) salt),
        match s.updateUser cfg sent.authorization id body salt with
        | .ok data => .updated data
        | .error _ => .updateFailed)

/-- What a tab does with an answer. -/
def receive : Answer → Browser
  | .login userID accessToken => b.handleLogin tab userID accessToken
  | .user data =>
      b.setPage tab
        { b.pages tab with userInfo := ⟨some data.id, data.role⟩, loading := false }
  | .userFailed => b.Logout tab
  | .updated data =>
      if (b.pages tab).userInfo.id = some data.id then
        b.setPage tab { b.pages tab with userInfo := ⟨some data.id, data.role⟩ }
      else b
  | .updateFailed => b

end Browser

/-- What happens in the browser and at the server; `index` picks a request or an answer that is
on its way. -/
inductive BrowserEvent where
  | others (event : SessionEvent)
  | load (tab : ℕ)
  | checkForServer (tab : ℕ) (found : Bool)
  | signIn (tab : ℕ) (event : SessionEvent)
  | callback (tab : ℕ) (event : SessionEvent)
  | updateUserInfo (tab : ℕ) (id : ℕ) (body : JsVal) (salt : ℕ)
  | serve (tab index : ℕ)
  | receive (tab index : ℕ)
  | navigate (tab : ℕ) (target : Route)
  | logout (tab : ℕ)

/-- A sign-in on a page is answered with a session; the callback of a provider sets the cookies
and sends the tab to the start page. The router waits until the start is over. -/
def Browser.step (cfg : Config) (expireTime : ℕ) (b : Browser) : BrowserEvent → Browser
  | .others event => { b with server := b.server.step cfg expireTime event }
  | .load tab => b.setPage tab Page.fresh
  | .checkForServer tab found => b.CheckForServer tab found
  | .signIn tab event =>
      let after := { b with server := b.server.step cfg expireTime event }
      match b.server.signedIn cfg expireTime event with
      | some (userID, accessToken) =>
          after.setPage tab { b.pages tab with
            answers := (b.pages tab).answers ++ [.login userID accessToken] }
      | none => after
  | .callback tab event =>
      let after := { b with server := b.server.step cfg expireTime event }
      match b.server.signedIn cfg expireTime event with
      | some (userID, accessToken) =>
          { after.setPage tab Page.fresh with cookies := ⟨some accessToken, some userID⟩ }
      | none => after
  | .updateUserInfo tab id body salt => b.send tab (.updateUser id body salt)
  | .serve tab index =>
      match (b.pages tab).sent[index]? with
      | some sent =>
          let (server, answer) := Browser.serve cfg expireTime b.server sent
          { b.setPage tab { b.pages tab with
              sent := (b.pages tab).sent.eraseIdx index
              answers := (b.pages tab).answers ++ [answer] } with server }
      | none => b
  | .receive tab index =>
      match (b.pages tab).answers[index]? with
      | some answer =>
          (b.setPage tab { b.pages tab with
            answers := (b.pages tab).answers.eraseIdx index }).receive tab answer
      | none => b
  | .navigate tab target =>
      if (b.pages tab).loading then b
      else b.setPage tab { b.pages tab with route := some ((b.pages tab).settle target) }
  | .logout tab => b.Logout tab

/-! Storage, cookies and the tabs agree on issued sessions. -/

/-- Nothing, or a token that the server has issued and the key of its user. -/
def Stored.Issued (tokens : List Token) (stored : Stored) : Prop :=
  stored = ⟨none, none⟩ ∨ ∃ token ∈ tokens, stored = ⟨some token, some token.sub⟩

structure Page.Paired (tokens : List Token) (page : Page) : Prop where
  header : page.authorization = page.token
  issued : ∀ token, page.token = some token → token ∈ tokens
  logins : ∀ userID token, .login userID token ∈ page.answers → token ∈ tokens ∧ token.sub = userID
  waits : page.loading = true → page.route = none
  shown : ∀ route, page.route = some route → route.requiresAuth = true →
    page.serverMode = true → page.token ≠ none

structure Browser.Paired (b : Browser) : Prop where
  storage : b.storage.Issued b.server.tokens
  cookies : b.cookies.Issued b.server.tokens
  pages : ∀ tab, (b.pages tab).Paired b.server.tokens

namespace Page
variable {tokens more : List Token} {page : Page}

/-- The page that is shown has passed the guard. -/
theorem settle_passes (page : Page) (target : Route) :
    page.beforeEach (page.settle target) = none := by
  cases target <;> cases mode : page.serverMode <;> cases session : page.token <;>
    by_cases admin : page.userInfo.role = js "admin" <;>
    simp [settle, beforeEach, Route.requiresAuth, Route.requiresAdmin, mode, session, admin]

theorem beforeEach_eq_none {target : Route} : page.beforeEach target = none ↔
    (target.requiresAuth = true → page.serverMode = true → page.token ≠ none) ∧
      (target.requiresAdmin = true → page.userInfo.role = js "admin") := by
  unfold beforeEach
  cases target.requiresAuth <;> cases target.requiresAdmin <;> cases page.serverMode <;>
    cases page.token <;> simp

theorem Paired.fresh (tokens : List Token) : Page.fresh.Paired tokens :=
  ⟨rfl, by simp [Page.fresh], by simp [Page.fresh], fun _ => rfl, by simp [Page.fresh]⟩

theorem Paired.mono (paired : page.Paired tokens) (grow : tokens ⊆ more) : page.Paired more :=
  { paired with
    issued := fun token held => grow (paired.issued token held)
    logins := fun userID token here => (paired.logins userID token here).imp_left (grow ·) }

end Page

/-- Both parts of a session are set. -/
def Browser.takeSession (b : Browser) (tab userID : ℕ) (token : Token) : Browser :=
  { b.setPage tab { b.pages tab with
      token := some token, authorization := some token
      userInfo := { (b.pages tab).userInfo with id := some userID } } with
    storage := ⟨some token, some userID⟩ }

section Steps
variable {cfg : Config} {expireTime : ℕ} {s : Sessions} {b : Browser} {tab : ℕ}

theorem tokens_subset (s : Sessions) (event : SessionEvent) :
    s.tokens ⊆ (s.step cfg expireTime event).tokens := by
  cases event with
  | login email password =>
      simp only [Sessions.step]
      split
      · exact List.subset_cons_self _ _
      · exact List.Subset.refl _
  | external email firstName lastName creationMethod randomPass salt =>
      simp only [Sessions.step]
      split
      · exact List.subset_cons_self _ _
      · exact List.Subset.refl _
  | _ => exact List.Subset.refl _

/-- The session of an accepted sign-in has been issued by the same step. -/
theorem signedIn_issued {event : SessionEvent} {userID : ℕ} {token : Token}
    (accepted : s.signedIn cfg expireTime event = some (userID, token)) :
    token ∈ (s.step cfg expireTime event).tokens ∧ token.sub = userID := by
  cases event with
  | login email password =>
      simp only [Sessions.signedIn] at accepted
      split at accepted
      · rename_i user valid
        cases accepted
        simp only [Sessions.step, valid]
        exact ⟨List.mem_cons_self, rfl⟩
      · cases accepted
  | external email firstName lastName creationMethod randomPass salt =>
      obtain ⟨⟨db, user⟩, done, same⟩ := Option.map_eq_some_iff.mp accepted
      cases same
      simp only [Sessions.step, done]
      exact ⟨List.mem_cons_self, rfl⟩
  | _ => cases accepted

theorem setPage_pages (page : Page) (other : ℕ) :
    (b.setPage tab page).pages other = if other = tab then page else b.pages other := by
  exact Function.update_apply b.pages tab page other

theorem handleLogin_eq (userID : ℕ) (token : Token) :
    b.handleLogin tab userID token = (b.takeSession tab userID token).GetUserInfo tab := by
  simp only [Browser.handleLogin, Browser.SET_USERID, Browser.SET_TOKEN, Browser.setPage,
    Browser.takeSession, Function.update_self, Function.update_idem]

/-- The tab once the server is found. -/
def Browser.found (b : Browser) (tab : ℕ) : Browser :=
  { b.setPage tab { b.pages tab with serverMode := true } with cookies := ⟨none, none⟩ }

theorem Stored.Issued.or {tokens : List Token} {first second : Stored} (one : first.Issued tokens)
    (two : second.Issued tokens) :
    Stored.Issued tokens
      ⟨first.accessToken.or second.accessToken, first.userID.or second.userID⟩ := by
  rcases one with rfl | ⟨token, here, rfl⟩
  · exact two
  · exact .inr ⟨token, here, rfl⟩

/-- The start takes a session over, or there is none. -/
theorem startSession_cases (paired : b.Paired) :
    b.startSession tab = (b.found tab).GetUserInfo tab ∨
      ∃ token ∈ b.server.tokens,
        (b.storage.accessToken = none ∨ b.storage.accessToken = some token) ∧
        b.startSession tab =
          ((b.found tab).takeSession tab token.sub token).GetUserInfo tab := by
  unfold Browser.startSession
  rcases paired.storage.or paired.cookies with empty | ⟨token, here, held⟩
  · left
    obtain ⟨noToken, noUser⟩ := Stored.mk.inj empty
    rw [noToken, noUser]
    rfl
  · right
    obtain ⟨isToken, isUser⟩ := Stored.mk.inj held
    refine ⟨token, here, ?_, ?_⟩
    · cases stored : b.storage.accessToken with
      | none => exact .inl rfl
      | some first => exact .inr ((stored ▸ isToken : (some first).or _ = some token))
    rw [isToken, isUser]
    simp only [Browser.found, Browser.SET_USERID, Browser.SET_TOKEN, Browser.setPage,
      Browser.takeSession, Function.update_self, Function.update_idem]

namespace Browser.Paired

theorem setPage (paired : b.Paired) {page : Page} (next : page.Paired b.server.tokens) :
    (b.setPage tab page).Paired := by
  refine ⟨paired.storage, paired.cookies, fun other => ?_⟩
  rw [setPage_pages]
  split
  · exact next
  · exact paired.pages other

theorem server (paired : b.Paired) (grow : b.server.tokens ⊆ s.tokens) :
    Browser.Paired { b with server := s } where
  storage := paired.storage.imp_right fun ⟨token, here, same⟩ => ⟨token, grow here, same⟩
  cookies := paired.cookies.imp_right fun ⟨token, here, same⟩ => ⟨token, grow here, same⟩
  pages tab := (paired.pages tab).mono grow

theorem takeSession (paired : b.Paired) {token : Token} (issued : token ∈ b.server.tokens) :
    (b.takeSession tab token.sub token).Paired := by
  have next : (b.setPage tab { b.pages tab with
      token := some token, authorization := some token
      userInfo := { (b.pages tab).userInfo with id := some token.sub } }).Paired := by
    refine paired.setPage { paired.pages tab with header := rfl, issued := ?_, shown := ?_ }
    · rintro token ⟨⟩
      exact issued
    · intro route here protected' mode
      exact Option.some_ne_none token
  exact ⟨.inr ⟨token, issued, rfl⟩, next.cookies, next.pages⟩

theorem getUserInfo (paired : b.Paired) : (b.GetUserInfo tab).Paired := by
  unfold Browser.GetUserInfo
  split
  · exact paired.setPage { paired.pages tab with }
  · exact paired.setPage { paired.pages tab with waits := fun waits => nomatch waits }

theorem logout (paired : b.Paired) : (b.Logout tab).Paired := by
  have next := @setPage b tab paired _ (Page.Paired.fresh _)
  exact ⟨.inl rfl, next.cookies, next.pages⟩

theorem found (paired : b.Paired) (loading : (b.pages tab).loading = true) :
    (b.found tab).Paired := by
  have next : (b.setPage tab { b.pages tab with serverMode := true }).Paired := by
    refine paired.setPage { paired.pages tab with shown := ?_ }
    intro route here
    cases ((paired.pages tab).waits loading).symm.trans here
  exact ⟨next.storage, .inl rfl, next.pages⟩

theorem receive (paired : b.Paired) {answer : Answer}
    (issued : ∀ userID token, answer = .login userID token →
      token ∈ b.server.tokens ∧ token.sub = userID) : (b.receive tab answer).Paired := by
  cases answer with
  | login userID token =>
      obtain ⟨here, rfl⟩ := issued userID token rfl
      change (b.handleLogin tab token.sub token).Paired
      rw [handleLogin_eq]
      exact (paired.takeSession here).getUserInfo
  | user data =>
      exact paired.setPage { paired.pages tab with waits := fun waits => nomatch waits }
  | userFailed => exact paired.logout
  | updated data =>
      simp only [Browser.receive]
      split
      · exact paired.setPage { paired.pages tab with }
      · exact paired
  | updateFailed => exact paired

theorem checkForServer (paired : b.Paired) (found : Bool) :
    (b.CheckForServer tab found).Paired := by
  unfold Browser.CheckForServer
  split
  · rename_i loading
    split
    · rcases @startSession_cases b tab paired with same | ⟨token, here, -, same⟩
      · rw [same]
        exact (paired.found loading).getUserInfo
      · rw [same]
        exact ((paired.found loading).takeSession here).getUserInfo
    · exact paired.setPage { paired.pages tab with waits := fun waits => nomatch waits }
  · exact paired

/-- A served request neither issues a session nor answers with one. -/
theorem serve_no_login {sent : Sent} {userID : ℕ} {token : Token} :
    (Browser.serve cfg expireTime s sent).2 ≠ .login userID token := by
  unfold Browser.serve
  split <;> split <;> intro same <;> cases same

theorem serve_tokens {sent : Sent} :
    s.tokens ⊆ (Browser.serve cfg expireTime s sent).1.tokens := by
  unfold Browser.serve
  split
  · exact List.Subset.refl _
  · exact tokens_subset s _

theorem step (paired : b.Paired) (event : BrowserEvent) :
    (b.step cfg expireTime event).Paired := by
  cases event with
  | others event => exact paired.server (tokens_subset _ event)
  | load tab => exact paired.setPage (Page.Paired.fresh _)
  | checkForServer tab found => exact paired.checkForServer found
  | signIn tab event =>
      have after := paired.server (@tokens_subset cfg expireTime b.server event)
      simp only [Browser.step]
      split
      · rename_i userID token accepted
        refine after.setPage { after.pages tab with logins := fun id given here => ?_ }
        rcases List.mem_append.mp here with before | last
        · exact (after.pages tab).logins id given before
        · cases List.mem_singleton.mp last
          exact signedIn_issued accepted
      · exact after
  | callback tab event =>
      have after := paired.server (@tokens_subset cfg expireTime b.server event)
      simp only [Browser.step]
      split
      · rename_i userID token accepted
        obtain ⟨issued, rfl⟩ := signedIn_issued accepted
        have next := @setPage _ tab after _ (Page.Paired.fresh _)
        exact ⟨next.storage, .inr ⟨token, issued, rfl⟩, next.pages⟩
      · exact after
  | updateUserInfo tab id body salt => exact paired.setPage { paired.pages tab with }
  | serve tab index =>
      simp only [Browser.step]
      split
      · rename_i sent found
        have grow := @serve_tokens cfg expireTime b.server sent
        refine @server (Browser.serve cfg expireTime b.server sent).1 _ (paired.setPage
          { paired.pages tab with logins := fun id given here => ?_ }) grow
        rcases List.mem_append.mp here with before | last
        · exact (paired.pages tab).logins id given before
        · exact absurd (List.mem_singleton.mp last).symm serve_no_login
      · exact paired
  | receive tab index =>
      simp only [Browser.step]
      split
      · rename_i answer found
        have kept : (b.setPage tab { b.pages tab with
            answers := (b.pages tab).answers.eraseIdx index }).Paired :=
          paired.setPage { paired.pages tab with
            logins := fun id given here =>
              (paired.pages tab).logins id given (List.mem_of_mem_eraseIdx here) }
        refine kept.receive fun id given same => ?_
        subst same
        exact (paired.pages tab).logins id given (List.mem_of_getElem? found)
      · exact paired
  | navigate tab target =>
      simp only [Browser.step]
      split
      · exact paired
      · rename_i started
        have passes := Page.beforeEach_eq_none.mp ((b.pages tab).settle_passes target)
        refine paired.setPage { paired.pages tab with
          waits := fun waits => absurd waits started
          shown := ?_ }
        rintro route ⟨⟩
        exact passes.1
  | logout tab => exact paired.logout

end Browser.Paired
end Steps

/-- A browser without a stored session, at a server in any state. -/
def Browser.start (server : Sessions) : Browser :=
  ⟨server, ⟨none, none⟩, ⟨none, none⟩, fun _ => Page.fresh⟩

theorem Browser.start_paired (server : Sessions) : (Browser.start server).Paired :=
  ⟨.inl rfl, .inl rfl, fun _ => Page.Paired.fresh _⟩

/-- Whatever happens in the tabs and at the server, the storage and the cookies hold a token that
the server has issued together with the key of its own user, or nothing; every request of a tab
bears the token of the tab; and a tab at a server shows a page that asks for a session only with
an issued token. -/
theorem paired_run (cfg : Config) (expireTime : ℕ) (server : Sessions)
    (events : List BrowserEvent) :
    Lib.Throughout (Browser.step cfg expireTime) Browser.Paired (Browser.start server) events :=
  @Lib.Throughout.of_invariant _ _ (Browser.step cfg expireTime) Browser.Paired _ (fun _ _ => True)
    (fun _ event paired _ => paired.step event) (fun _ paired => paired) _
    (Browser.start_paired server) events (Lib.along_of_step (fun _ _ => trivial) _ events)

/-! What a tab knows of its user. -/

/-- The accounts of a server have no other roles than these. -/
def Roles (R : ℕ → JsString → Prop) (s : Sessions) : Prop :=
  ∀ u user, s.tables.findUser u = some user → R u user.role

/-- What a tab knows belongs to its token. -/
structure Page.Faithful (R : ℕ → JsString → Prop) (page : Page) : Prop where
  session : (page.token = none ∧ page.userInfo = ⟨none, []⟩) ∨
    ∃ token, page.token = some token ∧ page.userInfo.id = some token.sub ∧
      (page.userInfo.role = [] ∨ R token.sub page.userInfo.role)
  asked : ∀ sent ∈ page.sent, ∀ id, sent.ask = .user id → page.userInfo.id = some id
  users : ∀ data, .user data ∈ page.answers → page.userInfo.id = some data.id ∧ R data.id data.role
  updates : ∀ data, .updated data ∈ page.answers → R data.id data.role
  admin : page.route = some .admin → ∃ token, page.token = some token ∧ R token.sub (js "admin")

/-- A tab takes a session over only if it has none, or the same. -/
def Once (b : Browser) : BrowserEvent → Prop
  | .checkForServer tab _ => (b.pages tab).loading = true →
      (b.pages tab).token = none ∨ (b.pages tab).token = b.storage.accessToken
  | .receive tab index => ∀ token ∈ (b.pages tab).answers[index]?.bind Answer.session,
      (b.pages tab).token = none ∨ (b.pages tab).token = some token
  | _ => True

instance (b : Browser) : (event : BrowserEvent) → Decidable (Once b event)
  | .checkForServer _ _ => inferInstanceAs (Decidable (_ → _ ∨ _))
  | .receive tab index =>
      inferInstanceAs (Decidable (∀ token ∈ (b.pages tab).answers[index]?.bind Answer.session, _))
  | .others _ | .load _ | .signIn _ _ | .callback _ _ | .updateUserInfo _ _ _ _ | .serve _ _
  | .navigate _ _ | .logout _ => .isTrue trivial

section Known
variable {cfg : Config} {expireTime : ℕ} {R : ℕ → JsString → Prop} {s : Sessions} {b : Browser}
  {tab : ℕ} {page : Page}

theorem Page.Faithful.fresh : Page.fresh.Faithful R :=
  ⟨.inl ⟨rfl, rfl⟩, by simp [Page.fresh], by simp [Page.fresh], by simp [Page.fresh],
    by simp [Page.fresh]⟩

/-- Without a session nothing is known and nothing asked. -/
theorem Page.Faithful.take (faithful : page.Faithful R) {token : Token}
    (once : page.token = none ∨ page.token = some token) :
    Page.Faithful R { page with
      token := some token, authorization := some token
      userInfo := { page.userInfo with id := some token.sub } } := by
  rcases faithful.session with ⟨noToken, empty⟩ | ⟨held, here, id, role⟩
  · have noKey : page.userInfo.id = none := congrArg UserInfo.id empty
    have noRole : page.userInfo.role = [] := congrArg UserInfo.role empty
    refine ⟨.inr ⟨token, rfl, rfl, .inl noRole⟩, ?_, ?_, faithful.updates, ?_⟩
    · intro sent waiting id ask
      cases noKey.symm.trans (faithful.asked sent waiting id ask)
    · intro data answered
      cases noKey.symm.trans (faithful.users data answered).1
    · intro shown
      obtain ⟨held, here, -⟩ := faithful.admin shown
      cases noToken.symm.trans here
  · have same : held = token := by
      rcases once with noToken | same
      · cases noToken.symm.trans here
      · exact Option.some.inj (here.symm.trans same)
    subst same
    have info : { page.userInfo with id := some held.sub } = page.userInfo := by rw [← id]
    rw [info, ← here]
    exact { faithful with }

/-- An answer about a user names an account that the server has. -/
theorem findUserById_role (roles : Roles R s) {bearer : Option Token} {id : ℕ} {data : UserDto}
    (answered : s.findUserById bearer id = .ok data) : data.id = id ∧ R data.id data.role := by
  simp only [Sessions.findUserById, UsersController.findUserById, Lib.do_eq_ok,
    Lib.orThrow_eq_ok, findByPkBang_ok, pure, Except.pure, Except.ok.injEq] at answered
  obtain ⟨-, -, user, found, -, -, rfl⟩ := answered
  have id := (Tables.findUser_some found).2
  exact ⟨id, roles user.id user (by rw [id]; exact found)⟩

theorem updateUser_role {bearer : Option Token} {id : ℕ} {body : JsVal} {salt : ℕ}
    (roles : Roles R (s.step cfg expireTime (.call bearer (.updateUser id body) salt)))
    {data : UserDto} (answered : s.updateUser cfg bearer id body salt = .ok data) :
    R data.id data.role := by
  simp only [Sessions.updateUser, Lib.do_eq_ok, findByPkBang_ok, pure, Except.pure,
    Except.ok.injEq] at answered
  obtain ⟨db, accepted, user, found, rfl⟩ := answered
  have after : (s.step cfg expireTime (.call bearer (.updateUser id body) salt)).tables = db := by
    change answer cfg s.tables _ = db
    rw [answer, accepted]
  have id := (Tables.findUser_some found).2
  exact roles user.id user (by rw [after, id]; exact found)

theorem serve_user (roles : Roles R s) {sent : Sent} {data : UserDto}
    (answered : (Browser.serve cfg expireTime s sent).2 = .user data) :
    ∃ id, sent.ask = .user id ∧ data.id = id ∧ R data.id data.role := by
  unfold Browser.serve at answered
  split at answered
  · rename_i id ask
    cases reply : s.findUserById sent.authorization id with
    | error e => simp [reply] at answered
    | ok data' =>
        simp only [reply, Answer.user.injEq] at answered
        subst answered
        exact ⟨id, ask, findUserById_role roles reply⟩
  · split at answered <;> cases answered

theorem serve_updated {sent : Sent} {data : UserDto}
    (roles : Roles R (Browser.serve cfg expireTime s sent).1)
    (answered : (Browser.serve cfg expireTime s sent).2 = .updated data) :
    R data.id data.role := by
  unfold Browser.serve at answered roles
  split at answered
  · split at answered <;> cases answered
  · rename_i id body salt ask
    simp only [ask] at roles
    cases reply : s.updateUser cfg sent.authorization id body salt with
    | error e => simp [reply] at answered
    | ok data' =>
        simp only [reply, Answer.updated.injEq] at answered
        subst answered
        exact updateUser_role roles reply

namespace Page.Faithful

/-- Asking about the own user, or ending the start. -/
theorem getUserInfo (faithful : ∀ tab, (b.pages tab).Faithful R) (other : ℕ) :
    ((b.GetUserInfo tab).pages other).Faithful R := by
  unfold Browser.GetUserInfo
  split
  · rename_i id known
    rw [Browser.send, setPage_pages]
    split
    · refine { faithful tab with asked := fun sent here id' ask => ?_ }
      rcases List.mem_append.mp here with before | last
      · exact (faithful tab).asked sent before id' ask
      · cases List.mem_singleton.mp last
        cases ask
        exact known
    · exact faithful other
  · rw [setPage_pages]
    split
    · exact { faithful tab with }
    · exact faithful other

theorem setPage (faithful : ∀ tab, (b.pages tab).Faithful R) (next : page.Faithful R)
    (other : ℕ) : ((b.setPage tab page).pages other).Faithful R := by
  rw [setPage_pages]
  split
  · exact next
  · exact faithful other

theorem takeSession (faithful : ∀ tab, (b.pages tab).Faithful R) {token : Token}
    (once : (b.pages tab).token = none ∨ (b.pages tab).token = some token) (other : ℕ) :
    ((b.takeSession tab token.sub token).pages other).Faithful R :=
  setPage faithful ((faithful tab).take once) other

theorem checkForServer (paired : b.Paired) (faithful : ∀ tab, (b.pages tab).Faithful R)
    {found : Bool} (once : Once b (.checkForServer tab found)) (other : ℕ) :
    ((b.CheckForServer tab found).pages other).Faithful R := by
  have start : ∀ tab', ((b.found tab).pages tab').Faithful R :=
    setPage faithful { faithful tab with }
  unfold Browser.CheckForServer
  split
  · rename_i loading
    split
    · rcases @startSession_cases b tab paired with same | ⟨token, -, stored, same⟩
      · rw [same]
        exact getUserInfo start other
      · rw [same]
        refine getUserInfo (takeSession start ?_) other
        have kept : ((b.found tab).pages tab).token = (b.pages tab).token := by
          rw [Browser.found]
          simp [Browser.setPage]
        rw [kept]
        rcases once loading with none | held
        · exact .inl none
        · rw [held]
          exact stored
    · refine setPage faithful ?_ other
      exact { faithful tab with }
  · exact faithful other

theorem receive (faithful : ∀ tab, (b.pages tab).Faithful R) {answer : Answer}
    (issued : ∀ userID token, answer = .login userID token → token.sub = userID ∧
      ((b.pages tab).token = none ∨ (b.pages tab).token = some token))
    (user : ∀ data, answer = .user data →
      (b.pages tab).userInfo.id = some data.id ∧ R data.id data.role)
    (updated : ∀ data, answer = .updated data → R data.id data.role) (other : ℕ) :
    ((b.receive tab answer).pages other).Faithful R := by
  have knows : ∀ (data : UserDto), (b.pages tab).userInfo.id = some data.id →
      R data.id data.role → Page.Faithful R
        { b.pages tab with userInfo := ⟨some data.id, data.role⟩ } := by
    intro data same role
    rcases (faithful tab).session with ⟨-, empty⟩ | ⟨token, held, id, -⟩
    · cases (congrArg UserInfo.id empty).symm.trans same
    · have sub : token.sub = data.id := Option.some.inj (id.symm.trans same)
      refine { faithful tab with session := ?_, asked := ?_, users := ?_ }
      · exact .inr ⟨token, held, by rw [sub], .inr (by rw [sub]; exact role)⟩
      · rw [← same]
        exact (faithful tab).asked
      · rw [← same]
        exact (faithful tab).users
  cases answer with
  | login userID token =>
      obtain ⟨rfl, once⟩ := issued userID token rfl
      change ((b.handleLogin tab token.sub token).pages other).Faithful R
      rw [handleLogin_eq]
      exact getUserInfo (takeSession faithful once) other
  | user data =>
      obtain ⟨same, role⟩ := user data rfl
      have next : Page.Faithful R
          { b.pages tab with userInfo := ⟨some data.id, data.role⟩, loading := false } :=
        { knows data same role with }
      exact setPage faithful next other
  | userFailed => exact setPage faithful Page.Faithful.fresh other
  | updated data =>
      simp only [Browser.receive]
      split
      · rename_i same
        exact setPage faithful (knows data same (updated data rfl)) other
      · exact faithful other
  | updateFailed => exact faithful other

/-- One event; the roles are those before and after it. -/
theorem step (paired : b.Paired) (faithful : ∀ tab, (b.pages tab).Faithful R)
    (before : Roles R b.server) {event : BrowserEvent}
    (after : Roles R (b.step cfg expireTime event).server) (once : Once b event) (other : ℕ) :
    ((b.step cfg expireTime event).pages other).Faithful R := by
  cases event with
  | others event => exact faithful other
  | load tab => exact setPage faithful Page.Faithful.fresh other
  | checkForServer tab found => exact checkForServer paired faithful once other
  | signIn tab event =>
      simp only [Browser.step]
      split
      · refine @setPage R _ tab _ faithful ?_ other
        refine { faithful tab with
          users := fun data here => ?_
          updates := fun data here => ?_ }
        · rcases List.mem_append.mp here with old | last
          · exact (faithful tab).users data old
          · cases List.mem_singleton.mp last
        · rcases List.mem_append.mp here with old | last
          · exact (faithful tab).updates data old
          · cases List.mem_singleton.mp last
      · exact faithful other
  | callback tab event =>
      simp only [Browser.step]
      split
      · exact setPage faithful Page.Faithful.fresh other
      · exact faithful other
  | updateUserInfo tab id body salt =>
      refine @setPage R b tab _ faithful ?_ other
      refine { faithful tab with asked := fun sent here id' ask => ?_ }
      rcases List.mem_append.mp here with old | last
      · exact (faithful tab).asked sent old id' ask
      · cases List.mem_singleton.mp last
        cases ask
  | serve tab index =>
      revert after
      simp only [Browser.step]
      split
      · rename_i sent found
        intro after
        refine @setPage R b tab _ faithful ?_ other
        refine { faithful tab with
          asked := fun sent here => (faithful tab).asked sent (List.mem_of_mem_eraseIdx here)
          users := fun data here => ?_
          updates := fun data here => ?_ }
        · rcases List.mem_append.mp here with old | last
          · exact (faithful tab).users data old
          · obtain ⟨id, ask, rfl, role⟩ := serve_user before (List.mem_singleton.mp last).symm
            exact ⟨(faithful tab).asked sent (List.mem_of_getElem? found) _ ask, role⟩
        · rcases List.mem_append.mp here with old | last
          · exact (faithful tab).updates data old
          · exact serve_updated after (List.mem_singleton.mp last).symm
      · exact fun _ => faithful other
  | receive tab index =>
      simp only [Browser.step]
      split
      · rename_i answer found
        have here := List.mem_of_getElem? found
        have kept : ∀ tab', ((b.setPage tab { b.pages tab with
            answers := (b.pages tab).answers.eraseIdx index }).pages tab').Faithful R :=
          setPage faithful { faithful tab with
            users := fun data here => (faithful tab).users data (List.mem_of_mem_eraseIdx here)
            updates := fun data here =>
              (faithful tab).updates data (List.mem_of_mem_eraseIdx here) }
        have page : (b.setPage tab { b.pages tab with
            answers := (b.pages tab).answers.eraseIdx index }).pages tab =
            { b.pages tab with answers := (b.pages tab).answers.eraseIdx index } :=
          (setPage_pages _ tab).trans (if_pos rfl)
        refine receive kept (fun userID token same => ?_) (fun data same => ?_)
          (fun data same => ?_) other
        · subst same
          rw [page]
          exact ⟨((paired.pages tab).logins userID token here).2, once token (by rw [found]; rfl)⟩
        · subst same
          rw [page]
          exact (faithful tab).users data here
        · subst same
          exact (faithful tab).updates data here
      · exact faithful other
  | navigate tab target =>
      simp only [Browser.step]
      split
      · exact faithful other
      · have passes := Page.beforeEach_eq_none.mp ((b.pages tab).settle_passes target)
        refine @setPage R b tab _ faithful ?_ other
        refine { faithful tab with admin := fun shown => ?_ }
        have settled := Option.some.inj shown
        rw [settled] at passes
        have isAdmin := passes.2 rfl
        rcases (faithful tab).session with ⟨-, empty⟩ | ⟨token, held, -, role⟩
        · rw [empty] at isAdmin
          exact absurd isAdmin (by decide)
        · rcases role with none | role
          · rw [none] at isAdmin
            exact absurd isAdmin (by decide)
          · exact ⟨token, held, isAdmin ▸ role⟩
  | logout tab => exact setPage faithful Page.Faithful.fresh other

end Page.Faithful
end Known

/-- In an earlier state of the run the account had this role. -/
def Held (cfg : Config) (expireTime : ℕ) (server : Sessions) (events : List BrowserEvent) (u : ℕ)
    (role : JsString) : Prop :=
  ∃ first rest user, events = first ++ rest ∧
    (Lib.run (Browser.step cfg expireTime) (Browser.start server) first).server.tables.findUser u =
      some user ∧ user.role = role

/-- As long as no tab takes a session over while it has another one, the key in a tab is that of
its token, the role is one that this account has had, and the administration page is shown only
to an account that has been an administrator. -/
theorem admin_view_run (cfg : Config) (expireTime : ℕ) (server : Sessions)
    {events : List BrowserEvent}
    (once : Lib.Along (Browser.step cfg expireTime) Once (Browser.start server) events) (tab : ℕ) :
    let page := (Lib.run (Browser.step cfg expireTime) (Browser.start server) events).pages tab
    (∀ token, page.token = some token → page.authorization = some token ∧
      page.userInfo.id = some token.sub ∧ (page.userInfo.role = [] ∨
        Held cfg expireTime server events token.sub page.userInfo.role)) ∧
    (page.route = some .admin → ∃ token, page.token = some token ∧
      Held cfg expireTime server events token.sub (js "admin")) := by
  have visited : Lib.Throughout (Browser.step cfg expireTime)
      (fun b => Roles (Held cfg expireTime server events) b.server) (Browser.start server)
      events := by
    refine (Lib.throughout_visited (Browser.start server) events).mono fun b seen => ?_
    obtain ⟨first, rest, split', rfl⟩ := seen
    exact fun u user found => ⟨first, rest, user, split', found, rfl⟩
  have reached := @Lib.run_invariant_of_visited _ _ (Browser.step cfg expireTime)
    (fun b => b.Paired ∧ ∀ tab, (b.pages tab).Faithful (Held cfg expireTime server events)) _ _
    (fun b event inv before after once =>
      ⟨inv.1.step event, Page.Faithful.step inv.1 inv.2 before after once⟩) _
    ⟨Browser.start_paired server, fun _ => Page.Faithful.fresh⟩ _ visited once
  obtain ⟨paired, faithful⟩ := reached
  refine ⟨fun token held => ⟨(paired.pages tab).header.trans held, ?_⟩, (faithful tab).admin⟩
  rcases (faithful tab).session with ⟨none, -⟩ | ⟨token', held', id, role⟩
  · cases none.symm.trans held
  · cases held'.symm.trans held
    exact ⟨id, role⟩

/-- A server with one account, which is an administrator. -/
def sampleServer : Sessions :=
  let db := answer sampleConfig Tables.empty (sampleRegistration "a@example.com")
  ⟨{ db with users := db.users.map fun user => { user with role := js "admin" } }, [], 0⟩

/-- An administrator signs in, the account is loaded, and the administration page is opened. -/
def sampleVisit : List BrowserEvent :=
  [.checkForServer 0 true, .navigate 0 .home,
   .signIn 0 (.login (js "a@example.com") (js "aB1!cD2?eF3#gH4")), .receive 0 0, .serve 0 0,
   .receive 0 0, .navigate 0 .admin]

def sampleVisited : Browser :=
  Lib.run (Browser.step sampleConfig 60) (Browser.start sampleServer) sampleVisit

theorem admin_view_run_sample : (sampleVisited.pages 0).route = some .admin ∧
    ∃ token, (sampleVisited.pages 0).token = some token ∧
      Held sampleConfig 60 sampleServer sampleVisit token.sub (js "admin") := by
  have shown : (sampleVisited.pages 0).route = some .admin := by decide +kernel
  have once : Lib.Along (Browser.step sampleConfig 60) Once (Browser.start sampleServer)
      sampleVisit := by decide +kernel
  exact ⟨shown, (admin_view_run sampleConfig 60 sampleServer once 0).2 shown⟩

end Remote
