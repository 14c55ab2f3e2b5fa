/-
# Authentication by session cookies

`HTTPCookieAuth`: a login puts a random cookie into a cache, a logout removes it, and a
request that carries a cookie of the cache is let through.  Whoever is let through has logged
in before, and has not logged out since (`cookieAuth_sound`).
-/
import PionCore.Common.PionAlgorithms
import PionCore.Net.HTTPAuth

namespace PionCore.Net

open PionCore.Lib PionCore.Common

def headerLocation : Bytes := ascii "Location"

def responseCodeNoContent : ℕ := 204
def responseMessageNoContent : Bytes := ascii "No Content"
def responseCodeFound : ℕ := 302
def responseMessageFound : Bytes := ascii "Found"

/-- `make_set_cookie_header`. -/
def makeSetCookieHeader (name value path : Bytes) (maxAge : Option ℕ) : Bytes :=
  name ++ ascii "=\"" ++ value ++ ascii "\"; Version=\"1\"" ++
    (if path ≠ [] then ascii "; Path=\"" ++ path ++ ascii "\"" else []) ++
    match maxAge with
    | some n => ascii "; Max-Age=\"" ++ numeral 10 n ++ ascii "\""
    | none => []

namespace HTTPMessage

def setCookie (m : HTTPMessage) (name value path : Bytes) : HTTPMessage :=
  m.addHeader headerSetCookie (makeSetCookieHeader name value path none)

def deleteCookie (m : HTTPMessage) (name path : Bytes) : HTTPMessage :=
  m.addHeader headerSetCookie (makeSetCookieHeader name [] path (some 0))

end HTTPMessage

structure HTTPCookieAuth extends HTTPAuth where
  login : Bytes := ascii "/login"
  logout : Bytes := ascii "/logout"
  redirect : Bytes := []
  /-- `m_user_cache` and `m_cache_cleanup_time` -/
  cache : SweptCache Bytes PionUser

namespace HTTPCookieAuth

/-- `CACHE_EXPIRATION`, in seconds. -/
def cacheExpiration : ℕ := 3600

/-- `RANDOM_COOKIE_BYTES`. -/
def randomCookieBytes : ℕ := 20

def authCookieName : Bytes := ascii "pion_session_id"

/-- What the die shows for a cookie. -/
abbrev Dice : Type := { d : Bytes // d.length = randomCookieBytes }

/-- The constructor, at a time. -/
def new (userManager : PionUserManager) (login logout redirect : Bytes) (now : ℕ) :
    HTTPCookieAuth where
  userManager := userManager
  login := login
  logout := logout
  redirect := redirect
  cache := .new now

/-- `setOption`; an unknown name is an exception, and changes nothing. -/
def setOption (a : HTTPCookieAuth) (name value : Bytes) : HTTPCookieAuth :=
  if name = ascii "login" then { a with login := value }
  else if name = ascii "logout" then { a with logout := value }
  else if name = ascii "redirect" then { a with redirect := value }
  else a

/-! ### Responses -/

/-- The page that is sent by `handleRedirection`. -/
def redirectContent : Bytes :=
  ascii (" <!DOCTYPE HTML PUBLIC \"-//W3C//DTD HTML 4.01 Transitional//EN\"" ++
    "\"http://www.w3.org/TR/1999/REC-html401-19991224/loose.dtd\">" ++
    "<HTML><HEAD><TITLE>Redirect</TITLE>" ++
    "<META HTTP-EQUIV=\"Content-Type\" CONTENT=\"text/html; charset=ISO-8859-1\">" ++
    "</HEAD><BODY><H1>302 Found.</H1></BODY></HTML> ")

/-- The cookie of the client is deleted, or a new one is set. -/
def updateCookie (m : HTTPMessage) (newCookie : Bytes) (deleteCookie : Bool) : HTTPMessage :=
  if deleteCookie then m.deleteCookie authCookieName []
  else if newCookie ≠ [] then m.setCookie authCookieName newCookie []
  else m

def handleRedirection (request : HTTPMessage) (redirectionUrl newCookie : Bytes)
    (deleteCookie : Bool) : Reply where
  response := updateCookie ((request.respond responseCodeFound responseMessageFound).addHeader
    headerLocation redirectionUrl) newCookie deleteCookie
  content := redirectContent

def handleOk (request : HTTPMessage) (newCookie : Bytes) (deleteCookie : Bool) : Reply where
  response := updateCookie (request.respond responseCodeNoContent responseMessageNoContent)
    newCookie deleteCookie
  content := []

def handleUnauthorized (a : HTTPCookieAuth) (request : HTTPMessage) : Reply :=
  if a.redirect ≠ [] then handleRedirection request a.redirect [] false
  else
    { response := request.respond responseCodeUnauthorized responseMessageUnauthorized
      content := unauthorizedContent }

/-- The last part of `processLogin`. -/
def answerLogin (request : HTTPMessage) (redirectUrl newCookie : Bytes) (deleteCookie : Bool) :
    Reply :=
  if redirectUrl ≠ [] then handleRedirection request redirectUrl newCookie deleteCookie
  else handleOk request newCookie deleteCookie

/-! ### Requests -/

/-- The user whose name and password are in the query. -/
def loginUser (a : HTTPCookieAuth) (request : HTTPMessage) : Option PionUser :=
  a.userManager.getUser (urlDecode (request.getQuery (ascii "user")))
    (urlDecode (request.getQuery (ascii "pass")))

/-- `processLogin`; `none` when it returns false. -/
def processLogin (a : HTTPCookieAuth) (now : ℕ) (dice : Dice) (request : HTTPMessage) :
    Option (Reply × HTTPCookieAuth) :=
  let resource := stripTrailingSlash request.getResource
  if resource ≠ a.login ∧ resource ≠ a.logout then none
  else
    let redirectUrl := urlDecode (request.getQuery (ascii "url"))
    if resource = a.login then
      match a.loginUser request with
      | none => some (a.handleUnauthorized request, a)
      | some user =>
          let newCookie := base64Encode dice.1
          some (answerLogin request redirectUrl newCookie false,
            { a with cache := a.cache.add now newCookie user })
    else
      let authCookie := request.getCookie authCookieName
      some (answerLogin request redirectUrl [] true,
        if authCookie ≠ [] then { a with cache := a.cache.drop authCookie } else a)

/-- `handleRequest` at a time; the dice are only thrown for a login. -/
def handleRequest (a : HTTPCookieAuth) (now : ℕ) (dice : Dice) (request : HTTPMessage) :
    AuthOutcome × HTTPCookieAuth :=
  match a.processLogin now dice request with
  | some (reply, a) => (.answered reply, a)
  | none =>
      if ! a.needAuthentication request.getResource then (.notRequired, a)
      else if a.redirect ≠ [] ∧ a.redirect = request.getResource then (.notRequired, a)
      else
        let a := { a with cache := a.cache.sweep cacheExpiration now }
        let authCookie := request.getCookie authCookieName
        if authCookie ≠ [] then
          match a.cache.find authCookie with
          | some e => (.cached authCookie e.2, { a with cache := a.cache.touch now authCookie })
          | none => (.answered (a.handleUnauthorized request), a)
        else (.answered (a.handleUnauthorized request), a)

/-! ### Runs -/

/-- What can happen to an authentication object and its users. -/
inductive Event where
  | change (c : UserChange)
  | restrict (resource : Bytes)
  | permit (resource : Bytes)
  | setOption (name value : Bytes)
  | request (now : ℕ) (dice : Dice) (request : HTTPMessage)

def step (a : HTTPCookieAuth) : Event → HTTPCookieAuth
  | .change c => { a with userManager := a.userManager.change c }
  | .restrict resource => { a with toHTTPAuth := a.addRestrict resource }
  | .permit resource => { a with toHTTPAuth := a.addPermit resource }
  | .setOption name value => a.setOption name value
  | .request now dice request => (a.handleRequest now dice request).2

/-- The object behind a run. -/
def after (a : HTTPCookieAuth) (events : List Event) : HTTPCookieAuth := events.foldl step a

@[simp] lemma after_nil (a : HTTPCookieAuth) : a.after [] = a := rfl

@[simp] lemma after_snoc (a : HTTPCookieAuth) (events : List Event) (e : Event) :
    a.after (events ++ [e]) = (a.after events).step e := by
  simp [after]

/-- A request that logs a user in, and the cookie that is issued. -/
def Issues (a : HTTPCookieAuth) (cookie : Bytes) (user : PionUser) : Event → Prop
  | .request _ dice request =>
      stripTrailingSlash request.getResource = a.login ∧ a.loginUser request = some user ∧
        cookie = base64Encode dice.1
  | .change _ | .restrict _ | .permit _ | .setOption _ _ => False

/-- A request for a logout that carries a cookie. -/
def LogsOut (a : HTTPCookieAuth) (cookie : Bytes) : Event → Prop
  | .request _ _ request =>
      stripTrailingSlash request.getResource ≠ a.login ∧
        stripTrailingSlash request.getResource = a.logout ∧
          request.getCookie authCookieName = cookie
  | .change _ | .restrict _ | .permit _ | .setOption _ _ => False

/-- What a request does to the cache, and what it comes to. -/
inductive Effect (a : HTTPCookieAuth) (now : ℕ) (dice : Dice) (request : HTTPMessage)
    (x : AuthOutcome × HTTPCookieAuth) : Prop
  | login (user : PionUser)
      (issues : a.Issues (base64Encode dice.1) user (.request now dice request))
      (answered : ∃ reply, x.1 = .answered reply)
      (cache : x.2.cache = a.cache.add now (base64Encode dice.1) user)
  | logout (cookie : Bytes) (logsOut : a.LogsOut cookie (.request now dice request))
      (answered : ∃ reply, x.1 = .answered reply) (cache : x.2.cache = a.cache.drop cookie)
  | used (cookie : Bytes) (user : PionUser) (time : ℕ) (nonempty : cookie ≠ [])
      (carried : request.getCookie authCookieName = cookie)
      (out : x.1 = .cached cookie user)
      (found : (a.cache.sweep cacheExpiration now).find cookie = some (time, user))
      (cache : x.2.cache = (a.cache.sweep cacheExpiration now).touch now cookie)
      (other : a.processLogin now dice request = none)
  | other (out : x.1 = .notRequired ∨ ∃ reply, x.1 = .answered reply)
      (notIssues : ∀ user, ¬ a.Issues (base64Encode dice.1) user (.request now dice request))
      (notLogsOut : ∀ cookie, cookie ≠ [] → ¬ a.LogsOut cookie (.request now dice request))
      (cache : x.2.cache = a.cache ∨ x.2.cache = a.cache.sweep cacheExpiration now)

section Request

variable (a : HTTPCookieAuth) (now : ℕ) (dice : Dice) (request : HTTPMessage)

lemma processLogin_login (h : stripTrailingSlash request.getResource = a.login) :
    a.processLogin now dice request =
      match a.loginUser request with
      | none => some (a.handleUnauthorized request, a)
      | some user =>
          some (answerLogin request (urlDecode (request.getQuery (ascii "url")))
            (base64Encode dice.1) false,
            { a with cache := a.cache.add now (base64Encode dice.1) user }) := by
  rw [processLogin]
  dsimp only
  rw [if_neg fun h' => h'.1 h, if_pos h]

lemma processLogin_logout (h : stripTrailingSlash request.getResource ≠ a.login)
    (h' : stripTrailingSlash request.getResource = a.logout) :
    a.processLogin now dice request =
      some (answerLogin request (urlDecode (request.getQuery (ascii "url"))) [] true,
        if request.getCookie authCookieName ≠ [] then
          { a with cache := a.cache.drop (request.getCookie authCookieName) }
        else a) := by
  rw [processLogin]
  dsimp only
  rw [if_neg fun h'' => h''.2 h', if_neg h]

/-- A request that is neither a login nor a logout. -/
lemma processLogin_none (h : stripTrailingSlash request.getResource ≠ a.login)
    (h' : stripTrailingSlash request.getResource ≠ a.logout) :
    a.processLogin now dice request = none := by
  rw [processLogin]
  dsimp only
  rw [if_pos ⟨h, h'⟩]

lemma handleRequest_effect : a.Effect now dice request (a.handleRequest now dice request) := by
  by_cases hlogin : stripTrailingSlash request.getResource = a.login
  · have hout := processLogin_login a now dice request hlogin
    cases huser : a.loginUser request with
    | none =>
      simp only [huser] at hout
      simp only [handleRequest, hout]
      refine .other (Or.inr ⟨_, rfl⟩) ?_ (fun cookie _ h => h.1 hlogin) (Or.inl rfl)
      rintro user ⟨-, h, -⟩
      exact absurd (huser.symm.trans h) (by simp)
    | some user =>
      simp only [huser] at hout
      simp only [handleRequest, hout]
      exact .login user ⟨hlogin, huser, rfl⟩ ⟨_, rfl⟩ rfl
  have hnot : ∀ user, ¬ a.Issues (base64Encode dice.1) user (.request now dice request) :=
    fun _ h => hlogin h.1
  by_cases hlogout : stripTrailingSlash request.getResource = a.logout
  · have hout := processLogin_logout a now dice request hlogin hlogout
    simp only [handleRequest, hout]
    split_ifs with hcookie
    · exact .logout _ ⟨hlogin, hlogout, rfl⟩ ⟨_, rfl⟩ rfl
    · refine .other (Or.inr ⟨_, rfl⟩) hnot (fun cookie hne h => ?_) (Or.inl rfl)
      exact hcookie (h.2.2.symm ▸ hne)
  have hnone := processLogin_none a now dice request hlogin hlogout
  have hstay : ∀ cookie, cookie ≠ [] → ¬ a.LogsOut cookie (.request now dice request) :=
    fun _ _ h => hlogout h.2.1
  simp only [handleRequest, hnone]
  split_ifs with hneed hredirect hcookie
  · exact .other (Or.inl rfl) hnot hstay (Or.inl rfl)
  · exact .other (Or.inl rfl) hnot hstay (Or.inl rfl)
  · cases hfind : (a.cache.sweep cacheExpiration now).find (request.getCookie authCookieName) with
    | some e => exact .used _ e.2 e.1 hcookie rfl rfl hfind rfl hnone
    | none => exact .other (Or.inr ⟨_, rfl⟩) hnot hstay (Or.inr rfl)
  · exact .other (Or.inr ⟨_, rfl⟩) hnot hstay (Or.inr rfl)

end Request

/-! ### Sessions -/

variable (a : HTTPCookieAuth)

/-- In a run, the cookie was issued to the user, and no logout has carried it since. -/
def LoggedIn (events : List Event) (cookie : Bytes) (user : PionUser) : Prop :=
  ∃ before e since, events = before ++ e :: since ∧ (a.after before).Issues cookie user e ∧
    ∀ p f q, since = p ++ f :: q → ¬ (a.after (before ++ e :: p)).LogsOut cookie f

lemma loggedIn_issues {events : List Event} {cookie : Bytes} {user : PionUser} {e : Event}
    (h : (a.after events).Issues cookie user e) : a.LoggedIn (events ++ [e]) cookie user :=
  ⟨events, e, [], rfl, h, fun p f q hnil => by simp at hnil⟩

lemma loggedIn_snoc {events : List Event} {cookie : Bytes} {user : PionUser} {e : Event}
    (h : a.LoggedIn events cookie user) (he : ¬ (a.after events).LogsOut cookie e) :
    a.LoggedIn (events ++ [e]) cookie user := by
  obtain ⟨before, login, since, rfl, hissues, hsince⟩ := h
  refine ⟨before, login, since ++ [e], by simp, hissues, fun p f q heq => ?_⟩
  rcases List.eq_nil_or_concat q with rfl | ⟨q', g, rfl⟩
  · obtain ⟨rfl, hf⟩ := List.append_inj' heq rfl
    obtain rfl : e = f := by simpa using hf
    exact he
  · have hlast : since ++ [e] = (p ++ f :: q') ++ [g] := by simpa using heq
    obtain ⟨hinit, -⟩ := List.append_inj' hlast rfl
    exact hsince p f q' hinit

/-- Whoever has an entry in the cache is logged in. -/
lemma loggedIn_of_find (userManager : PionUserManager) (login logout redirect : Bytes) (start : ℕ)
    (events : List Event) {cookie : Bytes} (hne : cookie ≠ []) {e : ℕ × PionUser}
    (h : ((new userManager login logout redirect start).after events).cache.find cookie = some e) :
    (new userManager login logout redirect start).LoggedIn events cookie e.2 := by
  set a := new userManager login logout redirect start with ha
  induction events using List.reverseRecOn generalizing e with
  | nil =>
    rw [after_nil, ha, new, SweptCache.find_new] at h
    cases h
  | append_singleton events ev ih =>
    rw [after_snoc] at h
    cases ev with
    | change c => exact a.loggedIn_snoc (ih h) id
    | restrict resource => exact a.loggedIn_snoc (ih h) id
    | permit resource => exact a.loggedIn_snoc (ih h) id
    | setOption name value =>
      refine a.loggedIn_snoc (ih ?_) id
      rw [← h, step, setOption]
      split_ifs <;> rfl
    | request now dice request =>
      simp only [step] at h
      cases handleRequest_effect (a.after events) now dice request with
      | login user hissues _ hcache =>
        rw [hcache, SweptCache.find_add] at h
        split_ifs at h with hkey
        · obtain ⟨rfl, -⟩ := hkey
          obtain rfl := Option.some.inj h
          exact a.loggedIn_issues hissues
        · exact a.loggedIn_snoc (ih h) fun hout => hout.1 hissues.1
      | logout key hlogout _ hcache =>
        rw [hcache, SweptCache.find_drop] at h
        split_ifs at h with hkey
        refine a.loggedIn_snoc (ih h) fun hout => hkey ?_
        rw [← hout.2.2, hlogout.2.2]
      | used key user time _ _ _ hfound hcache hnone =>
        have hstay : ¬ (a.after events).LogsOut cookie (.request now dice request) := by
          intro hout
          rw [processLogin_logout _ _ _ _ hout.1 hout.2.1] at hnone
          cases hnone
        rw [hcache, SweptCache.find_touch] at h
        split_ifs at h with hkey
        · subst hkey
          obtain ⟨e', he', rfl⟩ := Option.map_eq_some_iff.1 h
          have hbefore := @ih e' (SweptCache.find_sweep.1 he').1
          exact a.loggedIn_snoc hbefore hstay
        · exact a.loggedIn_snoc (ih (SweptCache.find_sweep.1 h).1) hstay
      | other _ _ hlogout hcache =>
        refine a.loggedIn_snoc (ih ?_) (hlogout cookie hne)
        rcases hcache with hcache | hcache
        · rwa [hcache] at h
        · rw [hcache] at h
          exact (SweptCache.find_sweep.1 h).1

/-- A request that is let through with a user carries a cookie that a login of this user has
issued, and no logout with this cookie has come since. -/
theorem cookieAuth_sound (userManager : PionUserManager) (login logout redirect : Bytes) (start : ℕ)
    (events : List Event) (now : ℕ) (dice : Dice) (request : HTTPMessage) {cookie : Bytes}
    {user : PionUser} :
    let a := new userManager login logout redirect start
    ((a.after events).handleRequest now dice request).1 = .cached cookie user →
      request.getCookie authCookieName = cookie ∧ a.LoggedIn events cookie user := by
  intro a hout
  cases handleRequest_effect (a.after events) now dice request with
  | login _ _ hanswered _ =>
    obtain ⟨reply, hreply⟩ := hanswered
    exact absurd (hreply.symm.trans hout) (by simp)
  | logout _ _ hanswered _ =>
    obtain ⟨reply, hreply⟩ := hanswered
    exact absurd (hreply.symm.trans hout) (by simp)
  | other hnot _ _ _ =>
    rcases hnot with hnot | ⟨reply, hreply⟩
    · exact absurd (hnot.symm.trans hout) (by simp)
    · exact absurd (hreply.symm.trans hout) (by simp)
  | used key user' time hne hcarried hout' hfound _ _ =>
    obtain ⟨rfl, rfl⟩ : key = cookie ∧ user' = user := by
      have h := hout'.symm.trans hout
      simpa using h
    exact ⟨hcarried, loggedIn_of_find userManager login logout redirect start events hne
      (SweptCache.find_sweep.1 hfound).1⟩

/-- A request with a cookie and some parameters in its query. -/
def cookieRequest (resource cookie : Bytes) (query : StringDictionary) : HTTPMessage where
  kind := .request ⟨requestMethodGet, resource, resource, [], query⟩
  cookieParams := [(authCookieName, cookie)]

/-- Dice that always show the same. -/
def sameDice (c : Byte) : Dice := ⟨List.replicate randomCookieBytes c, List.length_replicate⟩

/-- A request to log in, and a later one that carries the cookie that was issued. -/
theorem cookieAuth_sound_alice :
    let a := new ⟨id, {}, 0⟩ (ascii "/login") (ascii "/logout") [] 0
    let request := cookieRequest (ascii "/a/") (base64Encode (sameDice 7).1) []
    request.getCookie authCookieName = base64Encode (sameDice 7).1 ∧
      a.LoggedIn [.change (.addUser (ascii "alice") (ascii "p w")), .restrict (ascii "/a"),
        .request 5 (sameDice 7) (cookieRequest (ascii "/login/") []
          [(ascii "user", ascii "alice"), (ascii "pass", ascii "p+w")])]
        (base64Encode (sameDice 7).1) ⟨0, ascii "alice"⟩ :=
  cookieAuth_sound ⟨id, {}, 0⟩ (ascii "/login") (ascii "/logout") [] 0 _ 10 (sameDice 0)
    (cookieRequest (ascii "/a/") (base64Encode (sameDice 7).1) []) (by decide +kernel)

end HTTPCookieAuth

end PionCore.Net
