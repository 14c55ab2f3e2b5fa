/-
# Basic authentication

`HTTPBasicAuth`: credentials that match a user are kept in a cache, and are let through as
long as they are in it.  A request refreshes its entry, so that the credentials of a user
who was removed are let through as long as they are used often enough
(`basicAuth_authorises`).
-/
import PionCore.Common.PionAlgorithms
import PionCore.Net.HTTPAuth

namespace PionCore.Net

open PionCore.Lib PionCore.Common

def headerAuthorization : Bytes := ascii "Authorization"

structure HTTPBasicAuth extends HTTPAuth where
  realm : Bytes := ascii "PION:NET"
  /-- `m_user_cache` and `m_cache_cleanup_time` -/
  cache : SweptCache Bytes PionUser

namespace HTTPBasicAuth

/-- `CACHE_EXPIRATION`, in seconds. -/
def cacheExpiration : ℕ := 300

/-- The constructor, at a time. -/
def new (userManager : PionUserManager) (now : ℕ) : HTTPBasicAuth where
  userManager := userManager
  cache := .new now

def parseAuthorization (authorization : Bytes) : Option Bytes :=
  if ! (ascii "Basic ").isPrefixOf authorization then none
  else
    let credentials := authorization.drop 6
    if credentials = [] then none else some credentials

def parseCredentials (credentials : Bytes) : Option (Bytes × Bytes) :=
  match base64Decode credentials with
  | none => none
  | some userPassword =>
      match userPassword.findIdx? fun c => decide (c = 58) with
      | none => none
      | some i => if i = 0 then none else some (userPassword.take i, userPassword.drop (i + 1))

/-- The user that the credentials match. -/
def matchUser (m : PionUserManager) (credentials : Bytes) : Option PionUser :=
  match parseCredentials credentials with
  | none => none
  | some (username, password) => m.getUser username password

def handleUnauthorized (a : HTTPBasicAuth) (request : HTTPMessage) : Reply where
  response := (request.respond responseCodeUnauthorized responseMessageUnauthorized).addHeader
    (ascii "WWW-Authenticate") (ascii "Basic realm=\"" ++ a.realm ++ ascii "\"")
  content := unauthorizedContent

/-- `handleRequest` at a time. -/
def handleRequest (a : HTTPBasicAuth) (now : ℕ) (request : HTTPMessage) :
    AuthOutcome × HTTPBasicAuth :=
  if ! a.needAuthentication request.getResource then (.notRequired, a)
  else
    let a := { a with cache := a.cache.sweep cacheExpiration now }
    match parseAuthorization (request.getHeader headerAuthorization) with
    | none => (.answered (a.handleUnauthorized request), a)
    | some credentials =>
        match a.cache.find credentials with
        | some e => (.cached credentials e.2, { a with cache := a.cache.touch now credentials })
        | none =>
            match matchUser a.userManager credentials with
            | some user =>
                (.verified credentials user, { a with cache := a.cache.add now credentials user })
            | none => (.answered (a.handleUnauthorized request), a)

/-! ### Runs -/

/-- What can happen to an authentication object and its users. -/
inductive Event where
  | change (c : UserChange)
  | restrict (resource : Bytes)
  | permit (resource : Bytes)
  | request (now : ℕ) (request : HTTPMessage)

def step (a : HTTPBasicAuth) : Event → HTTPBasicAuth
  | .change c => { a with userManager := a.userManager.change c }
  | .restrict resource => { a with toHTTPAuth := a.addRestrict resource }
  | .permit resource => { a with toHTTPAuth := a.addPermit resource }
  | .request now request => (a.handleRequest now request).2

/-- The object behind a run. -/
def after (a : HTTPBasicAuth) (events : List Event) : HTTPBasicAuth := events.foldl step a

/-- The uses that an event makes of the cache. -/
def stepVisits (a : HTTPBasicAuth) : Event → List (Visit Bytes)
  | .request now request => (a.handleRequest now request).1.visits now
  | .change _ | .restrict _ | .permit _ => []

/-- The uses of the cache in a run, the last one first. -/
def visits (a : HTTPBasicAuth) : List Event → List (Visit Bytes)
  | [] => []
  | e :: events => (a.step e).visits events ++ a.stepVisits e

@[simp] lemma after_nil (a : HTTPBasicAuth) : a.after [] = a := rfl

@[simp] lemma after_snoc (a : HTTPBasicAuth) (events : List Event) (e : Event) :
    a.after (events ++ [e]) = (a.after events).step e := by
  simp [after]

lemma visits_snoc (a : HTTPBasicAuth) (events : List Event) (e : Event) :
    a.visits (events ++ [e]) = (a.after events).stepVisits e ++ a.visits events := by
  induction events generalizing a with
  | nil => simp [visits]
  | cons f events ih =>
    rw [List.cons_append, visits, ih, visits, List.append_assoc]
    rfl

/-! ### What a request does to the cache -/

/-- The cache behind a request, for each of its outcomes. -/
lemma handleRequest_cases (a : HTTPBasicAuth) (now : ℕ) (request : HTTPMessage) :
    let swept := a.cache.sweep cacheExpiration now
    let x := a.handleRequest now request
    x.2.userManager = a.userManager ∧
    match x.1 with
    | .notRequired => a.needAuthentication request.getResource = false ∧ x.2.cache = a.cache
    | .cached credentials user =>
        parseAuthorization (request.getHeader headerAuthorization) = some credentials ∧
        (∃ used, swept.find credentials = some (used, user)) ∧
          x.2.cache = swept.touch now credentials
    | .verified credentials user =>
        parseAuthorization (request.getHeader headerAuthorization) = some credentials ∧
        swept.find credentials = none ∧ matchUser a.userManager credentials = some user ∧
          x.2.cache = swept.add now credentials user
    | .answered _ => x.2.cache = swept := by
  simp only [handleRequest]
  split_ifs with hneed
  · exact ⟨rfl, by simpa using hneed, rfl⟩
  · cases hparse : parseAuthorization (request.getHeader headerAuthorization) with
    | none => exact ⟨rfl, rfl⟩
    | some credentials =>
      dsimp only
      cases hfind : (a.cache.sweep cacheExpiration now).find credentials with
      | some e => exact ⟨rfl, rfl, ⟨e.1, hfind⟩, rfl⟩
      | none =>
        dsimp only
        cases hmatch : matchUser a.userManager credentials with
        | some user => exact ⟨rfl, rfl, hfind, hmatch, rfl⟩
        | none => exact ⟨rfl, rfl⟩

/-- The entries of the cache bear the time of their last use. -/
lemma tracks_after (userManager : PionUserManager) (start : ℕ) (events : List Event) :
    ((new userManager start).after events).cache.Tracks ((new userManager start).visits events) := by
  induction events using List.reverseRecOn with
  | nil => exact SweptCache.tracks_new start
  | append_singleton events e ih =>
    rw [after_snoc, visits_snoc]
    cases e with
    | change c => exact ih
    | restrict resource => exact ih
    | permit resource => exact ih
    | request now request =>
      have hcases := handleRequest_cases ((new userManager start).after events) now request
      have hswept := SweptCache.tracks_sweep ih cacheExpiration now
      simp only [step, stepVisits]
      cases hout : (((new userManager start).after events).handleRequest now request).1 with
      | notRequired =>
        simp only [hout] at hcases
        rw [hcases.2.2]
        exact ih
      | answered reply =>
        simp only [hout] at hcases
        rw [hcases.2]
        exact hswept
      | cached credentials user =>
        simp only [hout] at hcases
        rw [hcases.2.2.2]
        exact SweptCache.tracks_touch hswept now credentials
      | verified credentials user =>
        simp only [hout] at hcases
        obtain ⟨-, -, hnone, -, hcache⟩ := hcases
        rw [hcache]
        exact SweptCache.tracks_add hswept now hnone user

/-! ### Credentials that are let through -/

variable (userManager : PionUserManager) (start : ℕ)

/-- In a run, the credentials were let through at a time, at the end of a chain of requests that
begins with one for which they matched a user, and in which each request comes within the time
of expiration, or finds that no sweep is due. -/
inductive Backed (credentials : Bytes) : List Event → ℕ → Prop
  | verified (events : List Event) (now : ℕ) (request : HTTPMessage) {user : PionUser}
      (hout : (((new userManager start).after events).handleRequest now request).1 =
        .verified credentials user)
      (hmatch : matchUser ((new userManager start).after events).userManager credentials =
        some user) :
      Backed credentials (events ++ [.request now request]) now
  | cached {events : List Event} {used : ℕ} (h : Backed credentials events used) (now : ℕ)
      (request : HTTPMessage) {user : PionUser}
      (hout : (((new userManager start).after events).handleRequest now request).1 =
        .cached credentials user)
      (hgap : now ≤ used + cacheExpiration ∨
        now ≤ ((new userManager start).after events).cache.cleanupTime + cacheExpiration) :
      Backed credentials (events ++ [.request now request]) now
  | more {events : List Event} {used : ℕ} (h : Backed credentials events used) (e : Event) :
      Backed credentials (events ++ [e]) used

/-- An entry of the cache is backed at the time of its last use. -/
lemma backed_of_find (events : List Event) {credentials : Bytes} {e : ℕ × PionUser}
    (h : ((new userManager start).after events).cache.find credentials = some e) :
    Backed userManager start credentials events e.1 := by
  induction events using List.reverseRecOn generalizing e with
  | nil =>
    rw [after_nil, new, SweptCache.find_new] at h
    cases h
  | append_singleton events ev ih =>
    rw [after_snoc] at h
    cases ev with
    | change c => exact (ih h).more _
    | restrict resource => exact (ih h).more _
    | permit resource => exact (ih h).more _
    | request now request =>
      have hcases := handleRequest_cases ((new userManager start).after events) now request
      simp only [step] at h
      cases hout : (((new userManager start).after events).handleRequest now request).1 with
      | notRequired =>
        simp only [hout] at hcases
        rw [hcases.2.2] at h
        exact (ih h).more _
      | answered reply =>
        simp only [hout] at hcases
        rw [hcases.2] at h
        exact (ih (SweptCache.find_sweep.1 h).1).more _
      | cached key user =>
        simp only [hout] at hcases
        obtain ⟨-, -, ⟨used, hused⟩, hcache⟩ := hcases
        rw [hcache, SweptCache.find_touch] at h
        split_ifs at h with hkey
        · subst hkey
          obtain ⟨e', -, rfl⟩ := Option.map_eq_some_iff.1 h
          obtain ⟨hbefore, hgap⟩ := SweptCache.find_sweep.1 hused
          exact (ih hbefore).cached now request hout hgap.symm
        · exact (ih (SweptCache.find_sweep.1 h).1).more _
      | verified key user =>
        simp only [hout] at hcases
        obtain ⟨-, -, hnone, hmatch, hcache⟩ := hcases
        rw [hcache, SweptCache.find_add] at h
        split_ifs at h with hkey
        · obtain ⟨rfl, -⟩ := hkey
          rw [← Option.some.inj h]
          exact .verified events now request hout hmatch
        · exact (ih (SweptCache.find_sweep.1 h).1).more _

/-- A request that needs authentication is let through if its credentials match a user now, or
if they are backed by a chain of requests that began with a match. -/
theorem basicAuth_authorises (events : List Event) (now : ℕ) (request : HTTPMessage) :
    let a := (new userManager start).after events
    a.needAuthentication request.getResource = true → (a.handleRequest now request).1.Passes →
      ∃ credentials,
        parseAuthorization (request.getHeader headerAuthorization) = some credentials ∧
        ((∃ user, matchUser a.userManager credentials = some user) ∨
          ∃ used, Backed userManager start credentials events used ∧
            (now ≤ used + cacheExpiration ∨ now ≤ a.cache.cleanupTime + cacheExpiration)) := by
  intro a hneed hpass
  have hcases := handleRequest_cases a now request
  cases hout : (a.handleRequest now request).1 with
  | notRequired =>
    simp only [hout] at hcases
    exact absurd (hneed.symm.trans hcases.2.1) (by simp)
  | answered reply => exact absurd hout (hpass reply)
  | verified credentials user =>
    simp only [hout] at hcases
    exact ⟨credentials, hcases.2.1, Or.inl ⟨user, hcases.2.2.2.1⟩⟩
  | cached credentials user =>
    simp only [hout] at hcases
    obtain ⟨-, hparse, ⟨used, hused⟩, -⟩ := hcases
    obtain ⟨hbefore, hgap⟩ := SweptCache.find_sweep.1 hused
    exact ⟨credentials, hparse, Or.inr ⟨used, backed_of_find userManager start events hbefore,
      hgap.symm⟩⟩

/-- Users whose passwords are kept as they are. -/
def plainUsers : PionUserManager := ⟨id, {}, 0⟩

/-- A request with the credentials of a user `alice`. -/
def aliceRequest (resource : Bytes) : HTTPMessage :=
  (HTTPMessage.newRequest resource).addHeader headerAuthorization (ascii "Basic YWxpY2U6cHc=")

/-- The credentials of `alice` are let through from the cache. -/
theorem basicAuth_authorises_alice :
    let events := [Event.change (.addUser (ascii "alice") (ascii "pw")), .restrict (ascii "/a"),
      .request 7 (aliceRequest (ascii "/a"))]
    let a := (new plainUsers 0).after events
    ∃ credentials, parseAuthorization ((aliceRequest (ascii "/a/b")).getHeader headerAuthorization) =
        some credentials ∧
      ((∃ user, matchUser a.userManager credentials = some user) ∨
        ∃ used, Backed plainUsers 0 credentials events used ∧
          (9 ≤ used + cacheExpiration ∨ 9 ≤ a.cache.cleanupTime + cacheExpiration)) :=
  basicAuth_authorises plainUsers 0 _ 9 (aliceRequest (ascii "/a/b")) (by decide +kernel) (by
    intro reply h
    have hcached : (((new plainUsers 0).after
        [Event.change (.addUser (ascii "alice") (ascii "pw")), .restrict (ascii "/a"),
          .request 7 (aliceRequest (ascii "/a"))]).handleRequest 9
            (aliceRequest (ascii "/a/b"))).1 =
        .cached (ascii "YWxpY2U6cHc=") ⟨0, ascii "alice"⟩ := by decide +kernel
    rw [hcached] at h
    cases h)

/-- The time of the next request. -/
def nextTime : List Event → Option ℕ
  | [] => none
  | .request now _ :: _ => some now
  | _ :: events => nextTime events

/-- The credentials matched a user at a moment of the run, up to a number of seconds before its
end: the users of a moment are those until the next request. -/
def MatchedWithin (a : HTTPBasicAuth) (events : List Event) (seconds now : ℕ)
    (credentials : Bytes) : Prop :=
  ∃ i < events.length + 1,
    (matchUser (a.after (events.take i)).userManager credentials).isSome = true ∧
      ∀ t ∈ nextTime (events.drop i), now ≤ t + seconds

instance (a : HTTPBasicAuth) (events : List Event) (seconds now : ℕ) (credentials : Bytes) :
    Decidable (a.MatchedWithin events seconds now credentials) :=
  inferInstanceAs (Decidable (∃ i < events.length + 1, _))

/-- A user is removed behind the first request, and is let through ten minutes later. -/
theorem basicAuth_outlives_user :
    let events := [Event.change (.addUser (ascii "alice") (ascii "pw")),
      .change (.addUser (ascii "bob") (ascii "pw")), .restrict (ascii "/a"),
      .request 0 (aliceRequest (ascii "/a")), .change (.removeUser (ascii "alice")),
      .request 1 (aliceRequest (ascii "/a")), .request 301 (aliceRequest (ascii "/a"))]
    let a := (new plainUsers 0).after events
    a.needAuthentication (aliceRequest (ascii "/a")).getResource = true ∧
      (a.handleRequest 601 (aliceRequest (ascii "/a"))).1 =
        .cached (ascii "YWxpY2U6cHc=") ⟨0, ascii "alice"⟩ ∧
      matchUser a.userManager (ascii "YWxpY2U6cHc=") = none ∧
      ¬ (new plainUsers 0).MatchedWithin events cacheExpiration 601 (ascii "YWxpY2U6cHc=") :=
  ⟨by decide +kernel, by decide +kernel, by decide +kernel, by decide +kernel⟩

end HTTPBasicAuth

end PionCore.Net
