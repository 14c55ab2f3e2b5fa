/-
# Idle sessions

An entry of the cache of `HTTPBasicAuth` or `HTTPCookieAuth` is only tested by a sweep, and
a sweep is only made when the last one is longer ago than the time of expiration.  A request
is let through with an entry that was not used for this time if and only if it finds such an
entry where no sweep is due (`idle_sessions`).
-/
import PionCore.Net.HTTPBasicAuth
import PionCore.Net.HTTPCookieAuth

namespace PionCore.Net

open PionCore.Lib PionCore.Common

namespace HTTPBasicAuth

/-- A request finds an expired entry for its credentials, and no sweep is due. -/
def FindsStale (a : HTTPBasicAuth) (now : ℕ) (request : HTTPMessage) : Prop :=
  a.needAuthentication request.getResource = true ∧
    ∃ credentials used user,
      parseAuthorization (request.getHeader headerAuthorization) = some credentials ∧
      a.cache.find credentials = some (used, user) ∧
        now ≤ a.cache.cleanupTime + cacheExpiration ∧ now > used + cacheExpiration

/-- A request that is let through from the cache has an entry there. -/
lemma handleRequest_cached {a : HTTPBasicAuth} {now : ℕ} {request : HTTPMessage}
    {credentials : Bytes} {user : PionUser} :
    (a.handleRequest now request).1 = .cached credentials user ↔
      a.needAuthentication request.getResource = true ∧
      parseAuthorization (request.getHeader headerAuthorization) = some credentials ∧
        ∃ used, (a.cache.sweep cacheExpiration now).find credentials = some (used, user) := by
  simp only [handleRequest]
  split_ifs with hneed
  · simp only [Bool.not_eq_true', false_iff, not_and] at hneed ⊢
    intro h
    exact absurd (hneed.symm.trans h) (by simp)
  · have hneed' : a.needAuthentication request.getResource = true := by simpa using hneed
    cases hparse : parseAuthorization (request.getHeader headerAuthorization) with
    | none => simp
    | some key =>
      dsimp only
      cases hfind : (a.cache.sweep cacheExpiration now).find key with
      | some e =>
        simp only [AuthOutcome.cached.injEq, hneed', true_and, Option.some.injEq]
        constructor
        · rintro ⟨rfl, rfl⟩
          exact ⟨rfl, e.1, hfind⟩
        · rintro ⟨rfl, used, hused⟩
          rw [hfind] at hused
          exact ⟨rfl, congrArg Prod.snd (Option.some.inj hused)⟩
      | none =>
        dsimp only
        have hcached : ∀ o : AuthOutcome, (∀ k u, o ≠ .cached k u) →
            (o = .cached credentials user ↔ a.needAuthentication request.getResource = true ∧
              some key = some credentials ∧ ∃ used,
                (a.cache.sweep cacheExpiration now).find credentials = some (used, user)) := by
          intro o ho
          refine ⟨fun h => absurd h (ho _ _), ?_⟩
          rintro ⟨-, hkey, used, hused⟩
          rw [← Option.some.inj hkey, hfind] at hused
          cases hused
        cases matchUser a.userManager key with
        | some u => exact hcached _ (by simp)
        | none => exact hcached _ (by simp)

variable (userManager : PionUserManager) (start : ℕ)

/-- A request is let through with an entry that was not used for the time of expiration. -/
def AcceptsIdle (events : List Event) (now : ℕ) (request : HTTPMessage) : Prop :=
  ∃ credentials user,
    (((new userManager start).after events).handleRequest now request).1 =
      .cached credentials user ∧
    ∃ used, lastVisit credentials ((new userManager start).visits events) = some used ∧
      now > used + cacheExpiration

lemma acceptsIdle_iff (events : List Event) (now : ℕ) (request : HTTPMessage) :
    AcceptsIdle userManager start events now request ↔
      ((new userManager start).after events).FindsStale now request := by
  have htracks := tracks_after userManager start events
  constructor
  · rintro ⟨credentials, user, hout, used, hvisit, hold⟩
    obtain ⟨hneed, hparse, time, hfound⟩ := handleRequest_cached.1 hout
    obtain ⟨hbefore, -⟩ := SweptCache.find_sweep.1 hfound
    obtain rfl : time = used := Option.some.inj ((htracks _ _ hbefore).symm.trans hvisit)
    exact ⟨hneed, credentials, time, user, hparse, hbefore,
      (SweptCache.expired_of_find_sweep hfound).1 hold⟩
  · rintro ⟨hneed, credentials, used, user, hparse, hbefore, hdue, hold⟩
    have hfound := SweptCache.find_sweep.2 ⟨hbefore, Or.inl hdue⟩
    exact ⟨credentials, user, handleRequest_cached.2 ⟨hneed, hparse, used, hfound⟩, used,
      htracks _ _ hbefore, hold⟩

end HTTPBasicAuth

namespace HTTPCookieAuth

/-- A request finds an expired entry for its cookie, and no sweep is due. -/
def FindsStale (a : HTTPCookieAuth) (now : ℕ) (dice : Dice) (request : HTTPMessage) : Prop :=
  a.processLogin now dice request = none ∧ a.needAuthentication request.getResource = true ∧
    ¬ (a.redirect ≠ [] ∧ a.redirect = request.getResource) ∧
    request.getCookie authCookieName ≠ [] ∧
    ∃ used user, a.cache.find (request.getCookie authCookieName) = some (used, user) ∧
      now ≤ a.cache.cleanupTime + cacheExpiration ∧ now > used + cacheExpiration

/-- A request that is let through with a user has an entry in the cache. -/
lemma handleRequest_cached {a : HTTPCookieAuth} {now : ℕ} {dice : Dice} {request : HTTPMessage}
    {cookie : Bytes} {user : PionUser} :
    (a.handleRequest now dice request).1 = .cached cookie user ↔
      a.processLogin now dice request = none ∧ a.needAuthentication request.getResource = true ∧
      ¬ (a.redirect ≠ [] ∧ a.redirect = request.getResource) ∧
      cookie ≠ [] ∧ request.getCookie authCookieName = cookie ∧
        ∃ used, (a.cache.sweep cacheExpiration now).find cookie = some (used, user) := by
  cases hlogin : a.processLogin now dice request with
  | some x => simp [handleRequest, hlogin]
  | none =>
    simp only [handleRequest, hlogin, true_and]
    split_ifs with hneed hredirect hcookie
    · simp only [Bool.not_eq_true', false_iff, not_and] at hneed ⊢
      intro h
      exact absurd (hneed.symm.trans h) (by simp)
    · simp only [false_iff]
      rintro ⟨-, h, -⟩
      exact h hredirect
    · have hneed' : a.needAuthentication request.getResource = true := by simpa using hneed
      cases hfind : (a.cache.sweep cacheExpiration now).find
          (request.getCookie authCookieName) with
      | some e =>
        simp only [AuthOutcome.cached.injEq]
        constructor
        · rintro ⟨rfl, rfl⟩
          exact ⟨hneed', hredirect, hcookie, rfl, e.1, hfind⟩
        · rintro ⟨-, -, -, rfl, used, hused⟩
          rw [hfind] at hused
          exact ⟨rfl, congrArg Prod.snd (Option.some.inj hused)⟩
      | none =>
        simp only [reduceCtorEq, false_iff]
        rintro ⟨-, -, -, rfl, used, hused⟩
        rw [hfind] at hused
        cases hused
    · simp only [false_iff]
      rintro ⟨-, -, hne, rfl, -⟩
      exact hcookie hne

/-- The uses that an event makes of the cache; a login uses the entry that it adds. -/
def stepVisits (a : HTTPCookieAuth) : Event → List (Visit Bytes)
  | .request now dice request =>
      if stripTrailingSlash request.getResource = a.login ∧ (a.loginUser request).isSome = true ∧
          a.cache.find (base64Encode dice.1) = none then
        [⟨base64Encode dice.1, now⟩]
      else (a.handleRequest now dice request).1.visits now
  | .change _ | .restrict _ | .permit _ | .setOption _ _ => []

/-- The uses of the cache in a run, the last one first. -/
def visits (a : HTTPCookieAuth) : List Event → List (Visit Bytes)
  | [] => []
  | e :: events => (a.step e).visits events ++ a.stepVisits e

lemma visits_snoc (a : HTTPCookieAuth) (events : List Event) (e : Event) :
    a.visits (events ++ [e]) = (a.after events).stepVisits e ++ a.visits events := by
  induction events generalizing a with
  | nil => simp [visits]
  | cons f events ih =>
    rw [List.cons_append, visits, ih, visits, List.append_assoc]
    rfl

variable (userManager : PionUserManager) (login logout redirect : Bytes) (start : ℕ)

/-- The entries of the cache bear the time of their last use. -/
lemma tracks_after (events : List Event) :
    ((new userManager login logout redirect start).after events).cache.Tracks
      ((new userManager login logout redirect start).visits events) := by
  set a := new userManager login logout redirect start
  induction events using List.reverseRecOn with
  | nil => exact SweptCache.tracks_new start
  | append_singleton events e ih =>
    rw [after_snoc, visits_snoc]
    cases e with
    | change c => exact ih
    | restrict resource => exact ih
    | permit resource => exact ih
    | setOption name value =>
      have hcache : ((a.after events).setOption name value).cache = (a.after events).cache := by
        rw [setOption]
        split_ifs <;> rfl
      simp only [step, stepVisits, List.nil_append, hcache]
      exact ih
    | request now dice request =>
      have hswept := SweptCache.tracks_sweep ih cacheExpiration now
      simp only [step, stepVisits]
      cases handleRequest_effect (a.after events) now dice request with
      | login user hissues hanswered hcache =>
        obtain ⟨reply, hreply⟩ := hanswered
        rw [hcache]
        split_ifs with hfresh
        · exact SweptCache.tracks_add ih now hfresh.2.2 user
        · rw [hreply]
          refine SweptCache.tracks_add_present ih now (fun hnone => hfresh ?_) user
          exact ⟨hissues.1, by rw [hissues.2.1]; rfl, hnone⟩
      | logout cookie hlogout hanswered hcache =>
        obtain ⟨reply, hreply⟩ := hanswered
        rw [hcache, if_neg fun h => hlogout.1 h.1, hreply]
        exact SweptCache.tracks_drop ih cookie
      | used cookie user time _ _ hout _ hcache hnone =>
        -- a login would have been answered before the cookie is looked at
        have hnot : stripTrailingSlash request.getResource ≠ (a.after events).login := by
          intro hlogin
          rw [processLogin_login _ _ _ _ hlogin] at hnone
          split at hnone <;> cases hnone
        rw [hcache, if_neg fun h => hnot h.1, hout]
        exact SweptCache.tracks_touch hswept now cookie
      | other hout hissues _ hcache =>
        have hnot : ¬ (stripTrailingSlash request.getResource = (a.after events).login ∧
            ((a.after events).loginUser request).isSome = true ∧
            (a.after events).cache.find (base64Encode dice.1) = none) := by
          rintro ⟨hlogin, huser, -⟩
          obtain ⟨user, huser⟩ := Option.isSome_iff_exists.1 huser
          exact hissues user ⟨hlogin, huser, rfl⟩
        -- nobody is let through, so that no entry is touched
        have hvisits : ((a.after events).handleRequest now dice request).1.visits now = [] := by
          rcases hout with hout | ⟨reply, hout⟩ <;> rw [hout] <;> rfl
        rw [if_neg hnot, hvisits, List.nil_append]
        rcases hcache with hcache | hcache
        · rw [hcache]
          exact ih
        · rw [hcache]
          exact hswept

/-- A request is let through with an entry that was not used for the time of expiration. -/
def AcceptsIdle (events : List Event) (now : ℕ) (dice : Dice) (request : HTTPMessage) : Prop :=
  ∃ cookie user,
    (((new userManager login logout redirect start).after events).handleRequest now dice request).1 =
      .cached cookie user ∧
    ∃ used, lastVisit cookie ((new userManager login logout redirect start).visits events) =
      some used ∧ now > used + cacheExpiration

lemma acceptsIdle_iff (events : List Event) (now : ℕ) (dice : Dice) (request : HTTPMessage) :
    AcceptsIdle userManager login logout redirect start events now dice request ↔
      ((new userManager login logout redirect start).after events).FindsStale now dice request := by
  have htracks := tracks_after userManager login logout redirect start events
  constructor
  · rintro ⟨cookie, user, hout, used, hvisit, hold⟩
    obtain ⟨hlogin, hneed, hredirect, hne, rfl, time, hfound⟩ := handleRequest_cached.1 hout
    obtain ⟨hbefore, -⟩ := SweptCache.find_sweep.1 hfound
    obtain rfl : time = used := Option.some.inj ((htracks _ _ hbefore).symm.trans hvisit)
    exact ⟨hlogin, hneed, hredirect, hne, time, user, hbefore,
      (SweptCache.expired_of_find_sweep hfound).1 hold⟩
  · rintro ⟨hlogin, hneed, hredirect, hne, used, user, hbefore, hdue, hold⟩
    have hfound := SweptCache.find_sweep.2 ⟨hbefore, Or.inl hdue⟩
    exact ⟨_, user, handleRequest_cached.2 ⟨hlogin, hneed, hredirect, hne, rfl, used, hfound⟩, used,
      htracks _ _ hbefore, hold⟩

end HTTPCookieAuth

/-- In a run of either class, no request is let through with an idle entry if and only if none
finds an expired entry where no sweep is due. -/
theorem idle_sessions (userManager : PionUserManager) (start : ℕ) (login logout redirect : Bytes)
    (basicEvents : List HTTPBasicAuth.Event) (cookieEvents : List HTTPCookieAuth.Event) :
    ((∀ before now request rest, basicEvents = before ++ .request now request :: rest →
        ¬ HTTPBasicAuth.AcceptsIdle userManager start before now request) ↔
      ∀ before now request rest, basicEvents = before ++ .request now request :: rest →
        ¬ ((HTTPBasicAuth.new userManager start).after before).FindsStale now request) ∧
    ((∀ before now dice request rest,
        cookieEvents = before ++ .request now dice request :: rest →
        ¬ HTTPCookieAuth.AcceptsIdle userManager login logout redirect start before now dice
          request) ↔
      ∀ before now dice request rest, cookieEvents = before ++ .request now dice request :: rest →
        ¬ ((HTTPCookieAuth.new userManager login logout redirect start).after before).FindsStale
          now dice request) := by
  constructor
  · exact forall₅_congr fun before now request _ _ =>
      not_congr (HTTPBasicAuth.acceptsIdle_iff userManager start before now request)
  · refine forall_congr' fun before => forall₅_congr fun now dice request _ _ => ?_
    exact not_congr (HTTPCookieAuth.acceptsIdle_iff userManager login logout redirect start before
      now dice request)

/-- Credentials and a cookie that were not used for nearly twice the time of expiration are let
through, as another request has made a sweep in between. -/
theorem idle_sessions_fail :
    let users := HTTPBasicAuth.plainUsers.addUser (ascii "alice") (ascii "pw")
    HTTPBasicAuth.AcceptsIdle users 0
      [.restrict (ascii "/a"), .request 10 (HTTPBasicAuth.aliceRequest (ascii "/a")),
        .request 301 (.newRequest (ascii "/a"))] 601 (HTTPBasicAuth.aliceRequest (ascii "/a")) ∧
    HTTPCookieAuth.AcceptsIdle users (ascii "/login") (ascii "/logout") [] 0
      [.restrict (ascii "/a"),
        .request 10 (HTTPCookieAuth.sameDice 7) (HTTPCookieAuth.cookieRequest (ascii "/login") []
          [(ascii "user", ascii "alice"), (ascii "pass", ascii "pw")]),
        .request 3601 (HTTPCookieAuth.sameDice 8) (.newRequest (ascii "/a"))]
      7201 (HTTPCookieAuth.sameDice 9)
      (HTTPCookieAuth.cookieRequest (ascii "/a") (base64Encode (HTTPCookieAuth.sameDice 7).1) []) :=
  ⟨⟨ascii "YWxpY2U6cHc=", ⟨0, ascii "alice"⟩, by decide +kernel, 10, by decide +kernel,
      by decide⟩,
    ⟨base64Encode (HTTPCookieAuth.sameDice 7).1, ⟨0, ascii "alice"⟩, by decide +kernel, 10,
      by decide +kernel, by decide⟩⟩

end PionCore.Net
