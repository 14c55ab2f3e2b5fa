/-
# Dispatch and authentication

`HTTPServer::handleRequest` strips a slash from the requested resource, follows the redirects, and
calls the handler of the path that it comes to.  `HTTPAuth::needAuthentication` strips a slash from
the resource of the request.  Behind a redirect this is a second one, so that the two can disagree
about a path that ends in a slash (`dispatch_classified`).
-/
import PionCore.Net.HTTPBasicAuth
import PionCore.Net.HTTPServer

namespace PionCore.Net

open PionCore.Lib

namespace HTTPAuth

/-- The request is classified as the path is: as the authentication object does it for a request of
this path, and as its lists have it. -/
def Classifies (a : HTTPAuth) (request : HTTPMessage) (resource : Bytes) : Prop :=
  a.needAuthentication request.getResource = a.needAuthentication resource ∧
    a.needAuthentication request.getResource = (! a.userManager.isEmpty && a.restricted resource)

/-- A further slash at the end of the path does not count. -/
def IgnoresSlash (a : HTTPAuth) (resource : Bytes) : Prop :=
  a.userManager.isEmpty = true ∨
    a.restricted resource = a.restricted (stripTrailingSlash resource)

lemma needAuthentication_eq (a : HTTPAuth) (resource : Bytes) :
    a.needAuthentication resource =
      (! a.userManager.isEmpty && a.restricted (stripTrailingSlash resource)) := by
  rw [needAuthentication]
  cases a.userManager.isEmpty <;> rfl

end HTTPAuth

namespace HTTPServer

variable {ι : Type*} {server : HTTPServer ι}

lemma getResource_changeResource {m : HTTPMessage} (hm : m.isRequest = true) (w : Bytes) :
    (m.changeResource w).getResource = w ∧ (m.changeResource w).isRequest = true := by
  obtain ⟨kind, _⟩ := m
  cases kind with
  | request r => exact ⟨rfl, rfl⟩
  | response r => cases hm

/-- Either there was no redirect, or the request has the path that the last one leads to. -/
lemma applyRedirects_cases {n : ℕ} {w w' : Bytes} {m m' : HTTPMessage} (hm : m.isRequest = true)
    (h : server.applyRedirects n w m = some (w', m')) : w' = w ∧ m' = m ∨ m'.getResource = w' := by
  have hfollow : ∀ n w m, m.isRequest = true → m.getResource = w →
      server.applyRedirects n w m = some (w', m') → m'.getResource = w' := by
    intro n
    induction n with
    | zero =>
      intro w m hm hw h
      rw [applyRedirects] at h
      cases hr : server.redirects[w]? with
      | none =>
        simp only [hr, Option.some.injEq, Prod.mk.injEq] at h
        rw [← h.1, ← h.2, hw]
      | some resource => simp [hr] at h
    | succ n ih =>
      intro w m hm hw h
      rw [applyRedirects] at h
      cases hr : server.redirects[w]? with
      | none =>
        simp only [hr, Option.some.injEq, Prod.mk.injEq] at h
        rw [← h.1, ← h.2, hw]
      | some resource =>
        simp only [hr] at h
        obtain ⟨hresource, hrequest⟩ := getResource_changeResource hm resource
        exact ih resource _ hrequest hresource h
  rw [applyRedirects] at h
  cases hr : server.redirects[w]? with
  | none =>
    simp only [hr, Option.some.injEq, Prod.mk.injEq] at h
    exact Or.inl ⟨h.1.symm, h.2.symm⟩
  | some resource =>
    cases n with
    | zero => simp [hr] at h
    | succ n =>
      simp only [hr] at h
      obtain ⟨hresource, hrequest⟩ := getResource_changeResource hm resource
      exact Or.inr (hfollow n resource _ hrequest hresource h)

/-- A handler is called behind the redirects, when the request is not refused. -/
lemma handleRequest_handler {isOpen : Bool} {request request' : HTTPMessage} {ec : ErrorCode}
    {handler : ι} {resource : Bytes}
    (h : server.handleRequest isOpen request ec = .handler handler resource request') :
    server.applyRedirects maxRedirects (stripTrailingSlash request.getResource) request =
        some (resource, request') ∧ server.refuses request' = false := by
  rw [handleRequest] at h
  split_ifs at h
  split at h
  · cases h
  · rename_i path passed hpath
    split_ifs at h with hrefuses
    split at h
    · obtain ⟨rfl, rfl, rfl⟩ := (Answer.handler.injEq ..).mp h
      exact ⟨hpath, by simpa using hrefuses⟩
    · cases h

/-- The handler of a path is called when the authentication object has passed the request.  It has
classified the request as the path is, if and only if it ignores a slash at the end of the path. -/
theorem dispatch_classified (a : HTTPAuth) (isOpen : Bool) (request request' : HTTPMessage)
    (ec : ErrorCode) (handler : ι) (resource : Bytes) (hrequest : request.isRequest = true)
    (h : server.handleRequest isOpen request ec = .handler handler resource request') :
    (∀ handleRequest, server.auth = some handleRequest → handleRequest request' = true) ∧
      (a.Classifies request' resource ↔ a.IgnoresSlash resource) := by
  obtain ⟨hredirects, hrefuses⟩ := handleRequest_handler h
  constructor
  · intro handleRequest hauth
    simpa [refuses, hauth] using hrefuses
  · rw [HTTPAuth.Classifies, HTTPAuth.IgnoresSlash]
    simp only [HTTPAuth.needAuthentication_eq]
    rcases applyRedirects_cases hrequest hredirects with ⟨hresource, rfl⟩ | hresource
    · rw [← hresource]
      cases a.userManager.isEmpty <;> simp
    · rw [hresource]
      cases a.userManager.isEmpty <;> simp [eq_comm]

/-- An authentication object with a user, which restricts a resource. -/
def restricting (resource : Bytes) : HTTPBasicAuth :=
  (HTTPBasicAuth.new HTTPBasicAuth.plainUsers 0).after
    [.change (.addUser (ascii "alice") (ascii "pw")), .restrict resource]

/-- A server with this resource, to which the resource "/x" is redirected. -/
def redirecting (resource : Bytes) : HTTPServer Unit :=
  { (({} : HTTPServer Unit).addResource resource ()).addRedirect (ascii "/x") resource with
    auth := some fun m =>
      match ((restricting resource).handleRequest 0 m).1 with
      | .answered _ => false
      | .notRequired | .cached _ _ | .verified _ _ => true }

/-- What the handler of a resource is called with. -/
def dispatched : Answer ι → Option (Bytes × HTTPMessage)
  | .handler _ resource request => some (resource, request)
  | .badRequest | .lost | .serverError _ | .unauthorized | .notFound _ => none

/-- A redirected request with the credentials of the user. -/
theorem dispatch_classified_alice :
    let request := { HTTPBasicAuth.aliceRequest (ascii "/x") with isValid := true }
    let a := (restricting (ascii "/a")).toHTTPAuth
    ∃ resource request',
      (redirecting (ascii "/a")).handleRequest true request .success =
        .handler () resource request' ∧
      ((∀ handleRequest, (redirecting (ascii "/a")).auth = some handleRequest →
          handleRequest request' = true) ∧
        (a.Classifies request' resource ↔ a.IgnoresSlash resource)) := by
  intro request a
  have hsome :
      (dispatched ((redirecting (ascii "/a")).handleRequest true request .success)).isSome = true := by
    decide +kernel
  cases h : (redirecting (ascii "/a")).handleRequest true request .success with
  | handler handler resource request' =>
    exact ⟨resource, request', rfl, dispatch_classified a true request request' .success handler
      resource rfl h⟩
  | badRequest | lost | serverError | unauthorized | notFound =>
    rw [h] at hsome
    cases hsome

/-- A resource that ends in a slash is restricted.  It is refused to a request without credentials,
which reaches its handler by the redirect. -/
theorem dispatch_classified_fails :
    let server := redirecting (ascii "/a//")
    let a := (restricting (ascii "/a//")).toHTTPAuth
    let request := fun resource : Bytes => { HTTPMessage.newRequest resource with isValid := true }
    server.refuses (request (ascii "/a//")) = true ∧
      (dispatched (server.handleRequest true (request (ascii "/x")) .success)).map
        (fun x => (x.1, a.needAuthentication x.2.getResource, a.restricted x.1)) =
          some (ascii "/a/", false, true) := by
  decide +kernel

end HTTPServer

end PionCore.Net
