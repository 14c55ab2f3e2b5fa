/-
# Authentication

`PionUserManager` and `HTTPAuth`, the base class of the authentication objects: the users,
and the resources for which authentication is needed.
-/
import PionCore.Lib.SweptCache
import PionCore.Net.HTTPMessage

namespace PionCore.Net

open PionCore.Lib

/-! ### Users -/

/-- A `PionUserPtr`: the object and its name, which never changes. -/
structure PionUser where
  object : ℕ
  username : Bytes
deriving DecidableEq

/-- `PionUserManager`.  What `setPassword` keeps of a password is its `digest`: a hash if the
library is built with SSL, and the password itself if it is not. -/
structure PionUserManager where
  digest : Bytes → Bytes
  users : Std.TreeMap Bytes (PionUser × Bytes)
  /-- the number of user objects created so far -/
  objects : ℕ

namespace PionUserManager

/-- `empty`. -/
def isEmpty (m : PionUserManager) : Bool := m.users.isEmpty

/-- `addUserHash`; a name that is taken is not changed. -/
def addUserHash (m : PionUserManager) (username hash : Bytes) : PionUserManager :=
  if m.users.contains username then m
  else
    { m with
      users := m.users.insert username (⟨m.objects, username⟩, hash), objects := m.objects + 1 }

def addUser (m : PionUserManager) (username password : Bytes) : PionUserManager :=
  m.addUserHash username (m.digest password)

/-- `updateUserHash`: the object stays the same. -/
def updateUserHash (m : PionUserManager) (username hash : Bytes) : PionUserManager :=
  { m with users := m.users.modify username fun u => (u.1, hash) }

def updateUser (m : PionUserManager) (username password : Bytes) : PionUserManager :=
  m.updateUserHash username (m.digest password)

def removeUser (m : PionUserManager) (username : Bytes) : PionUserManager :=
  { m with users := m.users.erase username }

/-- `getUser` by name and password. -/
def getUser (m : PionUserManager) (username password : Bytes) : Option PionUser :=
  match m.users[username]? with
  | none => none
  | some u => if m.digest password = u.2 then some u.1 else none

end PionUserManager

/-- A change of the users. -/
inductive UserChange where
  | addUser (username password : Bytes)
  | addUserHash (username hash : Bytes)
  | updateUser (username password : Bytes)
  | updateUserHash (username hash : Bytes)
  | removeUser (username : Bytes)
deriving DecidableEq

def PionUserManager.change (m : PionUserManager) : UserChange → PionUserManager
  | .addUser username password => m.addUser username password
  | .addUserHash username hash => m.addUserHash username hash
  | .updateUser username password => m.updateUser username password
  | .updateUserHash username hash => m.updateUserHash username hash
  | .removeUser username => m.removeUser username

/-! ### Resources -/

/-- `HTTPServer::stripTrailingSlash`. -/
def stripTrailingSlash (s : Bytes) : Bytes := if s.getLast? = some 47 then s.dropLast else s

/-- An entry is a part of the resource that ends where the resource does, or at a slash. -/
def coversResource (resource entry : Bytes) : Bool :=
  entry.isPrefixOf resource &&
    (resource.length = entry.length || resource[entry.length]? = some 47)

/-- `AuthResourceSet`. -/
abbrev AuthResourceSet : Type := Std.TreeSet Bytes

/-- `HTTPAuth`. -/
structure HTTPAuth where
  userManager : PionUserManager
  restrictList : AuthResourceSet := {}
  whiteList : AuthResourceSet := {}

namespace HTTPAuth

def addRestrict (a : HTTPAuth) (resource : Bytes) : HTTPAuth :=
  { a with restrictList := a.restrictList.insert (stripTrailingSlash resource) }

def addPermit (a : HTTPAuth) (resource : Bytes) : HTTPAuth :=
  { a with whiteList := a.whiteList.insert (stripTrailingSlash resource) }

/-- `findResource`: the entries up to the resource are tried, the last of them first. -/
def findResource (resourceSet : AuthResourceSet) (resource : Bytes) : Bool :=
  (resourceSet.toList.filter fun entry => (compare entry resource).isLE).reverse.any
    (coversResource resource)

/-- The part of `needAuthentication` behind the removal of the trailing slash. -/
def restricted (a : HTTPAuth) (resource : Bytes) : Bool :=
  if a.restrictList.isEmpty then false
  else if findResource a.restrictList resource then
    if a.whiteList.isEmpty then true else ! findResource a.whiteList resource
  else false

/-- `needAuthentication` of a request for a resource. -/
def needAuthentication (a : HTTPAuth) (resource : Bytes) : Bool :=
  if a.userManager.isEmpty then false else a.restricted (stripTrailingSlash resource)

end HTTPAuth

/-! ### Requests and responses -/

namespace HTTPMessage

/-- `getResource` of a request. -/
def getResource (m : HTTPMessage) : Bytes :=
  match m.kind with
  | .request r => r.resource
  | .response _ => []

/-- `getMethod` of a request. -/
def getMethod (m : HTTPMessage) : Bytes :=
  match m.kind with
  | .request r => r.method
  | .response _ => []

/-- `getQuery` of a request. -/
def getQuery (m : HTTPMessage) (k : Bytes) : Bytes := m.getQueryParams.getValue k

def getCookie (m : HTTPMessage) (k : Bytes) : Bytes := m.cookieParams.getValue k

/-- `HTTPResponse(http_request)`, with another status. -/
def respond (request : HTTPMessage) (statusCode : ℕ) (statusMessage : Bytes) : HTTPMessage :=
  (((newResponse []).updateRequestInfo request.getMethod request.versionMajor
    request.versionMinor).setStatusCode statusCode).setStatusMessage statusMessage

end HTTPMessage

/-- A response, and the payload that is written with it. -/
structure Reply where
  response : HTTPMessage
  content : Bytes
deriving DecidableEq

def responseCodeUnauthorized : ℕ := 401
def responseMessageUnauthorized : Bytes := ascii "Unauthorized"

/-- The page that is sent by `handleUnauthorized`. -/
def unauthorizedContent : Bytes :=
  ascii (" <!DOCTYPE HTML PUBLIC \"-//W3C//DTD HTML 4.01 Transitional//EN\"" ++
    "\"http://www.w3.org/TR/1999/REC-html401-19991224/loose.dtd\">" ++
    "<HTML><HEAD><TITLE>Error</TITLE>" ++
    "<META HTTP-EQUIV=\"Content-Type\" CONTENT=\"text/html; charset=ISO-8859-1\">" ++
    "</HEAD><BODY><H1>401 Unauthorized.</H1></BODY></HTML> ")

/-- How `handleRequest` ends: it returns true in the first three cases, and has sent a
response and returns false in the last one. -/
inductive AuthOutcome where
  /-- the request does not require authentication -/
  | notRequired
  /-- the key was found in the cache -/
  | cached (key : Bytes) (user : PionUser)
  /-- the credentials match a user of the manager -/
  | verified (key : Bytes) (user : PionUser)
  | answered (reply : Reply)
deriving DecidableEq

namespace AuthOutcome

/-- The use that was made of the cache. -/
def visits (now : ℕ) : AuthOutcome → List (Visit Bytes)
  | .cached key _ | .verified key _ => [⟨key, now⟩]
  | .notRequired | .answered _ => []

/-- `handleRequest` returns true. -/
def Passes (o : AuthOutcome) : Prop := ∀ reply, o ≠ .answered reply

end AuthOutcome

end PionCore.Net
