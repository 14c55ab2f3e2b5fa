/-
# The file service

`FileService` serves the files of a directory.  The path of a requested file is the directory with
the relative resource behind it, in normal form, and it has to begin with the directory as a
string.  The file system answers for a request as it stands then; of a response there is its kind.
-/
import PionCore.Common.PionAlgorithms
import PionCore.Lib.Paths
import PionCore.Lib.Runs
import PionCore.Net.HTTPAuth

namespace PionCore.Net

open PionCore.Lib PionCore.Common

def requestMethodPut : Bytes := ascii "PUT"
def requestMethodDelete : Bytes := ascii "DELETE"
def headerIfModifiedSince : Bytes := ascii "If-Modified-Since"

/-- What a file system knows about its files. -/
structure FileSystem where
  fileExists : Bytes → Bool
  isDirectory : Bytes → Bool
  /-- `file_size` and `last_write_time`, or an exception -/
  status : Bytes → Option (ℕ × ℕ)
  /-- the file can be read to its end -/
  readable : Bytes → Bool
  /-- `HTTPTypes::get_date_string` -/
  dateString : ℕ → Bytes

/-- What is done with a file. -/
inductive FileAccess where
  | read (path : Bytes)
  | write (path : Bytes)
  | append (path : Bytes)
  | remove (path : Bytes)
deriving DecidableEq

/-- The file that is opened or removed. -/
def FileAccess.path : FileAccess → Bytes
  | .read path | .write path | .append path | .remove path => path

/-- `DiskFile`, with the information whether it has the content of the file. -/
structure DiskFile where
  filePath : Bytes
  fileSize : ℕ := 0
  lastModified : ℕ := 0
  hasContent : Bool := false
deriving DecidableEq

/-- The responses of the service. -/
inductive FileResponse where
  | notFound
  | outsideDirectory
  | isDirectory
  | notModified
  | headOk (file : DiskFile)
  | ok (file : DiskFile)
  | methodNotAllowed
  | notImplemented
  | noContent
  | created
  | serverError
  /-- the service is left by an exception -/
  | thrown
deriving DecidableEq

/-- `FileService`, with its cache. -/
structure FileService where
  resource : Bytes
  directory : Bytes
  file : Bytes := []
  cacheSetting : ℕ := 1
  scanSetting : ℕ := 0
  maxCacheSize : ℕ := 0
  writable : Bool := false
  cache : Bytes → Option DiskFile := fun _ => none

/-- What a request has done: the files that were accessed, the cache behind it and the response. -/
structure FileOutcome where
  accesses : List FileAccess
  cache : Bytes → Option DiskFile
  response : FileResponse

/-! ### Paths -/

/-- The operator `/` of paths. -/
def appendPath (p q : Bytes) : Bytes :=
  if p ≠ [] ∧ p.getLast? ≠ some 47 ∧ q.head? ≠ some 47 then p ++ 47 :: q else p ++ q

/-- `normalize`. -/
def normalizePath (p : Bytes) : Bytes := normalize 47 46 p

/-- The components of a path. -/
def pathComponents (p : Bytes) : List Bytes := components 47 p

namespace FileService

/-- `getRelativeResource`. -/
def getRelativeResource (s : FileService) (requested : Bytes) : Bytes :=
  if requested.length ≤ s.resource.length then []
  else urlDecode (requested.drop (s.resource.length + 1))

/-- The path of the file that is requested, in normal form. -/
def filePath (s : FileService) (relative : Bytes) : Option Bytes :=
  if relative = [] then if s.file = [] then none else some (normalizePath s.file)
  else if s.directory = [] then none
  else some (normalizePath (appendPath s.directory relative))

/-- `update`, which may throw an exception. -/
def update (fs : FileSystem) (f : DiskFile) : Option DiskFile :=
  (fs.status f.filePath).map fun x => { f with fileSize := x.1, lastModified := x.2 }

def fits (s : FileService) (f : DiskFile) : Bool :=
  s.maxCacheSize = 0 ∨ f.fileSize ≤ s.maxCacheSize

/-- The response to a request for a file; `DiskFileSender` opens the file if it does not have its
content, and there is any. -/
def answer (cache : Bytes → Option DiskFile) (head : Bool) (since : Bytes) (fs : FileSystem)
    (accesses : List FileAccess) (f : DiskFile) : FileOutcome :=
  if fs.dateString f.lastModified = since then ⟨accesses, cache, .notModified⟩
  else if head then ⟨accesses, cache, .headOk f⟩
  else
    ⟨accesses ++ if f.fileSize ≠ 0 ∧ f.hasContent = false then [.read f.filePath] else [], cache,
      .ok f⟩

/-- A file is read into the cache, which may throw an exception. -/
def readEntry (s : FileService) (fs : FileSystem) (relative : Bytes) (head : Bool)
    (since : Bytes) (f : DiskFile) : FileOutcome :=
  -- the memory for the content is there before the file is opened
  let f := { f with hasContent := true }
  let cache := Function.update s.cache relative (some f)
  if fs.readable f.filePath then answer cache head since fs [.read f.filePath] f
  else ⟨[.read f.filePath], cache, .thrown⟩

/-- A request for a file with an entry in the cache. -/
def useEntry (s : FileService) (fs : FileSystem) (relative : Bytes) (head : Bool) (since : Bytes)
    (entry : DiskFile) : FileOutcome :=
  if s.cacheSetting = 0 then
    match update fs { filePath := entry.filePath } with
    | none => ⟨[], s.cache, .thrown⟩
    | some f => answer s.cache head since fs [] f
  else if entry.lastModified = 0 then
    match update fs entry with
    | none => ⟨[], s.cache, .thrown⟩
    | some f =>
        if s.fits f then s.readEntry fs relative head since f
        else
          let f := { f with hasContent := false }
          answer (Function.update s.cache relative (some f)) head since fs [] f
  else if s.cacheSetting = 1 then
    match update fs entry with
    | none => ⟨[], s.cache, .thrown⟩
    | some f =>
        if f.lastModified = entry.lastModified ∧ f.fileSize = entry.fileSize then
          answer s.cache head since fs [] entry
        else s.readEntry fs relative head since f
  else answer s.cache head since fs [] entry

/-- A request for a file without an entry in the cache. -/
def useFile (s : FileService) (fs : FileSystem) (relative : Bytes) (head : Bool) (since : Bytes)
    (path : Bytes) : FileOutcome :=
  if fs.fileExists path = false then ⟨[], s.cache, .notFound⟩
  else
    match update fs { filePath := path } with
    | none => ⟨[], s.cache, .thrown⟩
    | some f =>
        if fs.dateString f.lastModified = since ∨ head = true ∨ s.cacheSetting = 0 then
          answer s.cache head since fs [] f
        else if s.fits f then
          if fs.readable path then
            let f := { f with hasContent := true }
            answer (Function.update s.cache relative (some f)) head since fs [.read path] f
          else ⟨[.read path], s.cache, .thrown⟩
        else answer (Function.update s.cache relative (some f)) head since fs [] f

/-- The methods `GET` and `HEAD`. -/
def get (s : FileService) (fs : FileSystem) (relative : Bytes) (head : Bool) (since : Bytes)
    (path : Bytes) : FileOutcome :=
  if s.cacheSetting > 0 ∨ s.scanSetting > 0 then
    match s.cache relative with
    | some entry => s.useEntry fs relative head since entry
    | none =>
        if s.scanSetting = 1 ∨ s.scanSetting = 3 then ⟨[], s.cache, .notFound⟩
        else s.useFile fs relative head since path
  else s.useFile fs relative head since path

/-- `branch_path`: the path without its last component. -/
def branchPath (path : Bytes) : Bytes :=
  let branch := (path.reverse.dropWhile (· ≠ 47)).reverse.dropLast
  if branch = [] ∧ path.head? = some 47 then [47] else branch

/-- The methods `POST` and `PUT`; the file system behind the write says whether it has failed. -/
def put (s : FileService) (fs after : FileSystem) (appends : Bool) (path : Bytes) : FileOutcome :=
  if fs.fileExists path = false ∧ fs.fileExists (branchPath path) = false then
    ⟨[], s.cache, .notFound⟩
  else
    let access := if appends then FileAccess.append path else .write path
    ⟨[access], s.cache,
      if after.fileExists path = false then .serverError
      else if fs.fileExists path then .noContent else .created⟩

/-- The method `DELETE`. -/
def delete (s : FileService) (fs : FileSystem) (removable : Bool) (path : Bytes) : FileOutcome :=
  if fs.fileExists path = false then ⟨[], s.cache, .notFound⟩
  else ⟨[.remove path], s.cache, if removable then .noContent else .serverError⟩

/-- `operator()`, with the file system in front of the request and behind it. -/
def handle (s : FileService) (fs after : FileSystem) (request : HTTPMessage) : FileOutcome :=
  let relative := s.getRelativeResource request.getResource
  match s.filePath relative with
  | none => ⟨[], s.cache, .notFound⟩
  | some path =>
      if ! s.directory.isPrefixOf path then ⟨[], s.cache, .outsideDirectory⟩
      else if fs.isDirectory path then ⟨[], s.cache, .isDirectory⟩
      else
        let method := request.getMethod
        if method = requestMethodGet ∨ method = requestMethodHead then
          s.get fs relative (method = requestMethodHead)
            (request.getHeader headerIfModifiedSince) path
        else if method = requestMethodPost ∨ method = requestMethodPut ∨
            method = requestMethodDelete then
          if ! s.writable then ⟨[], s.cache, .methodNotAllowed⟩
          else if method = requestMethodDelete then
            s.delete fs (after.fileExists path = false) path
          else s.put fs after (method = requestMethodPost) path
        else ⟨[], s.cache, .notImplemented⟩

/-- The `insert` of a map, which keeps an entry that is there. -/
def insertEntry (s : FileService) (relative : Bytes) (f : DiskFile) : FileService :=
  if s.cache relative = none then { s with cache := Function.update s.cache relative (some f) }
  else s

/-- `addCacheEntry`; an exception of `update` leaves the scan. -/
def addCacheEntry (s : FileService) (fs : FileSystem) (relative path : Bytes) :
    Option FileService :=
  if s.scanSetting = 1 then some (s.insertEntry relative { filePath := path })
  else
    (update fs { filePath := path }).map fun f =>
      if s.fits f then
        if fs.readable path then s.insertEntry relative { f with hasContent := true } else s
      else s.insertEntry relative f

/-- Entries are added for the files that are found. -/
def scanFiles (s : FileService) (fs : FileSystem) : List (Bytes × Bytes) → FileService
  | [] => s
  | (relative, path) :: items =>
      match s.addCacheEntry fs relative path with
      | none => s
      | some s => scanFiles s fs items

/-- `start`; the items are what `scanDirectory` finds in the directory. -/
def start (s : FileService) (fs : FileSystem) (items : List (Bytes × Bytes)) : FileService :=
  if s.scanSetting ≠ 0 then
    let s := if s.cacheSetting = 0 ∧ s.scanSetting > 1 then { s with cacheSetting := 1 } else s
    let file := if s.file ≠ [] then [([], s.file)] else []
    s.scanFiles fs (file ++ if s.directory ≠ [] then items else [])
  else s

def stop (s : FileService) : FileService := { s with cache := fun _ => none }

/-- What can happen to a service. -/
inductive Event where
  | start (fs : FileSystem) (items : List (Bytes × Bytes))
  | stop
  | request (fs after : FileSystem) (request : HTTPMessage)

def step (s : FileService) : Event → Option FileService
  | .start fs items => some (s.start fs items)
  | .stop => some s.stop
  | .request fs after request => some { s with cache := (s.handle fs after request).cache }

end FileService

/-! ### Files inside a directory -/

/-- In normal form, the path is the directory with further components behind it, none of which
leads upwards. -/
def Inside (directory path : Bytes) : Prop :=
  ∃ rest, rest ≠ [] ∧ up 46 ∉ rest ∧
    pathComponents (normalizePath path) = pathComponents directory ++ rest

/-- The path goes on behind the directory with a slash and a component, and not upwards. -/
def GoesOn (directory path : Bytes) : Prop :=
  (directory.getLast? = some 47 ∨ (path.drop directory.length).head? = some 47) ∧
    pathComponents (path.drop directory.length) ≠ [] ∧
      up 46 ∉ pathComponents (path.drop directory.length)

instance (directory path : Bytes) : Decidable (GoesOn directory path) :=
  inferInstanceAs (Decidable (_ ∧ _ ∧ _))

/-- Of the paths that begin with the directory, exactly these lie inside it. -/
lemma inside_iff {directory path : Bytes} (hne : directory ≠ []) (h : directory <+: path)
    (hnormal : normalizePath path = path) : Inside directory path ↔ GoesOn directory path := by
  obtain ⟨t, rfl⟩ := h
  unfold Inside GoesOn pathComponents
  rw [hnormal, List.drop_left]
  -- behind a separator the components are those of the two parts
  have hsplit : (directory.getLast? = some 47 ∨ t.head? = some 47) →
      components 47 (directory ++ t) = components 47 directory ++ components 47 t := by
    rintro (hlast | hhead)
    · obtain ⟨d, rfl⟩ := List.getLast?_eq_some_iff.1 hlast
      rw [List.append_assoc, List.singleton_append, components_sep, components_sep]
      simp [components, componentsFrom]
    · obtain ⟨t, rfl⟩ := List.head?_eq_some_iff.1 hhead
      rw [components_sep, components_cons]
  by_cases hbound : directory.getLast? = some 47 ∨ t.head? = some 47
  · rw [hsplit hbound]
    constructor
    · rintro ⟨rest, hrest, hup, heq⟩
      rw [List.append_cancel_left heq]
      exact ⟨hbound, hrest, hup⟩
    · rintro ⟨-, hrest, hup⟩
      exact ⟨_, hrest, hup, rfl⟩
  · refine ⟨?_, fun h => absurd h.1 hbound⟩
    rintro ⟨rest, hrest, -, heq⟩
    obtain ⟨hlast, hhead⟩ := not_or.1 hbound
    cases t with
    | nil =>
      rw [List.append_nil] at heq
      exact absurd (List.self_eq_append_right.1 heq) hrest
    | cons b t =>
      have hb : b ≠ 47 := fun hb => hhead (by simp [hb])
      exact absurd heq (components_continued hne hlast hb rest)

/-! ### What a request accesses -/

/-- What is known about the files that a request accesses, and about the entries of the cache. -/
structure FileOutcome.Within (P : Bytes → Prop) (R : Bytes → Bytes → Prop) (o : FileOutcome) :
    Prop where
  accesses : ∀ a ∈ o.accesses, P a.path
  cache : ∀ r f, o.cache r = some f → R r f.filePath

namespace FileService

section Accesses

variable {P : Bytes → Prop} {R : Bytes → Bytes → Prop} {s : FileService} {fs after : FileSystem}
  {relative since path : Bytes} {head : Bool} {f g : DiskFile}

lemma filePath_update (h : update fs f = some g) : g.filePath = f.filePath := by
  obtain ⟨x, -, rfl⟩ := Option.map_eq_some_iff.1 h
  rfl

/-- An entry is put into the cache. -/
lemma update_cache {cache : Bytes → Option DiskFile}
    (hcache : ∀ r f, cache r = some f → R r f.filePath) (hf : R relative f.filePath) :
    ∀ r g, Function.update cache relative (some f) r = some g → R r g.filePath := by
  intro r g hg
  by_cases hr : r = relative
  · rw [hr, Function.update_self] at hg
    rw [hr, ← Option.some.inj hg]
    exact hf
  · rw [Function.update_of_ne hr] at hg
    exact hcache r g hg

lemma within_answer {cache : Bytes → Option DiskFile} {accesses : List FileAccess}
    (haccesses : ∀ a ∈ accesses, P a.path) (hcache : ∀ r f, cache r = some f → R r f.filePath)
    (hf : P f.filePath) : (answer cache head since fs accesses f).Within P R := by
  rw [answer]
  split_ifs
  · exact ⟨haccesses, hcache⟩
  · exact ⟨haccesses, hcache⟩
  · refine ⟨fun a ha => ?_, hcache⟩
    rcases List.mem_append.1 ha with ha | ha
    · exact haccesses a ha
    · rw [List.mem_singleton.1 ha]
      exact hf
  · refine ⟨fun a ha => haccesses a ?_, hcache⟩
    simpa using ha

lemma within_nothing (hcache : ∀ r f, s.cache r = some f → R r f.filePath)
    (response : FileResponse) : FileOutcome.Within P R ⟨[], s.cache, response⟩ :=
  ⟨by simp, hcache⟩

variable (hcache : ∀ r f, s.cache r = some f → R r f.filePath) (hR : ∀ p, R relative p → P p)

include hcache hR

lemma within_readEntry (hf : R relative f.filePath) :
    (s.readEntry fs relative head since f).Within P R := by
  have haccess : ∀ a ∈ [FileAccess.read f.filePath], P a.path := by
    intro a ha
    rw [List.mem_singleton.1 ha]
    exact hR _ hf
  rw [readEntry]
  dsimp only
  split_ifs
  · exact within_answer haccess (update_cache hcache hf) (hR _ hf)
  · exact ⟨haccess, update_cache hcache hf⟩

lemma within_useEntry {entry : DiskFile} (hentry : s.cache relative = some entry) :
    (s.useEntry fs relative head since entry).Within P R := by
  have hpath : R relative entry.filePath := hcache relative entry hentry
  rw [useEntry]
  split_ifs
  · split
    · exact within_nothing hcache _
    · rename_i f hf
      refine within_answer (by simp) hcache ?_
      rw [filePath_update hf]
      exact hR _ hpath
  · split
    · exact within_nothing hcache _
    · rename_i f hf
      have hsame : R relative f.filePath := by rwa [filePath_update hf]
      split_ifs
      · exact within_readEntry hcache hR hsame
      · exact within_answer (by simp) (update_cache hcache hsame) (hR _ hsame)
  · split
    · exact within_nothing hcache _
    · rename_i f hf
      split_ifs
      · exact within_answer (by simp) hcache (hR _ hpath)
      · exact within_readEntry hcache hR (by rwa [filePath_update hf])
  · exact within_answer (by simp) hcache (hR _ hpath)

lemma within_useFile (hpath : R relative path) :
    (s.useFile fs relative head since path).Within P R := by
  by_cases hexists : fs.fileExists path = false
  · rw [useFile, if_pos hexists]
    exact within_nothing hcache _
  rw [useFile, if_neg hexists]
  cases hf : update fs { filePath := path } with
  | none => exact within_nothing hcache _
  | some f =>
    have hsame : f.filePath = path := filePath_update hf
    have hf' : R relative f.filePath := by rwa [hsame]
    have haccess : ∀ a ∈ [FileAccess.read path], P a.path := by
      intro a ha
      rw [List.mem_singleton.1 ha]
      exact hR _ hpath
    dsimp only
    split_ifs
    · exact within_answer (by simp) hcache (hR _ hf')
    · exact within_answer haccess (update_cache hcache hf') (hR _ hf')
    · exact ⟨haccess, hcache⟩
    · exact within_answer (by simp) (update_cache hcache hf') (hR _ hf')

lemma within_get (hpath : R relative path) :
    (s.get fs relative head since path).Within P R := by
  by_cases hcaches : s.cacheSetting > 0 ∨ s.scanSetting > 0
  · rw [get, if_pos hcaches]
    cases hentry : s.cache relative with
    | some entry => exact within_useEntry hcache hR hentry
    | none =>
      dsimp only
      split_ifs
      · exact within_nothing hcache _
      · exact within_useFile hcache hR hpath
  · rw [get, if_neg hcaches]
    exact within_useFile hcache hR hpath

omit hR

lemma within_put (hpath : P path) (appends : Bool) : (s.put fs after appends path).Within P R := by
  rw [put]
  split_ifs
  · exact within_nothing hcache _
  all_goals
    refine ⟨fun a ha => ?_, hcache⟩
    rw [List.mem_singleton.1 ha]
    exact hpath

lemma within_delete (hpath : P path) (removable : Bool) : (s.delete fs removable path).Within P R := by
  rw [delete]
  split_ifs
  · exact within_nothing hcache _
  all_goals
    refine ⟨fun a ha => ?_, hcache⟩
    rw [List.mem_singleton.1 ha]
    exact hpath

/-- A request accesses the file that it is about, or the one that is in the cache for it. -/
lemma within_handle {request : HTTPMessage}
    (hrequest : ∀ path, s.filePath (s.getRelativeResource request.getResource) = some path →
      s.directory <+: path → R (s.getRelativeResource request.getResource) path ∧
        ∀ p, R (s.getRelativeResource request.getResource) p → P p) :
    (s.handle fs after request).Within P R := by
  rw [handle]
  dsimp only
  cases hpath : s.filePath (s.getRelativeResource request.getResource) with
  | none => exact within_nothing hcache _
  | some path =>
    by_cases hpre : s.directory.isPrefixOf path = true
    · obtain ⟨hR, hP⟩ := hrequest path hpath (List.isPrefixOf_iff_prefix.1 hpre)
      simp only [hpre, Bool.not_true, Bool.false_eq_true, if_false]
      split_ifs
      · exact within_nothing hcache _
      · exact within_get hcache hP hR
      · exact within_nothing hcache _
      · exact within_delete hcache (hP _ hR) _
      · exact within_put hcache (hP _ hR) _
      · exact within_nothing hcache _
    · simp only [hpre, Bool.not_false, if_true]
      exact within_nothing hcache _

end Accesses

/-! ### Runs -/

/-- A request for a path that begins with the directory is for one that goes on behind it. -/
def Confined (e : Event) (s : FileService) : Prop :=
  match e with
  | .request _ _ request => ∀ path ∈ s.filePath (s.getRelativeResource request.getResource),
      s.directory <+: path → GoesOn s.directory path
  | .start _ _ | .stop => True

/-- The items of a scan lie inside the directory. -/
def Scans (directory : Bytes) (e : Event) : Prop :=
  ∀ fs items, e = .start fs items → ∀ item ∈ items, Inside directory item.2

/-- The settings of the service are kept, and its cache has files inside the directory, and the
file that is configured. -/
structure Keeps (s u : FileService) : Prop where
  directory : u.directory = s.directory
  file : u.file = s.file
  cache : ∀ r f, u.cache r = some f → Inside s.directory f.filePath ∨ r = [] ∧ f.filePath = s.file

variable {s u v : FileService}

lemma normalizePath_idem (path : Bytes) : normalizePath (normalizePath path) = normalizePath path :=
  normalize_idem (by decide) path

/-- The path of a request is in normal form. -/
lemma normalizePath_filePath {relative path : Bytes} (h : s.filePath relative = some path) :
    normalizePath path = path := by
  rw [filePath] at h
  split_ifs at h
  · rw [← Option.some.inj h, normalizePath_idem]
  · rw [← Option.some.inj h, normalizePath_idem]

/-- A request keeps to the directory, if its path goes on behind the directory. -/
lemma Keeps.within (hu : s.Keeps u) (hdir : s.directory ≠ []) {fs after : FileSystem}
    {request : HTTPMessage} (hconfined : Confined (.request fs after request) u) :
    (u.handle fs after request).Within (Inside s.directory)
      (fun r p => Inside s.directory p ∨ r = [] ∧ p = s.file) := by
  refine within_handle hu.cache fun path hpath hpre => ?_
  have hnormal := normalizePath_filePath hpath
  have hgoes := hconfined path hpath hpre
  rw [hu.directory] at hpre hgoes
  have hinside : Inside s.directory path := (inside_iff hdir hpre hnormal).2 hgoes
  refine ⟨Or.inl hinside, ?_⟩
  rintro p (hp | ⟨hnil, rfl⟩)
  · exact hp
  · -- the file that is configured, of which the path is the normal form
    rw [hnil, filePath, if_pos rfl, hu.file] at hpath
    split_ifs at hpath
    obtain ⟨rest, hrest, hup, heq⟩ := hinside
    rw [hnormal] at heq
    refine ⟨rest, hrest, hup, ?_⟩
    rw [Option.some.inj hpath]
    exact heq

lemma Keeps.insertEntry (hu : s.Keeps u) {relative : Bytes} {f : DiskFile}
    (hf : Inside s.directory f.filePath ∨ relative = [] ∧ f.filePath = s.file) :
    s.Keeps (u.insertEntry relative f) := by
  rw [FileService.insertEntry]
  split_ifs
  · exact ⟨hu.directory, hu.file, update_cache
      (R := fun r p => Inside s.directory p ∨ r = [] ∧ p = s.file) hu.cache hf⟩
  · exact hu

lemma Keeps.addCacheEntry (hu : s.Keeps u) {fs : FileSystem} {relative path : Bytes}
    (hpath : Inside s.directory path ∨ relative = [] ∧ path = s.file)
    (h : u.addCacheEntry fs relative path = some v) : s.Keeps v := by
  by_cases hscan : u.scanSetting = 1
  · rw [FileService.addCacheEntry, if_pos hscan] at h
    rw [← Option.some.inj h]
    exact hu.insertEntry hpath
  · rw [FileService.addCacheEntry, if_neg hscan] at h
    obtain ⟨f, hf, rfl⟩ := Option.map_eq_some_iff.1 h
    have hsame : f.filePath = path := filePath_update hf
    have hf' : Inside s.directory f.filePath ∨ relative = [] ∧ f.filePath = s.file := by
      rwa [hsame]
    by_cases hfits : u.fits f = true
    · rw [if_pos hfits]
      split_ifs
      · exact hu.insertEntry hf'
      · exact hu
    · rw [if_neg hfits]
      exact hu.insertEntry hf'

lemma Keeps.scanFiles (hu : s.Keeps u) (fs : FileSystem) {items : List (Bytes × Bytes)}
    (hitems : ∀ item ∈ items, Inside s.directory item.2 ∨ item.1 = [] ∧ item.2 = s.file) :
    s.Keeps (u.scanFiles fs items) := by
  induction items generalizing u with
  | nil => exact hu
  | cons item items ih =>
    rw [FileService.scanFiles]
    cases h : u.addCacheEntry fs item.1 item.2 with
    | none => exact hu
    | some u' =>
      exact ih (hu.addCacheEntry (hitems item List.mem_cons_self) h)
        fun i hi => hitems i (List.mem_cons_of_mem item hi)

lemma Keeps.start (hu : s.Keeps u) (fs : FileSystem) {items : List (Bytes × Bytes)}
    (hitems : ∀ item ∈ items, Inside s.directory item.2) : s.Keeps (u.start fs items) := by
  have hall : ∀ item ∈ (if u.file ≠ [] then [(([] : Bytes), u.file)] else []) ++
      (if u.directory ≠ [] then items else []),
      Inside s.directory item.2 ∨ item.1 = [] ∧ item.2 = s.file := by
    intro item hitem
    rcases List.mem_append.1 hitem with hitem | hitem
    · split_ifs at hitem
      · rw [List.mem_singleton.1 hitem]
        exact Or.inr ⟨rfl, hu.file⟩
      · simp at hitem
    · split_ifs at hitem
      · exact Or.inl (hitems item hitem)
      · simp at hitem
  by_cases hscan : u.scanSetting ≠ 0
  · rw [FileService.start, if_pos hscan]
    by_cases hforce : u.cacheSetting = 0 ∧ u.scanSetting > 1
    · rw [if_pos hforce]
      have hu' : s.Keeps { u with cacheSetting := 1 } := ⟨hu.directory, hu.file, hu.cache⟩
      exact hu'.scanFiles fs hall
    · rw [if_neg hforce]
      exact hu.scanFiles fs hall
  · rw [FileService.start, if_neg hscan]
    exact hu

lemma Keeps.step (hdir : s.directory ≠ []) {e : Event} (hu : s.Keeps u)
    (he : Confined e u ∧ Scans s.directory e) (h : u.step e = some v) : s.Keeps v := by
  cases e with
  | start fs items =>
    obtain rfl := Option.some.inj h
    exact hu.start fs (he.2 fs items rfl)
  | stop =>
    obtain rfl := Option.some.inj h
    exact ⟨hu.directory, hu.file, fun r f hf => by cases hf⟩
  | request fs after request =>
    obtain rfl := Option.some.inj h
    exact ⟨hu.directory, hu.file, (hu.within hdir he.1).cache⟩

/-- If the paths of all requests that begin with the directory go on behind it, then every file
that a request accesses lies inside the directory.  Of the paths that begin with the directory,
exactly these lie inside it. -/
theorem requests_confined (s : FileService) (events : List Event) (hdir : s.directory ≠ [])
    (hempty : ∀ r, s.cache r = none) (hscans : ∀ e ∈ events, Scans s.directory e) :
    ((∀ e u, HappensIn FileService.step s events e u → Confined e u) →
      ∀ fs after request u, HappensIn FileService.step s events (.request fs after request) u →
        ∀ a ∈ (u.handle fs after request).accesses, Inside s.directory a.path) ∧
      ∀ relative path, s.filePath relative = some path → s.directory <+: path →
        (Inside s.directory path ↔ GoesOn s.directory path) := by
  constructor
  · intro hconfined fs after request u hu a ha
    obtain ⟨before, rest, heq, hrun⟩ := hu
    have hbefore : ∀ e v, HappensIn FileService.step s before e v →
        Confined e v ∧ Scans s.directory e := by
      intro e v hv
      have hmem : e ∈ events := by
        obtain ⟨l₁, l₂, rfl, -⟩ := hv
        simp [heq]
      refine ⟨hconfined e v ?_, hscans e hmem⟩
      rw [heq]
      exact hv.append _
    have hstart : s.Keeps s := ⟨rfl, rfl, fun r f hf => by simp [hempty r] at hf⟩
    have hkeeps : s.Keeps u := reached_invariant hstart
      (fun v e w hv he hw => hv.step hdir he hw) hbefore hrun
    exact (hkeeps.within hdir (hconfined _ u ⟨before, rest, heq, hrun⟩)).accesses a ha
  · intro relative path hpath hpre
    exact inside_iff hdir hpre (normalizePath_filePath hpath)

/-- A file system in which every path is a file. -/
def filesOnly : FileSystem where
  fileExists := fun _ => true
  isDirectory := fun _ => false
  status := fun _ => some (1, 1)
  readable := fun _ => true
  dateString := fun _ => ascii "Thu, 01 Jan 1970 00:00:01 GMT"

/-- A service for the directory "/var/www". -/
def wwwService : FileService := { resource := ascii "/files", directory := ascii "/var/www" }

/-- A request for a file of the directory. -/
theorem requests_confined_www :
    let request := HTTPMessage.newRequest (ascii "/files/a/../b.txt")
    ∀ a ∈ (wwwService.handle filesOnly filesOnly request).accesses,
      Inside wwwService.directory a.path := by
  intro request
  have h := (requests_confined wwwService [.request filesOnly filesOnly request] (by decide)
    (fun _ => rfl) (by
      rintro e he fs items rfl
      simp at he)).1
  refine h ?_ filesOnly filesOnly request wwwService ⟨[], [], rfl, rfl⟩
  rintro e u ⟨before, after, heq, hrun⟩
  cases before with
  | nil =>
    obtain ⟨rfl, rfl⟩ := List.cons.inj heq
    obtain rfl := Option.some.inj hrun
    intro path hpath hpre
    have hvalue : wwwService.filePath (wwwService.getRelativeResource request.getResource) =
        some (ascii "/var/www/b.txt") := by decide +kernel
    rw [hvalue] at hpath
    obtain rfl := Option.some.inj hpath
    decide +kernel
  | cons d before => simp at heq

/-- A directory beside it, with a name that begins in the same way, is read. -/
theorem requests_confined_fails :
    let request := HTTPMessage.newRequest (ascii "/files/../www-private/key")
    (wwwService.handle filesOnly filesOnly request).accesses =
        [.read (ascii "/var/www-private/key")] ∧
      ¬ Inside wwwService.directory (ascii "/var/www-private/key") := by
  intro request
  refine ⟨by decide +kernel, fun hinside => ?_⟩
  have hgoes := (inside_iff (by decide)
    (by decide +kernel) (by decide +kernel)).1 hinside
  revert hgoes
  decide +kernel

end FileService

end PionCore.Net
