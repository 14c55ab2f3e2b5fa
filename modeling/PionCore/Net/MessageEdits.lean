/-
# Building a message

The functions of `HTTPMessage`, `HTTPRequest` and `HTTPResponse` that change a message, as
one type of edits, and what every message that is built with them satisfies (`Built`):
what is cached as its first line was up to date for some resource of the message.
-/
import PionCore.Net.HTTPTransfer

namespace PionCore.Net

open PionCore.Lib

/-! ### Query strings -/

/-- The upper case hexadecimal digit of a value below 16. -/
def upperHexDigit (d : ℕ) : Byte := if d < 10 then UInt8.ofNat (48 + d) else UInt8.ofNat (55 + d)

/-- The characters that are escaped although they are printable. -/
def urlEscaped : Bytes := ascii " $&+,/:;=?@\"<>#%\x7b\x7d|\\^~[]`"

/-- `algo::url_encode`; a byte from 128 on is a negative `char`. -/
def urlEncode (s : Bytes) : Bytes :=
  s.flatMap fun c =>
    if 32 < c ∧ c < 127 ∧ c ∉ urlEscaped then [c]
    else [37, upperHexDigit (c.toNat / 16), upperHexDigit (c.toNat % 16)]

/-- `HTTPTypes::make_query_string`. -/
def makeQueryString (ord : HashOrder) (queryParams : StringDictionary) : Bytes :=
  List.intercalate [38]
    ((ord.walk queryParams).map fun e => urlEncode e.1 ++ [61] ++ urlEncode e.2)

namespace HTTPMessage

/-! ### The remaining functions that change a message -/

def addQuery (m : HTTPMessage) (k v : Bytes) : HTTPMessage :=
  m.setQueryParams (m.getQueryParams.insert k v)

def changeQuery (m : HTTPMessage) (k v : Bytes) : HTTPMessage :=
  m.setQueryParams (m.getQueryParams.changeValue k v)

def deleteQuery (m : HTTPMessage) (k : Bytes) : HTTPMessage :=
  m.setQueryParams (m.getQueryParams.deleteValue k)

def setContentType (m : HTTPMessage) (type : Bytes) : HTTPMessage :=
  m.changeHeader headerContentType type

def setChunksSupported (m : HTTPMessage) (b : Bool) : HTTPMessage := { m with chunksSupported := b }

def useQueryParamsForQueryString (ord : HashOrder) (m : HTTPMessage) : HTTPMessage :=
  m.setQueryString (makeQueryString ord m.getQueryParams)

def useQueryParamsForPostContent (ord : HashOrder) (m : HTTPMessage) : HTTPMessage :=
  match m.kind with
  | .request r =>
      ((m.setContent (makeQueryString ord r.queryParams)).setMethod requestMethodPost).setContentType
        contentTypeUrlencoded
  | .response _ => m

end HTTPMessage

/-- A call of a function that changes a message.  `write`, `send` and the writers call
`prepareBuffersForSend`, which changes headers and fills the cache of the first line.  The
bare `setContentLength` and `createContentBuffer` are left out: behind them the content is
not set. -/
inductive Edit where
  | clear
  | setMethod (s : Bytes)
  | setResource (s : Bytes)
  | changeResource (s : Bytes)
  | setQueryString (s : Bytes)
  | addQuery (k v : Bytes)
  | changeQuery (k v : Bytes)
  | deleteQuery (k : Bytes)
  | useQueryParamsForQueryString
  | useQueryParamsForPostContent
  | setStatusCode (n : ℕ)
  | setStatusMessage (s : Bytes)
  | updateRequestInfo (method : Bytes) (major minor : ℕ)
  | setVersionMajor (n : ℕ)
  | setVersionMinor (n : ℕ)
  | setChunksSupported (b : Bool)
  | addHeader (k v : Bytes)
  | changeHeader (k v : Bytes)
  | deleteHeader (k : Bytes)
  | setContentType (type : Bytes)
  | setContent (content : Bytes)
  | clearContent
  | getFirstLine
  | prepareBuffersForSend (keepAlive usingChunks : Bool)
deriving DecidableEq

namespace HTTPMessage

/-- The message behind a call. -/
def edit (ord : HashOrder) (m : HTTPMessage) : Edit → HTTPMessage
  | .clear => m.clear
  | .setMethod s => m.setMethod s
  | .setResource s => m.setResource s
  | .changeResource s => m.changeResource s
  | .setQueryString s => m.setQueryString s
  | .addQuery k v => m.addQuery k v
  | .changeQuery k v => m.changeQuery k v
  | .deleteQuery k => m.deleteQuery k
  | .useQueryParamsForQueryString => m.useQueryParamsForQueryString ord
  | .useQueryParamsForPostContent => m.useQueryParamsForPostContent ord
  | .setStatusCode n => m.setStatusCode n
  | .setStatusMessage s => m.setStatusMessage s
  | .updateRequestInfo method major minor => m.updateRequestInfo method major minor
  | .setVersionMajor n => m.setVersionMajor n
  | .setVersionMinor n => m.setVersionMinor n
  | .setChunksSupported b => m.setChunksSupported b
  | .addHeader k v => m.addHeader k v
  | .changeHeader k v => m.changeHeader k v
  | .deleteHeader k => m.deleteHeader k
  | .setContentType type => m.setContentType type
  | .setContent content => m.setContent content
  | .clearContent => m.clearContent
  | .getFirstLine => m.getFirstLine.2
  | .prepareBuffersForSend keepAlive usingChunks =>
      (m.prepareBuffersForSend ord keepAlive usingChunks).2

/-- The message behind a list of calls. -/
def editAll (ord : HashOrder) (m : HTTPMessage) (edits : List Edit) : HTTPMessage :=
  edits.foldl (edit ord) m

end HTTPMessage

/-- What a call gives to a message as its resource satisfies `P`. -/
def Edit.GivesResource (P : Bytes → Prop) : Edit → Prop
  | .clear => P []
  | .setResource s | .changeResource s => P s
  | _ => True

namespace HTTPMessage

/-! ### What is kept -/

/-- The fields of a first line with another resource. -/
def withResource (fields : (Bytes × Bytes × Bytes) ⊕ (ℕ × Bytes)) (r : Bytes) :
    (Bytes × Bytes × Bytes) ⊕ (ℕ × Bytes) :=
  fields.map (fun f => (f.1, r, f.2.2)) id

lemma firstLineFields_changeResource (m : HTTPMessage) (r : Bytes) :
    (m.changeResource r).firstLineFields = withResource m.firstLineFields r := by
  cases hm : m.kind <;> simp [changeResource, firstLineFields, withResource, hm]

/-- The first line depends on its fields and on the version. -/
lemma updateFirstLine_congr {m m' : HTTPMessage} (hfields : m.firstLineFields = m'.firstLineFields)
    (hmajor : m.versionMajor = m'.versionMajor) (hminor : m.versionMinor = m'.versionMinor) :
    m.updateFirstLine = m'.updateFirstLine := by
  have hversion : m.getVersionString = m'.getVersionString := by
    rw [getVersionString, getVersionString, hmajor, hminor]
  cases hm : m.kind <;> cases hm' : m'.kind <;>
    simp_all [firstLineFields, updateFirstLine]

lemma version_changeResource (m : HTTPMessage) (r : Bytes) :
    (m.changeResource r).versionMajor = m.versionMajor ∧
      (m.changeResource r).versionMinor = m.versionMinor := by
  rw [changeResource]
  split <;> exact ⟨rfl, rfl⟩

/-- What all messages satisfy that are built from resources satisfying `P`. -/
structure Built (P : Bytes → Prop) (m : HTTPMessage) : Prop where
  sendsLength : m.doNotSendContentLength = false
  major : m.versionMajor < uint16Mod
  minor : m.versionMinor < uint16Mod
  complete : m.contentLength + 1 < sizeMod → m.Complete
  resource : ∀ f, m.firstLineFields = .inl f → P f.2.1
  /-- the first line that is cached was built for a resource of the message -/
  line : m.FreshLine ∨ ∃ r, P r ∧ m.firstLine = (m.changeResource r).updateFirstLine

section Built

variable {P : Bytes → Prop} {m m' : HTTPMessage}

/-- A message with the same first line, and a complete content if it has one. -/
lemma Built.congr (hm : m.Built P) (hfields : m'.firstLineFields = m.firstLineFields)
    (hline : m'.firstLine = m.firstLine) (hmajor : m'.versionMajor = m.versionMajor)
    (hminor : m'.versionMinor = m.versionMinor)
    (hlength : m'.doNotSendContentLength = m.doNotSendContentLength)
    (hcomplete : m'.contentLength + 1 < sizeMod → m'.Complete) : m'.Built P where
  sendsLength := hlength.trans hm.sendsLength
  major := hmajor ▸ hm.major
  minor := hminor ▸ hm.minor
  complete := hcomplete
  resource := hfields ▸ hm.resource
  line := by
    rcases hm.line with h | ⟨r, hr, h⟩
    · rw [FreshLine, hline, updateFirstLine_congr hfields hmajor hminor]
      exact Or.inl h
    · refine Or.inr ⟨r, hr, ?_⟩
      rw [hline, h]
      refine updateFirstLine_congr ?_ ?_ ?_
      · rw [firstLineFields_changeResource, firstLineFields_changeResource, hfields]
      · rw [(version_changeResource m r).1, (version_changeResource m' r).1, hmajor]
      · rw [(version_changeResource m r).2, (version_changeResource m' r).2, hminor]

/-- A message whose first line is not cached. -/
lemma Built.cleared (hm : m.Built P) (hline : m'.firstLine = [])
    (hmajor : m'.versionMajor < uint16Mod) (hminor : m'.versionMinor < uint16Mod)
    (hlength : m'.doNotSendContentLength = m.doNotSendContentLength)
    (hcontent : m'.contentLength = m.contentLength ∧ m'.contentBuf = m.contentBuf)
    (hresource : ∀ f, m'.firstLineFields = .inl f → P f.2.1) : m'.Built P where
  sendsLength := hlength.trans hm.sendsLength
  major := hmajor
  minor := hminor
  complete := by
    have hcells : m'.contentCells = m.contentCells := by
      simp only [contentCells, hcontent]
    rw [hcontent.1, Complete, hcells]
    exact hm.complete
  resource := hresource
  line := Or.inl (Or.inl hline)

/-- Content that is set is complete. -/
lemma complete_setContent (m : HTTPMessage) (content : Bytes)
    (hsize : (m.setContent content).contentLength + 1 < sizeMod) :
    (m.setContent content).Complete := by
  have hlen : content.length + 1 < sizeMod := hsize
  have hcreate := createContentBuffer_eq (m := { m with contentLength := content.length }) hlen
  have hwrite := Memory.write_eq [] (List.replicate content.length none ++ [some (0 : Byte)])
    (w := content) (by simp)
  refine complete_of_eq (@contentCells_eq _ content [some 0] ?_ ?_)
  · rw [setContent, hcreate]
    rfl
  · rw [setContent, writeContent_contentBuf (congrArg contentBuf hcreate)]
    rw [List.length_nil, List.nil_append, List.nil_append] at hwrite
    rw [hwrite, List.drop_left' (by simp)]

lemma built_setContent (hm : m.Built P) (content : Bytes) : (m.setContent content).Built P :=
  hm.congr rfl rfl rfl rfl rfl (complete_setContent m content)

lemma built_clear (m : HTTPMessage) (hP : P []) : m.clear.Built P := by
  have hempty : m.clear.contentLength = 0 ∧ m.clear.firstLine = [] ∧
      m.clear.doNotSendContentLength = false ∧ m.clear.versionMajor = 1 ∧
      m.clear.versionMinor = 1 := by
    cases hk : m.kind <;> simp [clear, hk]
  obtain ⟨hlen, hline, hlength, hmajor, hminor⟩ := hempty
  refine ⟨hlength, by rw [hmajor]; decide, by rw [hminor]; decide, fun _ => ?_, ?_,
    Or.inl (Or.inl hline)⟩
  · rw [Complete, List.eq_nil_of_length_eq_zero (m.clear.length_contentCells.trans hlen)]
    exact List.not_mem_nil
  · rintro f hf
    cases hk : m.kind with
    | request r =>
      obtain rfl : (([], [], []) : Bytes × Bytes × Bytes) = f := by
        simpa [clear, firstLineFields, hk] using hf
      exact hP
    | response r => simp [clear, firstLineFields, hk] at hf

/-- A member of the first line is set, and the cached line is dropped. -/
lemma built_setKind (hm : m.Built P) {kind : MessageKind}
    (hresource : ∀ r, kind = .request r → P r.resource) :
    ({ m with kind := kind }.clearFirstLine).Built P := by
  refine hm.cleared rfl hm.major hm.minor rfl ⟨rfl, rfl⟩ ?_
  rintro f hf
  cases hk : kind with
  | request r =>
    obtain rfl : (r.method, r.resource, r.queryString) = f := by
      simpa [firstLineFields, clearFirstLine, hk] using hf
    exact hresource r hk
  | response r => simp [firstLineFields, clearFirstLine, hk] at hf

lemma Built.request (hm : m.Built P) {r : RequestData} (hk : m.kind = .request r) :
    P r.resource := hm.resource (r.method, r.resource, r.queryString) (by simp [firstLineFields, hk])

lemma built_setMethod (hm : m.Built P) (s : Bytes) : (m.setMethod s).Built P := by
  cases hk : m.kind with
  | request r =>
    simp only [setMethod, hk]
    refine built_setKind hm ?_
    rintro _ ⟨⟩
    exact (hm.request hk :)
  | response r => simpa only [setMethod, hk] using hm

lemma built_setQueryString (hm : m.Built P) (s : Bytes) : (m.setQueryString s).Built P := by
  cases hk : m.kind with
  | request r =>
    simp only [setQueryString, hk]
    refine built_setKind hm ?_
    rintro _ ⟨⟩
    exact (hm.request hk :)
  | response r => simpa only [setQueryString, hk] using hm

lemma built_setResource (hm : m.Built P) {s : Bytes} (hs : P s) : (m.setResource s).Built P := by
  cases hk : m.kind with
  | request r =>
    simp only [setResource, hk]
    refine built_setKind hm ?_
    rintro _ ⟨⟩
    exact hs
  | response r => simpa only [setResource, hk] using hm

lemma built_setStatusCode (hm : m.Built P) (n : ℕ) : (m.setStatusCode n).Built P := by
  cases hk : m.kind with
  | request r => simpa only [setStatusCode, hk] using hm
  | response r =>
    simp only [setStatusCode, hk]
    exact built_setKind hm (by rintro _ ⟨⟩)

lemma built_setStatusMessage (hm : m.Built P) (s : Bytes) : (m.setStatusMessage s).Built P := by
  cases hk : m.kind with
  | request r => simpa only [setStatusMessage, hk] using hm
  | response r =>
    simp only [setStatusMessage, hk]
    exact built_setKind hm (by rintro _ ⟨⟩)

lemma built_setVersion (hm : m.Built P) (n : ℕ) :
    (m.setVersionMajor n).Built P ∧ (m.setVersionMinor n).Built P :=
  have hn : n % uint16Mod < uint16Mod := Nat.mod_lt n (by decide)
  ⟨hm.cleared rfl hn hm.minor rfl ⟨rfl, rfl⟩ hm.resource,
    hm.cleared rfl hm.major hn rfl ⟨rfl, rfl⟩ hm.resource⟩

lemma built_setQueryParams (hm : m.Built P) (d : StringDictionary) :
    (m.setQueryParams d).Built P := by
  cases hk : m.kind with
  | request r =>
    simp only [setQueryParams, hk]
    exact hm.congr (by simp [firstLineFields, hk]) rfl rfl rfl rfl hm.complete
  | response r => simpa only [setQueryParams, hk] using hm

lemma built_updateRequestInfo (hm : m.Built P) (method : Bytes) (major minor : ℕ) :
    (m.updateRequestInfo method major minor).Built P := by
  cases hk : m.kind with
  | request r => simpa only [updateRequestInfo, hk] using hm
  | response r =>
    simp only [updateRequestInfo, hk]
    exact hm.congr (by simp [firstLineFields, hk]) rfl rfl rfl rfl hm.complete

/-- The headers do not matter. -/
lemma built_of_headers (hm : m.Built P) (d : StringDictionary) :
    ({ m with headers := d } : HTTPMessage).Built P :=
  hm.congr rfl rfl rfl rfl rfl hm.complete

/-- A new resource leaves a line behind that was built for the old one. -/
lemma built_changeResource (hm : m.Built P) {s : Bytes} (hs : P s) :
    (m.changeResource s).Built P := by
  cases hk : m.kind with
  | response r => simpa only [changeResource, hk] using hm
  | request r =>
    have hstale : ∀ r', (m.changeResource r').updateFirstLine =
        ((m.changeResource s).changeResource r').updateFirstLine := by
      intro r'
      refine updateFirstLine_congr ?_ ?_ ?_ <;> simp [changeResource, firstLineFields, hk]
    have hold : (m.changeResource r.resource).updateFirstLine = m.updateFirstLine := by
      refine updateFirstLine_congr ?_ ?_ ?_ <;> simp [changeResource, firstLineFields, hk]
    have hfirst : (m.changeResource s).firstLine = m.firstLine := by
      simp only [changeResource, hk]
    refine ⟨?_, ?_, ?_, ?_, ?_, ?_⟩
    · simpa only [changeResource, hk] using hm.sendsLength
    · simpa only [changeResource, hk] using hm.major
    · simpa only [changeResource, hk] using hm.minor
    · simp only [changeResource, hk]
      exact hm.complete
    · rintro f hf
      obtain rfl : (r.method, s, r.queryString) = f := by
        simpa [changeResource, firstLineFields, hk] using hf
      exact hs
    · rw [FreshLine, hfirst]
      rcases hm.line with (h | h) | ⟨r', hr', h⟩
      · exact Or.inl (Or.inl h)
      · exact Or.inr ⟨r.resource, hm.request hk, by rw [h, ← hstale, hold]⟩
      · exact Or.inr ⟨r', hr', by rw [h, hstale]⟩

/-- The line is cached that is up to date. -/
lemma built_getFirstLine (hm : m.Built P) : m.getFirstLine.2.Built P := by
  rw [getFirstLine]
  split_ifs with h
  · exact ⟨hm.sendsLength, hm.major, hm.minor, hm.complete, hm.resource, Or.inl (Or.inr rfl)⟩
  · exact hm

lemma built_prepareHeadersForSend (hm : m.Built P) (keepAlive usingChunks : Bool) :
    (m.prepareHeadersForSend keepAlive usingChunks).Built P := by
  unfold prepareHeadersForSend
  dsimp only
  split_ifs <;> exact built_of_headers hm _

/-- Every call keeps what all messages satisfy. -/
lemma built_edit (ord : HashOrder) (hm : m.Built P) {e : Edit} (he : e.GivesResource P) :
    (m.edit ord e).Built P := by
  cases e with
  | clear => exact built_clear m he
  | setMethod s => exact built_setMethod hm s
  | setResource s => exact built_setResource hm he
  | changeResource s => exact built_changeResource hm he
  | setQueryString s => exact built_setQueryString hm s
  | addQuery k v => exact built_setQueryParams hm _
  | changeQuery k v => exact built_setQueryParams hm _
  | deleteQuery k => exact built_setQueryParams hm _
  | useQueryParamsForQueryString => exact built_setQueryString hm _
  | useQueryParamsForPostContent =>
    show (m.useQueryParamsForPostContent ord).Built P
    cases hk : m.kind with
    | request r =>
      simp only [useQueryParamsForPostContent, hk]
      exact built_of_headers (built_setMethod (built_setContent hm _) _) _
    | response r => simpa only [useQueryParamsForPostContent, hk] using hm
  | setStatusCode n => exact built_setStatusCode hm n
  | setStatusMessage s => exact built_setStatusMessage hm s
  | updateRequestInfo method major minor => exact built_updateRequestInfo hm method major minor
  | setVersionMajor n => exact (built_setVersion hm n).1
  | setVersionMinor n => exact (built_setVersion hm n).2
  | setChunksSupported b => exact hm.congr rfl rfl rfl rfl rfl hm.complete
  | addHeader k v => exact built_of_headers hm _
  | changeHeader k v => exact built_of_headers hm _
  | deleteHeader k => exact built_of_headers hm _
  | setContentType type => exact built_of_headers hm _
  | setContent content => exact built_setContent hm content
  | clearContent =>
    have hempty := built_setContent hm []
    rw [setContent, writeContent_nil] at hempty
    exact built_of_headers hempty _
  | getFirstLine => exact built_getFirstLine hm
  | prepareBuffersForSend keepAlive usingChunks =>
    exact built_getFirstLine (built_prepareHeadersForSend hm keepAlive usingChunks)

/-- So does every list of calls. -/
theorem built_editAll (ord : HashOrder) (hm : m.Built P) {edits : List Edit}
    (hedits : ∀ e ∈ edits, e.GivesResource P) : (m.editAll ord edits).Built P := by
  induction edits generalizing m with
  | nil => exact hm
  | cons e edits ih =>
    exact ih (built_edit ord hm (hedits e List.mem_cons_self))
      fun f hf => hedits f (List.mem_cons_of_mem e hf)

lemma built_new {kind : MessageKind} (hP : ∀ r, kind = .request r → P r.resource) :
    ({ kind := kind } : HTTPMessage).Built P where
  sendsLength := rfl
  major := (by decide : 1 < uint16Mod)
  minor := (by decide : 1 < uint16Mod)
  complete := fun _ => (List.not_mem_nil : none ∉ ([] : List (Option Byte)))
  resource := by
    rintro f hf
    cases hk : kind with
    | request r =>
      obtain rfl : (r.method, r.resource, r.queryString) = f := by
        simpa [firstLineFields, hk] using hf
      exact hP r hk
    | response r => simp [firstLineFields, hk] at hf
  line := Or.inl (Or.inl rfl)

end Built

end HTTPMessage

end PionCore.Net
