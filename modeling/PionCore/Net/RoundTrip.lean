/-
# The round trip of a message

A message that is built with the functions of its class and written is read back, if and
only if the first line that is cached is up to date (`write_read`).  All functions that
change the first line drop the cached one but for `changeResource`.
-/
import PionCore.Net.MessageEdits

namespace PionCore.Net

open PionCore.Lib

instance (e : Bytes × Bytes) : Decidable (HeaderOk e) :=
  decidable_of_iff (IsToken e.1 ∧ e.1.length ≤ headerNameMax ∧ IsText e.2 ∧
    e.2.length ≤ headerValueMax)
    ⟨fun h => ⟨h.1, h.2.1, h.2.2.1, h.2.2.2⟩, fun h => ⟨h.name, h.nameMax, h.value, h.valueMax⟩⟩

/-- A resource that the parser can read. -/
def ResourceOk (s : Bytes) : Prop := IsResource s ∧ s.length ≤ resourceMax

/-- One of the two constructors. -/
inductive Creation where
  | request (resource : Bytes)
  | response (requestMethod : Bytes)

namespace Creation

/-- The new message. -/
def message : Creation → HTTPMessage
  | request resource => .newRequest resource
  | response requestMethod => .newResponse requestMethod

/-- The resource that is given to a new message satisfies `P`. -/
def GivesResource (P : Bytes → Prop) : Creation → Prop
  | request resource => P resource
  | response _ => True

end Creation

namespace HTTPMessage

/-- The status code of a response has three digits. -/
def CodeOk (m : HTTPMessage) : Prop :=
  match m.kind with
  | .request _ => True
  | .response r => 100 ≤ r.statusCode ∧ r.statusCode ≤ 999

instance (m : HTTPMessage) : Decidable m.LineOk := by
  rw [LineOk]
  rcases m.firstLineFields with ⟨_, _, _⟩ | ⟨_, _⟩ <;> infer_instance

instance (m : HTTPMessage) : Decidable m.CodeOk := by
  rw [CodeOk]
  cases m.kind <;> infer_instance

/-- The words of the message are those of the HTTP grammar and not longer than the parser
allows, and its headers do not announce another framing than the one that is written. -/
structure WellFormed (m : HTTPMessage) : Prop where
  line : m.LineOk
  code : m.CodeOk
  headers : ∀ e ∈ m.headers, HeaderOk e
  noTransferEncoding : m.headers.find headerTransferEncoding = none
  size : m.contentLength ≤ defaultContentMax
  implied : m.isContentLengthImplied = true → m.contentLength = 0

instance (m : HTTPMessage) : Decidable m.WellFormed :=
  decidable_of_iff (m.LineOk ∧ m.CodeOk ∧ (∀ e ∈ m.headers, HeaderOk e) ∧
    m.headers.find headerTransferEncoding = none ∧ m.contentLength ≤ defaultContentMax ∧
    (m.isContentLengthImplied = true → m.contentLength = 0))
    ⟨fun h => ⟨h.1, h.2.1, h.2.2.1, h.2.2.2.1, h.2.2.2.2.1, h.2.2.2.2.2⟩,
      fun h => ⟨h.line, h.code, h.headers, h.noTransferEncoding, h.size, h.implied⟩⟩

/-- A message that is built and well formed can be sent. -/
lemma sendable_of_built {P : Bytes → Prop} {m : HTTPMessage} (hm : m.Built P)
    (hwf : m.WellFormed) : m.Sendable where
  line := hwf.line
  major := hm.major
  minor := hm.minor
  headers := hwf.headers
  notChunked := by simp only [announcesChunks, hwf.noTransferEncoding]
  sendsLength := hm.sendsLength
  complete := hm.complete (lt_of_le_of_lt (Nat.add_le_add_right hwf.size 1) (by decide))
  size := hwf.size
  implied := hwf.implied

/-- A line that was built for another resource is read as that resource. -/
lemma fresh_of_readsBack {ord : HashOrder} {m target : HTTPMessage} (hm : m.Built ResourceOk)
    (hwf : m.WellFormed) (hkind : target.isRequest = m.isRequest)
    (hback : m.ReadsBack ord target) : m.FreshLine := by
  rcases hm.line with h | ⟨r', ⟨hr', hmax⟩, hline⟩
  · exact h
  · cases hk : m.kind with
    | response r =>
      refine Or.inr (hline.trans ?_)
      simp only [changeResource, hk]
    | request r =>
      -- the message with the old resource is written in the same way
      have hsend := sendable_of_built hm hwf
      set m' : HTTPMessage := { m with kind := .request { r with resource := r' }, firstLine := [] }
        with hm'
      have hstale : m.firstLine = m'.updateFirstLine := by
        rw [hline]
        refine updateFirstLine_congr ?_ ?_ ?_ <;> simp [changeResource, firstLineFields, hk, hm']
      have hline' : m'.LineOk := by
        have hl := hwf.line
        simp only [LineOk, firstLineFields, hk] at hl
        exact ⟨hl.1, hl.2.1, ⟨hr', hmax⟩, hl.2.2.2⟩
      have hsend' : m'.Sendable :=
        ⟨hline', hsend.major, hsend.minor, hsend.headers, hsend.notChunked, hsend.sendsLength,
          hsend.complete, hsend.size, by simp [isContentLengthImplied, hm']⟩
      by_cases hnil : m.firstLine = []
      · exact Or.inl hnil
      have hwrite : (m.write ord false).1 = (m'.write ord false).1 := by
        rw [write_eq ord hsend.sendsLength (content_ne_none hsend.complete),
          write_eq ord hsend'.sendsLength (content_ne_none hsend'.complete), if_neg hnil, hstale]
        rfl
      have hback' : m'.ReadsBack ord target := by
        refine reads_back ord hsend' (Or.inl rfl) ?_
        rw [hkind]
        simp [isRequest, hk, hm']
      rw [ReadsBack, ← hwrite] at hback'
      have hfields : m.firstLineFields = m'.firstLineFields :=
        hback.2.2.1.fields.symm.trans hback'.2.2.1.fields
      exact Or.inr (hstale.trans (updateFirstLine_congr hfields rfl rfl).symm)

end HTTPMessage

/-- A message that is built with the functions of its class is read back if the first line
that is cached is up to date; and only if it is, when all resources that were given to it can
be read. -/
theorem write_read (ord : HashOrder) (c : Creation) (edits : List Edit) (target : HTTPMessage) :
    let m := c.message.editAll ord edits
    m.WellFormed → target.isRequest = m.isRequest →
    (m.FreshLine → m.ReadsBack ord target) ∧
    (c.GivesResource ResourceOk → (∀ e ∈ edits, e.GivesResource ResourceOk) →
      m.ReadsBack ord target → m.FreshLine) := by
  intro m hwf hkind
  have hnew : ∀ P, c.GivesResource P → c.message.Built P := by
    intro P hP
    cases c with
    | request resource =>
      refine HTTPMessage.built_new ?_
      rintro _ ⟨⟩
      exact hP
    | response requestMethod => exact HTTPMessage.built_new (by rintro _ ⟨⟩)
  constructor
  · intro hfresh
    have hany : ∀ e : Edit, e.GivesResource fun _ => True := fun e => by cases e <;> trivial
    have hbuilt : m.Built fun _ => True :=
      HTTPMessage.built_editAll ord (hnew _ (by cases c <;> trivial)) fun e _ => hany e
    exact HTTPMessage.reads_back ord (HTTPMessage.sendable_of_built hbuilt hwf) hfresh hkind
  · intro hc hedits hback
    have hbuilt : m.Built ResourceOk := HTTPMessage.built_editAll ord (hnew _ hc) hedits
    exact HTTPMessage.fresh_of_readsBack hbuilt hwf hkind hback

/-- A request with a query, content, a header with two values and one with an empty value. -/
theorem write_read_request :
    let c := Creation.request (ascii "/store")
    let edits := [Edit.setMethod requestMethodPost, .setQueryString (ascii "a=1"),
      .addHeader (ascii "Accept") (ascii " text/html"), .addHeader (ascii "ACCEPT") (ascii "*/*"),
      .addHeader (ascii "X-Empty") [], .setContent (ascii "x\r\n\r\ny")]
    let m := c.message.editAll .insertion edits
    (m.FreshLine → m.ReadsBack .insertion (.newRequest [])) ∧
    (c.GivesResource ResourceOk → (∀ e ∈ edits, e.GivesResource ResourceOk) →
      m.ReadsBack .insertion (.newRequest []) → m.FreshLine) :=
  write_read .insertion (.request (ascii "/store")) _ (.newRequest []) (by decide +kernel)
    (by decide +kernel)

/-- A request is written, redirected to another resource and written again: the old resource
is read back. -/
theorem write_read_fails :
    let m := (Creation.request (ascii "/a")).message.editAll .insertion
      [.prepareBuffersForSend true false, .changeResource (ascii "/b")]
    m.WellFormed ∧ ¬ m.ReadsBack .insertion (.newRequest []) ∧
      ((HTTPMessage.newRequest []).read false (m.write .insertion false).1).2.1.firstLineFields =
        .inl (requestMethodGet, ascii "/a", []) :=
  ⟨by decide +kernel, fun h => absurd h.2.2.1.fields (by decide +kernel), by decide +kernel⟩

end PionCore.Net
