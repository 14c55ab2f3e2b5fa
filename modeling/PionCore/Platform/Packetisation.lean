/-
# How an exchange is cut into packets

A request is followed by some responses 100 (Continue) and the final response.  When a response 100
is finished, the parser starts again, but what is left of the packet is not handed to it.  If no
packet goes on behind the end of a response 100, then the cut leaves no trace but in the counts and
the times (`packets_agree`); if one goes on into the final response, then the event lacks bytes.
-/
import PionCore.Net.ByteCount
import PionCore.Net.HTTPReader
import PionCore.Platform.HTTPProtocol

namespace PionCore.Platform

open PionCore.Lib PionCore.Net

namespace HTTPProtocol

open Session

/-! ### Exchanges -/

/-- The parser reads the message to its end. -/
structure Complete (s : Session) (w : Bytes) : Prop where
  ne_nil : w ≠ []
  result : (s.read w).result = some .yes
  rest : (s.read w).rest = []

/-- Responses 100 (Continue), one after the other. -/
def Continues (s : Session) : List Bytes → Prop
  | [] => True
  | r :: rs =>
    Complete s r ∧ getStatusCode (s.read r).state.msg = responseCodeContinue ∧
      Continues (restart (s.read r).state) rs

/-- The parser behind some responses that are skipped. -/
def behind (s : Session) : List Bytes → Session
  | [] => s
  | r :: rs => behind (restart (s.read r).state) rs

/-- A response that is not skipped: it is complete, or it ends with the connection. -/
structure Final (s : Session) (w : Bytes) : Prop where
  ne_nil : w ≠ []
  rest : (s.read w).rest = []
  result : (s.read w).result = none ∨ (s.read w).result = some .yes ∧
    getStatusCode (s.read w).state.msg ≠ responseCodeContinue

variable {τ ρ : Type*}

/-- The parser of the responses behind the request. -/
def prepared (p : HTTPProtocol τ) (q : Bytes) : Session :=
  prepareResponse p.response (p.request.read q).state.msg

/-- A request, and the responses to it. -/
structure Exchange (p : HTTPProtocol τ) (q : Bytes) (rs : List Bytes) (final : Bytes) : Prop where
  request : Complete p.request q
  continues : Continues (prepared p q) rs
  final : Final (behind (prepared p q) rs) final

/-- A protocol that is new, or has been reset. -/
def Started (p : HTTPProtocol τ) : Prop :=
  (∃ maxRequest maxResponse rawRequest rawResponse,
    p = new maxRequest maxResponse rawRequest rawResponse) ∨ ∃ p₀ : HTTPProtocol τ, p = reset p₀

lemma Continues.ne_nil {s : Session} {rs : List Bytes} (h : Continues s rs) :
    ∀ r ∈ rs, r ≠ [] := by
  induction rs generalizing s with
  | nil => exact fun r hr => absurd hr List.not_mem_nil
  | cons r rs ih =>
    obtain ⟨hr, -, hrs⟩ := h
    exact List.forall_mem_cons.2 ⟨hr.ne_nil, ih hrs⟩

lemma Final.result_ne_no {s : Session} {w : Bytes} (h : Final s w) :
    (s.read w).result ≠ some .no := by
  rcases h.result with hr | ⟨hr, -⟩
  · rw [hr]
    simp
  · rw [hr]
    simp

/-! ### Cuts -/

/-- A response 100 ends behind `n` bytes. -/
def EndsAt (rs : List Bytes) (n : ℕ) : Prop :=
  ∃ c, c <+: rs ∧ c ≠ [] ∧ c.flatten.length = n

/-- The packet `w` behind the packets `a` has the last byte of a response 100, and goes on. -/
def GoesOn (rs a : List Bytes) (w : Bytes) : Prop :=
  ∃ n, EndsAt rs n ∧ a.flatten.length < n ∧ n < (a ++ [w]).flatten.length

/-- No packet goes on behind the end of a response 100. -/
def Lossless (rs pieces : List Bytes) : Prop :=
  ∀ a w b, pieces = a ++ w :: b → ¬ GoesOn rs a w

/-- The packets that go on behind the end of a response 100 go on into the final response. -/
def Reaching (rs pieces : List Bytes) : Prop :=
  ∀ a w b, pieces = a ++ w :: b → GoesOn rs a w → rs.flatten.length < (a ++ [w]).flatten.length

/-- The piece of a text that has its `n`-th byte. -/
lemma split_pieces {n : ℕ} {pieces : List Bytes} (hn : 0 < n) (hle : n ≤ pieces.flatten.length) :
    ∃ a w b, pieces = a ++ w :: b ∧ a.flatten.length < n ∧ n ≤ (a ++ [w]).flatten.length := by
  induction pieces using List.reverseRecOn with
  | nil =>
    rw [List.flatten_nil, List.length_nil] at hle
    omega
  | append_singleton pieces w ih =>
    by_cases h : n ≤ pieces.flatten.length
    · obtain ⟨a, u, b, rfl, hlt, hge⟩ := ih h
      exact ⟨a, u, b ++ [w], by simp, hlt, hge⟩
    · exact ⟨pieces, w, [], rfl, by omega, hle⟩

lemma lossless_nil (pieces : List Bytes) : Lossless [] pieces := by
  rintro a w b - ⟨n, ⟨c, hc, hne, -⟩, -⟩
  exact hne (List.prefix_nil.1 hc)

lemma EndsAt.cons {rs : List Bytes} {n : ℕ} (h : EndsAt rs n) (r : Bytes) :
    EndsAt (r :: rs) (r.length + n) := by
  obtain ⟨c, hc, -, rfl⟩ := h
  exact ⟨r :: c, (List.prefix_cons_inj r).2 hc, by simp, by simp⟩

lemma endsAt_head (r : Bytes) (rs : List Bytes) : EndsAt (r :: rs) r.length :=
  ⟨[r], ⟨rs, rfl⟩, by simp, by simp⟩

/-- Behind the only response 100 there is nothing but the final response. -/
lemma reaching_singleton (r : Bytes) (pieces : List Bytes) : Reaching [r] pieces := by
  rintro a w b - ⟨n, ⟨c, ⟨d, hd⟩, hne, rfl⟩, -, hgt⟩
  obtain ⟨u, c, rfl⟩ := List.exists_cons_of_ne_nil hne
  obtain ⟨rfl, hnil⟩ := List.cons.inj hd
  obtain ⟨rfl, -⟩ := List.append_eq_nil_iff.1 hnil
  exact hgt

section Cut

variable {r : Bytes} {rs c pieces : List Bytes} (hc : c.flatten.length = r.length)
include hc

/-- Behind the first response, the rest is cut like the whole. -/
lemma GoesOn.cons {a : List Bytes} {w : Bytes} (h : GoesOn rs a w) :
    GoesOn (r :: rs) (c ++ a) w := by
  obtain ⟨n, hn, hlt, hgt⟩ := h
  refine ⟨r.length + n, hn.cons r, ?_, ?_⟩
  · rw [List.flatten_append, List.length_append]
    omega
  · rw [List.append_assoc, List.flatten_append, List.length_append]
    omega

lemma Lossless.tail (h : Lossless (r :: rs) (c ++ pieces)) : Lossless rs pieces := by
  rintro a w b rfl hgo
  exact h (c ++ a) w b (by rw [List.append_assoc]) (hgo.cons hc)

lemma Reaching.tail (h : Reaching (r :: rs) (c ++ pieces)) : Reaching rs pieces := by
  rintro a w b rfl hgo
  have hlt := h (c ++ a) w b (by rw [List.append_assoc]) (hgo.cons hc)
  rw [List.flatten_cons, List.length_append, List.append_assoc, List.flatten_append,
    List.length_append] at hlt
  omega

lemma Lossless.cons (h : Lossless rs pieces) : Lossless (r :: rs) (c ++ pieces) := by
  rintro a w b heq ⟨n, ⟨d, hd, hne, rfl⟩, hlt, hgt⟩
  obtain ⟨r', d, rfl⟩ := List.exists_cons_of_ne_nil hne
  obtain ⟨rfl, hd'⟩ := List.cons_prefix_cons.1 hd
  rw [List.flatten_cons, List.length_append] at hlt hgt
  -- the piece `w` is one of the first response, or one behind it
  have hbehind : ∀ a', a = c ++ a' → pieces = a' ++ w :: b → False := by
    rintro a' rfl hpieces
    rw [List.flatten_append, List.length_append] at hlt
    rw [List.append_assoc, List.flatten_append, List.length_append] at hgt
    refine h a' w b hpieces ⟨d.flatten.length, ⟨d, hd', ?_, rfl⟩, by omega, by omega⟩
    rintro rfl
    rw [List.flatten_nil, List.length_nil] at hlt
    omega
  rcases List.append_eq_append_iff.1 heq with ⟨a', rfl, hrest⟩ | ⟨a', rfl, hrest⟩
  · exact hbehind a' rfl hrest
  · cases a' with
    | nil => exact hbehind [] (by simp) hrest.symm
    | cons u a' =>
      obtain ⟨rfl, -⟩ := List.cons.inj hrest
      rw [List.flatten_append, List.flatten_cons, List.length_append, List.length_append] at hc
      rw [List.flatten_append, List.flatten_singleton, List.length_append] at hgt
      omega

end Cut

/-- Each message in a packet of its own. -/
lemma lossless_messages (rs : List Bytes) (final : Bytes) : Lossless rs (rs ++ [final]) := by
  induction rs with
  | nil => exact lossless_nil _
  | cons r rs ih => exact Lossless.cons (c := [r]) (by simp) ih

lemma carries_append {b : Bool} {ks : List (Packet τ)} {a c : List Bytes}
    (h : Carries b ks (a ++ c)) :
    ∃ ks₁ ks₂, ks = ks₁ ++ ks₂ ∧ Carries b ks₁ a ∧ Carries b ks₂ c := by
  rw [Carries, List.map_append, List.map_eq_append_iff] at h
  obtain ⟨ks₁, ks₂, rfl, h₁, h₂⟩ := h
  exact ⟨ks₁, ks₂, rfl, h₁, h₂⟩

lemma carries_singleton {b : Bool} {ks : List (Packet τ)} {w : Bytes} (h : Carries b ks [w]) :
    ∃ k, ks = [k] ∧ (k.request, k.data) = (b, .data w) := by
  rw [Carries, List.map_singleton, List.map_eq_singleton_iff] at h
  exact h

/-! ### Sessions that differ in what is not seen -/

/-- The sessions differ in the read buffer and in progress that is not reported. -/
structure Same (s s' : Session) : Prop where
  forget : s.forget = s'.forget
  total : s.parser.bytesTotalRead = s'.parser.bytesTotalRead

lemma Same.of_eq {s s' : Session} (h : s = s') : Same s s' := by
  subst h
  exact ⟨rfl, rfl⟩

lemma Same.symm {s s' : Session} (h : Same s s') : Same s' s := ⟨h.forget.symm, h.total.symm⟩

lemma Same.trans {s s' s'' : Session} (h : Same s s') (h' : Same s' s'') : Same s s'' :=
  ⟨h.forget.trans h'.forget, h.total.trans h'.total⟩

lemma Same.msg {s s' : Session} (h : Same s s') : s.msg = s'.msg :=
  (congrArg Session.msg h.forget : s.forget.msg = s'.forget.msg)

lemma Same.rawHeaders {s s' : Session} (h : Same s s') : rawHeaders s = rawHeaders s' :=
  (congrArg (fun s => HTTPProtocol.rawHeaders s) h.forget :
    HTTPProtocol.rawHeaders s.forget = HTTPProtocol.rawHeaders s'.forget)

lemma same_restart {s s' : Session} (h : s.forget = s'.forget) : Same (restart s) (restart s') :=
  ⟨(congrArg (fun s => (restart s).forget) h : (restart s.forget).forget =
    (restart s'.forget).forget), rfl⟩

/-- A parser that starts again is ready, and has counted no bytes. -/
structure Reader (s : Session) : Prop where
  ready : s.parser.messageParseState ≠ .parseEnd → s.Ready
  total : s.parser.bytesTotalRead < sizeMod

lemma reader_restart (s : Session) : Reader (restart s) where
  ready _ := ⟨by simp [HTTPProtocol.restart, HTTPParser.reset],
    by simp [HTTPProtocol.restart, HTTPParser.reset]⟩
  total := by
    show 0 < sizeMod
    decide

/-- A parser at its end takes nothing. -/
lemma Reader.ready_of_rest {s : Session} (h : Reader s) {w : Bytes} (hw : w ≠ [])
    (hrest : (s.read w).rest = []) : s.Ready := by
  refine h.ready fun hend => hw ?_
  have hmark : (s.setReadBuffer w).markData.parser = (s.setReadBuffer w).parser :=
    parser_markData _
  have hst : (s.setReadBuffer w).markData.parser.messageParseState = .parseEnd := by
    rw [hmark]
    exact hend
  have hround : (s.setReadBuffer w).markData.parseRound = (.yes, (s.setReadBuffer w).markData) := by
    rw [parseRound, hst]
  have hloop : parseLoop maxRounds 0 (s.setReadBuffer w).markData =
      (.yes, 0, (s.setReadBuffer w).markData) := by
    have hst' : (s.setReadBuffer w).parser.messageParseState = .parseEnd := hend
    rw [maxRounds, parseLoop, hround]
    simp [hst']
  have hbuf : (s.read w).rest = (s.setReadBuffer w).markData.parser.readBuf := by
    rw [Session.read, outcome, parse, hloop]
    rfl
  rw [← hrest, hbuf, hmark]
  rfl

/-! ### Pieces of a message -/

lemma readAll_total {s : Session} (pieces : List Bytes) (hs : s.parser.bytesTotalRead < sizeMod)
    (hno : (readAll s pieces).result ≠ some .no) :
    ∃ k, (readAll s pieces).rest.length + k = pieces.flatten.length ∧
      (readAll s pieces).state.parser.bytesTotalRead =
        (s.parser.bytesTotalRead + k) % sizeMod := by
  induction pieces generalizing s with
  | nil => exact ⟨0, rfl, by rw [Nat.add_zero, Nat.mod_eq_of_lt hs]; rfl⟩
  | cons w pieces ih =>
    obtain ⟨k, hk, -, htotal⟩ := counts_read s w
    cases hr : (s.read w).result with
    | none =>
      have hall : readAll s (w :: pieces) =
          ⟨(readAll (s.read w).state pieces).result,
            (s.read w).rest ++ (readAll (s.read w).state pieces).rest,
            (readAll (s.read w).state pieces).state⟩ := feedAll_none hr pieces
      rw [hall] at hno ⊢
      have ht := htotal (by rw [hr]; simp) hs
      obtain ⟨l, hl, hl'⟩ := ih (s := (s.read w).state)
        (by rw [ht]; exact Nat.mod_lt _ (by decide)) hno
      refine ⟨k + l, ?_, ?_⟩
      · rw [List.flatten_cons, List.length_append, List.length_append]
        omega
      · dsimp only
        rw [hl', ht, Nat.mod_add_mod, Nat.add_assoc]
    | some rc =>
      have hall : readAll s (w :: pieces) =
          ⟨some rc, (s.read w).rest ++ pieces.flatMap id, (s.read w).state⟩ :=
        feedAll_some hr pieces
      rw [hall] at hno ⊢
      refine ⟨k, ?_, htotal (hr ▸ hno) hs⟩
      rw [List.flatMap_id, List.flatten_cons, List.length_append, List.length_append]
      omega

/-- The pieces of a text are read like the text from a session that looks the same. -/
lemma readAll_forget {s s' : Session} (h : Same s s') (hs' : s'.Ready) {pieces : List Bytes}
    (hpieces : ∀ w ∈ pieces, w ≠ []) :
    (readAll s pieces).map Session.forget =
      (scan dataTurn s' pieces.flatten).map Session.forget := by
  have hs : s.Ready := ready_congr (congrArg Session.parser h.forget).symm hs'
  rw [readAll_eq hs hpieces, dataTurn_respects.scan h.forget]

/-- The result, the rest and the session for a message in pieces are those for the message. -/
lemma readAll_same {s s' : Session} (h : Same s s') (hs' : Reader s') {pieces : List Bytes}
    (hpieces : ∀ w ∈ pieces, w ≠ []) {w : Bytes} (hw : w ≠ []) (hflatten : pieces.flatten = w)
    (hrest : (s'.read w).rest = []) (hno : (s'.read w).result ≠ some .no) :
    (readAll s pieces).result = (s'.read w).result ∧ (readAll s pieces).rest = [] ∧
      Same (readAll s pieces).state (s'.read w).state := by
  have hready := hs'.ready_of_rest hw hrest
  have hall := readAll_forget h hready hpieces
  have hone := run_read hready hw
  rw [hflatten, ← hone] at hall
  have hresult := congrArg Scanned.result hall
  have hrest' := congrArg Scanned.rest hall
  have hstate := congrArg Scanned.state hall
  refine ⟨hresult, hrest'.trans hrest, hstate, ?_⟩
  have hno' : (readAll s pieces).result ≠ some .no := fun hc => hno (hresult.symm.trans hc)
  obtain ⟨k, hk, htotal⟩ := readAll_total pieces (h.total ▸ hs'.total) hno'
  obtain ⟨l, hl, -, htotal'⟩ := counts_read s' w
  rw [htotal, htotal' hno hs'.total, h.total]
  have hnil : (readAll s pieces).rest = [] := hrest'.trans hrest
  rw [hnil, hflatten] at hk
  rw [hrest] at hl
  obtain rfl : k = l := Nat.add_left_cancel (hk.trans hl.symm)
  rfl

/-- The packet with the last piece of a message: there is a result, and the session is the one for
the message, whatever comes behind the message in the packet. -/
lemma read_through {s s' : Session} (h : Same s s') (hs' : Reader s') {r : Bytes}
    (hr : Complete s' r) {a : List Bytes} {w : Bytes} (hpieces : ∀ u ∈ a ++ [w], u ≠ [])
    (hhead : r <+: (a ++ [w]).flatten) (hbefore : a.flatten.length < r.length) :
    (readAll s a).result = none ∧ ((readAll s a).state.read w).result = some .yes ∧
      ((readAll s a).state.read w).state.forget = (s'.read r).state.forget := by
  have hready := hs'.ready_of_rest hr.ne_nil hr.rest
  have hone := run_read hready hr.ne_nil
  have hscan : (scan dataTurn s' r).result = some .yes :=
    (congrArg Scanned.result hone).symm.trans hr.result
  have hrest : (scan dataTurn s' r).rest = [] := (congrArg Scanned.rest hone).symm.trans hr.rest
  have hopen : (readAll s a).result = none := by
    have ha : a.flatten <+: r := by
      refine List.prefix_of_prefix_length_le ?_ hhead hbefore.le
      rw [List.flatten_append]
      exact List.prefix_append _ _
    obtain ⟨v, rfl⟩ := ha
    have hv : v ≠ [] := by
      rintro rfl
      simp at hbefore
    have hall := readAll_forget h hready fun u hu => hpieces u (List.mem_append_left _ hu)
    exact (congrArg Scanned.result hall).trans (scan_prefix_none hv hrest)
  obtain ⟨lost, hlost⟩ := hhead
  have hall := readAll_forget h hready hpieces
  have hsnoc : readAll s (a ++ [w]) =
      ⟨((readAll s a).state.read w).result,
        (readAll s a).rest ++ ((readAll s a).state.read w).rest,
        ((readAll s a).state.read w).state⟩ := feedAll_snoc hopen w
  rw [hsnoc, ← hlost, scan_append, Scanned.resume_some hscan] at hall
  exact ⟨hopen, congrArg Scanned.result hall,
    (congrArg Scanned.state hall).trans (congrArg Scanned.state hone).symm⟩

/-- A message in pieces comes to its result with the last piece. -/
lemma readAll_last {s : Session} {pieces : List Bytes} (hpieces : ∀ w ∈ pieces, w ≠ [])
    {rc : Tribool} (hresult : (readAll s pieces).result = some rc)
    (hrest : (readAll s pieces).rest = []) :
    ∃ a w, pieces = a ++ [w] ∧ (readAll s a).result = none ∧
      ((readAll s a).state.read w).result = some rc ∧
      ((readAll s a).state.read w).state = (readAll s pieces).state := by
  induction pieces generalizing s with
  | nil => cases hresult
  | cons w pieces ih =>
    cases hr : (s.read w).result with
    | none =>
      have hall : ∀ qs, readAll s (w :: qs) =
          ⟨(readAll (s.read w).state qs).result,
            (s.read w).rest ++ (readAll (s.read w).state qs).rest,
            (readAll (s.read w).state qs).state⟩ := feedAll_none hr
      rw [hall] at hresult hrest
      obtain ⟨a, u, rfl, hopen, hlast, hstate⟩ :=
        ih (fun v hv => hpieces v (List.mem_cons_of_mem w hv)) hresult
          (List.append_eq_nil_iff.1 hrest).2
      refine ⟨w :: a, u, rfl, ?_, ?_, ?_⟩
      · rw [hall]
        exact hopen
      · rw [hall]
        exact hlast
      · rw [hall, hall]
        exact hstate
    | some rc' =>
      have hall : readAll s (w :: pieces) =
          ⟨some rc', (s.read w).rest ++ pieces.flatMap id, (s.read w).state⟩ :=
        feedAll_some hr pieces
      rw [hall] at hresult hrest
      have hnil : pieces = [] := by
        rw [List.eq_nil_iff_forall_not_mem]
        intro u hu
        have hflat := (List.append_eq_nil_iff.1 hrest).2
        exact hpieces u (List.mem_cons_of_mem w hu) (List.flatMap_eq_nil_iff.1 hflat u hu)
      subst hnil
      refine ⟨[], w, rfl, rfl, hr.trans hresult, ?_⟩
      rw [hall]
      rfl

/-! ### Protocols that make the same events -/

lemma Same.setMsg {s s' : Session} (h : Same s s') (f : HTTPMessage → HTTPMessage) :
    Same { s with msg := f s.msg } { s' with msg := f s'.msg } :=
  ⟨(congrArg (fun s : Session => { s with msg := f s.msg }) h.forget :
    ({ s.forget with msg := f s.forget.msg } : Session) =
      { s'.forget with msg := f s'.forget.msg }), h.total⟩

lemma finish_forget (s : Session) : finish s.forget.parser = finish s.parser := by
  funext m
  have hst : s.forget.parser.messageParseState = s.parser.messageParseState := rfl
  rw [finish, finish, hst]
  cases h : s.parser.messageParseState with
  | parseContent => simp [forget, h]
  | _ => rfl

lemma Same.finishMessage {s s' : Session} (h : Same s s') :
    Same (finishMessage s) (HTTPProtocol.finishMessage s') := by
  have hfinish : finish s.parser = finish s'.parser := by
    rw [← finish_forget s, ← finish_forget s', h.forget]
  rw [HTTPProtocol.finishMessage, HTTPProtocol.finishMessage, h.msg]
  split_ifs
  · exact h
  · have hset := h.setMsg (finish s.parser)
    rw [h.msg] at hset
    rwa [← hfinish]

/-- The protocols have messages, totals and headers of the same looks. -/
structure Agree (p p' : HTTPProtocol τ) : Prop where
  request : Same p.request p'.request
  response : Same p.response p'.response

variable [LT τ] [DecidableLT τ]

@[simp] lemma saneTimes_request (p : HTTPProtocol τ) : (saneTimes p).request = p.request := by
  rw [saneTimes]
  split_ifs <;> split <;> (try split_ifs) <;> rfl

@[simp] lemma saneTimes_response (p : HTTPProtocol τ) : (saneTimes p).response = p.response := by
  rw [saneTimes]
  split_ifs <;> split <;> (try split_ifs) <;> rfl

lemma Agree.generateEvent {p p' : HTTPProtocol τ} (h : Agree p p')
    (extract : HTTPMessage → HTTPMessage → ρ) :
    (generateEvent extract p).fields = (HTTPProtocol.generateEvent extract p').fields := by
  simp only [ProtocolEvent.fields, HTTPProtocol.generateEvent, totalBytes, h.request.msg,
    h.response.msg, h.request.total, h.response.total, h.request.rawHeaders,
    h.response.rawHeaders]

lemma Agree.cacheFirstLine {p p' : HTTPProtocol τ} (h : Agree p p') :
    Agree (cacheFirstLine p) (HTTPProtocol.cacheFirstLine p') where
  request := h.request.setMsg fun m => m.getFirstLine.2
  response := by
    show Same (saneTimes p).response (saneTimes p').response
    rw [saneTimes_response, saneTimes_response]
    exact h.response

lemma Agree.close {p p' : HTTPProtocol τ} (h : Agree p p')
    (extract : HTTPMessage → HTTPMessage → ρ) (clientReset serverReset : Bool) :
    (close extract clientReset serverReset p).map id (Option.map ProtocolEvent.fields) =
      (HTTPProtocol.close extract clientReset serverReset p').map id
        (Option.map ProtocolEvent.fields) := by
  have hfinished : Agree
      { p with request := finishMessage p.request, response := finishMessage p.response }
      { p' with request := finishMessage p'.request, response := finishMessage p'.response } :=
    ⟨h.request.finishMessage, h.response.finishMessage⟩
  have hevent := hfinished.generateEvent extract
  have hrequest : (finishMessage p.request).msg = (finishMessage p'.request).msg :=
    h.request.finishMessage.msg
  have hresponse : (finishMessage p.response).msg = (finishMessage p'.response).msg :=
    h.response.finishMessage.msg
  have htotal : totalBytes (finishMessage p.request) = totalBytes (finishMessage p'.request) :=
    h.request.finishMessage.total
  rw [HTTPProtocol.close, HTTPProtocol.close]
  dsimp only
  rw [hrequest, hresponse, htotal]
  split_ifs
  · rfl
  · exact congrArg (fun e => (true, some e)) hevent
  · exact congrArg (fun e : ProtocolEvent τ ρ => (true, some { e with canceled := true })) hevent
  · exact congrArg (fun e : ProtocolEvent τ ρ => (true, some { e with refused := true })) hevent
  · exact congrArg (fun e => (false, some e)) hevent

/-- What comes of a run: the events, and what `close` then makes, without the packet counts and the
times. -/
def seen (extract : HTTPMessage → HTTPMessage → ρ)
    (x : HTTPProtocol τ × List (ProtocolEvent τ ρ)) :
    List (ProtocolEvent τ ρ) × (Bool → Bool → Bool × Option (ProtocolEvent τ ρ)) :=
  (x.2.map ProtocolEvent.fields, fun clientReset serverReset =>
    (close extract clientReset serverReset x.1).map id (Option.map ProtocolEvent.fields))

lemma Agree.seen {p p' : HTTPProtocol τ} (h : Agree p p')
    (extract : HTTPMessage → HTTPMessage → ρ) {es es' : List (ProtocolEvent τ ρ)}
    (hes : es.map ProtocolEvent.fields = es'.map ProtocolEvent.fields) :
    seen extract (p, es) = HTTPProtocol.seen extract (p', es') :=
  Prod.ext hes (funext fun clientReset => funext fun serverReset =>
    h.close extract clientReset serverReset)

/-! ### Steps -/

/-- The parser of a direction, with its message. -/
def side (p : HTTPProtocol τ) : Bool → Session
  | true => p.request
  | false => p.response

omit [LT τ] [DecidableLT τ] in
@[simp] lemma side_true (p : HTTPProtocol τ) : p.side true = p.request := rfl

omit [LT τ] [DecidableLT τ] in
@[simp] lemma side_false (p : HTTPProtocol τ) : p.side false = p.response := rfl

variable (extract : HTTPMessage → HTTPMessage → ρ) {p : HTTPProtocol τ}

lemma known_eq_none {rc : Tribool} (h : known rc = none) : rc = .indeterminate := by
  cases rc <;> first | rfl | cases h

lemma known_eq_yes {rc : Tribool} (h : known rc = some .yes) : rc = .yes := by
  cases rc <;> first | rfl | cases h

/-- A packet that leaves its message open. -/
lemma step_open {b : Bool} {k : Packet τ} {w : Bytes} (hk : (k.request, k.data) = (b, .data w))
    (h : ((p.side b).read w).result = none) (es : List (ProtocolEvent τ ρ)) :
    ∃ p', step extract (p, es) k = some (p', es) ∧ p'.side b = ((p.side b).read w).state ∧
      p'.side (!b) = p.side (!b) := by
  obtain ⟨request, data, dataTime, ackTime⟩ := k
  obtain ⟨rfl, rfl⟩ := Prod.mk.inj hk
  dsimp only at h
  cases request with
  | true =>
    rw [side_true] at h ⊢
    have hrc := known_eq_none h
    refine ⟨{ p with
      request := (p.request.read w).state
      cs := countPacket p.cs ⟨true, .data w, dataTime, ackTime⟩ }, ?_, ?_, ?_⟩
    · simp [step, readNext, parsePacket, hrc, Session.read, outcome]
    · rw [side_true]
    · rw [Bool.not_true, side_false, side_false]
  | false =>
    rw [side_false] at h ⊢
    have hrc := known_eq_none h
    refine ⟨{ p with
      response := (p.response.read w).state
      sc := countPacket p.sc ⟨false, .data w, dataTime, ackTime⟩ }, ?_, ?_, ?_⟩
    · simp [step, readNext, parsePacket, hrc, Session.read, outcome]
    · rw [side_false]
    · rw [Bool.not_false, side_true, side_true]

/-- The packet with the end of the request. -/
lemma step_request {k : Packet τ} {w : Bytes} (hk : (k.request, k.data) = (true, .data w))
    (h : (p.request.read w).result = some .yes) (es : List (ProtocolEvent τ ρ)) :
    ∃ p', step extract (p, es) k = some (p', es) ∧ p'.request = (p.request.read w).state ∧
      p'.response = prepareResponse p.response (p.request.read w).state.msg := by
  obtain ⟨request, data, dataTime, ackTime⟩ := k
  obtain ⟨rfl, rfl⟩ := Prod.mk.inj hk
  have hrc : (p.request.setReadBuffer w).parse.1 = .yes := known_eq_yes h
  exact ⟨{ p with
    request := (p.request.read w).state
    response := prepareResponse p.response (p.request.read w).state.msg
    cs := countPacket p.cs ⟨true, .data w, dataTime, ackTime⟩ },
    by simp [step, readNext, parsePacket, hrc, Session.read, outcome], rfl, rfl⟩

/-- The packet with the end of a response 100. -/
lemma step_continue {k : Packet τ} {w : Bytes} (hk : (k.request, k.data) = (false, .data w))
    (h : (p.response.read w).result = some .yes)
    (hstatus : getStatusCode (p.response.read w).state.msg = responseCodeContinue)
    (es : List (ProtocolEvent τ ρ)) :
    ∃ p', step extract (p, es) k = some (p', es) ∧ p'.request = p.request ∧
      p'.response = restart (p.response.read w).state := by
  obtain ⟨request, data, dataTime, ackTime⟩ := k
  obtain ⟨rfl, rfl⟩ := Prod.mk.inj hk
  have hrc : (p.response.setReadBuffer w).parse.1 = .yes := known_eq_yes h
  have hstatus' : getStatusCode (p.response.setReadBuffer w).parse.2.msg = responseCodeContinue :=
    hstatus
  exact ⟨{ p with response := restart (p.response.read w).state, sc := {} },
    by simp [step, readNext, finishResponse, parsePacket, hrc, hstatus', Session.read, outcome],
    rfl, rfl⟩

/-- The packet with the end of a response that is not skipped. -/
lemma step_final {k : Packet τ} {w : Bytes} (hk : (k.request, k.data) = (false, .data w))
    (h : (p.response.read w).result = some .yes)
    (hstatus : getStatusCode (p.response.read w).state.msg ≠ responseCodeContinue)
    (hvalid : p.request.msg.isValid = true) (es : List (ProtocolEvent τ ρ)) :
    ∃ p', step extract (p, es) k = some (cacheFirstLine p', es ++ [generateEvent extract p']) ∧
      p'.request = p.request ∧ p'.response = (p.response.read w).state := by
  obtain ⟨request, data, dataTime, ackTime⟩ := k
  obtain ⟨rfl, rfl⟩ := Prod.mk.inj hk
  have hrc : (p.response.setReadBuffer w).parse.1 = .yes := known_eq_yes h
  have hstatus' : getStatusCode (p.response.setReadBuffer w).parse.2.msg ≠ responseCodeContinue :=
    hstatus
  exact ⟨{ p with
    response := (p.response.read w).state
    sc := countPacket p.sc ⟨false, .data w, dataTime, ackTime⟩ },
    by simp [step, readNext, finishResponse, parsePacket, hrc, hstatus', hvalid, Session.read,
      outcome], rfl, rfl⟩

/-! ### Runs over a message -/

/-- Packets that leave their message open. -/
lemma run_open {b : Bool} {ks : List (Packet τ)} {pieces : List Bytes}
    (hks : Carries b ks pieces) (h : (readAll (p.side b) pieces).result = none)
    (es : List (ProtocolEvent τ ρ)) :
    ∃ p', run (step extract) (p, es) ks = some (p', es) ∧
      p'.side b = (readAll (p.side b) pieces).state ∧ p'.side (!b) = p.side (!b) := by
  induction pieces generalizing p ks with
  | nil =>
    obtain rfl : ks = [] := by simpa [Carries] using hks
    exact ⟨p, rfl, rfl, rfl⟩
  | cons w pieces ih =>
    obtain ⟨ks₁, ks', rfl, hone, hks'⟩ := carries_append (a := [w]) hks
    obtain ⟨k, rfl, hk⟩ := carries_singleton hone
    cases hr : ((p.side b).read w).result with
    | none =>
      have hall : readAll (p.side b) (w :: pieces) =
          ⟨(readAll ((p.side b).read w).state pieces).result,
            ((p.side b).read w).rest ++ (readAll ((p.side b).read w).state pieces).rest,
            (readAll ((p.side b).read w).state pieces).state⟩ := feedAll_none hr pieces
      rw [hall] at h ⊢
      obtain ⟨u, hu, hside, hother⟩ := step_open extract hk hr es
      rw [← hside] at h
      obtain ⟨p', hrun, hside', hother'⟩ := ih hks' h
      refine ⟨p', ?_, ?_, hother'.trans hother⟩
      · rw [List.singleton_append, run_cons, hu, Option.bind_some, hrun]
      · rw [hside', hside]
    | some rc =>
      have hall : readAll (p.side b) (w :: pieces) =
          ⟨some rc, ((p.side b).read w).rest ++ pieces.flatMap id, ((p.side b).read w).state⟩ :=
        feedAll_some hr pieces
      rw [hall] at h
      cases h

/-- The packets of the request. -/
lemma run_request {q : Bytes} (hq : Complete p.request q) (hp : Reader p.request)
    {ks : List (Packet τ)} {pieces : List Bytes} (hpieces : ∀ w ∈ pieces, w ≠ [])
    (hflatten : pieces.flatten = q) (hks : Carries true ks pieces)
    (es : List (ProtocolEvent τ ρ)) :
    ∃ p', run (step extract) (p, es) ks = some (p', es) ∧
      Same p'.request (p.request.read q).state ∧ p'.response = prepared p q := by
  have hno : (p.request.read q).result ≠ some .no := by
    rw [hq.result]
    simp
  obtain ⟨hresult, hrest, hsame⟩ :=
    readAll_same (Same.of_eq rfl) hp hpieces hq.ne_nil hflatten hq.rest hno
  obtain ⟨a, w, rfl, hopen, hlast, hstate⟩ :=
    readAll_last hpieces (hresult.trans hq.result) hrest
  obtain ⟨ks₁, ks₂, rfl, hks₁, hks₂⟩ := carries_append hks
  obtain ⟨k, rfl, hk⟩ := carries_singleton hks₂
  obtain ⟨u, hu, hside, hother⟩ := run_open (p := p) extract hks₁ hopen es
  have hrequest : u.request = (readAll p.request a).state := hside
  have hresponse : u.response = p.response := hother
  rw [← hrequest] at hlast hstate
  obtain ⟨p', hp', hrequest', hresponse'⟩ := step_request extract hk hlast es
  refine ⟨p', ?_, ?_, ?_⟩
  · rw [run_append, hu, Option.bind_some, run_cons, hp']
    rfl
  · rw [hrequest', hstate]
    exact hsame
  · rw [hresponse', hstate, hsame.msg, hresponse]
    rfl

/-- The packets with a response 100; what its last packet has behind it is lost. -/
lemma run_continue {s' : Session} (hs : Same p.response s') (hs' : Reader s') {r : Bytes}
    (hr : Complete s' r) (hstatus : getStatusCode (s'.read r).state.msg = responseCodeContinue)
    {a : List Bytes} {w : Bytes} (hpieces : ∀ u ∈ a ++ [w], u ≠ [])
    (hhead : r <+: (a ++ [w]).flatten) (hbefore : a.flatten.length < r.length)
    {ks : List (Packet τ)} (hks : Carries false ks (a ++ [w])) (es : List (ProtocolEvent τ ρ)) :
    ∃ p', run (step extract) (p, es) ks = some (p', es) ∧ p'.request = p.request ∧
      Same p'.response (restart (s'.read r).state) := by
  obtain ⟨hopen, hlast, hstate⟩ := read_through hs hs' hr hpieces hhead hbefore
  obtain ⟨ks₁, ks₂, rfl, hks₁, hks₂⟩ := carries_append hks
  obtain ⟨k, rfl, hk⟩ := carries_singleton hks₂
  obtain ⟨u, hu, hside, hother⟩ := run_open (p := p) extract hks₁ hopen es
  have hresponse : u.response = (readAll p.response a).state := hside
  have hrequest : u.request = p.request := hother
  rw [← hresponse] at hlast hstate
  have hmsg : (u.response.read w).state.msg = (s'.read r).state.msg :=
    (congrArg Session.msg hstate : (u.response.read w).state.forget.msg =
      (s'.read r).state.forget.msg)
  obtain ⟨p', hp', hrequest', hresponse'⟩ :=
    step_continue extract hk hlast (hmsg ▸ hstatus) es
  refine ⟨p', ?_, hrequest'.trans hrequest, ?_⟩
  · rw [run_append, hu, Option.bind_some, run_cons, hp']
    rfl
  · rw [hresponse']
    exact same_restart hstate

/-- The protocol and the events when the last response has been read. -/
def concluded (extract : HTTPMessage → HTTPMessage → ρ) (x : Scanned Byte Session Tribool)
    (es : List (ProtocolEvent τ ρ)) (p : HTTPProtocol τ) :
    HTTPProtocol τ × List (ProtocolEvent τ ρ) :=
  if x.result = none then (p, es) else (cacheFirstLine p, es ++ [generateEvent extract p])

/-- The packets with the last response. -/
lemma run_final {s' : Session} (hs : Same p.response s') (hs' : Reader s') {w : Bytes}
    (hw : Final s' w) (hvalid : p.request.msg.isValid = true) {ks : List (Packet τ)}
    {pieces : List Bytes} (hpieces : ∀ u ∈ pieces, u ≠ []) (hflatten : pieces.flatten = w)
    (hks : Carries false ks pieces) (es : List (ProtocolEvent τ ρ)) :
    ∃ p', run (step extract) (p, es) ks = some (concluded extract (s'.read w) es p') ∧
      p'.request = p.request ∧ Same p'.response (s'.read w).state := by
  obtain ⟨hresult, hrest, hsame⟩ :=
    readAll_same hs hs' hpieces hw.ne_nil hflatten hw.rest hw.result_ne_no
  rcases hw.result with h | ⟨h, hstatus⟩
  · obtain ⟨p', hp', hside, hother⟩ :=
      run_open (p := p) extract hks (hresult.trans h) es
    have hresponse : p'.response = (readAll p.response pieces).state := hside
    refine ⟨p', ?_, hother, ?_⟩
    · rw [concluded, if_pos h]
      exact hp'
    · rw [hresponse]
      exact hsame
  · obtain ⟨a, u, rfl, hopen, hlast, hstate⟩ := readAll_last hpieces (hresult.trans h) hrest
    obtain ⟨ks₁, ks₂, rfl, hks₁, hks₂⟩ := carries_append hks
    obtain ⟨k, rfl, hk⟩ := carries_singleton hks₂
    obtain ⟨v, hv, hside, hother⟩ := run_open (p := p) extract hks₁ hopen es
    have hresponse : v.response = (readAll p.response a).state := hside
    have hrequest : v.request = p.request := hother
    rw [← hresponse] at hlast hstate
    have hmsg : (v.response.read u).state.msg = (s'.read w).state.msg := by
      rw [hstate, hsame.msg]
    obtain ⟨p', hp', hrequest', hresponse'⟩ :=
      step_final extract hk hlast (hmsg ▸ hstatus) (hrequest ▸ hvalid) es
    refine ⟨p', ?_, hrequest'.trans hrequest, ?_⟩
    · rw [concluded, if_neg (by rw [h]; simp), run_append, hv, Option.bind_some, run_cons, hp']
      rfl
    · rw [hresponse', hstate]
      exact hsame

/-! ### Runs over the responses -/

/-- If no packet goes on behind a response 100, the responses are read one after the other. -/
theorem run_lossless {s' : Session} (hs : Same p.response s') (hs' : Reader s')
    {rs : List Bytes} {final : Bytes} (hrs : Continues s' rs) (hfinal : Final (behind s' rs) final)
    (hvalid : p.request.msg.isValid = true) {pieces : List Bytes}
    (hpieces : ∀ w ∈ pieces, w ≠ []) (hflatten : pieces.flatten = rs.flatten ++ final)
    (hlossless : Lossless rs pieces) {ks : List (Packet τ)} (hks : Carries false ks pieces)
    (es : List (ProtocolEvent τ ρ)) :
    ∃ p', run (step extract) (p, es) ks =
        some (concluded extract ((behind s' rs).read final) es p') ∧
      p'.request = p.request ∧ Same p'.response ((behind s' rs).read final).state := by
  induction rs generalizing p s' pieces ks with
  | nil => exact run_final extract hs hs' hfinal hvalid hpieces hflatten hks es
  | cons r rs ih =>
    obtain ⟨hr, hstatus, hrs⟩ := hrs
    have hlen := congrArg List.length hflatten
    rw [List.flatten_cons, List.append_assoc, List.length_append] at hlen
    obtain ⟨a, w, b, rfl, hlt, hle⟩ :=
      split_pieces (List.length_pos_iff.2 hr.ne_nil) (by omega : r.length ≤ pieces.flatten.length)
    have heq : (a ++ [w]).flatten.length = r.length := by
      by_contra hne
      exact hlossless a w b rfl ⟨r.length, endsAt_head r rs, hlt, by omega⟩
    have hsplit : a ++ w :: b = a ++ [w] ++ b := by simp
    rw [hsplit] at hks hpieces hflatten hlossless
    rw [List.flatten_append, List.flatten_cons, List.append_assoc] at hflatten
    obtain ⟨hfirst, hrest⟩ := List.append_inj hflatten heq
    obtain ⟨ks₁, ks₂, rfl, hks₁, hks₂⟩ := carries_append hks
    obtain ⟨u, hu, hrequest, hsame⟩ := run_continue extract hs hs' hr hstatus
      (fun v hv => hpieces v (List.mem_append_left b hv)) (hfirst ▸ List.prefix_refl _) hlt hks₁ es
    obtain ⟨p', hp', hrequest', hsame'⟩ := ih hsame (reader_restart _) hrs hfinal
      (hrequest ▸ hvalid) (fun v hv => hpieces v (List.mem_append_right _ hv)) hrest
      (hlossless.tail heq) hks₂
    refine ⟨p', ?_, hrequest'.trans hrequest, hsame'⟩
    rw [run_append, hu, Option.bind_some, hp']
    rfl

/-- If a packet goes on behind a response 100 into the final response, then the parser starts again
with fewer bytes to come than the final response has. -/
theorem run_lossy {s' : Session} (hs : Same p.response s') (hs' : Reader s') {rs : List Bytes}
    {final : Bytes} (hrs : Continues s' rs) {pieces : List Bytes} (hpieces : ∀ w ∈ pieces, w ≠ [])
    (hflatten : pieces.flatten = rs.flatten ++ final) (hreaching : Reaching rs pieces)
    (hlossy : ¬ Lossless rs pieces) {ks : List (Packet τ)} (hks : Carries false ks pieces)
    (es : List (ProtocolEvent τ ρ)) :
    ∃ p' ks' pieces', run (step extract) (p, es) ks = run (step extract) (p', es) ks' ∧
      Carries false ks' pieces' ∧ totalBytes p'.response = 0 ∧
      pieces'.flatten.length < final.length := by
  induction rs generalizing p s' pieces ks with
  | nil => exact absurd (lossless_nil pieces) hlossy
  | cons r rs ih =>
    obtain ⟨hr, hstatus, hrs⟩ := hrs
    have hlen := congrArg List.length hflatten
    rw [List.length_append, List.flatten_cons, List.length_append] at hlen
    obtain ⟨a, w, b, rfl, hlt, hle⟩ :=
      split_pieces (List.length_pos_iff.2 hr.ne_nil) (by omega : r.length ≤ pieces.flatten.length)
    have hcut := hreaching a w b rfl
    have hsplit : a ++ w :: b = a ++ [w] ++ b := by simp
    rw [hsplit] at hks hpieces hflatten hreaching hlossy hlen
    rw [List.flatten_append, List.length_append] at hlen
    have hhead : r <+: (a ++ [w]).flatten := by
      have hall : r <+: (a ++ [w] ++ b).flatten := by
        rw [hflatten, List.flatten_cons, List.append_assoc]
        exact List.prefix_append _ _
      exact List.prefix_of_prefix_length_le hall ⟨b.flatten, List.flatten_append.symm⟩ hle
    obtain ⟨ks₁, ks₂, rfl, hks₁, hks₂⟩ := carries_append hks
    obtain ⟨u, hu, hrequest, hsame⟩ := run_continue extract hs hs' hr hstatus
      (fun v hv => hpieces v (List.mem_append_left b hv)) hhead hlt hks₁ es
    have hrun : run (step extract) (p, es) (ks₁ ++ ks₂) = run (step extract) (u, es) ks₂ := by
      rw [run_append, hu, Option.bind_some]
    rw [hrun]
    by_cases heq : (a ++ [w]).flatten.length = r.length
    · rw [List.flatten_append, List.flatten_cons, List.append_assoc] at hflatten
      obtain ⟨-, hrest⟩ := List.append_inj hflatten heq
      exact ih hsame (reader_restart _) hrs
        (fun v hv => hpieces v (List.mem_append_right _ hv)) hrest (hreaching.tail heq)
        (fun h => hlossy (h.cons heq)) hks₂
    · have hreach := hcut ⟨r.length, endsAt_head r rs, hlt, by omega⟩
      rw [List.flatten_cons, List.length_append] at hreach
      exact ⟨u, ks₂, b, rfl, hks₂, hsame.total, by omega⟩

/-- What a step adds to the total of the responses, and to the events. -/
lemma step_small {n : ℕ} {k : Packet τ} {w : Bytes} (hk : (k.request, k.data) = (false, .data w))
    (h : totalBytes p.response + w.length < n) {es es' : List (ProtocolEvent τ ρ)}
    {p' : HTTPProtocol τ} (hes : ∀ e ∈ es, e.scBytes < n)
    (hstep : step extract (p, es) k = some (p', es')) :
    totalBytes p'.response ≤ totalBytes p.response + w.length ∧ ∀ e ∈ es', e.scBytes < n := by
  obtain ⟨request, data, dataTime, ackTime⟩ := k
  obtain ⟨rfl, rfl⟩ := Prod.mk.inj hk
  obtain ⟨l, hl, htotal, -⟩ := counts_read p.response w
  have hle : totalBytes (p.response.setReadBuffer w).parse.2 ≤
      totalBytes p.response + w.length := by
    have : totalBytes (p.response.read w).state ≤ totalBytes p.response + l := htotal
    exact this.trans (by omega)
  rw [step, readNext, if_neg (by simp)] at hstep
  dsimp only [parsePacket] at hstep
  rcases hx : (p.response.setReadBuffer w).parse with ⟨rc, s⟩
  rw [hx] at hstep hle
  dsimp only at hstep hle
  cases rc with
  | no => simp at hstep
  | indeterminate =>
    simp only [reduceCtorEq, if_false, Option.toList_none, List.append_nil, Option.some.injEq,
      Prod.mk.injEq] at hstep
    obtain ⟨rfl, rfl⟩ := hstep
    exact ⟨hle, hes⟩
  | yes =>
    rw [if_pos rfl, finishResponse] at hstep
    dsimp only at hstep
    split_ifs at hstep with hcontinue hvalid
    · simp only [Option.toList_none, List.append_nil, Option.some.injEq, Prod.mk.injEq] at hstep
      obtain ⟨rfl, rfl⟩ := hstep
      exact ⟨Nat.zero_le _, hes⟩
    · simp only [Option.toList_some, Option.some.injEq, Prod.mk.injEq] at hstep
      obtain ⟨rfl, rfl⟩ := hstep
      refine ⟨?_, ?_⟩
      · show totalBytes (saneTimes _).response ≤ _
        rw [saneTimes_response]
        exact hle
      · intro e he
        rcases List.mem_append.1 he with he | he
        · exact hes e he
        · rw [List.mem_singleton.1 he]
          exact hle.trans_lt h

/-- A run with few bytes makes only events with few bytes. -/
lemma run_small {n : ℕ} {ks : List (Packet τ)} {pieces : List Bytes}
    (hks : Carries false ks pieces) (h : totalBytes p.response + pieces.flatten.length < n)
    {es es' : List (ProtocolEvent τ ρ)} {p' : HTTPProtocol τ} (hes : ∀ e ∈ es, e.scBytes < n)
    (hrun : run (step extract) (p, es) ks = some (p', es')) :
    totalBytes p'.response < n ∧ ∀ e ∈ es', e.scBytes < n := by
  induction pieces generalizing p ks es with
  | nil =>
    obtain rfl : ks = [] := by simpa [Carries] using hks
    obtain ⟨rfl, rfl⟩ := Prod.mk.inj (Option.some.inj hrun)
    rw [List.flatten_nil, List.length_nil] at h
    exact ⟨h, hes⟩
  | cons w pieces ih =>
    rw [List.flatten_cons, List.length_append] at h
    obtain ⟨ks₁, ks', rfl, hone, hks'⟩ := carries_append (a := [w]) hks
    obtain ⟨k, rfl, hk⟩ := carries_singleton hone
    rw [List.singleton_append, run_cons, Option.bind_eq_some_iff] at hrun
    obtain ⟨⟨u, fs⟩, hu, hrun⟩ := hrun
    obtain ⟨htotal, hfs⟩ := step_small extract hk (by omega) hes hu
    exact ih hks' (by omega) hfs hrun

/-! ### Exchanges in packets -/

omit [LT τ] [DecidableLT τ] in
lemma Started.parsers (h : Started p) :
    (p.request.parser.messageParseState = .parseStart ∧ totalBytes p.request = 0) ∧
      p.response.parser.messageParseState = .parseStart ∧ totalBytes p.response = 0 := by
  rcases h with ⟨_, _, _, _, rfl⟩ | ⟨_, rfl⟩ <;> exact ⟨⟨rfl, rfl⟩, rfl, rfl⟩

lemma reader_of_start {s : Session} (hst : s.parser.messageParseState = .parseStart)
    (htotal : totalBytes s = 0) : Reader s where
  ready _ := ⟨by rw [hst]; simp, by rw [hst]; simp⟩
  total := by
    show totalBytes s < sizeMod
    rw [htotal]
    decide

/-- The parser of the responses is ready for them, unless it is at its end already. -/
lemma reader_skipHeaderParsing {s : Session} (hst : s.parser.messageParseState = .parseStart)
    (htotal : totalBytes s = 0) : Reader (skipHeaderParsing s) where
  ready := by
    show s.finishHeaderParsing.2.parser.messageParseState ≠ .parseEnd →
      s.finishHeaderParsing.2.Ready
    rw [finishHeaderParsing_eq]
    intro hend
    cases hf : framing s.parser.isRequest s.headed with
    | empty =>
      rw [hf] at hend
      exact absurd rfl hend
    | invalidLength => exact ⟨by simp [startBody, hst], by simp [startBody, hst]⟩
    | length n =>
      obtain ⟨hpos, hlt⟩ := framing_length hf
      exact ⟨by simp [startBody], fun _ => ⟨hpos, by simpa [startBody] using hlt⟩⟩
    | chunked | untilEof => exact ⟨by simp [startBody], by simp [startBody]⟩
  total := by
    show s.finishHeaderParsing.2.parser.bytesTotalRead < sizeMod
    rw [finishHeaderParsing_total]
    exact (reader_of_start hst htotal).total

omit [LT τ] [DecidableLT τ] in
lemma Started.reader_prepared (h : Started p) (q : Bytes) : Reader (prepared p q) := by
  obtain ⟨-, hst, htotal⟩ := h.parsers
  rw [prepared, prepareResponse]
  split_ifs
  · exact reader_skipHeaderParsing hst htotal
  · exact reader_of_start hst htotal

/-- What comes of the last response when all of it is there. -/
lemma concluded_seen {x : Scanned Byte Session Tribool} {p' : HTTPProtocol τ} (h : Agree p p')
    {es : List (ProtocolEvent τ ρ)} :
    seen extract (concluded extract x es p) = seen extract (concluded extract x es p') := by
  rw [concluded, concluded]
  split_ifs
  · exact h.seen extract rfl
  · refine h.cacheFirstLine.seen extract ?_
    rw [List.map_append, List.map_append, List.map_singleton, List.map_singleton,
      h.generateEvent extract]

omit [LT τ] [DecidableLT τ] in
/-- A parser that has been skipped counts from zero. -/
lemma totalBytes_behind {s : Session} {rs : List Bytes} (hrs : rs ≠ []) :
    totalBytes (behind s rs) = 0 := by
  induction rs generalizing s with
  | nil => exact absurd rfl hrs
  | cons r rs ih =>
    by_cases h : rs = []
    · subst h
      rfl
    · exact ih h

omit [LT τ] [DecidableLT τ] in
lemma totalBytes_finishMessage (s : Session) : totalBytes (finishMessage s) = totalBytes s := by
  rw [finishMessage]
  split_ifs <;> rfl

/-- The bytes of the responses in the event that `close` makes. -/
lemma close_scBytes (clientReset serverReset : Bool) :
    (close extract clientReset serverReset p).2.map (fun e => e.fields.scBytes) =
      if totalBytes p.request = 0 then none else some (totalBytes p.response) := by
  rw [close]
  dsimp only
  rw [totalBytes_finishMessage]
  split_ifs <;> first | rfl | exact congrArg some (totalBytes_finishMessage p.response)

/-- Few bytes of a response are seen. -/
lemma seen_ne_of_small {x : Scanned Byte Session Tribool} {n : ℕ}
    (hrequest : totalBytes p.request ≠ 0) (hresponse : totalBytes p.response = n)
    {p' : HTTPProtocol τ} {es' : List (ProtocolEvent τ ρ)} (htotal : totalBytes p'.response < n)
    (hes' : ∀ e ∈ es', e.scBytes < n) :
    seen extract (p', es') ≠ seen extract (concluded extract x [] p) := by
  intro heq
  rw [concluded] at heq
  split_ifs at heq
  · -- the connection is closed behind the last response
    have hclose : (close extract false false p').2.map ProtocolEvent.fields =
        (close extract false false p).2.map ProtocolEvent.fields :=
      congrArg (fun y => (y.2 false false).2) heq
    have hbytes := congrArg (Option.map ProtocolEvent.scBytes) hclose
    rw [Option.map_map, Option.map_map] at hbytes
    have hsmall := (close_scBytes extract (p := p') false false).symm.trans
      (hbytes.trans (close_scBytes extract (p := p) false false))
    rw [if_neg hrequest, hresponse] at hsmall
    split_ifs at hsmall
    have hn := Option.some.inj hsmall
    omega
  · have hevents := congrArg Prod.fst heq
    have hmem : (generateEvent extract p).fields ∈ es'.map ProtocolEvent.fields := by
      rw [show es'.map ProtocolEvent.fields = [(generateEvent extract p).fields] from hevents]
      exact List.mem_singleton_self _
    obtain ⟨e, he, hfields⟩ := List.mem_map.1 hmem
    have hbytes : e.scBytes = n :=
      (congrArg ProtocolEvent.scBytes hfields).trans hresponse
    have hlt := hes' e he
    omega

/-- A message that is read to its end is counted. -/
lemma totalBytes_read {s : Session} (hs : totalBytes s = 0) {w : Bytes}
    (hrest : (s.read w).rest = []) (hno : (s.read w).result ≠ some .no) (hw : w.length < sizeMod) :
    totalBytes (s.read w).state = w.length := by
  obtain ⟨k, hk, -, htotal⟩ := counts_read s w
  have hs' : s.parser.bytesTotalRead = 0 := hs
  rw [hrest, List.length_nil, Nat.zero_add] at hk
  show (s.read w).state.parser.bytesTotalRead = w.length
  rw [htotal hno (by rw [hs']; decide), hs', Nat.zero_add, hk, Nat.mod_eq_of_lt hw]

/-- If no packet goes on behind the end of a response 100, then what comes of an exchange does not
depend on the packets.  If some do, and go on into the final response, then it is not what comes of
the exchange when each message has a packet of its own. -/
theorem packets_agree (hp : Started p) {q final : Bytes} {rs : List Bytes}
    (h : Exchange p q rs final) {requestPieces responsePieces : List Bytes}
    (hrequest : requestPieces.flatten = q)
    (hresponse : responsePieces.flatten = rs.flatten ++ final)
    (hpieces : ∀ w ∈ requestPieces ++ responsePieces, w ≠ []) {requests responses : List (Packet τ)}
    (hrequests : Carries true requests requestPieces)
    (hresponses : Carries false responses responsePieces) {single : List (Packet τ)}
    {singles : List (Packet τ)} (hsingle : Carries true single [q])
    (hsingles : Carries false singles (rs ++ [final])) :
    (Lossless rs responsePieces →
      (run (step extract) (p, []) (requests ++ responses)).map (seen extract) =
        (run (step extract) (p, []) (single ++ singles)).map (seen extract)) ∧
    (Reaching rs responsePieces → q.length < sizeMod → final.length < sizeMod →
      (run (step extract) (p, []) (requests ++ responses)).map (seen extract) =
        (run (step extract) (p, []) (single ++ singles)).map (seen extract) →
      Lossless rs responsePieces) := by
  obtain ⟨⟨hst, htotal⟩, -⟩ := hp.parsers
  have hreader := hp.reader_prepared q
  have hvalid := isValid_of_read h.request.result
  have hall : ∀ w ∈ requestPieces, w ≠ [] := fun w hw => hpieces w (List.mem_append_left _ hw)
  have hall' : ∀ w ∈ responsePieces, w ≠ [] := fun w hw => hpieces w (List.mem_append_right _ hw)
  have hmessages : ∀ w ∈ rs ++ [final], w ≠ [] := fun w hw => by
    rcases List.mem_append.1 hw with hw | hw
    · exact h.continues.ne_nil w hw
    · exact List.mem_singleton.1 hw ▸ h.final.ne_nil
  -- the run with a packet for each message
  obtain ⟨u, hu, hsame, hprepared⟩ := run_request extract h.request (reader_of_start hst htotal)
    (fun w hw => List.mem_singleton.1 hw ▸ h.request.ne_nil) (List.flatten_singleton) hsingle []
  obtain ⟨v, hv, hrequestv, hsamev⟩ := run_lossless extract (Same.of_eq hprepared) hreader
    h.continues h.final (hsame.msg ▸ hvalid) hmessages (by simp) (lossless_messages rs final)
    hsingles []
  -- the run with the packets
  obtain ⟨u', hu', hsame', hprepared'⟩ := run_request extract h.request
    (reader_of_start hst htotal) hall hrequest hrequests []
  rw [run_append, run_append, hu, hu', Option.bind_some, Option.bind_some, hv]
  constructor
  · intro hlossless
    obtain ⟨v', hv', hrequestv', hsamev'⟩ := run_lossless extract (Same.of_eq hprepared')
      hreader h.continues h.final (hsame'.msg ▸ hvalid) hall' hresponse hlossless hresponses []
    have hagree : Agree v' v := by
      refine ⟨?_, hsamev'.trans hsamev.symm⟩
      rw [hrequestv', hrequestv]
      exact hsame'.trans hsame.symm
    rw [hv', Option.map_some, Option.map_some, concluded_seen extract hagree]
  · intro hreaching hq hlen heq
    by_contra hlossy
    obtain ⟨v', ks', pieces', hrun, hks', hzero, hless⟩ := run_lossy extract
      (Same.of_eq hprepared') hreader h.continues hall' hresponse hreaching hlossy hresponses []
    have hrs : rs ≠ [] := by
      rintro rfl
      exact hlossy (lossless_nil _)
    have hrequest' : totalBytes v.request ≠ 0 := by
      have hread := totalBytes_read htotal h.request.rest (by rw [h.request.result]; simp) hq
      have hpos := List.length_pos_iff.2 h.request.ne_nil
      rw [hrequestv, show totalBytes u.request = totalBytes (p.request.read q).state from
        hsame.total]
      omega
    have hresponse' : totalBytes v.response = final.length :=
      (show totalBytes v.response = totalBytes _ from hsamev.total).trans
        (totalBytes_read (totalBytes_behind hrs) h.final.rest h.final.result_ne_no hlen)
    rw [hrun, Option.map_some, Option.map_eq_some_iff] at heq
    obtain ⟨⟨w, es⟩, hrun', hseen⟩ := heq
    obtain ⟨hsmall, hes⟩ := run_small extract hks' (by rw [hzero, Nat.zero_add]; exact hless)
      (fun e he => absurd he List.not_mem_nil) hrun'
    exact seen_ne_of_small extract hrequest' hresponse' hsmall hes hseen

/-! ### An exchange with one response 100 -/

def smallRequest : Bytes := ascii "POST / HTTP/1.1\r\nContent-Length: 2\r\n\r\nhi"

def smallContinue : Bytes := ascii "HTTP/1.1 100 Continue\r\n\r\n"

def smallFinal : Bytes := ascii "HTTP/1.1 200 OK\r\nContent-Length: 2\r\n\r\nok"

def smallProtocol : HTTPProtocol ℕ := new 100 100 true true

/-- The pieces in packets with a time each. -/
def packets (b : Bool) (pieces : List Bytes) : List (Packet ℕ) :=
  pieces.zipIdx.map fun x => ⟨b, .data x.1, x.2, x.2⟩

lemma carries_packets (b : Bool) (pieces : List Bytes) : Carries b (packets b pieces) pieces := by
  rw [Carries, packets, List.map_map]
  conv_rhs => rw [← List.zipIdx_map_fst 0 pieces, List.map_map]
  rfl

lemma started_smallProtocol : Started smallProtocol := Or.inl ⟨100, 100, true, true, rfl⟩

lemma exchange_small : Exchange smallProtocol smallRequest [smallContinue] smallFinal where
  request := ⟨by decide +kernel, by decide +kernel, by decide +kernel⟩
  continues :=
    ⟨⟨by decide +kernel, by decide +kernel, by decide +kernel⟩, by decide +kernel, trivial⟩
  final := ⟨by decide +kernel, by decide +kernel, by decide +kernel⟩

/-- What comes of the packets of the small exchange. -/
def smallOutcome (requestPieces responsePieces : List Bytes) :=
  (run (step fun _ _ => ()) (smallProtocol, [])
    (packets true requestPieces ++ packets false responsePieces)).map (seen fun _ _ => ())

/-- Cut inside of the messages, and between the responses, the exchange makes the same event; with
the end of the response 100 in one packet with the beginning of the other one, it does not. -/
theorem packets_agree_small :
    let requestPieces := [ascii "POST / HT", ascii "TP/1.1\r\nContent-Length: 2\r\n\r\nhi"]
    smallOutcome requestPieces [ascii "HTTP/1.1 100 Cont", ascii "inue\r\n\r\n",
        ascii "HTTP/1.1 200 OK\r\nContent-Le", ascii "ngth: 2\r\n\r\nok"] =
      smallOutcome [smallRequest] [smallContinue, smallFinal] ∧
    smallOutcome requestPieces [ascii "HTTP/1.1 100 Continue\r\n\r\nHT",
        ascii "TP/1.1 200 OK\r\nContent-Length: 2\r\n\r\nok"] ≠
      smallOutcome [smallRequest] [smallContinue, smallFinal] := by
  constructor
  · refine (packets_agree _ started_smallProtocol exchange_small (by decide +kernel)
      (by decide +kernel) (by decide +kernel) (carries_packets true _) (carries_packets false _)
      (carries_packets true _) (carries_packets false _)).1 ?_
    exact Lossless.cons (c := [ascii "HTTP/1.1 100 Cont", ascii "inue\r\n\r\n"])
      (by decide +kernel) (lossless_nil _)
  · intro heq
    have hlossless := (packets_agree _ started_smallProtocol exchange_small (by decide +kernel)
      (by decide +kernel) (by decide +kernel) (carries_packets true _) (carries_packets false _)
      (carries_packets true _) (carries_packets false _)).2 (reaching_singleton _ _)
      (by decide +kernel) (by decide +kernel) heq
    exact hlossless [] _ _ rfl
      ⟨smallContinue.length, endsAt_head _ [], by decide +kernel, by decide +kernel⟩

/-- In one packet with the final response, the response 100 takes the final response with it: there
is no event, as opposed to one event if each message has a packet of its own. -/
theorem packets_disagree :
    Started smallProtocol ∧ Exchange smallProtocol smallRequest [smallContinue] smallFinal ∧
      [smallContinue ++ smallFinal].flatten = [smallContinue].flatten ++ smallFinal ∧
      Carries true (packets true [smallRequest]) [smallRequest] ∧
      Carries false (packets false [smallContinue ++ smallFinal]) [smallContinue ++ smallFinal] ∧
      smallOutcome [smallRequest] [smallContinue ++ smallFinal] ≠
        smallOutcome [smallRequest] [smallContinue, smallFinal] := by
  refine ⟨started_smallProtocol, exchange_small, by simp, carries_packets true _,
    carries_packets false _, fun heq => ?_⟩
  have hevents := congrArg (Option.map fun y => y.1.length) heq
  exact absurd hevents (by decide +kernel)

end HTTPProtocol

end PionCore.Platform
