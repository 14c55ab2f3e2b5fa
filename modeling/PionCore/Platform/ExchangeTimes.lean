/-
# The times of an exchange

Each direction keeps the time of its first packet, and the greatest one with its acknowledgement.
The event of an exchange has the differences of these times in microseconds, as far as 32 bits can
hold them.

A packet is one with data; what is read behind a skipped response 100 (Continue) is the response.
Times are counted in microseconds.
-/
import PionCore.Platform.HTTPProtocol

namespace PionCore.Platform

open PionCore.Lib PionCore.Net

/-- The durations of an event. -/
structure Durations (α : Type*) where
  csSendTime : α
  csAckTime : α
  scReplyTime : α
  scSendTime : α
  dataCenterTime : α
  scAckTime : α
deriving DecidableEq

namespace Durations

/-- The pairs of times that the durations are defined by, with the later one first. -/
def ofTimes {α : Type*} (f : Option ℤ → Option ℤ → α) (cs sc : Traffic ℤ) : Durations α where
  csSendTime := f cs.endTime cs.startTime
  csAckTime := f cs.ackTime cs.endTime
  scReplyTime := f sc.startTime cs.endTime
  scSendTime := f sc.endTime sc.startTime
  dataCenterTime := f sc.endTime cs.endTime
  scAckTime := f sc.ackTime sc.endTime

/-- All of them meet a condition. -/
def All {α : Type*} (p : α → Prop) (d : Durations α) : Prop :=
  p d.csSendTime ∧ p d.csAckTime ∧ p d.scReplyTime ∧ p d.scSendTime ∧ p d.dataCenterTime ∧
    p d.scAckTime

def map {α β : Type*} (f : α → β) (d : Durations α) : Durations β :=
  ⟨f d.csSendTime, f d.csAckTime, f d.scReplyTime, f d.scSendTime, f d.dataCenterTime,
    f d.scAckTime⟩

end Durations

/-- `total_microseconds` of a difference that is set with `setUInt`, or zero. -/
def durationField : Option ℤ → Option ℤ → UInt32
  | some a, some b => if a > b then UInt32.ofInt (a - b) else 0
  | _, _ => 0

/-- The difference of two times, or zero if it is negative. -/
def difference : Option ℤ → Option ℤ → ℤ
  | some a, some b => max (a - b) 0
  | _, _ => 0

/-- The durations that `generateEvent` sets. -/
def ProtocolEvent.durations {ρ : Type*} (e : ProtocolEvent ℤ ρ) : Durations UInt32 :=
  Durations.ofTimes durationField e.cs e.sc

/-- The time of a packet and of its acknowledgement. -/
structure Stamp where
  data : ℤ
  ack : ℤ
deriving DecidableEq

/-- The first packet with the greatest time. -/
def latest : List Stamp → Option Stamp :=
  List.foldl (fun last s =>
    match last with
    | none => some s
    | some l => if l.data < s.data then some s else some l) none

/-- The times of the packets of a direction. -/
def timesOf (stamps : List Stamp) : Traffic ℤ where
  startTime := stamps.head?.map Stamp.data
  endTime := (stamps.map Stamp.data).max?
  ackTime := (latest stamps).map Stamp.ack

/-- The times of an exchange: a direction without packets has the times of the other one, and the
response is not acknowledged before its end. -/
def exchangeTimes (cs sc : List Stamp) : Traffic ℤ × Traffic ℤ :=
  let request :=
    if cs = [] then
      { startTime := (timesOf sc).startTime, endTime := (timesOf sc).startTime,
        ackTime := (timesOf sc).startTime }
    else timesOf cs
  let response :=
    if cs ≠ [] ∧ sc = [] then
      { startTime := (timesOf cs).endTime, endTime := (timesOf cs).endTime,
        ackTime := (timesOf cs).endTime }
    else timesOf sc
  (request, { response with
    ackTime :=
      match response.ackTime, response.endTime with
      | some ack, some last => some (max ack last)
      | ack, _ => ack })

/-- The same times; the counters are left out. -/
def Traffic.SameTimes (t u : Traffic ℤ) : Prop :=
  t.startTime = u.startTime ∧ t.endTime = u.endTime ∧ t.ackTime = u.ackTime

/-- The protocol in an exchange, with the stamps of the packets in both directions. -/
structure Exchange where
  protocol : HTTPProtocol ℤ
  cs : List Stamp := []
  sc : List Stamp := []

namespace Exchange

open HTTPProtocol

variable {ρ : Type*} (extract : HTTPMessage → HTTPMessage → ρ)

/-- What comes to the protocol: a packet, or the end of the connection. -/
inductive Input where
  | packet (k : Packet ℤ)
  | close (clientReset serverReset : Bool)

/-- The stamps of a packet; missing data has none. -/
def stampsOf (k : Packet ℤ) : List Stamp :=
  match k.data with
  | .data _ => [⟨k.dataTimestamp, k.ackTimestamp⟩]
  | .missing _ => []

/-- The packet completes a response 100 (Continue), which is skipped. -/
def skips (p : HTTPProtocol ℤ) (k : Packet ℤ) : Bool :=
  ! k.request && (parsePacket p.response k.data).1 = .yes &&
    getStatusCode (parsePacket p.response k.data).2.msg = responseCodeContinue

/-- The requests' stamps behind a packet. -/
def nextCs (s : Exchange) (k : Packet ℤ) : List Stamp :=
  if k.request then s.cs ++ stampsOf k else s.cs

/-- The stamps of the response behind a packet. -/
def nextSc (s : Exchange) (k : Packet ℤ) : List Stamp :=
  if skips s.protocol k then [] else if k.request then s.sc else s.sc ++ stampsOf k

/-- The event of an input. -/
def event (s : Exchange) : Input → Option (ProtocolEvent ℤ ρ)
  | .packet k => (readNext extract s.protocol k).2.2
  | .close clientReset serverReset =>
    (HTTPProtocol.close extract clientReset serverReset s.protocol).2

/-- The stamps behind an input. -/
def stamps (s : Exchange) : Input → List Stamp × List Stamp
  | .packet k => (s.nextCs k, s.nextSc k)
  | .close _ _ => (s.cs, s.sc)

/-- A packet of an exchange, which is over when it makes an event. -/
def step (s : Exchange) (k : Packet ℤ) : Option Exchange :=
  if (readNext extract s.protocol k).2.2.isSome then none
  else some ⟨(readNext extract s.protocol k).2.1, s.nextCs k, s.nextSc k⟩

/-- A protocol with any messages and parsers, when it has been reset. -/
def start (request response : Session) : Exchange where
  protocol := { request := request, response := response }

/-- The times that are kept are those of the stamps. -/
def Kept (s : Exchange) : Prop :=
  s.protocol.cs.SameTimes (timesOf s.cs) ∧ s.protocol.sc.SameTimes (timesOf s.sc)

/-- The fields of the event are the exact differences of the times of an exchange. -/
def ExactDurations (e : ProtocolEvent ℤ ρ) (cs sc : List Stamp) : Prop :=
  e.durations.map (fun f => (f.toNat : ℤ)) =
    Durations.ofTimes difference (exchangeTimes cs sc).1 (exchangeTimes cs sc).2

variable {extract}

/-! ### Packets of one direction -/

lemma latest_concat (stamps : List Stamp) (s : Stamp) : latest (stamps ++ [s]) =
    match latest stamps with
    | none => some s
    | some l => if l.data < s.data then some s else some l := by
  rw [latest, List.foldl_append]
  rfl

lemma max_concat (l : List ℤ) (x : ℤ) : (l ++ [x]).max? =
    match l.max? with
    | none => some x
    | some m => some (max m x) := by
  cases l with
  | nil => rfl
  | cons y l =>
    rw [List.cons_append, List.max?_cons', List.foldl_append, List.max?_cons']
    rfl

/-- The latest packet has the greatest time. -/
lemma latest_data (stamps : List Stamp) :
    (latest stamps).map Stamp.data = (stamps.map Stamp.data).max? := by
  induction stamps using List.reverseRecOn with
  | nil => rfl
  | append_singleton stamps s ih =>
    rw [latest_concat, List.map_append, List.map_singleton, max_concat, ← ih]
    cases latest stamps with
    | none => rfl
    | some l =>
      dsimp only [Option.map_some]
      split_ifs with hlt
      · rw [Option.map_some, max_eq_right hlt.le]
      · rw [Option.map_some, max_eq_left (not_lt.1 hlt)]

/-- A step of one direction: the packet is counted. -/
lemma countPacket_sameTimes {t : Traffic ℤ} {stamps : List Stamp} (k : Packet ℤ)
    (h : t.SameTimes (timesOf stamps)) :
    (countPacket t k).SameTimes (timesOf (stamps ++ stampsOf k)) := by
  obtain ⟨hstart, hend, hack⟩ := h
  rw [countPacket, stampsOf]
  cases hdata : k.data with
  | missing len =>
    dsimp only
    rw [List.append_nil]
    exact ⟨hstart, hend, hack⟩
  | data w =>
    have hlatest := latest_data stamps
    rcases stamps with - | ⟨first, rest⟩
    · -- the first packet sets all three times
      have hnone : t.startTime = none := hstart
      simp only [hnone]
      exact ⟨rfl, rfl, rfl⟩
    · have hsome : t.startTime = some first.data := hstart
      cases hl : latest (first :: rest) with
      | none =>
        rw [hl] at hlatest
        exact absurd hlatest.symm (by simp)
      | some l =>
        rw [hl, Option.map_some] at hlatest
        have hlast : t.endTime = some l.data := hend.trans hlatest.symm
        have hacked : t.ackTime = some l.ack := by
          rw [hack, timesOf, hl]
          rfl
        have hmax := max_concat ((first :: rest).map Stamp.data) k.dataTimestamp
        have hnext := latest_concat (first :: rest) ⟨k.dataTimestamp, k.ackTimestamp⟩
        rw [← hlatest] at hmax
        rw [hl] at hnext
        dsimp only at hmax hnext
        simp only [hsome, hlast]
        have hend' : (timesOf (first :: rest ++ [⟨k.dataTimestamp, k.ackTimestamp⟩])).endTime =
            some (max l.data k.dataTimestamp) := by
          rw [timesOf, List.map_append, List.map_singleton]
          exact hmax
        -- a later packet brings its acknowledgement along, an earlier one does not
        by_cases hlt : l.data < k.dataTimestamp
        · rw [if_pos hlt] at hnext ⊢
          refine ⟨rfl, ?_, ?_⟩
          · rw [hend', max_eq_right hlt.le]
          · rw [timesOf, hnext]
            rfl
        · rw [if_neg hlt] at hnext ⊢
          refine ⟨rfl, ?_, ?_⟩
          · rw [hend', max_eq_left (not_lt.1 hlt)]
          · rw [timesOf, hnext]
            exact hacked

/-! ### Steps of the protocol -/

/-- What a packet does to the times of the protocol: they are those of the next stamps, also of a
protocol of which an event is made. -/
lemma readNext_times {s : Exchange} (h : s.Kept) (k : Packet ℤ) :
    ((readNext extract s.protocol k).2.2 = none →
      (readNext extract s.protocol k).2.1.cs.SameTimes (timesOf (s.nextCs k)) ∧
      (readNext extract s.protocol k).2.1.sc.SameTimes (timesOf (s.nextSc k))) ∧
    ∀ e, (readNext extract s.protocol k).2.2 = some e → ∃ q : HTTPProtocol ℤ,
      e = generateEvent extract q ∧ q.cs.SameTimes (timesOf (s.nextCs k)) ∧
        q.sc.SameTimes (timesOf (s.nextSc k)) := by
  obtain ⟨hcs, hsc⟩ := h
  by_cases hrequest : k.request = true
  · have hskip : skips s.protocol k = false := by simp [skips, hrequest]
    have hcount := countPacket_sameTimes k hcs
    have hnextCs : s.nextCs k = s.cs ++ stampsOf k := if_pos hrequest
    have hnextSc : s.nextSc k = s.sc := by
      rw [nextSc, hskip, if_neg Bool.false_ne_true, if_pos hrequest]
    rw [hnextCs, hnextSc, readNext, if_pos hrequest]
    dsimp only
    split_ifs
    · exact ⟨fun _ => ⟨hcount, hsc⟩, fun e he => by cases he⟩
    · exact ⟨fun _ => ⟨hcount, hsc⟩, fun e he => by cases he⟩
  · have hcount := countPacket_sameTimes k hsc
    have hnextCs : s.nextCs k = s.cs := if_neg hrequest
    rw [hnextCs, readNext, if_neg hrequest]
    dsimp only
    by_cases hyes : (parsePacket s.protocol.response k.data).1 = .yes
    · rw [if_pos hyes, finishResponse]
      dsimp only
      by_cases hcontinue : getStatusCode (parsePacket s.protocol.response k.data).2.msg =
          responseCodeContinue
      · -- the times of the skipped response are forgotten
        have hskip : skips s.protocol k = true := by simp [skips, hrequest, hyes, hcontinue]
        rw [if_pos hcontinue, nextSc, hskip, if_pos rfl]
        exact ⟨fun _ => ⟨hcs, rfl, rfl, rfl⟩, fun e he => by cases he⟩
      · have hskip : skips s.protocol k = false := by simp [skips, hcontinue]
        have hnextSc : s.nextSc k = s.sc ++ stampsOf k := by
          rw [nextSc, hskip, if_neg Bool.false_ne_true, if_neg hrequest]
        rw [if_neg hcontinue, hnextSc]
        split_ifs
        · exact ⟨fun he => (by cases he), fun e he => ⟨_, (Option.some.inj he).symm, hcs, hcount⟩⟩
        · exact ⟨fun _ => ⟨hcs, hcount⟩, fun e he => by cases he⟩
    · have hskip : skips s.protocol k = false := by simp [skips, hyes]
      have hnextSc : s.nextSc k = s.sc ++ stampsOf k := by
        rw [nextSc, hskip, if_neg Bool.false_ne_true, if_neg hrequest]
      rw [if_neg hyes, hnextSc]
      exact ⟨fun _ => ⟨hcs, hcount⟩, fun e he => by cases he⟩

/-- A step keeps the times. -/
lemma Kept.step {s s' : Exchange} (h : s.Kept) {k : Packet ℤ} (hstep : step extract s k = some s') :
    s'.Kept := by
  rw [Exchange.step] at hstep
  split_ifs at hstep with hevent
  obtain rfl := Option.some.inj hstep
  exact (readNext_times h k).1 (by simpa using hevent)

/-- The event of an input is made of a protocol with the times of the stamps. -/
lemma event_times {s : Exchange} (h : s.Kept) {i : Input} {e : ProtocolEvent ℤ ρ}
    (he : event extract s i = some e) : ∃ q : HTTPProtocol ℤ,
      e.cs = (saneTimes q).cs ∧ e.sc = (saneTimes q).sc ∧
        q.cs.SameTimes (timesOf (s.stamps i).1) ∧ q.sc.SameTimes (timesOf (s.stamps i).2) := by
  cases i with
  | packet k =>
    obtain ⟨q, rfl, hcs, hsc⟩ := (readNext_times h k).2 e he
    exact ⟨q, rfl, rfl, hcs, hsc⟩
  | close clientReset serverReset =>
    refine ⟨{ s.protocol with
      request := finishMessage s.protocol.request
      response := finishMessage s.protocol.response }, ?_, ?_, h.1, h.2⟩
    all_goals
      rw [event, HTTPProtocol.close] at he
      dsimp only at he
      split_ifs at he
      all_goals
        obtain rfl := Option.some.inj he
        rfl

/-- A direction without packets has the times of the other one. -/
def filled (q : HTTPProtocol ℤ) : HTTPProtocol ℤ :=
  if q.cs.startTime.isNone then
    { q with cs := { q.cs with
      startTime := q.sc.startTime, endTime := q.sc.startTime, ackTime := q.sc.startTime } }
  else if q.sc.startTime.isNone then
    { q with sc := { q.sc with
      startTime := q.cs.endTime, endTime := q.cs.endTime, ackTime := q.cs.endTime } }
  else q

/-- The response is not acknowledged before its end. -/
lemma saneTimes_filled (q : HTTPProtocol ℤ) :
    (saneTimes q).cs = (filled q).cs ∧
      (saneTimes q).sc.startTime = (filled q).sc.startTime ∧
      (saneTimes q).sc.endTime = (filled q).sc.endTime ∧
      (saneTimes q).sc.ackTime =
        match (filled q).sc.ackTime, (filled q).sc.endTime with
        | some ack, some last => some (max ack last)
        | ack, _ => ack := by
  unfold saneTimes
  rw [← filled]
  generalize filled q = p
  dsimp only
  cases hack : p.sc.ackTime with
  | none => exact ⟨rfl, rfl, rfl, hack⟩
  | some ack =>
    cases hend : p.sc.endTime with
    | none => exact ⟨rfl, rfl, hend, hack⟩
    | some last =>
      dsimp only
      split_ifs with hlt
      · exact ⟨rfl, rfl, rfl, by rw [max_eq_right hlt.le]⟩
      · exact ⟨rfl, rfl, hend, by rw [hack, max_eq_left (not_lt.1 hlt)]⟩

/-- The sanity checks give the times of the exchange. -/
lemma saneTimes_eq {q : HTTPProtocol ℤ} {cs sc : List Stamp} (hcs : q.cs.SameTimes (timesOf cs))
    (hsc : q.sc.SameTimes (timesOf sc)) :
    (saneTimes q).cs.SameTimes (exchangeTimes cs sc).1 ∧
      (saneTimes q).sc.SameTimes (exchangeTimes cs sc).2 := by
  obtain ⟨hstart, hend, hack⟩ := hcs
  obtain ⟨hstart', hend', hack'⟩ := hsc
  obtain ⟨h1, h2, h3, h4⟩ := saneTimes_filled q
  rcases cs with - | ⟨c, cs⟩
  · have hnone : q.cs.startTime.isNone = true := by rw [hstart]; rfl
    rw [filled, if_pos hnone] at h1 h2 h3 h4
    refine ⟨?_, h2.trans hstart', h3.trans hend', h4.trans ?_⟩
    · rw [h1]
      exact ⟨hstart', hstart', hstart'⟩
    · simp only [exchangeTimes, hack', hend', ne_eq, not_true_eq_false, false_and, if_false]
  · have hsome : ¬ q.cs.startTime.isNone = true := by rw [hstart]; simp [timesOf]
    rw [filled, if_neg hsome] at h1 h2 h3 h4
    rcases sc with - | ⟨d, sc⟩
    · have hnone : q.sc.startTime.isNone = true := by rw [hstart']; rfl
      rw [if_pos hnone] at h1 h2 h3 h4
      refine ⟨?_, h2.trans hend, h3.trans hend, h4.trans ?_⟩
      · rw [h1]
        exact ⟨hstart, hend, hack⟩
      · simp only [exchangeTimes, hend, ne_eq, reduceCtorEq, not_false_eq_true, true_and, if_true]
    · have hsome' : ¬ q.sc.startTime.isNone = true := by rw [hstart']; simp [timesOf]
      rw [if_neg hsome'] at h1 h2 h3 h4
      refine ⟨?_, h2.trans hstart', h3.trans hend', h4.trans ?_⟩
      · rw [h1]
        exact ⟨hstart, hend, hack⟩
      · simp only [exchangeTimes, hack', hend', reduceCtorEq, and_false, if_false]

/-! ### Durations -/

/-- The field has the last 32 bits of the difference. -/
lemma toNat_durationField (a b : Option ℤ) :
    ((durationField a b).toNat : ℤ) = difference a b % 2 ^ 32 := by
  cases a with
  | none => rfl
  | some a =>
    cases b with
    | none => rfl
    | some b =>
      rw [durationField, difference]
      split_ifs with hlt
      · have hofInt : ((UInt32.ofInt (a - b)).toNat : ℤ) = (a - b) % 2 ^ 32 := by
          rw [UInt32.ofInt, UInt32.toNat_ofNat']
          omega
        rw [hofInt, max_eq_left (by omega)]
      · rw [max_eq_right (by omega)]
        rfl

/-- A field is exact if and only if the difference has 32 bits. -/
lemma durationField_iff (a b : Option ℤ) :
    ((durationField a b).toNat : ℤ) = difference a b ↔ difference a b < 2 ^ 32 := by
  have hnonneg : 0 ≤ difference a b := by
    rw [difference.eq_def]
    split
    · exact le_max_right _ _
    · exact le_rfl
  rw [toNat_durationField]
  omega

lemma ofTimes_congr {α : Type*} (f : Option ℤ → Option ℤ → α) {cs cs' sc sc' : Traffic ℤ}
    (hcs : cs.SameTimes cs') (hsc : sc.SameTimes sc') :
    Durations.ofTimes f cs sc = Durations.ofTimes f cs' sc' := by
  obtain ⟨h1, h2, h3⟩ := hcs
  obtain ⟨h4, h5, h6⟩ := hsc
  rw [Durations.ofTimes, Durations.ofTimes, h1, h2, h3, h4, h5, h6]

/-- In every run of packets of an exchange, with any times, each direction keeps the time of its
first packet and the greatest time.  An event that is made of them has exact durations if and only
if no difference has more than 32 bits. -/
theorem timing_exact_iff (request response : Session) {packets : List (Packet ℤ)} {s : Exchange}
    (hrun : run (Exchange.step extract) (start request response) packets = some s) :
    s.Kept ∧ ∀ (i : Input) (e : ProtocolEvent ℤ ρ), event extract s i = some e →
      e.cs.SameTimes (exchangeTimes (s.stamps i).1 (s.stamps i).2).1 ∧
      e.sc.SameTimes (exchangeTimes (s.stamps i).1 (s.stamps i).2).2 ∧
      (ExactDurations e (s.stamps i).1 (s.stamps i).2 ↔
        (Durations.ofTimes difference (exchangeTimes (s.stamps i).1 (s.stamps i).2).1
          (exchangeTimes (s.stamps i).1 (s.stamps i).2).2).All (· < 2 ^ 32)) := by
  have hkept : s.Kept := run_invariant (P := Kept) (fun _ _ _ h hstep => h.step hstep)
    ⟨⟨rfl, rfl, rfl⟩, ⟨rfl, rfl, rfl⟩⟩ hrun
  refine ⟨hkept, fun i e he => ?_⟩
  -- the event has the times of `q` behind the sanity checks
  obtain ⟨q, hqcs, hqsc, hcs, hsc⟩ := event_times hkept he
  obtain ⟨hcs, hsc⟩ := saneTimes_eq hcs hsc
  rw [← hqcs] at hcs
  rw [← hqsc] at hsc
  refine ⟨hcs, hsc, ?_⟩
  rw [ExactDurations, ProtocolEvent.durations, ofTimes_congr durationField hcs hsc]
  simp only [Durations.map, Durations.ofTimes, Durations.All, Durations.mk.injEq,
    durationField_iff]

/-! ### Two packets -/

/-- An exchange with nothing to extract. -/
def newExchange : Exchange :=
  start (HTTPProtocol.new (τ := ℤ) 1024 1024 false false).request
    (HTTPProtocol.new (τ := ℤ) 1024 1024 false false).response

/-- The beginning of a request in two packets. -/
def twoPackets (first second : ℤ) : List (Packet ℤ) :=
  [{ request := true, data := .data (ascii "GET"), dataTimestamp := first, ackTimestamp := first },
    { request := true, data := .data (ascii " /"), dataTimestamp := second,
      ackTimestamp := second + 1 }]

def nothing (_ _ : HTTPMessage) : Unit := ()

/-- The second packet is older than the first one, and the connection is closed. -/
theorem timing_exact_iff_two :
    ∃ s, run (Exchange.step nothing) newExchange (twoPackets 7 4) = some s ∧
      ∀ e, event nothing s (.close true false) = some e →
        e.cs.startTime = some 7 ∧ e.cs.endTime = some 7 := by
  have hsome : ((run (Exchange.step nothing) newExchange (twoPackets 7 4)).map fun s =>
      (s.cs, s.sc)) = some ([⟨7, 7⟩, ⟨4, 5⟩], []) := by
    decide +kernel
  cases hrun : run (Exchange.step nothing) newExchange (twoPackets 7 4) with
  | none => rw [hrun] at hsome; cases hsome
  | some s =>
    rw [hrun] at hsome
    have hstamps : (s.cs, s.sc) = ([⟨7, 7⟩, ⟨4, 5⟩], []) := Option.some.inj hsome
    refine ⟨s, rfl, fun e he => ?_⟩
    have h := ((timing_exact_iff _ _ hrun).2 (.close true false) e he).1
    have hclose : s.stamps (.close true false) = ([⟨7, 7⟩, ⟨4, 5⟩], []) := hstamps
    rw [hclose] at h
    exact ⟨h.1, h.2.1⟩

/-- The second packet comes 2^32 microseconds later, and the duration is zero. -/
theorem not_timing_exact :
    ¬ ∀ (packets : List (Packet ℤ)) (s : Exchange) (i : Input) (e : ProtocolEvent ℤ Unit),
      run (Exchange.step nothing) newExchange packets = some s → event nothing s i = some e →
        ExactDurations e (s.stamps i).1 (s.stamps i).2 := by
  intro hall
  have hfield : ((run (Exchange.step nothing) newExchange (twoPackets 0 (2 ^ 32))).bind fun s =>
      (event nothing s (.close true false)).map fun e =>
        (e.durations.csSendTime, s.cs, s.sc)) =
      some (0, [⟨0, 0⟩, ⟨2 ^ 32, 2 ^ 32 + 1⟩], []) := by
    decide +kernel
  obtain ⟨s, hrun, hrest⟩ := Option.bind_eq_some_iff.1 hfield
  obtain ⟨e, he, hvalues⟩ := Option.map_eq_some_iff.1 hrest
  obtain ⟨hzero, hstamps⟩ := Prod.mk.inj hvalues
  have h := hall _ s _ e hrun he
  have hclose : s.stamps (.close true false) = ([⟨0, 0⟩, ⟨2 ^ 32, 2 ^ 32 + 1⟩], []) := hstamps
  rw [hclose, ExactDurations] at h
  have hsend := congrArg Durations.csSendTime h
  have hleft : ((e.durations.csSendTime.toNat : ℕ) : ℤ) = 2 ^ 32 := hsend
  rw [hzero] at hleft
  exact absurd hleft (by decide)

end Exchange

end PionCore.Platform
