/-
# The cache files of the log input reactor

`LogInputReactor` keeps the names of the logs that it has consumed in one file, and the names of
the logs that are open when it is stopped in another, with the numbers of their events.  `start`
reads the names of the first file as words, and takes everything in front of a `|` for a name in
the second one: the end of the line of an open log goes to the name of the next log.
-/
import PionCore.Platform.LogInputReactor

namespace PionCore.Platform

open PionCore.Lib

/-! ### Reading the cache of the open logs -/

/-- `operator>>` for an unsigned number: the number and the stream behind it, unless it fails in
front of the end of the stream. -/
def extract (s : Bytes) : Option (UInt64 × Bytes) :=
  let t := s.dropWhile isSpace
  let u := if t.head? = some 45 ∨ t.head? = some 43 then t.tail else t
  let digits := u.takeWhile isDigit
  let rest := u.dropWhile isDigit
  let n := readNumeral 10 digits
  if digits ≠ [] ∧ n < 2 ^ 64 then
    some (if t.head? = some 45 then -UInt64.ofNat n else UInt64.ofNat n, rest)
  else if rest = [] then some (if digits = [] then 0 else -1, [])
  else none

/-- The loop of `start`, in `n` turns at most: the entries of the cache.  There is no result when
the stream has failed, since it does not come to its end then. -/
def readEntries : ℕ → Bytes → Option (List (Bytes × UInt64))
  | 0, _ => some []
  | n + 1, s =>
      match getline 124 s with
      | (_, none) => some []
      | (name, some s) =>
          (extract s).bind fun e => (readEntries n e.2).map fun es => (name, e.1) :: es

/-- The entries of a cache, the last one first, as a map. -/
def restoredFrom (es : List (Bytes × UInt64)) (name : Bytes) : Option UInt64 :=
  SortedMap.find name es.reverse

/-- `LogInputReactor`, as far as its two cache files go. -/
structure LogCaches where
  logsConsumed : List Bytes := []
  historyCache : Option Bytes := none
  currentLogFileCache : Option Bytes := none
  numEventsReadPreviously : Bytes → Option UInt64 := fun _ => none

namespace LogCaches

def recordLogFileAsDone (s : LogCaches) (name : Bytes) : LogCaches :=
  { s with
    logsConsumed := s.logsConsumed.insert name
    historyCache := some (s.historyCache.getD [] ++ lines [name]) }

/-- `checkForLogFiles`: logs that are not there any more are forgotten. -/
def checkForLogFiles (s : LogCaches) (isThere : Bytes → Bool) : LogCaches :=
  let consumed := s.logsConsumed.filter isThere
  { s with
    logsConsumed := consumed
    historyCache := if consumed = [] then none else some (lines consumed) }

/-- `stop`, with these streams open. -/
def stop (s : LogCaches) (openStreams : List (Bytes × UInt64)) : LogCaches :=
  { s with
    currentLogFileCache :=
      if openStreams = [] then none
      else some (writeCurrent (openStreams.map fun e => (e.1, e.2.toNat))) }

/-- `start`, if it comes to an end. -/
def start (s : LogCaches) : Option LogCaches :=
  let s := { s with logsConsumed := (s.historyCache.map words).getD s.logsConsumed }
  match s.currentLogFileCache with
  | none => some s
  | some cache => (readEntries cache.length cache).map fun es =>
      { s with
        numEventsReadPreviously := fun name =>
          (restoredFrom es name).or (s.numEventsReadPreviously name)
        currentLogFileCache := none }

/-- A new reactor, with the files of the old one. -/
def renew (s : LogCaches) : LogCaches :=
  { historyCache := s.historyCache, currentLogFileCache := s.currentLogFileCache }

end LogCaches

inductive LogCachesEvent where
  | recordLogFileAsDone (name : Bytes)
  | checkForLogFiles (isThere : Bytes → Bool)
  | stop (openStreams : List (Bytes × UInt64))
  | start
  /-- a new reactor is started on the files of the old one -/
  | restart

namespace LogCaches

def step (s : LogCaches) : LogCachesEvent → Option LogCaches
  | .recordLogFileAsDone name => some (s.recordLogFileAsDone name)
  | .checkForLogFiles isThere => some (s.checkForLogFiles isThere)
  | .stop openStreams => some (s.stop openStreams)
  | .start => s.start
  | .restart => s.renew.start

variable {s s' : LogCaches} {name u w x : Bytes} {n : ℕ} {c : Byte}

/-! ### The consumed logs -/

/-- The history has lines with the same words as the names of the consumed logs. -/
def HistoryAgrees (s : LogCaches) : Prop :=
  (s.historyCache = none → s.logsConsumed = []) ∧
    ∃ names, s.historyCache.getD [] = lines names ∧
      ∀ w, w ∈ names.flatMap words ↔ w ∈ s.logsConsumed.flatMap words

lemma historyAgrees_new : ({} : LogCaches).HistoryAgrees :=
  ⟨fun _ => rfl, [], rfl, fun _ => Iff.rfl⟩

lemma HistoryAgrees.recordLogFileAsDone (h : s.HistoryAgrees) (name : Bytes) :
    (s.recordLogFileAsDone name).HistoryAgrees := by
  obtain ⟨-, names, hlines, hwords⟩ := h
  refine ⟨fun hnone => (Option.some_ne_none _ hnone).elim, names ++ [name], ?_, fun w => ?_⟩
  · rw [lines_append, ← hlines]
    rfl
  · have hinsert : w ∈ (s.logsConsumed.insert name).flatMap words ↔
        w ∈ words name ∨ w ∈ s.logsConsumed.flatMap words := by
      simp only [List.mem_flatMap, List.mem_insert_iff, or_and_right, exists_or, exists_eq_left]
    rw [List.flatMap_append, List.mem_append, hwords, List.flatMap_singleton]
    exact Or.comm.trans hinsert.symm

lemma historyAgrees_checkForLogFiles (s : LogCaches) (isThere : Bytes → Bool) :
    (s.checkForLogFiles isThere).HistoryAgrees := by
  rw [LogCaches.checkForLogFiles, HistoryAgrees]
  dsimp only
  split_ifs with hnil
  · exact ⟨fun _ => hnil, [], rfl, fun w => by rw [hnil]⟩
  · exact ⟨fun hnone => hnone.elim, _, rfl, fun _ => Iff.rfl⟩

/-- What `start` finds in the history. -/
def wordsRead (s : LogCaches) : List Bytes := (s.historyCache.map words).getD s.logsConsumed

lemma HistoryAgrees.mem_wordsRead (h : s.HistoryAgrees) :
    w ∈ s.wordsRead ↔ w ∈ s.logsConsumed.flatMap words := by
  obtain ⟨hnone, names, hlines, hwords⟩ := h
  rw [wordsRead]
  cases hcache : s.historyCache with
  | none => rw [hnone hcache]; rfl
  | some cache =>
    rw [hcache, Option.getD_some] at hlines
    rw [Option.map_some, Option.getD_some, hlines, words_lines_eq_flatMap, hwords]

/-- The words that were read take the place of the names. -/
lemma HistoryAgrees.read (h : s.HistoryAgrees) {t : LogCaches}
    (hcache : t.historyCache = s.historyCache) (hread : t.logsConsumed = s.wordsRead) :
    t.HistoryAgrees := by
  have hword : ∀ v ∈ s.wordsRead, IsWord v := by
    intro v hv
    obtain ⟨name, -, hname⟩ := List.mem_flatMap.1 (h.mem_wordsRead.1 hv)
    exact isWord_of_mem_words hname
  have hsame : ∀ v, v ∈ t.logsConsumed.flatMap words ↔ v ∈ s.wordsRead := by
    intro v
    rw [hread, List.mem_flatMap]
    constructor
    · rintro ⟨name, hname, hv⟩
      rw [(hword name hname).words_eq] at hv
      rwa [List.mem_singleton.1 hv]
    · intro hv
      exact ⟨v, hv, by rw [(hword v hv).words_eq]; exact List.mem_singleton_self v⟩
  refine ⟨fun hnone => ?_, ?_⟩
  · rw [hcache] at hnone
    rw [hread, wordsRead, hnone]
    exact h.1 hnone
  · obtain ⟨names, hlines, hwords⟩ := h.2
    refine ⟨names, by rw [hcache, hlines], fun v => ?_⟩
    rw [hwords, hsame, h.mem_wordsRead]

/-- `start` reads the history, whatever the other file has. -/
lemma start_history {t : LogCaches} (hstart : s.start = some t) :
    t.historyCache = s.historyCache ∧ t.logsConsumed = s.wordsRead := by
  rw [LogCaches.start] at hstart
  dsimp only at hstart
  cases hcurrent : s.currentLogFileCache with
  | none =>
    rw [hcurrent] at hstart
    obtain rfl := Option.some.inj hstart
    exact ⟨rfl, rfl⟩
  | some cache =>
    rw [hcurrent] at hstart
    obtain ⟨es, -, rfl⟩ := Option.map_eq_some_iff.1 hstart
    exact ⟨rfl, rfl⟩

/-- A new reactor reads what the old one would. -/
lemma HistoryAgrees.wordsRead_renew (h : s.HistoryAgrees) : s.renew.wordsRead = s.wordsRead := by
  rw [wordsRead, wordsRead, renew]
  dsimp only
  cases hcache : s.historyCache with
  | none => rw [h.1 hcache]
  | some cache => rfl

lemma HistoryAgrees.step (h : s.HistoryAgrees) {e : LogCachesEvent} (hstep : s.step e = some s') :
    s'.HistoryAgrees := by
  cases e with
  | recordLogFileAsDone name =>
    obtain rfl := Option.some.inj hstep
    exact h.recordLogFileAsDone name
  | checkForLogFiles isThere =>
    obtain rfl := Option.some.inj hstep
    exact historyAgrees_checkForLogFiles s isThere
  | stop openStreams =>
    obtain rfl := Option.some.inj hstep
    exact h
  | start =>
    obtain ⟨hcache, hread⟩ := start_history hstep
    exact h.read hcache hread
  | restart =>
    obtain ⟨hcache, hread⟩ := start_history hstep
    exact h.read hcache (hread.trans h.wordsRead_renew)

lemma historyAgrees_of_run {es : List LogCachesEvent} (h : run step {} es = some s) :
    s.HistoryAgrees :=
  run_invariant (fun _ _ _ hs hstep => hs.step hstep) historyAgrees_new h

/-- The names are read back if and only if they are words. -/
lemma HistoryAgrees.mem_wordsRead_iff (h : s.HistoryAgrees) :
    (∀ name, name ∈ s.wordsRead ↔ name ∈ s.logsConsumed) ↔
      ∀ name ∈ s.logsConsumed, IsWord name := by
  constructor
  · intro hsame name hname
    obtain ⟨other, -, hmem⟩ := List.mem_flatMap.1 (h.mem_wordsRead.1 ((hsame name).2 hname))
    exact isWord_of_mem_words hmem
  · intro hword name
    rw [h.mem_wordsRead, List.mem_flatMap]
    constructor
    · rintro ⟨other, hother, hmem⟩
      rw [(hword other hother).words_eq] at hmem
      rwa [List.mem_singleton.1 hmem]
    · intro hname
      exact ⟨name, hname, by rw [(hword name hname).words_eq]; exact List.mem_singleton_self name⟩

/-! ### The open logs -/

/-- White space, signs and digits end in front of a `|`. -/
lemma exists_dropWhile {p : Byte → Bool} (hc : p c = false) (u s : Bytes) :
    ∃ v, v.length ≤ u.length ∧ (u ++ c :: s).dropWhile p = v ++ c :: s := by
  induction u with
  | nil => exact ⟨[], le_refl 0, List.dropWhile_cons_of_neg (by simp [hc])⟩
  | cons b u ih =>
    by_cases hb : p b = true
    · obtain ⟨v, hlength, hv⟩ := ih
      refine ⟨v, hlength.trans (Nat.le_succ _), ?_⟩
      rw [List.cons_append, List.dropWhile_cons_of_pos hb, hv]
    · exact ⟨b :: u, le_refl _, List.dropWhile_cons_of_neg hb⟩

/-- A number that is read ends in front of the next `|`. -/
lemma extract_append {v : UInt64} {rest : Bytes} (h : extract (u ++ 124 :: w) = some (v, rest)) :
    ∃ u', u'.length ≤ u.length ∧ rest = u' ++ 124 :: w := by
  obtain ⟨u₁, hle₁, hspace⟩ := exists_dropWhile (p := isSpace) (c := 124) (by decide) u w
  have hsign : ∃ u₂, u₂.length ≤ u₁.length ∧
      (if (u₁ ++ 124 :: w).head? = some 45 ∨ (u₁ ++ 124 :: w).head? = some 43
        then (u₁ ++ 124 :: w).tail else u₁ ++ 124 :: w) = u₂ ++ 124 :: w := by
    split_ifs with hhead
    · cases u₁ with
      | nil => simp at hhead
      | cons b u₁ => exact ⟨u₁, Nat.le_succ _, rfl⟩
    · exact ⟨u₁, le_refl _, rfl⟩
  obtain ⟨u₂, hle₂, hsign⟩ := hsign
  obtain ⟨u₃, hle₃, hdigits⟩ := exists_dropWhile (p := isDigit) (c := 124) (by decide) u₂ w
  refine ⟨u₃, by omega, ?_⟩
  rw [extract, hspace] at h
  rw [hsign, hdigits] at h
  have hrest : u₃ ++ 124 :: w ≠ [] := by simp
  rw [if_neg hrest, ite_eq_iff] at h
  rcases h with ⟨-, h⟩ | ⟨-, h⟩
  · exact (Prod.mk.inj (Option.some.inj h)).2.symm
  · cases h

/-- The number of an entry. -/
lemma extract_numeral (k : UInt64) (hc : isDigit c = false) (s : Bytes) :
    extract (numeral 10 k.toNat ++ c :: s) = some (k, c :: s) := by
  obtain ⟨x, xs, hx⟩ := List.exists_cons_of_ne_nil (numeral_ne_nil 10 k.toNat)
  have hall : ∀ b ∈ numeral 10 k.toNat, isDigit b = true := fun b hb => isDigit_of_mem_numeral hb
  have hdigit : isDigit x = true := hall x (by simp [hx])
  have hspace : (numeral 10 k.toNat ++ c :: s).dropWhile isSpace =
      numeral 10 k.toNat ++ c :: s := by
    rw [hx, List.cons_append,
      List.dropWhile_cons_of_neg (by simp [isSpace_of_isDigit hdigit])]
  have hhead : (numeral 10 k.toNat ++ c :: s).head? = some x := by rw [hx]; rfl
  have hminus : x ≠ 45 := by rintro rfl; exact absurd hdigit (by decide)
  have hplus : x ≠ 43 := by rintro rfl; exact absurd hdigit (by decide)
  have hsign : ¬ (some x = some 45 ∨ some x = some 43) := by simp [hminus, hplus]
  have htake : (numeral 10 k.toNat ++ c :: s).takeWhile isDigit = numeral 10 k.toNat := by
    rw [List.takeWhile_append_of_pos hall, List.takeWhile_cons_of_neg (by simp [hc]),
      List.append_nil]
  have hdrop : (numeral 10 k.toNat ++ c :: s).dropWhile isDigit = c :: s := by
    rw [List.dropWhile_append_of_pos hall, List.dropWhile_cons_of_neg (by simp [hc])]
  rw [extract, hspace, hhead, if_neg hsign, htake, hdrop, readNumeral_numeral (by omega) (by omega),
    if_pos ⟨numeral_ne_nil 10 k.toNat, k.toNat_lt⟩, if_neg (by simp [hminus]), UInt64.ofNat_toNat]

/-- One turn of the loop, in front of a name. -/
lemma readEntries_succ (hu : 124 ∉ u) (s : Bytes) (n : ℕ) :
    readEntries (n + 1) (u ++ 124 :: s) =
      (extract s).bind fun e => (readEntries n e.2).map fun es => (u, e.1) :: es := by
  rw [readEntries, getline_append hu]

/-- A cache with one entry. -/
lemma readEntries_single (hu : 124 ∉ u) (k : UInt64) (hn : 2 ≤ n) :
    readEntries n (u ++ 124 :: (numeral 10 k.toNat ++ [10])) = some [(u, k)] := by
  obtain ⟨m, rfl⟩ := Nat.exists_eq_add_of_le' hn
  rw [readEntries_succ hu, extract_numeral k (by decide), Option.bind_some, readEntries,
    getline_of_notMem (show (124 : Byte) ∉ [10] by decide)]
  rfl

/-- If another entry follows, a name that is read has the end of a line in it. -/
lemma exists_newline {k : UInt64} {es : List (Bytes × UInt64)} (hw : 124 ∉ w)
    (hlength : (u ++ 124 :: (numeral 10 k.toNat ++ 10 :: (w ++ 124 :: x))).length ≤ n)
    (h : readEntries n (u ++ 124 :: (numeral 10 k.toNat ++ 10 :: (w ++ 124 :: x))) = some es) :
    ∃ e ∈ es, 10 ∈ e.1 := by
  induction n generalizing u es with
  | zero => simp at hlength
  | succ n ih =>
    by_cases hu : 124 ∈ u
    · -- the name goes on behind a `|`
      obtain ⟨a, b, rfl, ha⟩ := List.eq_append_cons_of_mem hu
      rw [List.append_assoc, List.cons_append, readEntries_succ ha] at h
      obtain ⟨⟨v, rest⟩, hextract, h⟩ := Option.bind_eq_some_iff.1 h
      obtain ⟨es, hes, rfl⟩ := Option.map_eq_some_iff.1 h
      obtain ⟨b', hle, hrest⟩ := extract_append hextract
      rw [hrest] at hes
      obtain ⟨found, hmem, hline⟩ := ih (by simp at hlength ⊢; omega) hes
      exact ⟨found, List.mem_cons_of_mem _ hmem, hline⟩
    · rw [readEntries_succ hu, extract_numeral k (by decide), Option.bind_some] at h
      obtain ⟨es, hes, rfl⟩ := Option.map_eq_some_iff.1 h
      obtain ⟨m, rfl⟩ : ∃ m, n = m + 1 := Nat.exists_eq_succ_of_ne_zero (by
        simp at hlength
        omega)
      have hnext : 124 ∉ 10 :: w := by
        rw [List.mem_cons, not_or]
        exact ⟨by decide, hw⟩
      rw [← List.cons_append, readEntries_succ hnext] at hes
      obtain ⟨e, -, h⟩ := Option.bind_eq_some_iff.1 hes
      obtain ⟨rest, -, rfl⟩ := Option.map_eq_some_iff.1 h
      exact ⟨(10 :: w, e.1), by simp, by simp⟩

/-- The first name ends in front of the first `|`. -/
lemma exists_notMem_bar {es : List (Bytes × UInt64)} {s : Bytes} (hs : 124 ∈ s) (hn : 0 < n)
    (h : readEntries n s = some es) : ∃ e ∈ es, 124 ∉ e.1 := by
  obtain ⟨a, b, rfl, ha⟩ := List.eq_append_cons_of_mem hs
  obtain ⟨m, rfl⟩ := Nat.exists_eq_succ_of_ne_zero hn.ne'
  rw [readEntries_succ ha] at h
  obtain ⟨e, -, h⟩ := Option.bind_eq_some_iff.1 h
  obtain ⟨rest, -, rfl⟩ := Option.map_eq_some_iff.1 h
  exact ⟨(a, e.1), by simp, ha⟩

/-- What `start` reads of what `stop` has written. -/
def readBack (openStreams : List (Bytes × UInt64)) : Option (Bytes → Option UInt64) :=
  if openStreams = [] then some fun _ => none
  else
    let cache := writeCurrent (openStreams.map fun e => (e.1, e.2.toNat))
    (readEntries cache.length cache).map restoredFrom

lemma restoredFrom_ne_none {es : List (Bytes × UInt64)} {e : Bytes × UInt64} (h : e ∈ es) :
    restoredFrom es e.1 ≠ none := by
  rw [restoredFrom, SortedMap.find, Ne, Option.map_eq_none_iff, List.find?_eq_none]
  intro hnone
  exact absurd (hnone e (List.mem_reverse.2 h)) (by simp)

lemma find_ne_none {es : List (Bytes × UInt64)} (h : SortedMap.find name es ≠ none) :
    ∃ e ∈ es, e.1 = name := by
  obtain ⟨v, hv⟩ := Option.ne_none_iff_exists'.1 h
  obtain ⟨e, he, -⟩ := Option.map_eq_some_iff.1 hv
  exact ⟨e, List.mem_of_find?_eq_some he, by simpa using List.find?_some he⟩

lemma writeCurrent_cons (e : Bytes × ℕ) (es : List (Bytes × ℕ)) :
    writeCurrent (e :: es) = e.1 ++ 124 :: (numeral 10 e.2 ++ 10 :: writeCurrent es) := by
  simp [writeCurrent]

/-- The open logs are read back if and only if there is at most one, and its name has no `|`. -/
lemma readBack_eq_iff {openStreams : List (Bytes × UInt64)} (hname : ∀ e ∈ openStreams, 10 ∉ e.1) :
    (readBack openStreams = some fun name => SortedMap.find name openStreams) ↔
      openStreams = [] ∨ ∃ e, openStreams = [e] ∧ 124 ∉ e.1 := by
  cases openStreams with
  | nil => exact iff_of_true rfl (Or.inl rfl)
  | cons e rest =>
    rw [readBack, if_neg (List.cons_ne_nil e rest), List.map_cons, writeCurrent_cons]
    dsimp only
    constructor
    · intro h
      obtain ⟨es, hes, hmap⟩ := Option.map_eq_some_iff.1 h
      -- an entry that is read is one of an open log
      have hopen : ∀ found ∈ es, ∃ f ∈ e :: rest, f.1 = found.1 := by
        intro found hmem
        refine find_ne_none ?_
        rw [← congrFun hmap found.1]
        exact restoredFrom_ne_none hmem
      right
      cases rest with
      | nil =>
        refine ⟨e, rfl, ?_⟩
        obtain ⟨found, hmem, hbar⟩ := exists_notMem_bar (by simp) (by simp) hes
        obtain ⟨f, hf, heq⟩ := hopen found hmem
        rw [List.mem_singleton.1 hf] at heq
        rwa [heq]
      | cons f rest =>
        exfalso
        have hbar : 124 ∈ writeCurrent ((f :: rest).map fun e => (e.1, e.2.toNat)) := by
          rw [List.map_cons, writeCurrent_cons]
          simp
        obtain ⟨w, x, hwx, hw⟩ := List.eq_append_cons_of_mem hbar
        rw [hwx] at hes
        obtain ⟨found, hmem, hline⟩ := exists_newline hw (le_refl _) hes
        obtain ⟨g, hg, heq⟩ := hopen found hmem
        exact hname g hg (heq ▸ hline)
    · rintro (hnil | ⟨e', heq, hbar⟩)
      · exact absurd hnil (List.cons_ne_nil e rest)
      · obtain ⟨rfl, rfl⟩ := List.cons.inj heq
        have hcache : writeCurrent ([].map fun e : Bytes × UInt64 => (e.1, e.2.toNat)) = [] := rfl
        rw [hcache, readEntries_single hbar e.2 (by simp; omega)]
        rfl

/-- What a new reactor finds. -/
lemma start_renew_stop (s : LogCaches) (openStreams : List (Bytes × UInt64)) :
    (s.stop openStreams).renew.start =
      (readBack openStreams).map fun m =>
        { logsConsumed := s.renew.wordsRead, historyCache := s.historyCache
          currentLogFileCache := none, numEventsReadPreviously := m } := by
  rw [readBack, LogCaches.start, renew, stop]
  dsimp only
  split_ifs with hnil
  · rfl
  · dsimp only
    rw [Option.map_map]
    refine congrArg (fun f => Option.map f _) (funext fun es => ?_)
    simp only [Function.comp_apply, Option.or_none]
    rfl

/-- A new reactor reads the consumed logs and the numbers of the open ones as they were, if and only
if the consumed names have no white space, and at most one log is open, with no `|` in its name. -/
theorem caches_round_trip_iff {es : List LogCachesEvent} {s : LogCaches}
    (hrun : run step {} es = some s) {openStreams : List (Bytes × UInt64)}
    (hname : ∀ e ∈ openStreams, 10 ∉ e.1) :
    (∃ t, (s.stop openStreams).renew.start = some t ∧
      (∀ name, name ∈ t.logsConsumed ↔ name ∈ s.logsConsumed) ∧
      t.numEventsReadPreviously = fun name => SortedMap.find name openStreams) ↔
    (∀ name ∈ s.logsConsumed, name ≠ [] ∧ ∀ c ∈ name, isSpace c = false) ∧
      (openStreams = [] ∨ ∃ e, openStreams = [e] ∧ 124 ∉ e.1) := by
  have hagrees := historyAgrees_of_run hrun
  rw [start_renew_stop, ← readBack_eq_iff hname]
  have hwords := hagrees.mem_wordsRead_iff
  rw [← hagrees.wordsRead_renew] at hwords
  constructor
  · rintro ⟨t, hstart, hsame, hmap⟩
    obtain ⟨m, hm, rfl⟩ := Option.map_eq_some_iff.1 hstart
    exact ⟨hwords.1 hsame, hm.trans (congrArg some hmap)⟩
  · rintro ⟨hword, hread⟩
    exact ⟨_, congrArg (Option.map _) hread, hwords.2 hword, rfl⟩

/-- Two consumed logs, one of them recorded twice, and one open log with a blank in its name. -/
theorem caches_round_trip_iff_three :
    ∃ s, run step {} [.recordLogFileAsDone (ascii "a.log"), .recordLogFileAsDone (ascii "b.log"),
        .recordLogFileAsDone (ascii "a.log")] = some s ∧
      ∃ t, (s.stop [(ascii "my log", 7)]).renew.start = some t ∧
        (∀ name, name ∈ t.logsConsumed ↔ name ∈ s.logsConsumed) ∧
        t.numEventsReadPreviously = fun name => SortedMap.find name [(ascii "my log", 7)] := by
  refine ⟨_, rfl, ?_⟩
  have hrun : run step {} [.recordLogFileAsDone (ascii "a.log"),
      .recordLogFileAsDone (ascii "b.log"), .recordLogFileAsDone (ascii "a.log")] = some _ := rfl
  refine (caches_round_trip_iff hrun (by decide +kernel)).2 ⟨by decide +kernel, Or.inr ?_⟩
  exact ⟨_, rfl, by decide +kernel⟩

/-- The second of two open logs has another name when it is read back. -/
theorem not_caches_round_trip :
    ¬ ∀ (es : List LogCachesEvent) (s : LogCaches), run step {} es = some s →
      ∀ openStreams : List (Bytes × UInt64), (∀ e ∈ openStreams, 10 ∉ e.1) →
        ∃ t, (s.stop openStreams).renew.start = some t ∧
          (∀ name, name ∈ t.logsConsumed ↔ name ∈ s.logsConsumed) ∧
          t.numEventsReadPreviously = fun name => SortedMap.find name openStreams := by
  intro hall
  obtain ⟨t, hstart, -, hmap⟩ := hall [] {} rfl [(ascii "a", 1), (ascii "b", 2)] (by decide +kernel)
  have hread : (({} : LogCaches).stop [(ascii "a", 1), (ascii "b", 2)]).renew.start.map
      (fun t => t.numEventsReadPreviously (ascii "b")) = some none := by decide +kernel
  rw [hstart, Option.map_some, hmap] at hread
  exact absurd hread (by decide +kernel)

end LogCaches

end PionCore.Platform
